import ModelActions.Text.FinalSigma
import ModelActions.Text.Mark

/-!
# Snake case

`BlogPost` becomes `blog_post`. A name is cut at underscores, hyphens and blanks, which are dropped,
where a lower-case letter or a digit meets an upper-case letter or a letter meets a digit, and
before the last capital of a run that a lower-case letter follows, as in `HTTPServer`.
-/
namespace ModelActions.Snake

/-- A character with its marks. -/
abbrev Cluster := List Char

def isDigit (g : Cluster) : Bool := !g.isEmpty && g.all Char.isDigit

def isSeparator (g : Cluster) : Bool := g == ['_'] || g == ['-'] || g == [' ']

/-- Whether a word ends after `g` when the name goes on with the given clusters. -/
def endsWord (g : Cluster) : List Cluster → Bool
  | [] => false
  | h :: rest =>
    let upper := Letter.allUpper
    let lower := Letter.allLower
    (lower g && (upper h || isDigit h)) || (upper g && isDigit h) ||
      (isDigit g && (upper h || lower h)) || (upper g && upper h && (rest.head?.any lower))

/-- The words of a name; there are empty ones where separators meet. -/
def words : List Cluster → List (List Cluster)
  | [] => [[]]
  | g :: gs =>
    if isSeparator g then [] :: words gs
    else match words gs with
      | [] => [[g]]
      | w :: ws => if endsWord g gs then [g] :: w :: ws else (g :: w) :: ws

/-- The words in lower case, joined by underscores. -/
def ofString (name : String) : String :=
  let ws := (words (Mark.clusters name.toList)).map fun w => FinalSigma.lower w.flatten
  String.ofList (['_'].intercalate ws)

example : ofString "BlogPost" = "blog_post" := by decide +kernel
example : ofString "XMLHttpRequest" = "xml_http_request" := by decide +kernel
example : ofString "a1b2C3" = "a_1_b_2_c_3" := by decide +kernel
example : ofString "-a-" = "_a_" := by decide +kernel

end ModelActions.Snake
