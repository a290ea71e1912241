/-!
# Inflection

Singular and plural of English nouns, as tables and foreign keys are named. Words are lists of
characters here; a word that no rule fits is its own singular.
-/
namespace ModelActions.Inflection

/-- Nouns with a plural of their own, singular first. -/
def irregular : List (List Char × List Char) :=
  [("person", "people"), ("child", "children"), ("man", "men"), ("woman", "women"),
    ("mouse", "mice"), ("datum", "data")].map fun e => (e.1.toList, e.2.toList)

/-- Nouns that are their own plural. -/
def uncountable : List (List Char) :=
  ["news", "series", "species", "status", "metadata", "information"].map String.toList

/-- Lower case of the ASCII letters, which are all that the tables above hold. -/
def lower (word : List Char) : List Char := word.map Char.toLower

def isVowel (c : Char) : Bool := c ∈ ['a', 'e', 'i', 'o', 'u']

/-- What stands before a suffix. -/
def stem? (word suffix : List Char) : Option (List Char) :=
  if suffix.isSuffixOf word then some (word.take (word.length - suffix.length)) else none

def endsInOneOf (word : List Char) (suffixes : List String) : Bool :=
  suffixes.any fun s => s.toList.isSuffixOf word

/-- Ends in `us` after a consonant, as `status` and `bus` do; `house` without its `e` does not. -/
def isLatin (word : List Char) : Bool :=
  match stem? word ['u', 's'] with
  | some head => head.getLast?.any fun c => !isVowel c
  | none => false

/-- The number of bytes of a word, as it is stored. -/
def byteLength (word : List Char) : Nat := word.foldr (fun c n => c.utf8Size + n) 0

def regularSingular (word : List Char) : List Char :=
  match (stem? word "ies".toList).filter fun s => 1 < byteLength s with
  | some s => s ++ ['y']
  | none =>
    match (stem? word "es".toList).filter fun s => isLatin s || lower s ∈ uncountable with
    | some s => s
    | none =>
      if endsInOneOf word ["sses", "shes", "ches", "xes", "zes"] then word.take (word.length - 2)
      else if endsInOneOf word ["ss", "us", "is"] then word
      else (stem? word ['s']).getD word

/-- The singular of a noun; never empty unless the noun is. -/
def singularChars (word : List Char) : List Char :=
  if lower word ∈ uncountable then word
  else match irregular.find? fun e => e.2 == lower word with
    | some e => e.1
    | none =>
      let s := regularSingular word
      if s.isEmpty then word else s

/-- Ends in `y`, which is not all of it, and no vowel stands before. -/
def endsInConsonantY (word : List Char) : Bool :=
  match word.reverse with
  | 'y' :: c :: _ => !isVowel c
  | _ => false

def pluralChars (word : List Char) : List Char :=
  if lower word ∈ uncountable then word
  else match irregular.find? fun e => e.1 == lower word with
    | some e => e.2
    | none =>
      if endsInConsonantY word then word.take (word.length - 1) ++ "ies".toList
      else if endsInOneOf word ["s", "x", "z", "ch", "sh"] then word ++ ['e', 's']
      else word ++ ['s']

/-- `categories` becomes `category`. -/
def singularize (word : String) : String := String.ofList (singularChars word.toList)

/-- `category` becomes `categories`. -/
def pluralize (word : String) : String := String.ofList (pluralChars word.toList)

theorem singularChars_ne_nil {word : List Char} (h : word ≠ []) : singularChars word ≠ [] := by
  rw [singularChars]
  split
  · exact h
  · split
    · next e he =>
      have hm := List.mem_of_find?_eq_some he
      have : ∀ e ∈ irregular, e.1 ≠ [] := by decide +kernel
      exact this e hm
    · grind

end ModelActions.Inflection
