/-!
# Dotted paths

A path is a string whose segments are separated by points. Every string is a path: `"a..b"` has an
empty middle segment and `""` is one empty segment.
-/
namespace ModelActions.Path

/-- The text before the first point, and what follows the point if there is one. -/
def headChars : List Char → List Char × Option (List Char)
  | [] => ([], none)
  | c :: cs => if c = '.' then ([], some cs) else ((c :: (headChars cs).1), (headChars cs).2)

def segmentChars : List Char → List (List Char)
  | [] => [[]]
  | c :: cs =>
    if c = '.' then [] :: segmentChars cs
    else match segmentChars cs with
      | [] => [[c]]
      | s :: ss => (c :: s) :: ss

/-- The segments of a path, at least one. -/
def segments (path : String) : List String := (segmentChars path.toList).map String.ofList

def head (path : String) : String := String.ofList (headChars path.toList).1

/-- What follows the first point, if the path has one. -/
def rest? (path : String) : Option String := (headChars path.toList).2.map String.ofList

def joinChars : List (List Char) → List Char
  | [] => []
  | [s] => s
  | s :: t :: ss => s ++ '.' :: joinChars (t :: ss)

def ofSegments (segments : List String) : String :=
  String.ofList (joinChars (segments.map String.toList))

def length (path : String) : Nat := (segments path).length

theorem segmentChars_ne_nil (cs : List Char) : segmentChars cs ≠ [] := by
  cases cs with
  | nil => simp [segmentChars]
  | cons c cs => grind [segmentChars]

/-- The first segment is what stands before the first point, the others are those of the rest. -/
theorem segmentChars_eq (cs : List Char) :
    segmentChars cs = (headChars cs).1 :: ((headChars cs).2.map segmentChars).getD [] := by
  induction cs with
  | nil => rfl
  | cons c cs ih => by_cases h : c = '.' <;> simp [segmentChars, headChars, h, ih]

theorem segments_eq (path : String) :
    segments path = head path :: ((rest? path).map segments).getD [] := by
  rw [segments, segmentChars_eq, head, rest?]
  cases (headChars path.toList).2 <;> simp [segments]

theorem segments_ne_nil (path : String) : segments path ≠ [] := by
  rw [segments_eq]; simp

theorem joinChars_segmentChars (cs : List Char) : joinChars (segmentChars cs) = cs := by
  induction cs with
  | nil => rfl
  | cons c cs ih =>
    rw [segmentChars]
    have hne := segmentChars_ne_nil cs
    cases hs : segmentChars cs with
    | nil => exact absurd hs hne
    | cons s ss =>
      rw [hs] at ih
      by_cases h : c = '.'
      · simp [h, joinChars, ih]
      · cases ss <;> simp_all [joinChars]

/-- The segments of a path make up the path. -/
theorem ofSegments_segments (path : String) : ofSegments (segments path) = path := by
  simp [ofSegments, segments, Function.comp_def, joinChars_segmentChars]

theorem segments_of_rest?_none {path : String} (h : rest? path = none) :
    segments path = [path] := by
  have hs := segments_eq path
  rw [h, Option.map_none, Option.getD_none] at hs
  have he := ofSegments_segments path
  rw [hs] at he ⊢
  simpa [ofSegments, joinChars] using he

theorem segments_of_rest?_some {path rest : String} (h : rest? path = some rest) :
    segments path = head path :: segments rest := by
  rw [segments_eq, h]
  rfl

/-- A segment that is an index: digits, with at most one plus sign before them. -/
def index? (segment : String) : Option Nat :=
  let digits := match segment.toList with
    | '+' :: cs => cs
    | cs => cs
  if digits.isEmpty || digits.any (fun c => !c.isDigit) then none
  else some (digits.foldl (fun n c => 10 * n + (c.toNat - '0'.toNat)) 0)

end ModelActions.Path
