import Mathlib.Data.List.Infix
import ModelActions.Inflection

/-!
# Endings

What the rules of singular and plural make of a word follows from its ending. Each rule is stated
once here, for a word that is written as a stem and an ending. The tables come into it only through
the endings of their entries.
-/
namespace ModelActions.Inflection

def IsLetter (c : Char) : Prop := ('a' ≤ c ∧ c ≤ 'z') ∨ c = '_'

/-- Lower case letters and underscores, of which the names of tables and columns are made. -/
def IsWord (word : List Char) : Prop := ∀ c ∈ word, IsLetter c

/-- In none of the tables. -/
structure Regular (word : List Char) : Prop where
  countable : word ∉ uncountable
  regular : word ∉ irregular.map (·.1)

/-! ## Endings -/

theorem stem?_append (head suffix : List Char) : stem? (head ++ suffix) suffix = some head := by
  simp [stem?, List.isSuffixOf]

theorem stem?_eq_some {word suffix head : List Char} :
    stem? word suffix = some head ↔ word = head ++ suffix := by
  constructor
  · intro h
    unfold stem? at h
    split at h
    · next hsuffix =>
      obtain ⟨head', rfl⟩ := List.isSuffixOf_iff_suffix.1 hsuffix
      simpa using h
    · cases h
  · rintro rfl
    exact stem?_append head suffix

theorem stem?_append_append (word suffix ending : List Char) :
    stem? (word ++ ending) (suffix ++ ending) = stem? word suffix := by
  have hsome (head : List Char) : stem? (word ++ ending) (suffix ++ ending) = some head ↔
      stem? word suffix = some head := by
    rw [stem?_eq_some, stem?_eq_some, ← List.append_assoc, List.append_left_inj]
  exact Option.ext hsome

theorem endsInOneOf_iff {word : List Char} {suffixes : List String} :
    endsInOneOf word suffixes = true ↔ ∃ s ∈ suffixes, ∃ head, word = head ++ s.toList := by
  simp only [endsInOneOf, List.any_eq_true, List.isSuffixOf_iff_suffix]
  refine exists_congr fun s => and_congr_right fun _ => ?_
  exact ⟨fun ⟨head, h⟩ => ⟨head, h.symm⟩, fun ⟨head, h⟩ => ⟨head, h.symm⟩⟩

theorem isLatin_iff {word : List Char} :
    isLatin word = true ↔ ∃ stem c, isVowel c = false ∧ word = stem ++ [c, 'u', 's'] := by
  unfold isLatin
  constructor
  · intro h
    split at h
    · next head hhead =>
      obtain rfl := stem?_eq_some.1 hhead
      obtain ⟨c, hlast, hc⟩ := (Option.any_eq_true _ _).1 h
      obtain ⟨stem, rfl⟩ := List.getLast?_eq_some_iff.1 hlast
      exact ⟨stem, c, by simpa using hc, by simp⟩
    · cases h
  · rintro ⟨stem, c, hc, rfl⟩
    have hstem : stem? (stem ++ [c, 'u', 's']) ['u', 's'] = some (stem ++ [c]) :=
      stem?_eq_some.2 (by simp)
    simp [hstem, hc]

theorem endsInConsonantY_iff {word : List Char} :
    endsInConsonantY word = true ↔ ∃ stem c, isVowel c = false ∧ word = stem ++ [c, 'y'] := by
  unfold endsInConsonantY
  constructor
  · intro h
    split at h
    · next c rest hreverse =>
      refine ⟨rest.reverse, c, by simpa using h, ?_⟩
      rw [← List.reverse_reverse word, hreverse]
      simp
    · cases h
  · rintro ⟨stem, c, hc, rfl⟩
    simp [hc]

/-! ## The rules of the singular -/

theorem regularSingular_ies (stem : List Char) (h : 1 < byteLength stem) :
    regularSingular (stem ++ ['i', 'e', 's']) = stem ++ ['y'] := by
  have hstem : stem? (stem ++ ['i', 'e', 's']) "ies".toList = some stem :=
    stem?_append stem ['i', 'e', 's']
  rw [regularSingular, hstem, Option.filter_some_pos (by simpa using h)]

theorem regularSingular_es (head : List Char)
    (short : ∀ stem, head = stem ++ ['i'] → byteLength stem ≤ 1) :
    regularSingular (head ++ ['e', 's']) =
      if isLatin head || lower head ∈ uncountable || endsInOneOf head ["ss", "sh", "ch", "x", "z"]
      then head else head ++ ['e'] := by
  have hies : (stem? (head ++ ['e', 's']) "ies".toList).filter (fun s => 1 < byteLength s) =
      none := by
    rw [Option.filter_eq_none_iff]
    intro stem hstem
    have hhead : head = stem ++ ['i'] :=
      stem?_eq_some.1 ((stem?_append_append head ['i'] ['e', 's']).symm.trans hstem)
    simpa using short stem hhead
  have hes : stem? (head ++ ['e', 's']) "es".toList = some head := stem?_append head ['e', 's']
  have hsibilant : endsInOneOf (head ++ ['e', 's']) ["sses", "shes", "ches", "xes", "zes"] =
      endsInOneOf head ["ss", "sh", "ch", "x", "z"] := by
    simp [endsInOneOf, List.isSuffixOf]
  have hother : endsInOneOf (head ++ ['e', 's']) ["ss", "us", "is"] = false := by
    simp [endsInOneOf, List.isSuffixOf, List.isPrefixOf]
  have hs : stem? (head ++ ['e', 's']) ['s'] = some (head ++ ['e']) :=
    stem?_eq_some.2 (by simp)
  rw [regularSingular, hies, hes, hsibilant, hother, hs]
  cases hlatin : isLatin head || lower head ∈ uncountable with
  | true => simp [hlatin, Option.filter]
  | false => simp [hlatin, Option.filter]

theorem regularSingular_s (head : List Char) (h : ∀ stem, head ≠ stem ++ ['e']) :
    regularSingular (head ++ ['s']) =
      if endsInOneOf head ["s", "u", "i"] then head ++ ['s'] else head := by
  have hstem (suffix : List Char) : stem? (head ++ ['s']) (suffix ++ ['e'] ++ ['s']) = none := by
    rw [stem?_append_append]
    refine Option.eq_none_iff_forall_ne_some.2 fun stem hstem => ?_
    exact h (stem ++ suffix) (by rw [stem?_eq_some.1 hstem, List.append_assoc])
  have hies : stem? (head ++ ['s']) "ies".toList = none := hstem ['i']
  have hes : stem? (head ++ ['s']) "es".toList = none := hstem []
  have hsibilant : endsInOneOf (head ++ ['s']) ["sses", "shes", "ches", "xes", "zes"] = false := by
    rw [← Bool.not_eq_true, endsInOneOf_iff]
    rintro ⟨s, hs, stem, hword⟩
    have hes : ∀ s ∈ ["sses", "shes", "ches", "xes", "zes"], ['e', 's'] <:+ s.toList := by decide
    obtain ⟨part, hpart⟩ := hes s hs
    refine h (stem ++ part) ((List.append_left_inj ['s']).1 ?_)
    rw [hword, ← hpart]
    simp
  have hother : endsInOneOf (head ++ ['s']) ["ss", "us", "is"] =
      endsInOneOf head ["s", "u", "i"] := by
    simp [endsInOneOf, List.isSuffixOf]
  rw [regularSingular, hies, hes, hsibilant, hother, stem?_append]
  rfl

/-! ## The tables -/

theorem IsLetter.toLower {c : Char} (h : IsLetter c) : c.toLower = c := by
  unfold Char.toLower
  split
  · next hupper =>
    rcases h with ⟨ha, -⟩ | rfl
    · simp only [ge_iff_le, Char.le_def, UInt32.le_iff_toNat_le] at ha hupper
      simp at ha hupper
      omega
    · simp at hupper
  · rfl

theorem IsLetter.utf8Size {c : Char} (h : IsLetter c) : c.utf8Size = 1 := by
  unfold Char.utf8Size
  refine if_pos ?_
  rcases h with ⟨-, hz⟩ | rfl
  · simp only [Char.le_def, UInt32.le_iff_toNat_le] at hz ⊢
    simp at hz ⊢
    omega
  · decide

namespace IsWord
variable {word tail : List Char}

theorem append (h : IsWord word) (htail : IsWord tail) : IsWord (word ++ tail) := fun c hc =>
  (List.mem_append.1 hc).elim (h c) (htail c)

theorem of_append (h : IsWord (word ++ tail)) : IsWord word := fun c hc =>
  h c (List.mem_append_left tail hc)

theorem s : IsWord ['s'] := by simp [IsWord, IsLetter]

theorem es : IsWord ['e', 's'] := by simp [IsWord, IsLetter]

theorem ies : IsWord ['i', 'e', 's'] := by simp [IsWord, IsLetter]

theorem lower (h : IsWord word) : Inflection.lower word = word :=
  (List.map_congr_left fun c hc => (h c hc).toLower).trans (List.map_id' word)

theorem byteLength (h : IsWord word) : Inflection.byteLength word = word.length := by
  induction word with
  | nil => rfl
  | cons c cs ih =>
    have hcs : Inflection.byteLength cs = cs.length :=
      ih fun d hd => h d (List.mem_cons_of_mem c hd)
    change c.utf8Size + Inflection.byteLength cs = cs.length + 1
    rw [hcs, (h c List.mem_cons_self).utf8Size, Nat.add_comm]

end IsWord

/-- What stands before a suffix in the uncountable words that have it, read off the table. -/
theorem stem_of_mem_uncountable {P : List Char → Prop} [DecidablePred P] {suffix head : List Char}
    (table : ∀ word ∈ uncountable, (stem? word suffix).all (fun stem => P stem) = true)
    (h : head ++ suffix ∈ uncountable) : P head := by
  simpa [stem?_append] using table _ h

theorem pluralChars_of_regular {word : List Char} (hword : IsWord word) (regular : Regular word) :
    pluralChars word =
      if endsInConsonantY word then word.take (word.length - 1) ++ ['i', 'e', 's']
      else if endsInOneOf word ["s", "x", "z", "ch", "sh"] then word ++ ['e', 's']
      else word ++ ['s'] := by
  have hfind : irregular.find? (fun e => e.1 == word) = none := by
    simp only [List.find?_eq_none, beq_iff_eq]
    exact fun e he hword => regular.regular (hword ▸ List.mem_map_of_mem he)
  rw [pluralChars, hword.lower, if_neg regular.countable, hfind]
  rfl

/-- No irregular plural ends in `s`. -/
theorem singularChars_of_s {plural : List Char} (hplural : IsWord plural)
    (ends : ['s'] <:+ plural) :
    singularChars plural =
      if plural ∈ uncountable ∨ regularSingular plural = [] then plural
      else regularSingular plural := by
  have hfind : irregular.find? (fun e => e.2 == plural) = none := by
    have htable : ∀ e ∈ irregular, ¬['s'] <:+ e.2 := by decide
    simp only [List.find?_eq_none, beq_iff_eq]
    rintro e he rfl
    exact htable e he ends
  rw [singularChars, hplural.lower, hfind]
  by_cases hmem : plural ∈ uncountable <;> simp [hmem]

theorem singularChars_eq {plural word : List Char} (hplural : IsWord plural)
    (ends : ['s'] <:+ plural) (countable : plural ∉ uncountable)
    (rule : regularSingular plural = word) (hne : word ≠ []) : singularChars plural = word := by
  rw [singularChars_of_s hplural ends, rule, if_neg]
  exact fun h => h.elim countable hne

theorem singularChars_ne {plural word : List Char} (hplural : IsWord plural)
    (ends : ['s'] <:+ plural) (apart : plural ≠ word) (rule : regularSingular plural ≠ word) :
    singularChars plural ≠ word := by
  rw [singularChars_of_s hplural ends]
  split
  · exact apart
  · exact rule

theorem s_suffix_es (head : List Char) : ['s'] <:+ head ++ ['e', 's'] :=
  List.IsSuffix.trans (by decide) (List.suffix_append head ['e', 's'])

theorem s_suffix_ies (head : List Char) : ['s'] <:+ head ++ ['i', 'e', 's'] :=
  List.IsSuffix.trans (by decide) (List.suffix_append head ['i', 'e', 's'])

end ModelActions.Inflection
