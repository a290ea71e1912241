import ModelActions.Proofs.Endings

/-!
# Regular plurals

Which words are the singular of their plural. The plural of a word without an entry in the tables
is made by one of four rules. The singular undoes that rule, unless it takes the ending for that of
another one.
-/
namespace ModelActions.Inflection

/-- The words that are not the singular of their plural. -/
inductive Irreversible : List Char → Prop
  | listed {word : List Char} (h : word ∈ ["new", "sery", "specy"].map String.toList) :
      Irreversible word
  | shortY {c : Char} (h : isVowel c = false) : Irreversible [c, 'y']
  /-- A single `s`, but not `us` after a consonant. -/
  | loneS {head : List Char} (countable : head ++ ['s'] ∉ uncountable)
      (single : ∀ stem, head ≠ stem ++ ['s'])
      (native : ∀ stem c, head = stem ++ [c, 'u'] → isVowel c = true) : Irreversible (head ++ ['s'])
  | longIe {head : List Char} (h : 2 ≤ head.length) : Irreversible (head ++ ['i', 'e'])
  | lastVowel {head : List Char} {c : Char} (h : c = 'u' ∨ c = 'i') : Irreversible (head ++ [c])
  | sibilantE {head : List Char} {sibilant : String}
      (h : sibilant ∈ ["ss", "sh", "ch", "x", "z"]) :
      Irreversible (head ++ sibilant.toList ++ ['e'])
  | latinE {head : List Char} {c : Char} (h : isVowel c = false) :
      Irreversible (head ++ [c, 'u', 's', 'e'])
  | uncountableE {word : List Char} (h : word ∈ uncountable) : Irreversible (word ++ ['e'])

/-! ## Words that are the singular of their plural -/

section
variable {word head stem : List Char} {c : Char}

theorem singularChars_of_irregular (h : word ∈ irregular.map (·.1)) :
    singularChars (pluralChars word) = word := by
  have htable : ∀ word ∈ irregular.map (·.1), singularChars (pluralChars word) = word := by
    decide
  exact htable word h

theorem singularChars_of_uncountable (h : word ∈ uncountable) :
    singularChars (pluralChars word) = word := by
  have htable : ∀ word ∈ uncountable, singularChars (pluralChars word) = word := by
    decide
  exact htable word h

theorem pluralChars_y (hword : IsWord (stem ++ [c, 'y'])) (regular : Regular (stem ++ [c, 'y']))
    (hc : isVowel c = false) :
    pluralChars (stem ++ [c, 'y']) = stem ++ [c] ++ ['i', 'e', 's'] := by
  rw [pluralChars_of_regular hword regular, if_pos (endsInConsonantY_iff.2 ⟨stem, c, hc, rfl⟩)]
  simp [List.take_append]

theorem pluralChars_sibilant (hword : IsWord word) (regular : Regular word)
    (hy : endsInConsonantY word = false)
    (sibilant : endsInOneOf word ["s", "x", "z", "ch", "sh"] = true) :
    pluralChars word = word ++ ['e', 's'] := by
  rw [pluralChars_of_regular hword regular, hy, sibilant]
  rfl

theorem pluralChars_plain (hword : IsWord word) (regular : Regular word)
    (hy : endsInConsonantY word = false)
    (plain : endsInOneOf word ["s", "x", "z", "ch", "sh"] = false) :
    pluralChars word = word ++ ['s'] := by
  rw [pluralChars_of_regular hword regular, hy, plain]
  rfl

theorem pluralChars_e (hword : IsWord (head ++ ['e'])) (regular : Regular (head ++ ['e'])) :
    pluralChars (head ++ ['e']) = head ++ ['e', 's'] := by
  have hy : endsInConsonantY (head ++ ['e']) = false := by simp [endsInConsonantY]
  have plain : endsInOneOf (head ++ ['e']) ["s", "x", "z", "ch", "sh"] = false := by
    simp [endsInOneOf, List.isSuffixOf, List.isPrefixOf]
  rw [pluralChars_plain hword regular hy plain, List.append_assoc]
  rfl

theorem singularChars_of_y (hword : IsWord (stem ++ [c, 'y']))
    (regular : Regular (stem ++ [c, 'y'])) (hc : isVowel c = false) :
    singularChars (pluralChars (stem ++ [c, 'y'])) = stem ++ [c, 'y'] ∨
      Irreversible (stem ++ [c, 'y']) := by
  have hstem : IsWord (stem ++ [c]) := by
    have hsplit : stem ++ [c, 'y'] = stem ++ [c] ++ ['y'] := by simp
    exact (hsplit ▸ hword).of_append
  rw [pluralChars_y hword regular hc]
  by_cases hmem : stem ++ [c] ++ ['i', 'e', 's'] ∈ uncountable
  · refine .inr (.listed ?_)
    have hlisted := stem_of_mem_uncountable
      (P := fun head => head ++ ['y'] ∈ ["new", "sery", "specy"].map String.toList)
      (by decide) hmem
    simpa using hlisted
  · cases stem with
    | nil => exact .inr (.shortY hc)
    | cons d stem =>
      refine .inl (singularChars_eq (hstem.append .ies) (s_suffix_ies _) hmem ?_ (by simp))
      rw [regularSingular_ies _ (by rw [hstem.byteLength]; simp)]
      simp

theorem singularChars_of_sibilant (hword : IsWord word) (regular : Regular word)
    (hy : endsInConsonantY word = false)
    (sibilant : endsInOneOf word ["s", "x", "z", "ch", "sh"] = true) :
    singularChars (pluralChars word) = word ∨ Irreversible word := by
  have hi : ∀ stem, word ≠ stem ++ ['i'] := by
    rintro stem rfl
    simp [endsInOneOf, List.isSuffixOf, List.isPrefixOf] at sibilant
  have hne : word ≠ [] := by
    rintro rfl
    simp [endsInOneOf] at sibilant
  have hmem : word ++ ['e', 's'] ∉ uncountable := by
    intro hmem
    obtain ⟨stem, rfl⟩ := stem_of_mem_uncountable (P := fun head => ['i'] <:+ head)
      (by decide) hmem
    exact hi stem rfl
  have hrule := regularSingular_es word fun stem h => absurd h (hi stem)
  rw [pluralChars_sibilant hword regular hy sibilant]
  by_cases hkept : isLatin word || lower word ∈ uncountable ||
      endsInOneOf word ["ss", "sh", "ch", "x", "z"]
  · rw [if_pos hkept] at hrule
    exact .inl (singularChars_eq (hword.append .es) (s_suffix_es word) hmem hrule hne)
  · simp only [Bool.or_eq_true, not_or, Bool.not_eq_true] at hkept
    obtain ⟨⟨hlatin, -⟩, hother⟩ := hkept
    obtain ⟨s, hs, head, rfl⟩ := endsInOneOf_iff.1 sibilant
    -- every other sibilant would have been kept
    have hlone : s = "s" := by
      by_contra hne
      have hs' : s ∈ ["ss", "sh", "ch", "x", "z"] := by
        revert hs hne
        grind
      rw [endsInOneOf_iff.2 ⟨s, hs', head, rfl⟩] at hother
      contradiction
    subst hlone
    refine .inr (.loneS regular.countable ?_ ?_)
    · rintro stem rfl
      rw [endsInOneOf_iff.2 ⟨"ss", by simp, stem, by simp⟩] at hother
      contradiction
    · rintro stem c rfl
      by_contra hc
      rw [isLatin_iff.2 ⟨stem, c, by simpa using hc, by simp⟩] at hlatin
      contradiction

theorem singularChars_of_e (hword : IsWord (head ++ ['e'])) (regular : Regular (head ++ ['e'])) :
    singularChars (pluralChars (head ++ ['e'])) = head ++ ['e'] ∨ Irreversible (head ++ ['e']) := by
  have hhead : IsWord head := hword.of_append
  by_cases hlong : ∃ stem, head = stem ++ ['i'] ∧ 2 ≤ stem.length
  · obtain ⟨stem, rfl, hlength⟩ := hlong
    have hie := Irreversible.longIe hlength
    exact .inr (by simpa using hie)
  · have hmem : head ++ ['e', 's'] ∉ uncountable := by
      intro hmem
      obtain ⟨⟨stem, rfl⟩, hlength⟩ := stem_of_mem_uncountable
        (P := fun head => ['i'] <:+ head ∧ 3 ≤ head.length) (by decide) hmem
      exact hlong ⟨stem, rfl, by simpa using hlength⟩
    have hrule := regularSingular_es head fun stem h => by
      subst h
      rw [hhead.of_append.byteLength]
      exact Nat.le_of_not_lt fun h => hlong ⟨stem, rfl, h⟩
    rw [hhead.lower] at hrule
    by_cases hlatin : isLatin head = true
    · obtain ⟨stem, c, hc, rfl⟩ := isLatin_iff.1 hlatin
      have huse : Irreversible (stem ++ [c, 'u', 's', 'e']) := .latinE hc
      exact .inr (by simpa using huse)
    by_cases huncountable : head ∈ uncountable
    · exact .inr (.uncountableE huncountable)
    by_cases hsibilant : endsInOneOf head ["ss", "sh", "ch", "x", "z"] = true
    · obtain ⟨s, hs, stem, rfl⟩ := endsInOneOf_iff.1 hsibilant
      exact .inr (.sibilantE hs)
    rw [if_neg (by simp [hlatin, huncountable, hsibilant])] at hrule
    rw [pluralChars_e hword regular]
    exact .inl (singularChars_eq (hhead.append .es) (s_suffix_es head) hmem hrule (by simp))

theorem singularChars_of_plain (hword : IsWord word) (regular : Regular word) (hne : word ≠ [])
    (hy : endsInConsonantY word = false)
    (plain : endsInOneOf word ["s", "x", "z", "ch", "sh"] = false)
    (he : ∀ head, word ≠ head ++ ['e']) :
    singularChars (pluralChars word) = word ∨ Irreversible word := by
  have hrule := regularSingular_s word he
  by_cases hvowel : endsInOneOf word ["s", "u", "i"] = true
  · obtain ⟨s, hs, head, rfl⟩ := endsInOneOf_iff.1 hvowel
    simp only [List.mem_cons, List.not_mem_nil, or_false] at hs
    rcases hs with rfl | rfl | rfl
    · rw [endsInOneOf_iff.2 ⟨"s", by simp, head, rfl⟩] at plain
      contradiction
    · exact .inr (.lastVowel (.inl rfl))
    · exact .inr (.lastVowel (.inr rfl))
  · rw [if_neg hvowel] at hrule
    by_cases hmem : word ++ ['s'] ∈ uncountable
    · rcases stem_of_mem_uncountable
        (P := fun head => head = ['n', 'e', 'w'] ∨ ['u'] <:+ head ∨ ['e'] <:+ head)
        (by decide) hmem with rfl | ⟨head, rfl⟩ | ⟨head, rfl⟩
      · exact .inr (.listed (by decide))
      · exact .inr (.lastVowel (.inl rfl))
      · exact absurd rfl (he head)
    · rw [pluralChars_plain hword regular hy plain]
      exact .inl (singularChars_eq (hword.append .s) (List.suffix_append word ['s']) hmem hrule hne)

theorem singularChars_pluralChars_or (hne : word ≠ []) (hword : IsWord word) :
    singularChars (pluralChars word) = word ∨ Irreversible word := by
  by_cases huncountable : word ∈ uncountable
  · exact .inl (singularChars_of_uncountable huncountable)
  by_cases hirregular : word ∈ irregular.map (·.1)
  · exact .inl (singularChars_of_irregular hirregular)
  have regular : Regular word := ⟨huncountable, hirregular⟩
  cases hy : endsInConsonantY word with
  | true =>
    obtain ⟨stem, c, hc, rfl⟩ := endsInConsonantY_iff.1 hy
    exact singularChars_of_y hword regular hc
  | false =>
    cases hsibilant : endsInOneOf word ["s", "x", "z", "ch", "sh"] with
    | true => exact singularChars_of_sibilant hword regular hy hsibilant
    | false =>
      by_cases he : ∃ head, word = head ++ ['e']
      · obtain ⟨head, rfl⟩ := he
        exact singularChars_of_e hword regular
      · exact singularChars_of_plain hword regular hne hy hsibilant (not_exists.1 he)

/-! ## Words that are not -/

theorem regular_of_not_mem (h : word ∉ uncountable ++ irregular.map (·.1)) : Regular word :=
  ⟨fun hmem => h (List.mem_append_left _ hmem), fun hmem => h (List.mem_append_right _ hmem)⟩

theorem regular_of_ending {suffix : List Char}
    (table : ∀ word ∈ uncountable ++ irregular.map (·.1), stem? word suffix = none)
    (head : List Char) : Regular (head ++ suffix) := by
  refine regular_of_not_mem fun hmem => ?_
  have hstem := table _ hmem
  rw [stem?_append] at hstem
  cases hstem

/-- A plural that looks as if its singular ended without `e`. -/
theorem singularChars_ne_of_e (hword : IsWord (head ++ ['e'])) (regular : Regular (head ++ ['e']))
    (hi : ∀ stem, head ≠ stem ++ ['i'])
    (kept : isLatin head || lower head ∈ uncountable ||
      endsInOneOf head ["ss", "sh", "ch", "x", "z"]) :
    singularChars (pluralChars (head ++ ['e'])) ≠ head ++ ['e'] := by
  have hrule := regularSingular_es head fun stem h => absurd h (hi stem)
  rw [if_pos kept] at hrule
  rw [pluralChars_e hword regular]
  refine singularChars_ne (hword.of_append.append .es) (s_suffix_es head) (by simp) ?_
  rw [hrule]
  simp

namespace Irreversible

theorem shortY_ne (hword : IsWord [c, 'y']) (hc : isVowel c = false) :
    singularChars (pluralChars [c, 'y']) ≠ [c, 'y'] := by
  have regular : Regular ([c] ++ ['y']) := regular_of_ending (by decide) [c]
  have hsplit : IsWord ([c] ++ ['y']) := hword
  have hletter : IsWord [c] := hsplit.of_append
  have hplural : pluralChars [c, 'y'] = [c, 'i'] ++ ['e', 's'] :=
    @pluralChars_y [] c hword regular hc
  have hi : IsWord ['i'] := by simp [IsWord, IsLetter]
  have hrule := regularSingular_es [c, 'i'] fun stem h => by
    have hsplit : [c] ++ ['i'] = stem ++ ['i'] := h
    rw [← (List.append_inj' hsplit rfl).1]
    exact hletter.byteLength.le
  rw [hplural]
  refine singularChars_ne ((hletter.append hi).append .es) (s_suffix_es [c, 'i']) (by simp) ?_
  rw [hrule]
  split <;> simp

theorem loneS_ne (hword : IsWord (head ++ ['s'])) (countable : head ++ ['s'] ∉ uncountable)
    (single : ∀ stem, head ≠ stem ++ ['s'])
    (native : ∀ stem c, head = stem ++ [c, 'u'] → isVowel c = true) :
    singularChars (pluralChars (head ++ ['s'])) ≠ head ++ ['s'] := by
  have regular : Regular (head ++ ['s']) := by
    refine ⟨countable, fun hmem => ?_⟩
    have htable : ∀ word ∈ irregular.map (·.1), ¬['s'] <:+ word := by decide
    exact htable _ hmem (List.suffix_append head ['s'])
  have hy : endsInConsonantY (head ++ ['s']) = false := by simp [endsInConsonantY]
  have hsibilant : endsInOneOf (head ++ ['s']) ["s", "x", "z", "ch", "sh"] = true :=
    endsInOneOf_iff.2 ⟨"s", by simp, head, rfl⟩
  have hlatin : isLatin (head ++ ['s']) = false := by
    rw [← Bool.not_eq_true, isLatin_iff]
    rintro ⟨stem, c, hc, h⟩
    have hsplit : head ++ ['s'] = stem ++ [c, 'u'] ++ ['s'] := by simpa using h
    rw [native stem c (List.append_inj' hsplit rfl).1] at hc
    contradiction
  have hother : endsInOneOf (head ++ ['s']) ["ss", "sh", "ch", "x", "z"] = false := by
    have hss : ['s'].isPrefixOf head.reverse = false := by
      rw [← Bool.not_eq_true, List.isPrefixOf_iff_prefix, ← List.reverse_suffix]
      rintro ⟨stem, h⟩
      exact single stem (by simpa using h.symm)
    simp [endsInOneOf, List.isSuffixOf, List.isPrefixOf, hss]
  have hrule := regularSingular_es (head ++ ['s']) fun stem h => by simp at h
  rw [pluralChars_sibilant hword regular hy hsibilant]
  refine singularChars_ne (hword.append .es) (s_suffix_es _) (by simp) ?_
  rw [hrule, hword.lower, if_neg (by simp [hlatin, hother, countable])]
  simp

theorem longIe_ne (hword : IsWord (head ++ ['i', 'e'])) (h : 2 ≤ head.length) :
    singularChars (pluralChars (head ++ ['i', 'e'])) ≠ head ++ ['i', 'e'] := by
  have regular : Regular (head ++ ['i', 'e']) := regular_of_ending (by decide) head
  have hsplit : head ++ ['i', 'e'] = head ++ ['i'] ++ ['e'] := by simp
  have hplural : pluralChars (head ++ ['i', 'e']) = head ++ ['i', 'e', 's'] := by
    rw [hsplit] at hword regular ⊢
    rw [pluralChars_e hword regular]
    simp
  have hrule := regularSingular_ies head (by rwa [hword.of_append.byteLength])
  rw [hplural]
  refine singularChars_ne (hword.of_append.append .ies) (s_suffix_ies head) (by simp) ?_
  rw [hrule]
  simp

theorem lastVowel_ne (hword : IsWord (head ++ [c])) (h : c = 'u' ∨ c = 'i') :
    singularChars (pluralChars (head ++ [c])) ≠ head ++ [c] := by
  have regular : Regular (head ++ [c]) := by
    rcases h with rfl | rfl <;> exact regular_of_ending (by decide) head
  have hy : endsInConsonantY (head ++ [c]) = false := by
    rcases h with rfl | rfl <;> simp [endsInConsonantY]
  have plain : endsInOneOf (head ++ [c]) ["s", "x", "z", "ch", "sh"] = false := by
    rcases h with rfl | rfl <;> simp [endsInOneOf, List.isSuffixOf, List.isPrefixOf]
  have hvowel : endsInOneOf (head ++ [c]) ["s", "u", "i"] = true := by
    rcases h with rfl | rfl <;> simp [endsInOneOf, List.isSuffixOf, List.isPrefixOf]
  have hrule := regularSingular_s (head ++ [c]) fun stem he => by
    rcases h with rfl | rfl <;> simp at he
  rw [pluralChars_plain hword regular hy plain]
  refine singularChars_ne (hword.append .s) (List.suffix_append _ ['s']) (by simp) ?_
  rw [hrule, if_pos hvowel]
  simp

theorem sibilantE_ne {sibilant : String} (hword : IsWord (head ++ sibilant.toList ++ ['e']))
    (h : sibilant ∈ ["ss", "sh", "ch", "x", "z"]) :
    singularChars (pluralChars (head ++ sibilant.toList ++ ['e'])) ≠
      head ++ sibilant.toList ++ ['e'] := by
  have regular : Regular (head ++ sibilant.toList ++ ['e']) := by
    have htable : ∀ sibilant ∈ ["ss", "sh", "ch", "x", "z"],
        ∀ word ∈ uncountable ++ irregular.map (·.1),
          stem? word (sibilant.toList ++ ['e']) = none := by decide
    rw [List.append_assoc]
    exact regular_of_ending (htable sibilant h) head
  have hkept : endsInOneOf (head ++ sibilant.toList) ["ss", "sh", "ch", "x", "z"] = true :=
    endsInOneOf_iff.2 ⟨sibilant, h, head, rfl⟩
  refine singularChars_ne_of_e hword regular (fun stem hstem => ?_) (by simp [hkept])
  rw [hstem] at hkept
  simp [endsInOneOf, List.isSuffixOf, List.isPrefixOf] at hkept

theorem latinE_ne (hword : IsWord (head ++ [c, 'u', 's', 'e'])) (hc : isVowel c = false) :
    singularChars (pluralChars (head ++ [c, 'u', 's', 'e'])) ≠ head ++ [c, 'u', 's', 'e'] := by
  -- the one entry of the tables with this ending is `mouse`, with a vowel before
  have regular : Regular (head ++ [c] ++ ['u', 's', 'e']) := by
    have htable : ∀ word ∈ uncountable ++ irregular.map (·.1),
        (stem? word ['u', 's', 'e']).all (fun stem => ['o'] <:+ stem) = true := by
      decide
    refine regular_of_not_mem fun hmem => ?_
    have hstem := htable _ hmem
    rw [stem?_append, Option.all_some, decide_eq_true_eq] at hstem
    obtain ⟨stem, hstem⟩ := hstem
    obtain ⟨-, hletter⟩ := List.append_inj' hstem rfl
    cases hletter
    cases hc
  have hlatin : isLatin (head ++ [c, 'u', 's']) = true := isLatin_iff.2 ⟨head, c, hc, rfl⟩
  have hsplit : head ++ [c, 'u', 's', 'e'] = head ++ [c, 'u', 's'] ++ ['e'] := by simp
  have hsplit' : head ++ [c] ++ ['u', 's', 'e'] = head ++ [c, 'u', 's'] ++ ['e'] := by simp
  rw [hsplit'] at regular
  rw [hsplit] at hword ⊢
  refine singularChars_ne_of_e hword regular (fun stem h => ?_) (by simp [hlatin])
  have hlast := congrArg List.getLast? h
  simp at hlast

theorem uncountableE_ne (h : word ∈ uncountable) :
    singularChars (pluralChars (word ++ ['e'])) ≠ word ++ ['e'] := by
  have htable : ∀ word ∈ uncountable,
      singularChars (pluralChars (word ++ ['e'])) ≠ word ++ ['e'] := by decide
  exact htable word h

theorem singularChars_ne (h : Irreversible word) (hword : IsWord word) :
    singularChars (pluralChars word) ≠ word := by
  cases h with
  | listed h =>
    have htable : ∀ word ∈ ["new", "sery", "specy"].map String.toList,
        singularChars (pluralChars word) ≠ word := by decide
    exact htable word h
  | shortY hc => exact shortY_ne hword hc
  | loneS countable single native => exact loneS_ne hword countable single native
  | longIe h => exact longIe_ne hword h
  | lastVowel h => exact lastVowel_ne hword h
  | sibilantE h => exact sibilantE_ne hword h
  | latinE hc => exact latinE_ne hword hc
  | uncountableE h => exact uncountableE_ne h

end Irreversible

end

/-- A word is the singular of its plural unless it is one of the irreversible words. -/
theorem singularize_pluralize_iff {word : String} (nonempty : word ≠ "")
    (letters : IsWord word.toList) :
    singularize (pluralize word) = word ↔ ¬Irreversible word.toList := by
  have hne : word.toList ≠ [] := by simpa using nonempty
  have hchars : singularize (pluralize word) = word ↔
      singularChars (pluralChars word.toList) = word.toList := by
    rw [singularize, pluralize, String.toList_ofList, ← String.toList_inj, String.toList_ofList]
  rw [hchars]
  constructor
  · exact fun heq h => h.singularChars_ne letters heq
  · exact (singularChars_pluralChars_or hne letters).resolve_right

theorem category_returns :
    "category" ≠ "" ∧ IsWord "category".toList ∧ pluralize "category" = "categories" ∧
      singularize "categories" = "category" ∧ ¬Irreversible "category".toList := by
  have letters : IsWord "category".toList := by simp [IsWord, IsLetter]
  have hplural : pluralize "category" = "categories" := by decide
  have hsingular : singularize "categories" = "category" := by decide
  have hiff : singularize (pluralize "category") = "category" ↔ ¬Irreversible "category".toList :=
    singularize_pluralize_iff (by decide) letters
  exact ⟨by decide, letters, hplural, hsingular, hiff.1 (by rw [hplural, hsingular])⟩

end ModelActions.Inflection
