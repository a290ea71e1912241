import Mathlib.Data.List.Nodup
import ModelActions.Proofs.LooseEquality

/-!
# Minimal covers

The distinct values of a list cover it: each value other than null is loosely equal to one of them.
None of them can be spared, and they keep the order in which they were first seen. Loose equality
is not transitive, so nothing here treats it as an equivalence. What carries the proofs is that a
value which was kept is never taken away again.
-/
namespace ModelActions.Json

/-- Each value other than null is loosely equal to a member of the cover. -/
def Covers (cover values : List Json) : Prop :=
  ∀ v ∈ values, v.isNull = false → ∃ o ∈ cover, o.looseEq v = true

/-- Some of the values, in their order, which cover all of them and none of which can be spared. -/
structure MinimalCover (cover values : List Json) : Prop where
  sublist : cover.Sublist values
  unrepeated : Unrepeated cover
  covers : Covers cover values
  minimal : ∀ part : List Json, part.Sublist cover → Covers part values → part = cover

/-- What is loosely equal to one and the same of the values is loosely equal. -/
def LooselyTransitive (values : List Json) : Prop :=
  ∀ a ∈ values, ∀ b ∈ values, ∀ c ∈ values, a.looseEq b = true → b.looseEq c = true →
    a.looseEq c = true

theorem addDistinct_sublist (seen : List Json) (value : Json) :
    (addDistinct seen value).Sublist (seen ++ [value]) := by
  unfold addDistinct
  split
  · exact List.sublist_append_left seen [value]
  · exact List.Sublist.refl _

theorem isPrefix_addDistinct (seen : List Json) (value : Json) :
    seen <+: addDistinct seen value := by
  unfold addDistinct
  split
  · exact List.prefix_refl seen
  · exact List.prefix_append seen [value]

theorem foldl_addDistinct_sublist (seen values : List Json) :
    (values.foldl addDistinct seen).Sublist (seen ++ values) := by
  induction values generalizing seen with
  | nil => simp
  | cons v vs ih =>
    have hadd : (addDistinct seen v ++ vs).Sublist (seen ++ [v] ++ vs) :=
      (addDistinct_sublist seen v).append_right vs
    rw [List.append_assoc] at hadd
    exact (ih (addDistinct seen v)).trans hadd

theorem isPrefix_foldl_addDistinct (seen values : List Json) :
    seen <+: values.foldl addDistinct seen := by
  induction values generalizing seen with
  | nil => exact List.prefix_refl seen
  | cons v vs ih => exact (isPrefix_addDistinct seen v).trans (ih (addDistinct seen v))

theorem distinct_sublist (values : List Json) : (distinct values).Sublist values :=
  foldl_addDistinct_sublist [] values

/-- What was seen first comes first, whatever follows. -/
theorem distinct_isPrefix_append (earlier later : List Json) :
    distinct earlier <+: distinct (earlier ++ later) := by
  rw [distinct, distinct, List.foldl_append]
  exact isPrefix_foldl_addDistinct _ later

theorem covers_distinct (values : List Json) : Covers (distinct values) values := by
  intro v hv hn
  obtain ⟨o, ho, rfl | he⟩ := exists_mem_distinct hv hn
  · exact ⟨o, ho, looseEq_refl o⟩
  · exact ⟨o, ho, he⟩

namespace Unrepeated
variable {values : List Json}

theorem nodup (h : Unrepeated values) : values.Nodup := by
  refine h.apart.imp fun {v w} hvw he => ?_
  rw [he, looseEq_refl] at hvw
  contradiction

/-- Members that are loosely equal are the same. -/
theorem eq_of_looseEq (h : Unrepeated values) {v w : Json} (hv : v ∈ values) (hw : w ∈ values)
    (he : v.looseEq w = true) : v = w := by
  have hsymm : Std.Symm fun a b : Json => a.looseEq b = false :=
    ⟨fun a b hab => by rwa [looseEq_comm]⟩
  by_contra hne
  have hapart := h.apart.forall hv hw hne
  rw [he] at hapart
  contradiction

/-- Members that cover the others are all of them. -/
theorem eq_of_covers (h : Unrepeated values) {part : List Json} (sublist : part.Sublist values)
    (covers : Covers part values) : part = values := by
  have hsubset : values ⊆ part := by
    intro v hv
    obtain ⟨o, ho, he⟩ := covers v hv (h.nonnull v hv)
    exact h.eq_of_looseEq (sublist.subset ho) hv he ▸ ho
  exact sublist.eq_of_length_le (h.nodup.subperm hsubset).length_le

theorem foldl_addDistinct {seen : List Json} (h : Unrepeated (seen ++ values)) :
    values.foldl Json.addDistinct seen = seen ++ values := by
  induction values generalizing seen with
  | nil => simp
  | cons v vs ih =>
    have hnonnull : v.isNull = false := h.nonnull v (by simp)
    have hapart : ∀ o ∈ seen, o.looseEq v = false := fun o ho =>
      (List.pairwise_append.1 h.apart).2.2 o ho v (by simp)
    have hadd : Json.addDistinct seen v = seen ++ [v] := by
      refine if_neg ?_
      simpa [hnonnull] using hapart
    have hrest : Unrepeated (seen ++ [v] ++ vs) := by simpa using h
    rw [List.foldl_cons, hadd, ih hrest, List.append_assoc, List.singleton_append]

theorem distinct_eq (h : Unrepeated values) : distinct values = values := by
  have hnil : Unrepeated ([] ++ values) := h
  exact hnil.foldl_addDistinct

end Unrepeated

theorem minimalCover_distinct (values : List Json) : MinimalCover (distinct values) values where
  sublist := distinct_sublist values
  unrepeated := unrepeated_distinct values
  covers := covers_distinct values
  minimal _ sublist covers :=
    (unrepeated_distinct values).eq_of_covers sublist fun v hv =>
      covers v ((distinct_sublist values).subset hv)

/-- Where loose equality is transitive, one of the distinct values is asked for just if one of all
values is. -/
theorem isOneOf_distinct {values : List Json} {v : Json} (hn : v.isNull = false)
    (trans : LooselyTransitive (v :: values)) :
    v.isOneOf (.arr (distinct values)) = v.isOneOf (.arr values) := by
  have hdistinct := any_distinct_iff (K := (· ∈ v :: values))
    (fun a b c ha hb hc => trans a ha b hb c hc) (fun w hw _ => List.mem_cons_of_mem v hw)
    (fun _ => List.mem_cons_self)
  rw [Bool.eq_iff_iff]
  refine hdistinct.trans ?_
  rw [isOneOf, List.any_eq_true]
  constructor
  · rintro ⟨w, hw, -, he⟩
    exact ⟨w, hw, by rwa [looseEq_comm]⟩
  · rintro ⟨w, hw, he⟩
    exact ⟨w, hw, isNull_eq_false_of_looseEq he hn, by rwa [looseEq_comm]⟩

/-- The distinct values of a list are a minimal cover of it, with what is seen first in front, and
are distinct themselves. Where loose equality is transitive they stand for the whole list wherever
a value is compared with `in`. -/
theorem distinct_minimal (values : List Json) :
    MinimalCover (distinct values) values ∧
      (∀ earlier later, values = earlier ++ later → distinct earlier <+: distinct values) ∧
      distinct (distinct values) = distinct values ∧
      ∀ v : Json, v.isNull = false → LooselyTransitive (v :: values) →
        Comparator.in.holds v (.arr (distinct values)) = Comparator.in.holds v (.arr values) := by
  refine ⟨minimalCover_distinct values, ?_, (unrepeated_distinct values).distinct_eq, ?_⟩
  · rintro earlier later rfl
    exact distinct_isPrefix_append earlier later
  · intro v hn trans
    exact isOneOf_distinct hn trans

/-- The same number in two forms, among text and null. -/
def sevens (seven : Json) : List Json := [.int 7, .null, .str "7", seven, .int 8, .int 7]

theorem sevens_minimal :
    let seven := Json.float 7 (by decide +kernel)
    seven.isNull = false ∧ LooselyTransitive (seven :: sevens seven) ∧
      distinct (sevens seven) = [.int 7, .str "7", .int 8] ∧
      Comparator.in.holds seven (.arr [.int 7, .str "7", .int 8]) =
        Comparator.in.holds seven (.arr (sevens seven)) := by
  intro seven
  have trans : LooselyTransitive (seven :: sevens seven) := by
    unfold LooselyTransitive
    decide +kernel
  have hseven : (Json.int 7).looseEq seven = true := by decide +kernel
  have hself : (Json.int 7).looseEq (.int 7) = true := looseEq_refl _
  have height : (Json.int 7).looseEq (.int 8) = false := by decide +kernel
  have htext : (Json.int 7).looseEq (.str "7") = false := rfl
  have htext' : (Json.str "7").looseEq (.int 8) = false := rfl
  have hdistinct : distinct (sevens seven) = [.int 7, .str "7", .int 8] := by
    simp [distinct, sevens, addDistinct, isNull, hseven, hself, height, htext, htext']
  have hin := (distinct_minimal (sevens seven)).2.2.2 seven rfl trans
  rw [hdistinct] at hin
  exact ⟨rfl, trans, hdistinct, hin⟩

end ModelActions.Json
