import ModelActions.Proofs.Grades
import ModelActions.Store.Basic

/-!
# Sorted rows

A select puts the rows that it finds in the order of its sort keys. The first key on which two rows
differ decides, a descending direction turns its own key around and no other, and rows that are
level on all keys stay in the order of the table. Only one list of these rows is in such an order.
Where the values in each column are of one kind, every sort comes to this list.
-/
namespace ModelActions

/-- Some rows in the order of sort keys. -/
structure Sorts (keys : List SortKey) (rows sorted : List Json) : Prop where
  perm : sorted.Perm rows
  ordered : sorted.Pairwise fun a b => SortKey.Precedes keys a b ∨ SortKey.LevelAll keys a b
  /-- Rows that are level with each other come in the order in which they were. -/
  stable : ∀ part : List Json, part.Sublist rows → part.Pairwise (SortKey.LevelAll keys) →
    part.Sublist sorted

/-! ## Rows by their grades -/

namespace Store
variable {T : Type} [LinearOrder T] {f : Json → T} {precedes : Json → Json → Bool}
  {rows placed part : List Json} {row : Json}

theorem place_eq (precedes : Json → Json → Bool) (row : Json) (placed : List Json) :
    place precedes row placed =
      placed.takeWhile (precedes row) ++ row :: placed.dropWhile (precedes row) := by
  induction placed with
  | nil => rfl
  | cons r rs ih =>
    rw [place]
    split
    · next h =>
      rw [List.takeWhile_cons_of_pos h, List.dropWhile_cons_of_pos h, ih]
      rfl
    · next h =>
      rw [List.takeWhile_cons_of_neg h, List.dropWhile_cons_of_neg h]
      rfl

/-- The last row is placed among the others, which are in descending order at that time. -/
theorem arrange_append (precedes : Json → Json → Bool) (rows : List Json) (row : Json) :
    (arrange precedes (rows ++ [row])).reverse =
      place precedes row (arrange precedes rows).reverse := by
  simp [arrange]

theorem descending_place (reads : ∀ r ∈ placed, precedes row r = decide (f row < f r))
    (h : placed.Pairwise fun a b => f b ≤ f a) :
    (place precedes row placed).Pairwise fun a b => f b ≤ f a := by
  induction placed with
  | nil => exact List.pairwise_singleton _ _
  | cons r rs ih =>
    obtain ⟨hr, hrs⟩ := List.pairwise_cons.1 h
    obtain ⟨hread, hreads⟩ := List.forall_mem_cons.1 reads
    rw [place]
    split
    · next hlt =>
      rw [hread, decide_eq_true_eq] at hlt
      refine List.pairwise_cons.2 ⟨fun x hx => ?_, ih hreads hrs⟩
      rcases List.mem_cons.1 ((place_perm precedes row rs).mem_iff.1 hx) with rfl | hx
      · exact hlt.le
      · exact hr x hx
    · next hnot =>
      rw [hread, decide_eq_true_eq, not_lt] at hnot
      refine List.pairwise_cons.2 ⟨fun x hx => ?_, h⟩
      rcases List.mem_cons.1 hx with rfl | hx
      · exact hnot
      · exact (hr x hx).trans hnot

theorem ascending_arrange (reads : ∀ a ∈ rows, ∀ b ∈ rows, precedes a b = decide (f a < f b)) :
    (arrange precedes rows).Pairwise fun a b => f a ≤ f b := by
  rw [← List.pairwise_reverse]
  induction rows using List.reverseRecOn with
  | nil => exact .nil
  | append_singleton rows row ih =>
    rw [arrange_append]
    refine descending_place (fun r hr => ?_) (ih fun a ha b hb => ?_)
    · rw [List.mem_reverse, (arrange_perm precedes rows).mem_iff] at hr
      exact reads row (by simp) r (by simp [hr])
    · exact reads a (by simp [ha]) b (by simp [hb])

theorem sublist_place_self (precedes : Json → Json → Bool) (row : Json) (placed : List Json) :
    placed.Sublist (place precedes row placed) := by
  rw [place_eq]
  nth_rewrite 1 [← List.takeWhile_append_dropWhile (p := precedes row) (l := placed)]
  exact (List.Sublist.refl _).append (List.sublist_cons_self _ _)

/-- A row is placed before the rows that are level with it, among them. -/
theorem sublist_place (h : part.Sublist placed) (level : ∀ r ∈ part, precedes row r = false) :
    (row :: part).Sublist (place precedes row placed) := by
  have hrest : part.Sublist (placed.dropWhile (precedes row)) := by
    rw [← List.takeWhile_append_dropWhile (p := precedes row) (l := placed)] at h
    obtain ⟨first, last, rfl, hfirst, hlast⟩ := List.sublist_append_iff.1 h
    have hnone : first = [] := by
      refine List.eq_nil_iff_forall_not_mem.2 fun r hr => ?_
      have hbefore := List.mem_takeWhile_imp (hfirst.subset hr)
      rw [level r (List.mem_append_left _ hr)] at hbefore
      contradiction
    rw [hnone]
    exact hlast
  rw [place_eq]
  exact (hrest.cons_cons row).trans (List.sublist_append_right _ _)

/-- Rows of one grade keep their order. -/
theorem sublist_arrange (reads : ∀ a ∈ rows, ∀ b ∈ rows, precedes a b = decide (f a < f b))
    (h : part.Sublist rows) (level : part.Pairwise fun a b => f a = f b) :
    part.Sublist (arrange precedes rows) := by
  rw [← List.reverse_sublist]
  induction rows using List.reverseRecOn generalizing part with
  | nil =>
    obtain rfl := List.sublist_nil.1 h
    exact .slnil
  | append_singleton rows row ih =>
    rw [arrange_append]
    obtain ⟨first, last, rfl, hfirst, hlast⟩ := List.sublist_append_iff.1 h
    obtain ⟨hlevel, -, hrow⟩ := List.pairwise_append.1 level
    have hplaced := ih (fun a ha b hb => reads a (by simp [ha]) b (by simp [hb])) hfirst hlevel
    rcases List.sublist_singleton.1 hlast with rfl | rfl
    · rw [List.append_nil]
      exact hplaced.trans (sublist_place_self precedes row _)
    · rw [List.reverse_concat]
      refine sublist_place hplaced fun r hr => ?_
      rw [List.mem_reverse] at hr
      rw [reads row (by simp) r (by simp [hfirst.subset hr]), hrow r hr row (by simp)]
      simp

theorem mem_of_grades_eq {rows rows' : List Json}
    (same : ∀ g, rows.filter (fun a => f a = g) = rows'.filter (fun a => f a = g)) {a : Json}
    (ha : a ∈ rows) : a ∈ rows' := by
  have hfilter : a ∈ rows.filter fun b => f b = f a := by simp [ha]
  rw [same (f a)] at hfilter
  exact List.mem_of_mem_filter hfilter

/-- Rows in ascending order are known by the rows of each grade. -/
theorem eq_of_grades_eq {rows rows' : List Json} (h : rows.Pairwise fun a b => f a ≤ f b)
    (h' : rows'.Pairwise fun a b => f a ≤ f b)
    (same : ∀ g, rows.filter (fun a => f a = g) = rows'.filter (fun a => f a = g)) :
    rows = rows' := by
  induction rows generalizing rows' with
  | nil =>
    refine (List.eq_nil_iff_forall_not_mem.2 fun a ha => ?_).symm
    exact absurd (mem_of_grades_eq (fun g => (same g).symm) ha) List.not_mem_nil
  | cons a as ih =>
    cases rows' with
    | nil => exact absurd (mem_of_grades_eq same List.mem_cons_self) List.not_mem_nil
    | cons b bs =>
      obtain ⟨ha, has⟩ := List.pairwise_cons.1 h
      obtain ⟨hb, hbs⟩ := List.pairwise_cons.1 h'
      have hle : f a ≤ f b := by
        rcases List.mem_cons.1 (mem_of_grades_eq (fun g => (same g).symm)
          (List.mem_cons_self (a := b))) with rfl | hmem
        · exact le_rfl
        · exact ha b hmem
      have hge : f b ≤ f a := by
        rcases List.mem_cons.1 (mem_of_grades_eq same (List.mem_cons_self (a := a)))
          with rfl | hmem
        · exact le_rfl
        · exact hb a hmem
      -- the first rows are of one grade, and both are the first of that grade
      have hfirst := same (f a)
      rw [List.filter_cons_of_pos (by simp),
        List.filter_cons_of_pos (by simp [le_antisymm hge hle]), List.cons.injEq] at hfirst
      obtain ⟨rfl, -⟩ := hfirst
      rw [ih has hbs fun g => ?_]
      have hg := same g
      by_cases hag : f a = g
      · rw [List.filter_cons_of_pos (by simpa using hag),
          List.filter_cons_of_pos (by simpa using hag)] at hg
        exact (List.cons.inj hg).2
      · rwa [List.filter_cons_of_neg (by simpa using hag),
          List.filter_cons_of_neg (by simpa using hag)] at hg

end Store

/-! ## Rows by sort keys -/

namespace Sorts
variable {keys : List SortKey} {rows sorted sorted' : List Json}

section
variable {T : Type} [LinearOrder T] {f : Json → T}
  (grades : ∀ a ∈ rows, ∀ b ∈ rows, Stand (f a) (f b) (SortKey.orderAll keys a b)
    (SortKey.Precedes keys a b) (SortKey.LevelAll keys a b))
include grades

theorem ascending (h : Sorts keys rows sorted) : sorted.Pairwise fun a b => f a ≤ f b := by
  refine h.ordered.imp_of_mem fun {a b} ha hb hab => ?_
  have hstand := grades a (h.perm.mem_iff.1 ha) b (h.perm.mem_iff.1 hb)
  rw [hstand.before, hstand.level] at hab
  exact le_iff_lt_or_eq.2 hab

theorem filter_eq (h : Sorts keys rows sorted) (g : T) :
    sorted.filter (fun a => f a = g) = rows.filter (fun a => f a = g) := by
  have hlevel : (rows.filter fun a => f a = g).Pairwise (SortKey.LevelAll keys) := by
    refine List.pairwise_of_forall_mem_list fun a ha b hb => ?_
    simp only [List.mem_filter, decide_eq_true_eq] at ha hb
    exact (grades a ha.1 b hb.1).level.2 (ha.2.trans hb.2.symm)
  have hpart := (h.stable _ List.filter_sublist hlevel).filter fun a => f a = g
  simp only [List.filter_filter, Bool.and_self] at hpart
  exact (hpart.eq_of_length (h.perm.filter _).length_eq.symm).symm

theorem unique (h : Sorts keys rows sorted) (h' : Sorts keys rows sorted') : sorted = sorted' := by
  refine Store.eq_of_grades_eq (h.ascending grades) (h'.ascending grades) fun g => ?_
  rw [h.filter_eq grades, h'.filter_eq grades]

theorem consistent : Consistent (SortKey.orderAll keys) rows where
  swap a ha b hb := by
    rw [(grades b hb a ha).order, (grades a ha b hb).order, ← cmp_eq_compare, ← cmp_eq_compare,
      cmp_swap]
  trans a ha b hb c hc hab hbc := by
    have hle {x y : T} : (compare x y).isLE = true ↔ x ≤ y :=
      Ordering.isLE_iff_ne_gt.trans compare_le_iff_le
    rw [(grades a ha b hb).order, hle] at hab
    rw [(grades b hb c hc).order, hle] at hbc
    rw [(grades a ha c hc).order, hle]
    exact hab.trans hbc

theorem arrange :
    Sorts keys rows (Store.arrange (fun a b => SortKey.orderAll keys a b == .lt) rows) := by
  have hreads : ∀ a ∈ rows, ∀ b ∈ rows,
      (SortKey.orderAll keys a b == .lt) = decide (f a < f b) := by
    intro a ha b hb
    rw [(grades a ha b hb).order, Bool.eq_iff_iff, beq_iff_eq, decide_eq_true_eq,
      compare_lt_iff_lt]
  have hperm := Store.arrange_perm (fun a b => SortKey.orderAll keys a b == .lt) rows
  refine ⟨hperm, ?_, fun part hpart hlevel => ?_⟩
  · refine (Store.ascending_arrange hreads).imp_of_mem fun {a b} ha hb hle => ?_
    have hstand := grades a (hperm.mem_iff.1 ha) b (hperm.mem_iff.1 hb)
    rw [hstand.before, hstand.level]
    exact le_iff_lt_or_eq.1 hle
  · refine Store.sublist_arrange hreads hpart (hlevel.imp_of_mem fun {a b} ha hb hab => ?_)
    exact (grades a (hpart.subset ha) b (hpart.subset hb)).level.1 hab

end

/-- Where the values in the column of each key are of one kind, a sort does not crash. -/
theorem sortRows (sorter : Sorter) (alike : ∀ k ∈ keys, SortKey.Alike k.column rows) :
    ∃ sorted, sorter.sortRows keys rows = some sorted ∧ Sorts keys rows sorted := by
  unfold Sorter.sortRows
  split
  · next hkeys =>
    obtain rfl := List.isEmpty_iff.1 hkeys
    refine ⟨rows, rfl, .refl _, List.pairwise_of_forall fun a b => .inr ?_,
      fun part hpart _ => hpart⟩
    exact fun _ h => absurd h List.not_mem_nil
  · obtain ⟨T, _, f, hf⟩ := SortKey.exists_gradeAll alike
    exact ⟨_, sorter.stable (consistent hf), arrange hf⟩

end Sorts

namespace Store

/-- Where the values in the column of each sort key are of one kind, a select without pages finds
its rows in the order of the keys, whatever the sort, and no other list of them is in this order.
Columns are left out only afterwards. -/
theorem select_sorts (world : World) {s : Store} {op : Select} (unpaged : op.pagination = none)
    (alike : ∀ k ∈ op.sorts, SortKey.Alike k.column (s.found op)) :
    ∃ sorted found, Sorts op.sorts (s.found op) sorted ∧
      (∀ sorted', Sorts op.sorts (s.found op) sorted' → sorted' = sorted) ∧
      s.select world op = some found ∧
      found.result = op.columns.elim sorted fun columns => sorted.map (Json.project columns) := by
  obtain ⟨sorted, hsorted, hsorts⟩ := Sorts.sortRows world.sorter alike
  refine ⟨sorted, selection op sorted, hsorts, fun sorted' h => ?_, ?_, ?_⟩
  · obtain ⟨T, _, f, hf⟩ := SortKey.exists_gradeAll alike
    exact h.unique hf hsorts
  · exact congrArg (Option.map (selection op)) hsorted
  · simp only [selection, unpaged, page]
    cases op.columns <;> rfl

end Store

namespace Chart

def song (title : String) (plays : Int) (live : Bool) : Json :=
  .obj [("live", .bool live), ("plays", .int plays), ("title", .str title)]

/-- The songs that are played most come first, and of these the ones from a studio. -/
def ranking : Select where
  table := "songs"
  model := "song"
  sorts := [⟨"plays", .desc⟩, ⟨"live", .asc⟩]

def store : Store where
  rows t := if t = "songs" then
    [song "dawn" 7 true, song "echo" 9 false, song "fern" 7 false, song "gust" 7 true] else []

def world : World := ⟨"2024-01-01T00:00:00Z", 1704067200, toString, .strict⟩

/-- `dawn` and `gust` are level, and stay in the order of the table. -/
theorem ranking_sorts :
    ranking.pagination = none ∧
    (∀ k ∈ ranking.sorts, SortKey.Alike k.column (store.found ranking)) ∧
    ∃ found, store.select world ranking = some found ∧
      found.result =
        [song "echo" 9 false, song "fern" 7 false, song "dawn" 7 true, song "gust" 7 true] ∧
      Sorts ranking.sorts (store.found ranking) found.result := by
  have halike : ∀ k ∈ ranking.sorts, SortKey.Alike k.column (store.found ranking) := by
    have hfound : store.found ranking = store.rows "songs" := by rfl
    rw [hfound]
    simp only [ranking, List.forall_mem_cons]
    refine ⟨⟨Json.isNumber, .number, ?_⟩, ⟨Json.isBool, .truth, ?_⟩, nofun⟩
    · simp [store, song, Json.get?, Members.get?, Json.isNumber]
    · simp [store, song, Json.get?, Members.get?, Json.isBool]
  have hranked : (store.select world ranking).map Selection.result =
      some [song "echo" 9 false, song "fern" 7 false, song "dawn" 7 true, song "gust" 7 true] := by
    rfl
  obtain ⟨sorted, found, hsorts, -, hselect, hresult⟩ := Store.select_sorts world
    (rfl : ranking.pagination = none) halike
  rw [hselect, Option.map_some, Option.some.injEq] at hranked
  exact ⟨rfl, halike, found, hselect, hranked, hresult ▸ hsorts⟩

end Chart
end ModelActions
