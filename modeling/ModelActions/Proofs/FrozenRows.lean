import ModelActions.Proofs.Sessions
import ModelActions.Proofs.Visible

/-!
# Frozen rows

Where all models of a table use soft deletes, a row that is marked as deleted stays in the table as
it is. Rows may be written and marked between the marked ones, but nothing moves or changes them.
-/
namespace ModelActions

/-- All models of the table use soft deletes. -/
def Registry.Archives (registry : Registry) (table : String) : Prop :=
  ∀ {name m}, registry.models.get? name = some m → m.table = table → m.config.softDelete = true

theorem sublist_filter_map {α : Type} {p : α → Bool} {f : α → α} (hf : ∀ a, p a = true → f a = a)
    (as : List α) : (as.filter p).Sublist ((as.map f).filter p) := by
  induction as with
  | nil => exact .slnil
  | cons a as ih =>
    cases hp : p a with
    | true =>
      rw [List.map_cons, hf a hp, List.filter_cons_of_pos hp, List.filter_cons_of_pos hp]
      exact ih.cons_cons a
    | false =>
      rw [List.filter_cons_of_neg (by simp [hp]), List.map_cons]
      exact ih.trans ((List.sublist_cons_self _ _).filter p)

namespace Store
variable {registry : Registry} {table : String}

/-- The rows of a table that are marked as deleted. -/
def marked (s : Store) (table : String) : List Json := (s.rows table).filter fun row => !row.isLive

theorem sublist_marked_put (s : Store) {rows : List Json} {t : String}
    (h : t = table → (s.marked table).Sublist (rows.filter fun row => !row.isLive)) :
    (s.marked table).Sublist ((s.put t rows).marked table) := by
  by_cases ht : table = t
  · subst ht
    have hput : (s.put table rows).marked table = rows.filter fun row => !row.isLive := by
      rw [marked, rows_put_self]
    rw [hput]
    exact h rfl
  · have hput : (s.put t rows).marked table = s.marked table := by
      rw [marked, rows_put_of_ne s rows ht, marked]
    exact hput ▸ .refl _

section
variable (archives : registry.Archives table) {name : String} {m : Model}
  (hm : registry.models.get? name = some m)
include archives hm

/-- A guard leaves out the rows that are marked as deleted. -/
theorem not_holds_guardGroup (ht : m.table = table) (g : FilterGroup) {row : Json}
    (marked : (!row.isLive) = true) : (m.guardGroup g).holds row = false := by
  have hsoft := archives hm ht
  rw [Bool.not_eq_true'] at marked
  simp [Model.holds_guardGroup, Model.sees, hsoft, marked]

theorem sublist_marked_amend (s : Store) (g : FilterGroup) (data : Row) :
    (s.marked table).Sublist ((s.amend m.table (m.guardGroup g) data).2.marked table) := by
  refine sublist_marked_put s fun ht => ?_
  rw [ht]
  refine sublist_filter_map (fun row hrow => ?_) _
  rw [not_holds_guardGroup archives hm ht g hrow]
  rfl

theorem sublist_marked_remove (s : Store) (g : FilterGroup) :
    (s.marked table).Sublist ((s.remove m.table (m.guardGroup g)).2.marked table) := by
  refine sublist_marked_put s fun ht => ?_
  rw [ht, List.filter_filter]
  have hfilter : s.marked table =
      (s.rows table).filter fun row => !row.isLive && !(m.guardGroup g).holds row := by
    refine List.filter_congr fun row _ => ?_
    cases hrow : row.isLive with
    | true => rfl
    | false => rw [not_holds_guardGroup archives hm ht g (by rw [hrow]; rfl)]; rfl
  exact hfilter ▸ .refl _

end

/-- A guarded operation keeps the rows that are marked as deleted. -/
theorem sublist_marked_execute (archives : registry.Archives table) (world : World) {op : Operation}
    (guarded : op.Guarded registry) (s : Store) :
    (s.marked table).Sublist ((execute world op s).2.marked table) := by
  cases guarded with
  | insert op =>
    refine sublist_marked_put _ fun ht => ?_
    rw [ht, List.filter_append]
    exact List.sublist_append_left _ _
  | select guarded =>
    cases guarded with
    | select => exact .refl _
  | @update name m op g registered htable _ conditions =>
    simp only [execute, carryOut, htable, conditions]
    exact sublist_marked_amend archives registered _ g op.data
  | @delete name m op g registered htable _ conditions =>
    simp only [execute, carryOut, htable, conditions]
    cases op.soft with
    | true => exact sublist_marked_amend archives registered _ g _
    | false => exact sublist_marked_remove archives registered _ g

theorem sublist_marked_replay (archives : registry.Archives table)
    {steps : List (World × Operation)} (guarded : ∀ step ∈ steps, step.2.Guarded registry)
    (s : Store) : (s.marked table).Sublist ((replay steps s).marked table) := by
  induction steps generalizing s with
  | nil => exact .refl _
  | cons step steps ih =>
    obtain ⟨hstep, hsteps⟩ := List.forall_mem_cons.1 guarded
    exact (sublist_marked_execute archives step.1 hstep s).trans (ih hsteps _)

/-- Where all models of a table use soft deletes, the rows that are marked as deleted after some
operations of a session are there after any more of them, as they were and in the same order. -/
theorem session_sublist_marked (archives : registry.Archives table) (settings : Settings)
    (patience : Nat) (calls : List (World × Call)) (s : Store) :
    let t := session registry settings patience calls s
    ∃ steps : List (World × Operation), t.log = s.log ++ steps.map (·.2) ∧
      t.rows = (replay steps s).rows ∧
      ∀ i j, i ≤ j →
        ((replay (steps.take i) s).marked table).Sublist
          ((replay (steps.take j) s).marked table) := by
  obtain ⟨steps, h⟩ := session_replays registry settings patience calls s
  refine ⟨steps, h.log, h.rows, fun i j hij => ?_⟩
  -- the later moment is that of `k` more operations, which are guarded as all of the session are
  obtain ⟨k, rfl⟩ := Nat.exists_eq_add_of_le hij
  rw [List.take_add, replay_append]
  refine sublist_marked_replay archives (fun step hstep => ?_) _
  exact h.guarded step (List.mem_of_mem_drop (List.mem_of_mem_take hstep))

end Store

namespace Blog

theorem archives : registry.Archives "users" := by
  intro name m hm ht
  obtain rfl | rfl := get?_registry hm
  · exact absurd ht (by decide)
  · rfl

/-- A graph of one state, which removes rows for good. -/
def purge : Graph where
  start := "Purge"
  states := [("Purge", Graph.taskEnd "database.hard_delete")]

/-- Conditions that hold of every row. -/
def anyRow : Json :=
  .obj [("conditions", Filter.groupJson (.str "or")
    [Filter.conditionJson (.str "id") (.str "is_empty") .null,
      Filter.conditionJson (.str "id") (.str "is_not_empty") .null])]

def purgeAll : Call := .graph "user" purge anyRow

/-- Purging all users removes the live ones only. -/
theorem sublist_marked_purgeAll :
    registry.Archives "users" ∧
      let t := Store.session registry {} 0 [(world, purgeAll)] store
      t.rows "users" = [deletedAda] ∧
        ∃ steps : List (World × Operation), t.log = store.log ++ steps.map (·.2) ∧
          t.rows = (Store.replay steps store).rows ∧
          ∀ i j, i ≤ j →
            ((Store.replay (steps.take i) store).marked "users").Sublist
              ((Store.replay (steps.take j) store).marked "users") :=
  ⟨archives, rfl, Store.session_sublist_marked archives {} 0 [(world, purgeAll)] store⟩

end Blog
end ModelActions
