import ModelActions.Proofs.GuardedOperations
import ModelActions.Proofs.Visible

/-!
# Rows marked as deleted are hidden

Two stores that differ only in rows which are marked as deleted cannot be told apart: guarded
operations get the same answers from both, and leave stores that again differ only in such rows.
-/
namespace ModelActions

/-- A model that uses soft deletes keeps its rows in the table. -/
def Registry.Hides (registry : Registry) (table : String) : Prop :=
  ∃ name m, registry.models.get? name = some m ∧ m.config.softDelete = true ∧ m.table = table

/-- No model without soft deletes has the table of one with soft deletes. -/
def Registry.Separate (registry : Registry) : Prop :=
  ∀ {name m}, registry.models.get? name = some m → registry.Hides m.table →
    m.config.softDelete = true

/-- The stores differ only in rows that are marked as deleted, in tables of models that use soft
deletes. -/
structure Store.SameLive (registry : Registry) (s t : Store) : Prop where
  live : ∀ {table}, registry.Hides table →
    (s.rows table).filter Json.isLive = (t.rows table).filter Json.isLive
  other : ∀ {table}, ¬registry.Hides table → s.rows table = t.rows table
  keysDrawn : s.keysDrawn = t.keysDrawn

/-- Changing only elements that are kept anyway has no influence on which elements are left out. -/
theorem filter_map_of_fixed {α : Type} {p : α → Bool} {f : α → α}
    (hf : ∀ a, p a = false → f a = a) (as : List α) :
    (as.map f).filter p = ((as.filter p).map f).filter p := by
  induction as with
  | nil => rfl
  | cons a as ih =>
    cases hp : p a with
    | true => simp [hp, List.filter_cons, ih]
    | false => simp [hp, hf a hp, ih]

namespace Store.SameLive
variable {registry : Registry} {s t : Store} {name : String} {m : Model}

theorem of_rows (h : SameLive registry s t) {s' t' : Store} (hs : s'.rows = s.rows)
    (ht : t'.rows = t.rows) (hk : s'.keysDrawn = t'.keysDrawn) : SameLive registry s' t' where
  live hide := by rw [hs, ht, h.live hide]
  other hide := by rw [hs, ht, h.other hide]
  keysDrawn := hk

theorem seen (h : SameLive registry s t) (separate : registry.Separate)
    (hm : registry.models.get? name = some m) : s.seen m = t.seen m := by
  unfold Store.seen
  by_cases hide : registry.Hides m.table
  · have hsees : m.sees = Json.isLive := by
      funext row
      simp [Model.sees, separate hm hide]
    rw [hsees]
    exact h.live hide
  · rw [h.other hide]

/-- Writing a table in both stores. -/
theorem put (h : SameLive registry s t) {table : String} {rows rows' : List Json}
    (live : registry.Hides table → rows.filter Json.isLive = rows'.filter Json.isLive)
    (other : ¬registry.Hides table → rows = rows') :
    SameLive registry (s.put table rows) (t.put table rows') where
  live {table'} hide := by
    by_cases ht : table' = table
    · subst ht
      rw [rows_put_self, rows_put_self]
      exact live hide
    · rw [rows_put_of_ne s rows ht, rows_put_of_ne t rows' ht]
      exact h.live hide
  other {table'} hide := by
    by_cases ht : table' = table
    · subst ht
      rw [rows_put_self, rows_put_self]
      exact other hide
    · rw [rows_put_of_ne s rows ht, rows_put_of_ne t rows' ht]
      exact h.other hide
  keysDrawn := h.keysDrawn

theorem matching (h : SameLive registry s t) (separate : registry.Separate)
    (hm : registry.models.get? name = some m) (g : FilterGroup) :
    s.matching m.table (m.guardGroup g) = t.matching m.table (m.guardGroup g) := by
  rw [matching_guardGroup, matching_guardGroup, h.seen separate hm]

/-- A guard leaves out the rows that are marked as deleted. -/
theorem holds_guardGroup_of_not_live (separate : registry.Separate)
    (hm : registry.models.get? name = some m) (hide : registry.Hides m.table) (g : FilterGroup)
    {row : Json} (hrow : row.isLive = false) : (m.guardGroup g).holds row = false := by
  simp [Model.holds_guardGroup, Model.sees, separate hm hide, hrow]

theorem amend (h : SameLive registry s t) (separate : registry.Separate)
    (hm : registry.models.get? name = some m) (g : FilterGroup) (data : Row) :
    (s.amend m.table (m.guardGroup g) data).1 = (t.amend m.table (m.guardGroup g) data).1 ∧
      SameLive registry (s.amend m.table (m.guardGroup g) data).2
        (t.amend m.table (m.guardGroup g) data).2 := by
  refine ⟨congrArg (List.map _) (h.matching separate hm g), h.put (fun hide => ?_) fun hide => ?_⟩
  · have hfixed : ∀ row : Json, row.isLive = false →
        (if (m.guardGroup g).holds row then row.overwrite data else row) = row := fun row hrow => by
      simp [holds_guardGroup_of_not_live separate hm hide g hrow]
    rw [filter_map_of_fixed hfixed (s.rows _), filter_map_of_fixed hfixed (t.rows _), h.live hide]
  · rw [h.other hide]

theorem remove (h : SameLive registry s t) (separate : registry.Separate)
    (hm : registry.models.get? name = some m) (g : FilterGroup) :
    (s.remove m.table (m.guardGroup g)).1 = (t.remove m.table (m.guardGroup g)).1 ∧
      SameLive registry (s.remove m.table (m.guardGroup g)).2
        (t.remove m.table (m.guardGroup g)).2 := by
  refine ⟨h.matching separate hm g, h.put (fun hide => ?_) fun hide => ?_⟩
  · have hswap (rows : List Json) (p q : Json → Bool) :
        (rows.filter p).filter q = (rows.filter q).filter p := by
      simp only [List.filter_filter, Bool.and_comm]
    rw [hswap, h.live hide, hswap]
  · rw [h.other hide]

theorem select (h : SameLive registry s t) (separate : registry.Separate) (world : World)
    (hm : registry.models.get? name = some m) {op : Select} {f : Option FilterGroup}
    (htable : op.table = m.table) (hfilters : op.filters = m.guard f) :
    s.select world op = t.select world op := by
  have hfound : s.found op = t.found op := by
    rw [s.found_guard m htable hfilters, t.found_guard m htable hfilters, h.seen separate hm]
  rw [Store.select, Store.select, Store.sorted, Store.sorted, hfound]

/-- A guarded operation does not tell stores apart that differ only in hidden rows. -/
theorem carryOut (h : SameLive registry s t) (separate : registry.Separate) (world : World)
    {op : Operation} (guarded : op.Guarded registry) :
    (Store.carryOut world op s).1 = (Store.carryOut world op t).1 ∧
      SameLive registry (Store.carryOut world op s).2 (Store.carryOut world op t).2 := by
  cases guarded with
  | insert op =>
    refine ⟨rfl, h.put (fun hide => ?_) fun hide => ?_⟩
    · rw [List.filter_append, List.filter_append, h.live hide]
    · rw [h.other hide]
  | select guarded =>
    cases guarded with
    | select registered table named filters =>
      refine ⟨?_, h⟩
      simp only [Store.carryOut, h.select separate world registered table filters]
  | @update name m op g registered table named conditions =>
    obtain ⟨hrows, hstore⟩ := h.amend separate registered g op.data
    simp only [Store.carryOut, table, conditions]
    exact ⟨congrArg (Except.ok ∘ Answer.rows) hrows, hstore⟩
  | @delete name m op g registered table named conditions =>
    simp only [Store.carryOut, table, conditions]
    cases op.soft with
    | true =>
      obtain ⟨hrows, hstore⟩ := h.amend separate registered g [(deletedAt, .ofNat world.second)]
      exact ⟨congrArg (Except.ok ∘ Answer.rows) hrows, hstore⟩
    | false =>
      obtain ⟨hrows, hstore⟩ := h.remove separate registered g
      exact ⟨congrArg (Except.ok ∘ Answer.rows) hrows, hstore⟩

end Store.SameLive

theorem Store.host_respects {registry : Registry} (world : World) (separate : registry.Separate) :
    (Store.host world).Respects (Operation.Guarded registry) (Store.SameLive registry) where
  execute {op s t} guarded h := by
    have hlog : SameLive registry { s with log := s.log ++ [op] } { t with log := t.log ++ [op] } :=
      h.of_rows rfl rfl h.keysDrawn
    exact hlog.carryOut separate world guarded
  now h := ⟨rfl, h⟩
  freshKey {s t} h :=
    ⟨congrArg world.key h.keysDrawn, h.of_rows rfl rfl (congrArg (· + 1) h.keysDrawn)⟩

/-- An action gives the same outcome on stores that differ only in rows that are marked as deleted,
and leaves stores that differ only in such rows. -/
theorem Runner.run_sameLive {registry : Registry} (separate : registry.Separate) {s t : Store}
    (h : Store.SameLive registry s t) (world : World) (settings : Settings) (patience : Nat)
    (model action : String) (input : Json) :
    let act := (Store.runner world registry settings patience).run model action input
    (act.runFrom s).1 = (act.runFrom t).1 ∧
      Store.SameLive registry (act.runFrom s).2 (act.runFrom t).2 :=
  (Runner.run_sends (Store.runner world registry settings patience) rfl model action input).agree
    (Store.host_respects world separate) h

namespace Blog

theorem hides_iff {table : String} : registry.Hides table ↔ table = "users" := by
  constructor
  · rintro ⟨name, m, hm, hsoft, rfl⟩
    obtain rfl | rfl := get?_registry hm
    · contradiction
    · rfl
  · rintro rfl
    exact ⟨"user", user, rfl, rfl, rfl⟩

theorem separate : registry.Separate := by
  intro name m hm hide
  obtain rfl | rfl := get?_registry hm
  · exact absurd (hides_iff.1 hide) (by decide)
  · rfl

theorem sameLive_purged : Store.SameLive registry store (store.put "users" [ada]) := by
  refine ⟨fun {table} hide => ?_, fun {table} hide => ?_, rfl⟩
  · rw [hides_iff] at hide
    subst hide
    have hada : ada.isLive = true := by decide +kernel
    have hdeleted : deletedAda.isLive = false := by decide +kernel
    simp [store, hada, hdeleted]
  · rw [hides_iff] at hide
    exact (Store.rows_put_of_ne store [ada] hide).symm

end Blog

/-- The list of users is the same when the deleted user is gone from the table. -/
theorem Runner.run_readList_purged :
    let act := (Store.runner Blog.world Blog.registry {} 0).run "user" "readList" (.obj [])
    (act.runFrom Blog.store).1 = (act.runFrom (Blog.store.put "users" [Blog.ada])).1 ∧
      Store.SameLive Blog.registry (act.runFrom Blog.store).2
        (act.runFrom (Blog.store.put "users" [Blog.ada])).2 :=
  Runner.run_sameLive Blog.separate Blog.sameLive_purged Blog.world {} 0 "user" "readList" (.obj [])

end ModelActions
