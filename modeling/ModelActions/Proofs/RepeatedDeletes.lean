import ModelActions.Proofs.ActionSteps
import ModelActions.Proofs.ReadBack

/-!
# Repeated deletes

A delete removes the rows that satisfy its filter, or marks them so that the model no longer sees
them. Either way no model sees a row that it has not seen before. Filters have no negation over
related rows, so the same filter, pushed down again, is satisfied by no more rows than before, and
those are gone.
-/
namespace ModelActions

/-- The delete of the rows that a model sees and that satisfy a filter. -/
def Model.deletion (m : Model) (g : FilterGroup) : Delete where
  table := m.table
  model := m.name
  conditions := m.guardGroup g
  soft := m.config.softDelete

theorem Json.get?_overwrite_single {row value v : Json} {column other : String}
    (h : (row.overwrite [(column, value)]).get? other = some v) :
    v = value ∨ row.get? other = some v := by
  cases row with
  | obj members =>
    rcases Members.mem_of_get?_overwrite members h with h | h
    · simp only [List.mem_singleton, Prod.mk.injEq] at h
      exact .inl h.2
    · exact .inr h
  | _ => exact .inr h

/-- A row with a time of deletion is not live. -/
theorem Json.isLive_overwrite_deletedAt {row : Json} (h : row.isObject = true) (n : Nat) :
    (row.overwrite [(deletedAt, .ofNat n)]).isLive = false := by
  cases row with
  | obj members =>
    have hget : (Json.overwrite [(deletedAt, .ofNat n)] (.obj members)).get? deletedAt =
        some (.ofNat n) := Members.get?_insert_self members deletedAt _
    rw [isLive, hget]
    rfl
  | _ => cases h

namespace Store
variable {registry : Registry} {world : World} {s : Store} {m : Model} {g : FilterGroup}

theorem put_rows (s : Store) (table : String) : (s.put table (s.rows table)).rows = s.rows := by
  funext t
  by_cases ht : t = table
  · subst ht
    simp
  · exact rows_put_of_ne s _ ht

/-- The rows that satisfy the filter of a delete, as it leaves them. -/
def deleted (world : World) (s : Store) (op : Delete) : List Json :=
  if op.soft then
    (s.matching op.table op.conditions).map (Json.overwrite [(deletedAt, .ofNat world.second)])
  else s.matching op.table op.conditions

theorem fst_carryOut_delete (world : World) (s : Store) (op : Delete) :
    (carryOut world (.delete op) s).1 = .ok (.rows (s.deleted world op)) := by
  rw [carryOut, deleted]
  cases op.soft <;> rfl

/-- Where no row satisfies its filter, a delete finds nothing and leaves the tables as they are. -/
theorem carryOut_delete_of_matching_nil (world : World) {s : Store} {op : Delete}
    (h : s.matching op.table op.conditions = []) :
    s.deleted world op = [] ∧
      (carryOut world (.delete op) s).2.rows = s.rows := by
  have hnone : ∀ row ∈ s.rows op.table, op.conditions.holds row = false := by
    intro row hrow
    simpa using List.filter_eq_nil_iff.1 h row hrow
  refine ⟨by simp [deleted, h], ?_⟩
  rw [carryOut]
  cases op.soft with
  | true =>
    have hmap : (s.rows op.table).map (fun row => if op.conditions.holds row then
        row.overwrite [(deletedAt, .ofNat world.second)] else row) = s.rows op.table := by
      refine (List.map_congr_left fun row hrow => ?_).trans (List.map_id _)
      simp [hnone row hrow]
    simp only [amend, if_true, hmap]
    exact put_rows s op.table
  | false =>
    have hfilter : (s.rows op.table).filter (fun row => !op.conditions.holds row) =
        s.rows op.table := by
      rw [List.filter_eq_self]
      intro row hrow
      simp [hnone row hrow]
    simp only [remove, Bool.false_eq_true, if_false, hfilter]
    exact put_rows s op.table

section
variable {t : Store} (ht : t.rows = (carryOut world (.delete (m.deletion g)) s).2.rows)
include ht

/-- What is in a table after a delete was there before, or has just been marked. -/
theorem mem_rows_deletion {table : String} {row : Json} (h : row ∈ t.rows table) :
    (row ∈ s.rows table ∧ (table = m.table → (m.guardGroup g).holds row = false)) ∨
      (table = m.table ∧ m.config.softDelete = true ∧
        ∃ old ∈ s.rows table, row = old.overwrite [(deletedAt, .ofNat world.second)]) := by
  rw [ht] at h
  by_cases htable : table = m.table
  · subst htable
    simp only [carryOut, Model.deletion] at h
    cases hsoft : m.config.softDelete with
    | true =>
      simp only [hsoft, if_true, amend, rows_put_self] at h
      obtain ⟨old, hold, rfl⟩ := List.mem_map.1 h
      split
      · exact .inr ⟨rfl, rfl, old, hold, rfl⟩
      · next hholds => exact .inl ⟨hold, fun _ => by simpa using hholds⟩
    | false =>
      simp only [hsoft, Bool.false_eq_true, if_false, remove, rows_put_self] at h
      obtain ⟨hrow, hholds⟩ := List.mem_filter.1 h
      exact .inl ⟨hrow, fun _ => by simpa using hholds⟩
  · rw [rows_carryOut_of_ne world _ s htable] at h
    exact .inl ⟨h, fun h => absurd h htable⟩

theorem objectRows_deletion (objects : s.ObjectRows) : t.ObjectRows := by
  intro table row hrow
  rcases mem_rows_deletion ht hrow with ⟨hrow, -⟩ | ⟨-, -, old, hold, rfl⟩
  · exact objects table row hrow
  · rw [Json.isObject_overwrite]
    exact objects table old hold

theorem wholeKeys_deletion (whole : s.WholeKeys registry) : t.WholeKeys registry := by
  have hwhole {table column : String}
      (h : ∀ row ∈ s.rows table, ∀ v, row.get? column = some v → v.isFraction = false) :
      ∀ row ∈ t.rows table, ∀ v, row.get? column = some v → v.isFraction = false := by
    intro row hrow v hv
    rcases mem_rows_deletion ht hrow with ⟨hrow, -⟩ | ⟨-, -, old, hold, rfl⟩
    · exact h row hrow v hv
    · rcases Json.get?_overwrite_single hv with rfl | hv
      · rfl
      · exact h old hold v hv
  intro name hop model r registered relationship
  obtain ⟨hsource, htarget⟩ := whole registered relationship
  exact ⟨hwhole hsource, fun related leads => hwhole (htarget related leads)⟩

/-- After a delete models see only rows that they have seen before, and the model that was deleted
from none that satisfied the filter. -/
theorem seen_deletion (distinct : registry.DistinctTables) (objects : s.ObjectRows)
    {name name' : String} (hm : registry.models.get? name = some m) {related : Model}
    (hrel : registry.models.get? name' = some related) {row : Json} (h : row ∈ t.seen related) :
    row ∈ s.seen related ∧ (related = m → g.holds row = false) := by
  obtain ⟨hrow, hsees⟩ := mem_seen.1 h
  rcases mem_rows_deletion ht hrow with ⟨hrow, hholds⟩ | ⟨htable, hsoft, old, hold, rfl⟩
  · refine ⟨mem_seen.2 ⟨hrow, hsees⟩, ?_⟩
    rintro rfl
    have hguard := hholds rfl
    rwa [Model.holds_guardGroup, hsees, Bool.and_true] at hguard
  · obtain rfl := distinct hrel hm htable
    have hlive := Json.isLive_overwrite_deletedAt (objects _ old hold) world.second
    rw [Model.sees, hsoft, hlive] at hsees
    cases hsees

end
end Store

namespace Pushdown
variable {registry : Registry} {settings : Settings} {world world' : World} {s : Store} {m : Model}
  {g g' g'' : FilterGroup}

/-- A filter that is pushed down again after a delete by it matches no row. -/
theorem matching_nil_of_deletion (plain : registry.PlainKeys) (distinct : registry.DistinctTables)
    (objects : s.ObjectRows) (whole : s.WholeKeys registry) {name : String}
    (hm : registry.models.get? name = some m) {u t v : Store}
    (first : (pushGroup (Store.engine world registry settings) m g).runFrom s = (.ok g', u))
    (ht : t.rows = (Store.carryOut world (.delete (m.deletion g')) s).2.rows)
    (second : (pushGroup (Store.engine world' registry settings) m g).runFrom t = (.ok g'', v)) :
    t.matching m.table (m.guardGroup g'') = [] := by
  have hobjects := Store.objectRows_deletion ht objects
  have hseen {name' : String} {related : Model}
      (hrel : registry.models.get? name' = some related) {row : Json}
      (hrow : row ∈ t.seen related) :
      row ∈ s.seen related ∧ (related = m → g'.holds row = false) :=
    Store.seen_deletion ht distinct objects hm hrel hrow
  rw [Store.matching_guardGroup, List.filter_eq_nil_iff]
  intro row hrow hholds
  obtain ⟨hbefore, hgone⟩ := hseen hm hrow
  -- the row satisfied the filter as written already before the delete
  have hread : g.HoldsBy fun c => c.Reads registry t m row := by
    have hmem := (Store.mem_seen.1 hrow).1
    refine ((pushGroup_holds_iff plain hobjects hm second).2 row (hobjects _ row hmem) ?_).1 hholds
    apply KeysTransitive.of_wholeKeys (Store.wholeKeys_deletion ht whole)
    intro x hx
    rw [List.mem_singleton.1 hx]
    exact Store.WholeKeys.stored (Store.wholeKeys_deletion ht whole) hm hmem
  have hread' : g.HoldsBy fun c => c.Reads registry s m row :=
    Filter.HoldsBy.mono (fun c hc => hc.mono fun hrel row hrow => (hseen hrel hrow).1) hread
  have hmem := (Store.mem_seen.1 hbefore).1
  have hmatched : g'.holds row = true := by
    refine ((pushGroup_holds_iff plain objects hm first).2 row (objects _ row hmem) ?_).2 hread'
    apply KeysTransitive.of_wholeKeys whole
    intro x hx
    exact List.mem_singleton.1 hx ▸ whole.stored hm hmem
  rw [hgone rfl] at hmatched
  exact Bool.false_ne_true hmatched

end Pushdown

namespace Task
variable {registry : Registry} {settings : Settings} {world : World} {s t : Store} {m : Model}
  {action : String} {input output : Json}

/-- A delete that its filter can be read and pushed down for is carried out. -/
theorem runFrom_delete {g g' : FilterGroup} {u : Store}
    (hparse : Filter.parse ((input.get? "conditions").getD .null) = .ok (some g))
    (pushed : (Pushdown.pushGroup (Store.engine world registry settings) m g).runFrom s =
      (.ok g', u)) :
    (delete m.config.softDelete (Store.context world registry settings m action) input).runFrom s =
      (.ok (.arr (u.deleted world (m.deletion g'))),
        (Store.execute world (.delete (m.deletion g')) u).2) := by
  have hresolve : (Pushdown.resolveGroup (Store.engine world registry settings) m g).runFrom s =
      (.ok (m.guardGroup g'), u) := Act.runFrom_bind_ok pushed
  have hanswer : (Store.execute world (.delete (m.deletion g')) u).1 =
      .ok (.rows (u.deleted world (m.deletion g'))) := Store.fst_carryOut_delete world _ _
  have hperform := Store.runFrom_perform_of_answered world hanswer
  rw [delete, Act.runFrom_ofExcept_bind (filterUnder_eq_ok.2 hparse)]
  exact (Act.runFrom_bind_ok hresolve).trans (Act.runFrom_bind_ok hperform)

/-- A delete succeeds only if its filter could be read and pushed down. -/
theorem pushed_of_delete_eq_ok
    (h : (delete m.config.softDelete (Store.context world registry settings m action) input).runFrom
      s = (.ok output, t)) :
    ∃ g g' u, Filter.parse ((input.get? "conditions").getD .null) = .ok (some g) ∧
      (Pushdown.pushGroup (Store.engine world registry settings) m g).runFrom s = (.ok g', u) := by
  obtain ⟨g, s₁, hg, h⟩ := Act.runFrom_bind_eq_ok.1 h
  obtain ⟨conditions, s₂, hconditions, -⟩ := Act.runFrom_bind_eq_ok.1 h
  obtain ⟨g', s₃, hpush, -⟩ := Act.runFrom_bind_eq_ok.1 hconditions
  rw [Act.runFrom_ofExcept, Prod.mk.injEq] at hg
  obtain ⟨hg, rfl⟩ := hg
  exact ⟨g, g', s₃, filterUnder_eq_ok.1 hg, hpush⟩

end Task

namespace Runner

theorem runFrom_execute_delete_store {world : World} {registry : Registry} {settings : Settings}
    {patience : Nat} {name : String} {m : Model} (hm : registry.models.get? name = some m)
    {input checked : Json} (accepted : Input.check .delete settings input = .ok checked)
    (s : Store) :
    ((Store.runner world registry settings patience).execute name "delete" input).runFrom s =
      (Task.delete m.config.softDelete (Store.context world registry settings m "delete")
        checked).runFrom s :=
  ((Store.runner world registry settings patience).runFrom_execute_delete rfl hm accepted s).trans
    rfl

/-- A delete that succeeded once succeeds again, finds nothing and changes nothing, even if its
conditions lead through relationships back to the model. -/
theorem execute_delete_twice {registry : Registry} {settings : Settings} {patience : Nat}
    (plain : registry.PlainKeys) (distinct : registry.DistinctTables) {s t : Store}
    (objects : s.ObjectRows) (whole : s.WholeKeys registry) {world : World} {name : String}
    {input output : Json}
    (first : ((Store.runner world registry settings patience).execute name "delete" input).runFrom
      s = (.ok output, t)) (world' : World) :
    ∃ u, ((Store.runner world' registry settings patience).execute name "delete" input).runFrom t =
      (.ok (.arr []), u) ∧ u.rows = t.rows := by
  obtain ⟨m, checked, hm, accepted⟩ := accepted_of_execute first
  replace hm : registry.models.get? name = some m := hm
  replace accepted : Input.check .delete settings input = .ok checked := accepted
  rw [runFrom_execute_delete_store hm accepted] at first
  rw [runFrom_execute_delete_store hm accepted]
  obtain ⟨g, g', u, hparse, pushed⟩ := Task.pushed_of_delete_eq_ok first
  rw [Task.runFrom_delete hparse pushed, Prod.mk.injEq] at first
  obtain ⟨-, rfl⟩ := first
  obtain ⟨g'', v, pushed'⟩ := Pushdown.pushGroup_succeeds_of_ok pushed world'
    (Store.execute world (.delete (m.deletion g')) u).2
  have hu : u.rows = s.rows := (Pushdown.pushGroup_holds_iff plain objects hm pushed).1
  have hrows : (Store.execute world (.delete (m.deletion g')) u).2.rows =
      (Store.carryOut world (.delete (m.deletion g')) s).2.rows :=
    Store.rows_carryOut_congr world _ hu
  have hnone := Pushdown.matching_nil_of_deletion plain distinct objects whole hm pushed hrows
    pushed'
  have hv : v.rows = (Store.execute world (.delete (m.deletion g')) u).2.rows :=
    (Pushdown.pushGroup_readsOnly g).rows_eq pushed'
  let logged : Store := { v with log := v.log ++ [.delete (m.deletion g'')] }
  have hnone' : logged.matching (m.deletion g'').table (m.deletion g'').conditions = [] := by
    rw [Store.matching, hv]
    exact hnone
  obtain ⟨hanswer, hkept⟩ := Store.carryOut_delete_of_matching_nil world' hnone'
  refine ⟨_, ?_, hkept.trans hv⟩
  rw [Task.runFrom_delete hparse pushed']
  exact congrArg (fun rows => (Except.ok (Json.arr rows), _)) hanswer

end Runner
/-! ## An example: users that are deleted for their own posts -/

namespace Blog

theorem distinctTables : registry.DistinctTables := by
  intro name name' m m' hm hm' htable
  obtain rfl | rfl := get?_registry hm <;> obtain rfl | rfl := get?_registry hm'
  · rfl
  · exact absurd htable (by decide)
  · exact absurd htable (by decide)
  · rfl

/-- The users with a post that was written by an Ada. -/
def writtenByAda : FilterGroup := .leaf "posts.author.name" .eq (.str "ada")

def deletion : Json := .obj [("conditions", .obj [("posts.author.name", .str "ada")])]

theorem deletion_accepted :
    Input.check .delete {} deletion = .ok (.obj [("conditions", writtenByAda.toJson)]) := rfl

theorem writtenByAda_pushed :
    ((Pushdown.pushGroup (Store.engine world registry {}) user writtenByAda).runFrom store).1 =
      .ok (.leaf "id" .in (.arr [.str "a"])) := by
  cbv

/-- Deletes the users with a post that was written by an Ada. -/
def deleteUsers (s : Store) : Except Error Json × Store :=
  ((Store.runner world registry {} 0).execute "user" "delete" deletion).runFrom s

theorem deleteUsers_store : (deleteUsers store).1 =
    .ok (.arr [ada.overwrite [(deletedAt, .ofNat world.second)]]) := by
  have hm : registry.models.get? "user" = some user := rfl
  have hparse : Filter.parse (((Json.obj [("conditions", writtenByAda.toJson)]).get?
      "conditions").getD .null) = .ok (some writtenByAda) := rfl
  generalize hrun : (Pushdown.pushGroup (Store.engine world registry {}) user
    writtenByAda).runFrom store = answer
  obtain ⟨result, u⟩ := answer
  obtain rfl : result = .ok (.leaf "id" .in (.arr [.str "a"])) :=
    (congrArg Prod.fst hrun).symm.trans writtenByAda_pushed
  have hu : u.rows = store.rows :=
    (Pushdown.pushGroup_readsOnly writtenByAda).rows_eq hrun
  have hfound : u.matching "users" (user.guardGroup (.leaf "id" .in (.arr [.str "a"]))) =
      [ada] := by
    rw [Store.matching, hu]
    cbv
  have hanswer := congrArg (List.map (Json.overwrite [(deletedAt, .ofNat world.second)])) hfound
  rw [deleteUsers, Runner.runFrom_execute_delete_store hm deletion_accepted,
    Task.runFrom_delete hparse hrun]
  exact congrArg (fun rows => Except.ok (Json.arr rows)) hanswer

/-- A user was deleted for a post of its own, which afterwards is no longer by a user that is
there. -/
theorem deleteUsers_twice :
    registry.PlainKeys ∧ registry.DistinctTables ∧ store.ObjectRows ∧ store.WholeKeys registry ∧
      (deleteUsers store).1 =
        .ok (.arr [ada.overwrite [(deletedAt, .ofNat world.second)]]) ∧
      (deleteUsers (deleteUsers store).2).1 = .ok (.arr []) := by
  refine ⟨plainKeys, distinctTables, objectRows, wholeKeys, deleteUsers_store, ?_⟩
  have hfirst := deleteUsers_store
  generalize hrun : deleteUsers store = answer at hfirst ⊢
  obtain ⟨result, t⟩ := answer
  obtain rfl : result = _ := hfirst
  obtain ⟨u, hsecond, -⟩ := Runner.execute_delete_twice plainKeys distinctTables objectRows
    wholeKeys hrun world
  exact congrArg Prod.fst hsecond

end Blog
end ModelActions
