import ModelActions.Proofs.ClosedRegistries
import ModelActions.Proofs.FilterOffences
import ModelActions.Proofs.Sends

/-!
# Models that are found

Models are looked up by name wherever a filter path, a scope reference, an expand path or a join
leads from one model to another. In a closed registry the model is there, so that no query fails
because it is not.
-/
namespace ModelActions

@[simp] def Error.isUnknownModel : Error → Bool
  | unknownModel _ => true
  | _ => false

/-- A result that satisfies `Q`, or an error other than that a model is unknown. -/
def Found {α : Type} (Q : α → Prop) : Except Error α → Prop
  | .ok a => Q a
  | .error e => e.isUnknownModel = false

/-- Whatever the state, a computation gives a result that satisfies `Q`, or fails with an error
other than that a model is unknown. -/
def Act.Finds {σ α : Type} (act : Act σ α) (Q : α → Prop) : Prop := ∀ s, Found Q (act.runFrom s).1

namespace Found
variable {α β : Type} {Q : α → Prop} {Q' : β → Prop} {x : Except Error α} {f : α → Except Error β}

@[simp] theorem ok_iff {a : α} : Found Q (.ok a) ↔ Q a := Iff.rfl

@[simp] theorem error_iff {e : Error} :
    Found Q (.error e : Except Error α) ↔ e.isUnknownModel = false := Iff.rfl

theorem bind (hx : Found Q x) (hf : ∀ a, Q a → Found Q' (f a)) : Found Q' (x >>= f) := by
  cases x with
  | ok a => exact hf a hx
  | error e => exact hx

theorem forM {f : α → Except Error Unit} {as : List α}
    (hf : ∀ a ∈ as, Found (fun _ => True) (f a)) : Found (fun _ => True) (as.forM f) := by
  induction as with
  | nil => trivial
  | cons a as ih =>
    obtain ⟨ha, has⟩ := List.forall_mem_cons.1 hf
    exact ha.bind fun _ _ => ih has

theorem mapM {as : List α} (hf : ∀ a ∈ as, Found (fun _ => True) (f a)) :
    Found (fun _ => True) (as.mapM f) := by
  induction as with
  | nil => trivial
  | cons a as ih =>
    obtain ⟨ha, has⟩ := List.forall_mem_cons.1 hf
    rw [List.mapM_cons]
    exact ha.bind fun _ _ => (ih has).bind fun _ _ => trivial

theorem mapField (place : String → String) (hx : Found Q x) :
    Found Q (x.mapError (Error.mapField place)) := by
  cases x with
  | ok a => exact hx
  | error e => cases e <;> exact hx

end Found

namespace Act.Finds
variable {σ α β : Type} {x : Act σ α} {f : α → Act σ β} {Q : α → Prop} {Q' : β → Prop}
  {host : Host σ}

theorem pure {a : α} (h : Q a) : Finds (Pure.pure a : Act σ α) Q := fun _ => h

theorem throw {e : Error} (h : e.isUnknownModel = false) : Finds (throw e : Act σ α) Q := fun _ => h

theorem ofExcept {r : Except Error α} (h : Found Q r) : Finds (Act.ofExcept r : Act σ α) Q := by
  intro s
  rwa [runFrom_ofExcept]

theorem bind (hx : x.Finds Q) (hf : ∀ a, Q a → (f a).Finds Q') : (x >>= f).Finds Q' := by
  intro s
  have hs := hx s
  rw [runFrom_bind]
  rcases hrun : x.runFrom s with ⟨e | a, t⟩
  · rwa [hrun] at hs
  · rw [hrun] at hs
    exact hf a hs t

theorem map {g : α → β} (hx : x.Finds Q) (hg : ∀ a, Q a → Q' (g a)) : (g <$> x).Finds Q' := by
  rw [map_eq_pure_bind]
  exact hx.bind fun a ha => .pure (hg a ha)

theorem perform (op : Operation) : (host.perform op).Finds fun _ => True := by
  intro s
  rw [runFrom_perform]
  rcases (host.execute op s).1 with (_ | _) | _ <;> simp [Except.mapError, Failure.toError]

theorem readClock : host.readClock.Finds fun _ => True := fun _ => trivial

theorem drawKey : host.drawKey.Finds fun _ => True := fun _ => trivial

end Act.Finds

/-! ## Filters and requests -/

namespace Filter

theorem found_fillCondition (j : Json) : Found (fun _ => True) (fillCondition j) := by
  unfold fillCondition
  split
  · split
    · trivial
    · split <;> simp
  · simp

theorem found_expandShorthand (written : Json) :
    Found (fun _ => True) (expandShorthand written) := by
  unfold expandShorthand
  split
  · trivial
  · split
    · trivial
    · exact (Found.mapM fun j _ => found_fillCondition j).bind fun _ _ => trivial
  · split
    · trivial
    · split
      · trivial
      · split
        · exact (found_fillCondition _).bind fun _ _ => trivial
        · trivial
  · simp

theorem found_check (v : Json) : Found (fun _ => True) (check v) := by
  have hreports := check_reports v
  cases hcheck : check v with
  | ok g => trivial
  | error e =>
    rw [hcheck] at hreports
    obtain ⟨o, -, rfl⟩ := hreports
    rfl

theorem found_parse (written : Json) : Found (fun _ => True) (parse written) := by
  refine (found_expandShorthand written).bind fun expanded _ => ?_
  split
  · trivial
  · exact (found_check _).bind fun _ _ => trivial

end Filter

theorem Request.found_ofJson (j : Json) : Found (fun _ => True) (ofJson j) := by
  unfold ofJson
  split <;> simp

/-! ## The places of look-ups -/

theorem Model.found_relationship (m : Model) (hop : String) :
    Found (fun r => m.relationships.get? hop = some r) (m.relationship hop) := by
  unfold relationship
  split
  · assumption
  · simp

theorem Registry.found_get {registry : Registry} {name : String} {m : Model}
    (hm : registry.models.get? name = some m) :
    Found (fun m' => registry.models.get? name = some m') (registry.get name) := by
  rw [Registry.get_eq_ok.2 hm]
  exact hm

namespace Registry.Closed
variable {registry : Registry} (closed : registry.Closed) {name : String} {m : Model}
  (hm : registry.models.get? name = some m)
include closed hm

theorem get?_name : registry.models.get? m.name = some m := by
  rwa [closed.filed _ (Members.mem_of_get? hm)]

/-- A hop from a model of the registry leads to one of its models. -/
theorem found_related {hop : String} {r : Relationship} (hr : m.relationships.get? hop = some r) :
    Found (fun related => registry.models.get? r.related = some related)
      (registry.get r.related) := by
  obtain ⟨related, hrelated⟩ :=
    closed.related _ (Members.mem_of_get? hm) _ (Members.mem_of_get? hr)
  exact Registry.found_get hrelated

theorem found_named (view : Option ScopeTable) (path : List String) :
    Found (fun _ => True) (Scope.named registry view m path) := by
  induction path generalizing view name m with
  | nil => simp [Scope.named]
  | cons hop path ih =>
    cases path with
    | nil =>
      rw [Scope.named]
      split <;> simp
    | cons next rest =>
      refine (m.found_relationship hop).bind fun r hr => ?_
      refine (closed.found_related hm hr).bind fun related hrelated => ?_
      exact (ih hrelated none).bind fun _ _ => trivial

theorem found_checkHops (hops : List String) :
    Found (fun _ => True) (Query.checkHops registry m hops) := by
  induction hops generalizing name m with
  | nil => trivial
  | cons hop hops ih =>
    refine (m.found_relationship hop).bind fun r hr => ?_
    exact (closed.found_related hm hr).bind fun related hrelated => ih hrelated

end Registry.Closed

namespace Scope
variable {registry : Registry} {m : Model} {view : Option ScopeTable}

mutual
/-- A reference is resolved if the names in it are. -/
theorem found_resolve (hnamed : ∀ path, Found (fun _ => True) (named registry view m path))
    (reference : Json) : Found (fun _ => True) (resolve registry m view reference) := by
  match reference with
  | .str path =>
    rw [resolve]
    exact hnamed _
  | .arr items =>
    rw [resolve]
    split
    · simp
    · exact (found_resolveAll hnamed items).bind fun _ _ => trivial
  | .obj members =>
    rw [resolve]
    split
    · simp
    · exact (found_resolveIn hnamed members).bind fun _ _ => trivial
  | .null | .bool _ | .int _ | .float _ _ => simp [resolve]

theorem found_resolveIn (hnamed : ∀ path, Found (fun _ => True) (named registry view m path))
    (members : List (String × Json)) :
    Found (fun _ => True) (resolveIn registry m view members) := by
  match members with
  | [] => simp [resolveIn]
  | (key, value) :: members =>
    rw [resolveIn]
    split
    · exact found_resolveList hnamed value
    · exact found_resolveIn hnamed members

theorem found_resolveList (hnamed : ∀ path, Found (fun _ => True) (named registry view m path))
    (value : Json) : Found (fun _ => True) (resolveList registry m view value) := by
  match value with
  | .arr items =>
    rw [resolveList]
    split
    · simp
    · exact found_resolveAll hnamed items
  | .null | .bool _ | .int _ | .float _ _ | .str _ | .obj _ => simp [resolveList]

theorem found_resolveAll (hnamed : ∀ path, Found (fun _ => True) (named registry view m path))
    (items : List Json) : Found (fun _ => True) (resolveAll registry m view items) := by
  match items with
  | [] => simp [resolveAll]
  | j :: js =>
    rw [resolveAll]
    exact (found_resolve hnamed j).bind fun _ _ =>
      (found_resolveAll hnamed js).bind fun _ _ => trivial
end

end Scope

variable {σ : Type} {e : Engine σ}

namespace Pushdown
variable {m : Model}

mutual
theorem push_finds (hpath : ∀ op value path, (pushPath e op value m path).Finds fun _ => True)
    (n : Filter) : (push e m n).Finds fun _ => True := by
  match n with
  | .condition c => exact .bind (hpath _ _ _) fun _ _ => .pure trivial
  | .group op children => exact .bind (pushAll_finds hpath children) fun _ _ => .pure trivial

theorem pushAll_finds (hpath : ∀ op value path, (pushPath e op value m path).Finds fun _ => True)
    (ns : List Filter) : (pushAll e m ns).Finds fun _ => True := by
  match ns with
  | [] => exact .pure trivial
  | n :: ns =>
    exact .bind (push_finds hpath n) fun _ _ => .bind (pushAll_finds hpath ns) fun _ _ =>
      .pure trivial
end

end Pushdown

theorem Answer.found_toSelection (answer : Answer) : Found (fun _ => True) answer.toSelection := by
  cases answer <;> simp [toSelection]

section
variable (closed : e.registry.Closed) {name : String} {m : Model}
  (hm : e.registry.models.get? name = some m)
include closed hm

namespace Pushdown

theorem pushPath_finds (op : Comparator) (value : Json) (path : List String) :
    (pushPath e op value m path).Finds fun _ => True := by
  induction path generalizing name m with
  | nil => exact .pure trivial
  | cons hop path ih =>
    cases path with
    | nil => exact .pure trivial
    | cons next rest =>
      rw [pushPath]
      split
      · exact .pure trivial
      · refine .bind (.ofExcept (m.found_relationship hop)) fun r hr => ?_
        refine .bind (.ofExcept (closed.found_related hm hr)) fun related hrelated => ?_
        exact .bind (ih hrelated) fun _ _ => .bind (.perform _) fun _ _ => .pure trivial

theorem pushGroup_finds (g : FilterGroup) : (pushGroup e m g).Finds fun _ => True :=
  .bind (pushAll_finds (pushPath_finds closed hm) g.children) fun _ _ => .pure trivial

theorem resolveGroup_finds (g : FilterGroup) : (resolveGroup e m g).Finds fun _ => True :=
  .bind (pushGroup_finds closed hm g) fun _ _ => .pure trivial

theorem resolve_finds (f : Option FilterGroup) : (resolve e m f).Finds fun _ => True := by
  cases f with
  | none => exact .pure trivial
  | some g => exact .bind (pushGroup_finds closed hm g) fun _ _ => .pure trivial

end Pushdown

namespace Expansion

theorem expandHop_finds {fetch : Model → Select → Act σ Selection}
    (hfetch : ∀ {name m} op, e.registry.models.get? name = some m →
      (fetch m op).Finds fun _ => True)
    (rows : List Json) (group : String × List String) :
    (expandHop e fetch m rows group).Finds fun _ => True := by
  refine .bind (.ofExcept (m.found_relationship group.1)) fun r hr => ?_
  refine .bind (.ofExcept (closed.found_related hm hr)) fun related hrelated => ?_
  dsimp only
  split
  · exact .pure trivial
  · exact .bind (hfetch _ hrelated) fun _ _ => .pure trivial

theorem expandGroups_finds {fetch : Model → Select → Act σ Selection}
    (hfetch : ∀ {name m} op, e.registry.models.get? name = some m →
      (fetch m op).Finds fun _ => True)
    (groups : List (String × List String)) (rows : List Json) :
    (expandGroups e fetch m groups rows).Finds fun _ => True := by
  induction groups generalizing rows with
  | nil => exact .pure trivial
  | cons g gs ih => exact .bind (expandHop_finds closed hm hfetch rows g) fun rows' _ => ih rows'

theorem fetch_finds (hops : Nat) (op : Select) : (fetch e hops m op).Finds fun _ => True := by
  induction hops generalizing name m op with
  | zero =>
    refine .bind (.perform _) fun answer _ => .bind (.ofExcept answer.found_toSelection) ?_
    intro selection _
    split
    · exact .pure trivial
    · exact .throw rfl
  | succ hops ih =>
    refine .bind (.perform _) fun answer _ => .bind (.ofExcept answer.found_toSelection) ?_
    intro selection _
    split
    · exact .pure trivial
    · exact .bind (expandGroups_finds closed hm (fun op hm => ih hm op) _ _) fun _ _ =>
        .pure trivial

end Expansion

namespace Query

theorem found_checkExpandPath (path : String) :
    Found (fun _ => True) (checkExpandPath e m path) := by
  have hhops : Found (fun _ => True)
      (do checkHops e.registry (← e.model m.name) (Path.segments path)) :=
    (Registry.found_get (closed.get?_name hm)).bind fun m' hm' => closed.found_checkHops hm' _
  unfold checkExpandPath
  dsimp only
  split
  · exact rfl
  · split
    · exact rfl
    · exact hhops

theorem found_joinOf (hop : String) : Found (fun _ => True) (joinOf e m hop) := by
  refine (m.found_relationship hop).bind fun r hr => ?_
  exact (closed.found_related hm hr).bind fun _ _ => trivial

theorem found_scopesOf (request : Request) : Found (fun _ => True) (scopesOf e m request) := by
  unfold scopesOf
  split
  · trivial
  · next reference _ =>
    have hresolve (view : Option ScopeTable) : Found (fun _ => True)
        (do return some (← Scope.resolve e.registry m view reference)) :=
      (Scope.found_resolve (closed.found_named hm view) reference).bind fun _ _ => trivial
    cases request.view with
    | none => exact hresolve none
    | some name =>
      have hview : Found (fun _ => True) ((m.view name).map some) := by
        unfold Model.view
        split <;> simp [Except.map]
      exact hview.bind fun view _ => hresolve view

theorem build_finds (request : Request) : (build e m request).Finds fun _ => True := by
  refine .bind (.ofExcept (Filter.found_parse _)) fun written _ => ?_
  refine .bind (.ofExcept (found_scopesOf closed hm request)) fun named _ => ?_
  refine .bind (Pushdown.resolve_finds closed hm _) fun filters _ => ?_
  refine .bind (.ofExcept (.forM fun path _ => found_checkExpandPath closed hm path)) fun _ _ => ?_
  refine .bind (.ofExcept (.mapM fun hop _ => found_joinOf closed hm hop)) fun joins _ => ?_
  exact .pure trivial

theorem select_finds (request : Request) : (select e name request).Finds fun _ => True := by
  refine .bind (.ofExcept (Registry.found_get hm)) fun m' hm' => ?_
  refine .bind (build_finds closed hm' request) fun op _ => ?_
  exact Expansion.fetch_finds closed hm' _ op

end Query
end

end ModelActions
