import ModelActions.Proofs.ActionSteps
import ModelActions.Proofs.KeyColumns
import ModelActions.Proofs.OpenPaths
import ModelActions.Proofs.Recordings
import ModelActions.Proofs.WrittenRows

/-!
# Canonical operations

The filters and conditions that an operator is sent during a built-in action are canonical: callers'
filters are checked, scopes were, and whatever splits, prefixes, joins or replaces leaves on the way
keeps them so. The exception are dangling subqueries, for which some path has to end with a point.
-/
namespace ModelActions

open Act (Sends)
open Operation (CanonicalUnless)

variable {σ : Type}

namespace Expansion

theorem canonical_relatedSelect (related : Model) {r : Relationship} (h : r.target ≠ "")
    (keys : List Json) (rest : List String) :
    (Operation.select (relatedSelect related r keys rest)).Canonical := by
  refine related.canonical_guard (f := some (.leaf r.target .in (.arr keys))) fun g hg => ?_
  obtain rfl := Option.some.inj hg
  exact FilterGroup.canonical_leaf h .in (.arr keys)

end Expansion

/-- Some path of a request's filter, or of the scopes that it names, ends with a point. -/
def Request.OpenEnded (e : Engine σ) (m : Model) (request : Request) : Prop :=
  (∃ g, Filter.parse request.filters = .ok (some g) ∧ g.OpenEnded) ∨
    ∃ g, Query.scopesOf e m request = .ok (some g) ∧ g.OpenEnded

namespace FilterGroup

theorem openEnded_of_conjoin {f f' : Option FilterGroup} {g : FilterGroup}
    (h : conjoin f f' = some g) (hends : g.OpenEnded) :
    (∃ g ∈ f, g.OpenEnded) ∨ ∃ g ∈ f', g.OpenEnded := by
  obtain ⟨c, hc, hends⟩ := hends
  match f, f' with
  | some l, some r =>
    cases h
    rcases List.mem_append.1 hc with hc | hc
    · exact .inl ⟨l, rfl, c, hc, hends⟩
    · rw [Filter.leavesAll, Filter.leavesAll, List.append_nil] at hc
      exact .inr ⟨r, rfl, c, hc, hends⟩
  | some l, none => exact .inl ⟨g, h, c, hc, hends⟩
  | none, some r => exact .inr ⟨g, h, c, hc, hends⟩

end FilterGroup

namespace Query
variable (e : Engine σ) {reason : Prop} {name : String} {m : Model}

/-- Scopes are looked up in a view of the model, if the request names one. -/
theorem resolve_of_scopesOf {request : Request} {g : FilterGroup}
    (h : scopesOf e m request = .ok (some g)) :
    ∃ view reference, (∀ table ∈ view, ∃ v, m.views.get? v = some table) ∧
      Scope.resolve e.registry m view reference = .ok g := by
  unfold scopesOf at h
  split at h
  · cases h
  · next reference _ =>
    dsimp only at h
    split at h
    · next v _ =>
      obtain ⟨view, hview, h⟩ := bind_eq_ok.1 h
      obtain ⟨g', hg', h⟩ := bind_eq_ok.1 h
      cases h
      refine ⟨view, reference, fun table htable => ⟨v, ?_⟩, hg'⟩
      obtain rfl := htable
      unfold Model.view at hview
      cases hv : m.views.get? v with
      | some table' =>
        rw [hv] at hview
        cases hview
        rfl
      | none =>
        rw [hv] at hview
        cases hview
    · obtain ⟨view, hview, h⟩ := bind_eq_ok.1 h
      obtain ⟨g', hg', h⟩ := bind_eq_ok.1 h
      cases h
      cases hview
      exact ⟨none, reference, (fun _ h => nomatch h), hg'⟩

theorem canonical_of_scopesOf (canonical : e.registry.CanonicalScopes)
    (hm : e.registry.models.get? name = some m) {request : Request} {f : Option FilterGroup}
    (h : scopesOf e m request = .ok f) : ∀ g ∈ f, g.toFilter.Canonical := by
  rintro g rfl
  obtain ⟨view, reference, hview, hresolve⟩ := resolve_of_scopesOf e h
  refine Scope.canonical_of_resolve (Scope.canonical_of_named canonical ?_ hm) hresolve
  intro table htable s g hs
  obtain ⟨v, hv⟩ := hview table htable
  exact canonical.views hm hv hs

variable (keys : e.registry.NamedKeys) (canonical : e.registry.CanonicalScopes)
include keys canonical

theorem build_canonical (hm : e.registry.models.get? name = some m) {request : Request}
    (ends : request.OpenEnded e m → reason) :
    Sends e.host (CanonicalUnless e.registry reason) (build e m request) fun op =>
      (Operation.select op).Canonical := by
  refine .bind (.ofExcept _) fun written hwritten => .bind (.ofExcept _) fun named hnamed => ?_
  have hconjoin : ∀ g ∈ FilterGroup.conjoin written named, g.toFilter.Canonical := by
    refine FilterGroup.canonical_conjoin ?_ (canonical_of_scopesOf e canonical hm hnamed)
    rintro g rfl
    exact Filter.canonical_of_parse hwritten
  have hends : ∀ g ∈ FilterGroup.conjoin written named, g.OpenEnded → reason := by
    intro g hg hopen
    rcases FilterGroup.openEnded_of_conjoin hg hopen with ⟨g', rfl, hopen⟩ | ⟨g', rfl, hopen⟩
    · exact ends (.inl ⟨g', hwritten, hopen⟩)
    · exact ends (.inr ⟨g', hnamed, hopen⟩)
  refine .bind (Pushdown.resolve_canonical e keys hm hconjoin hends) fun filters hfilters => ?_
  refine .bind (.ofExcept _) fun _ _ => .bind (.ofExcept _) fun joins _ => ?_
  exact .pure hfilters

/-- A select sends canonical operations, and dangling ones only if a path of its request ends with a
point. -/
theorem select_canonical (hm : e.registry.models.get? name = some m) {request : Request}
    (ends : request.OpenEnded e m → reason) :
    Sends e.host (CanonicalUnless e.registry reason) (select e name request) fun _ => True := by
  refine .bind (e.sends_model _ _) fun m' hm' => ?_
  obtain rfl : m = m' := Option.some.inj (hm.symm.trans hm')
  refine .bind (build_canonical e keys canonical hm ends) fun op hop => ?_
  refine Expansion.fetch_sends e (fun hm hr _ columns rest => ?_) _ hm op (.inl hop)
  exact .inl (Expansion.canonical_relatedSelect _ (keys.target hm hr) columns rest)

end Query

namespace Action

/-- Why a subquery of an action may dangle: a path ends with a point, be it one of the checked
input, of the scopes that it names, or of the row that an operator answers an insert with, where
that row can be taken for a request. -/
def OpenEnded (e : Engine σ) (m : Model) : Action → Json → Prop
  | .create, input =>
    Path.EndsOpen m.primaryKey ∨ input.isObject = true ∧ m.schema.has "filters" = false
  | .update, input =>
    Path.EndsOpen m.primaryKey ∨
      ∃ g, Filter.parse ((input.get? "conditions").getD .null) = .ok (some g) ∧ g.OpenEnded
  | .delete, input =>
    ∃ g, Filter.parse ((input.get? "conditions").getD .null) = .ok (some g) ∧ g.OpenEnded
  | .readOne, input =>
    Path.EndsOpen m.primaryKey ∨
      ∃ request, Request.ofJson input = .ok request ∧ request.OpenEnded e m
  | .readList, input => ∃ request, Request.ofJson input = .ok request ∧ request.OpenEnded e m
  | .custom _, _ => False

end Action

namespace Task
variable (ctx : Context σ) {reason : Prop} (keys : ctx.registry.NamedKeys)
  (canonical : ctx.registry.CanonicalScopes)
  (hm : ctx.registry.models.get? ctx.model.name = some ctx.model)
include keys canonical hm

theorem select_canonical (paged : Bool) {input : Json}
    (ends : ∀ request, Request.ofJson input = .ok request →
      request.OpenEnded ctx.toEngine ctx.model → reason) :
    Sends ctx.host (CanonicalUnless ctx.registry reason) (select paged ctx input) fun _ => True :=
  .bind (.ofExcept _) fun request hr =>
    .bind (Query.select_canonical ctx.toEngine keys canonical hm (ends request hr)) fun _ _ =>
      .pure trivial

omit canonical in
/-- Reading by keys compares the primary key and nothing else. -/
theorem openEnded_keyRequest {op : Comparator} {value : Json}
    (h : (keyRequest ⟨ctx.model.primaryKey, op, value⟩).OpenEnded ctx.toEngine ctx.model) :
    Path.EndsOpen ctx.model.primaryKey := by
  have hne := keys.primaryKey hm
  rcases h with ⟨g, hparse, c, hc, hends⟩ | ⟨g, hscopes, -⟩
  · have hkey := Filter.parse_toJson (g := .and [.condition ⟨ctx.model.primaryKey, op, value⟩])
      (List.cons_ne_nil _ _) ⟨hne, trivial⟩
    rw [keyRequest, hkey] at hparse
    cases hparse
    obtain rfl := List.mem_singleton.1 hc
    exact hends
  · cases hscopes

theorem read_canonical {input : Json}
    (ends : isRequest ctx.model input = true → ∀ request, Request.ofJson input = .ok request →
      request.OpenEnded ctx.toEngine ctx.model → reason)
    (key : Path.EndsOpen ctx.model.primaryKey → reason) :
    Sends ctx.host (CanonicalUnless ctx.registry reason) (read ctx input) fun _ => True := by
  refine read_sends_of ctx input (fun hrequest request hr _ => ?_) fun _ _ => ?_
  · exact Query.select_canonical ctx.toEngine keys canonical hm (ends hrequest request hr)
  · exact Query.select_canonical ctx.toEngine keys canonical hm fun h =>
      key (openEnded_keyRequest ctx keys hm h)

section
omit canonical
variable {input : Json}
  (ends : ∀ g, Filter.parse ((input.get? "conditions").getD .null) = .ok (some g) →
    g.OpenEnded → reason)
include ends

theorem conditions_canonical {g : FilterGroup} (h : filterUnder ctx "conditions" input = .ok g) :
    Sends ctx.host (CanonicalUnless ctx.registry reason)
      (Pushdown.resolveGroup ctx.toEngine ctx.model g) fun g' => g'.toFilter.Canonical := by
  have hparse := filterUnder_eq_ok.1 h
  exact Pushdown.resolveGroup_canonical ctx.toEngine keys hm (Filter.canonical_of_parse hparse)
    (ends g hparse)

theorem update_canonical :
    Sends ctx.host (CanonicalUnless ctx.registry reason) (update ctx input) fun output =>
      output.isArray = true :=
  update_sends_of ctx (conditions_canonical ctx keys hm ends) fun _ h => .inl h

theorem delete_canonical (soft : Bool) :
    Sends ctx.host (CanonicalUnless ctx.registry reason) (delete soft ctx input) fun _ => True :=
  delete_sends_of ctx (conditions_canonical ctx keys hm ends) soft fun h => .inl h

end

omit keys canonical hm

/-- Rows that were inserted are answered as they were sent, one for one or as a list. -/
theorem insert_canonical (input : Json) :
    Sends ctx.host (CanonicalUnless ctx.registry reason) (insert ctx input) fun output =>
      input.isObject = true ∨ output.isArray = true := by
  refine .bind (.ofExcept _) fun payload _ => .bind (.ofExcept _) fun op _ => ?_
  refine .bind (.perform (.inl trivial)) fun answer _ => .pure ?_
  split
  · next h => exact .inl h
  · exact .inr rfl

end Task

namespace Task

theorem isObject_of_clean {schema : Members AttributeType} {input output : Json}
    (h : clean schema input = .ok output) : output.isObject = input.isObject := by
  unfold clean at h
  split at h
  · cases h
    rfl
  · exact (mapRows_eq_ok (R := fun _ _ => True) (fun _ _ _ _ => trivial) h).isObject_eq

/-- The checks of a payload hand on what they are given. -/
theorem validate_sends (ctx : Context σ) (P : Operation → Prop) (input : Json) :
    Sends ctx.host P (Act.ofExcept (validate ctx.model.schema ctx.action input))
      fun output => output = input :=
  (Sends.ofExcept _).weaken fun _ h => validate_eq_ok h

end Task

namespace Walk
variable (ctx : Context σ) (keys : ctx.registry.NamedKeys)
  (canonical : ctx.registry.CanonicalScopes)
  (hm : ctx.registry.models.get? ctx.model.name = some ctx.model) (traced : Bool) (fuel : Nat)
  (previous : String) (p : Packet)
include keys canonical hm

theorem create_canonical :
    Sends ctx.host
      (CanonicalUnless ctx.registry (Action.create.OpenEnded ctx.toEngine ctx.model p.input))
      (follow Graph.create .builtin ctx traced (fuel + 5) previous "CleanInput" p)
      fun _ => True := by
  rw [follow_taskTo rfl rfl]
  refine .bind (.ofExcept _) fun cleaned hcleaned => ?_
  rw [follow_taskTo rfl rfl]
  refine .bind (Task.validate_sends ctx _ cleaned) fun checked hchecked => ?_
  rw [follow_taskTo rfl rfl]
  refine .bind (Task.generate_sends ctx _ checked) fun generated hgenerated => ?_
  rw [follow_taskTo rfl rfl]
  refine .bind (Task.insert_canonical ctx generated) fun inserted hinserted => ?_
  rw [follow_taskEnd rfl rfl]
  refine .bind (Task.read_canonical ctx keys canonical hm ?_ .inl) fun _ _ => .pure trivial
  -- the rows that a list of rows is answered with are no request
  intro hrequest _ _ _
  rcases hinserted with hobject | harray
  · obtain ⟨now, hreworks⟩ := hgenerated
    rw [hreworks.isObject_eq, hchecked, Task.isObject_of_clean hcleaned] at hobject
    exact .inr ⟨hobject, by simpa using (Bool.and_eq_true_iff.1 hrequest).2⟩
  · have hrows := (Task.isRequest_of_isArray (m := ctx.model) harray).symm.trans hrequest
    cases hrows

theorem update_canonical :
    Sends ctx.host
      (CanonicalUnless ctx.registry (Action.update.OpenEnded ctx.toEngine ctx.model p.input))
      (follow Graph.update .builtin ctx traced (fuel + 3) previous "ValidateInput" p)
      fun _ => True := by
  rw [follow_taskTo rfl rfl]
  refine .bind (Task.validate_sends ctx _ p.input) fun checked hchecked => ?_
  obtain rfl := hchecked
  rw [follow_taskTo rfl rfl]
  refine .bind (Task.update_canonical ctx keys hm fun g hg hends => .inr ⟨g, hg, hends⟩)
    fun updated hupdated => ?_
  rw [follow_taskEnd rfl rfl]
  refine .bind (Task.read_canonical ctx keys canonical hm ?_ .inl) fun _ _ => .pure trivial
  intro hrequest
  have hrows := (Task.isRequest_of_isArray (m := ctx.model) hupdated).symm.trans hrequest
  cases hrows

omit canonical in
theorem delete_canonical :
    Sends ctx.host
      (CanonicalUnless ctx.registry (Action.delete.OpenEnded ctx.toEngine ctx.model p.input))
      (follow Graph.delete .builtin ctx traced (fuel + 3) previous "ValidateInput" p)
      fun _ => True := by
  rw [follow_taskTo rfl rfl]
  refine .bind (Task.validate_sends ctx _ p.input) fun checked hchecked => ?_
  obtain rfl := hchecked
  rw [follow_branch rfl]
  split
  · rw [follow_taskEnd rfl rfl]
    exact .bind (Task.delete_canonical ctx keys hm (fun g hg hends => ⟨g, hg, hends⟩) true)
      fun _ _ => .pure trivial
  · rw [follow_taskEnd rfl rfl]
    exact .bind (Task.delete_canonical ctx keys hm (fun g hg hends => ⟨g, hg, hends⟩) false)
      fun _ _ => .pure trivial

theorem readOne_canonical :
    Sends ctx.host
      (CanonicalUnless ctx.registry (Action.readOne.OpenEnded ctx.toEngine ctx.model p.input))
      (follow Graph.readOne .builtin ctx traced (fuel + 4) previous "ValidateInput" p)
      fun _ => True := by
  rw [follow_taskTo rfl rfl]
  refine .bind (Task.validate_sends ctx _ p.input) fun checked hchecked => ?_
  obtain rfl := hchecked
  rw [follow_taskTo rfl rfl]
  refine .bind (Task.read_canonical ctx keys canonical hm
    (fun _ request hr hends => .inr ⟨request, hr, hends⟩) .inl) fun found _ => ?_
  rw [follow_branch rfl]
  split
  · rw [follow_taskEnd rfl rfl]
    exact .bind (Q := fun _ => True) (.throw _) fun _ _ => .pure trivial
  · rw [follow_taskEnd rfl rfl]
    exact .bind (Q := fun _ => True) (.pure trivial) fun _ _ => .pure trivial

omit keys canonical hm in
/-- Reading a list sends what its select sends, with or without a page. -/
theorem readList_sends {P : Operation → Prop}
    (hselect : ∀ paged, Sends ctx.host P (Task.select paged ctx p.input) fun _ => True) :
    Sends ctx.host P
      (follow Graph.readList .builtin ctx traced (fuel + 4) previous "ValidateInput" p)
      fun _ => True := by
  rw [follow_taskTo rfl rfl]
  refine .bind (Task.validate_sends ctx _ p.input) fun checked hchecked => ?_
  obtain rfl := hchecked
  rw [follow_branch rfl]
  split
  · rw [follow_taskTo rfl rfl]
    refine .bind (hselect true) fun _ _ => ?_
    rw [follow_taskEnd rfl rfl]
    exact .bind (.ofExcept _) fun _ _ => .pure trivial
  · rw [follow_taskTo rfl rfl]
    refine .bind (hselect false) fun _ _ => ?_
    rw [follow_taskEnd rfl rfl]
    exact .bind (.ofExcept _) fun _ _ => .pure trivial

theorem readList_canonical :
    Sends ctx.host
      (CanonicalUnless ctx.registry (Action.readList.OpenEnded ctx.toEngine ctx.model p.input))
      (follow Graph.readList .builtin ctx traced (fuel + 4) previous "ValidateInput" p)
      fun _ => True :=
  readList_sends ctx traced fuel previous p fun paged =>
    Task.select_canonical ctx keys canonical hm paged fun request hr hends =>
      (⟨request, hr, hends⟩ : Action.readList.OpenEnded ctx.toEngine ctx.model p.input)

end Walk

/-- Why a subquery of a call may dangle. -/
def Engine.OpenEnded (e : Engine σ) (model action : String) (input : Json) : Prop :=
  ∃ m checked, e.registry.models.get? model = some m ∧
    Input.check (.ofName action) e.settings input = .ok checked ∧
      (Action.ofName action).OpenEnded e m checked

namespace Runner
variable (r : Runner σ)

/-- A run of a built-in action sends canonical operations, and dangling ones only for a reason. -/
theorem drive_canonical (htasks : r.tasks = Tasks.builtin) (keys : r.registry.NamedKeys)
    (canonical : r.registry.CanonicalScopes) {model : String} {m : Model}
    (hm : r.registry.models.get? model = some m) (hname : r.registry.models.get? m.name = some m)
    {a : Action} (builtin : a.isBuiltin = true) {g : Graph} (hg : a.graph m = .ok g)
    (input : Json) :
    Sends r.host (CanonicalUnless r.registry (a.OpenEnded r.toEngine m input))
      (r.drive model a.name g input) fun _ => True := by
  rw [drive_eq, htasks]
  refine .bind (r.toEngine.sends_model _ model) fun m' hm' => ?_
  obtain rfl : m = m' := Option.some.inj (hm.symm.trans hm')
  let ctx := r.context m a.name
  let p : Packet := { input, context := ctx.document }
  rw [Nat.add_comm]
  cases a with
  | create =>
    cases hg
    exact Walk.create_canonical ctx keys canonical hname _ (r.patience + 1) _ p
  | readOne =>
    cases hg
    exact Walk.readOne_canonical ctx keys canonical hname _ (r.patience + 2) _ p
  | readList =>
    cases hg
    exact Walk.readList_canonical ctx keys canonical hname _ (r.patience + 2) _ p
  | update =>
    cases hg
    exact Walk.update_canonical ctx keys canonical hname _ (r.patience + 1) _ p
  | delete =>
    cases hg
    exact Walk.delete_canonical ctx keys hname _ (r.patience + 2) _ p
  | custom => cases builtin

theorem run_canonical (htasks : r.tasks = Tasks.builtin) {specs : List ModelSpec}
    (loaded : Registry.ofSpecs specs = .ok r.registry) (keys : r.registry.NamedKeys)
    (model : String) {action : String} (builtin : (Action.ofName action).isBuiltin = true)
    (input : Json) :
    Sends r.host (CanonicalUnless r.registry (r.toEngine.OpenEnded model action input))
      (r.run model action input) fun _ => True := by
  refine .bind (r.toEngine.sends_model _ model) fun m hm => ?_
  refine .bind (.ofExcept _) fun checked hchecked => .bind (.ofExcept _) fun g hg => ?_
  have hdrive := r.drive_canonical htasks keys (Registry.canonicalScopes_of_ofSpecs loaded) hm
    (Registry.get?_name_of_ofSpecs loaded hm) builtin hg checked
  exact hdrive.mono fun op h => h.mono fun hends => ⟨m, checked, hm, hchecked, hends⟩

end Runner

/-- Whatever an operator answers, each operation that it is sent during a built-in action is
canonical, or a dangling subquery for which a path ends with a point. -/
theorem Engine.canonical_of_mem_recording (e : Engine σ) {specs : List ModelSpec}
    (loaded : Registry.ofSpecs specs = .ok e.registry) (keys : e.registry.NamedKeys)
    (patience : Nat) (model : String) {action : String}
    (builtin : (Action.ofName action).isBuiltin = true) (input : Json) (s : σ) :
    ∀ entry ∈ e.recording patience (.action model action input) s,
      entry.1.Canonical ∨
        entry.1.Dangling e.registry ∧ e.OpenEnded model action input := by
  have hsends := (e.recorded.runner patience).run_canonical rfl loaded keys model builtin input
  exact hsends.recorded s

namespace Blog

theorem namedKeys : registry.NamedKeys where
  source hm hr := by
    obtain ⟨-, hs, -⟩ | ⟨-, hs, -⟩ := get?_relationships hm hr <;> rw [hs] <;> decide
  target hm hr := by
    obtain ⟨-, -, ht⟩ | ⟨-, -, ht⟩ := get?_relationships hm hr <;> rw [ht] <;> decide
  primaryKey hm := by
    obtain rfl | rfl := get?_registry hm <;> decide

/-- The posts whose author has a nameless attribute with some value. -/
def namelessInput : Json := .obj [("filters", .obj [("author.", .str "ada")])]

/-- The subquery of such a read dangles, and the select after it is canonical. -/
theorem canonical_or_dangling_posts :
    Registry.ofSpecs specs = .ok hauntedEngine.registry ∧ hauntedEngine.registry.NamedKeys ∧
      (Action.ofName "readList").isBuiltin = true ∧
        (hauntedEngine.recording 0 (.action "post" "readList" namelessInput) ()).map
          (fun entry => decide entry.1.Canonical) = [false, true] ∧
          ∀ entry ∈ hauntedEngine.recording 0 (.action "post" "readList" namelessInput) (),
            entry.1.Canonical ∨ entry.1.Dangling registry ∧
              hauntedEngine.OpenEnded "post" "readList" namelessInput := by
  refine ⟨loaded, namedKeys, rfl, by decide +kernel, ?_⟩
  exact hauntedEngine.canonical_of_mem_recording loaded namedKeys 0 "post" rfl namelessInput ()

/-- Reading the posts by a path that ends with a point sends a leaf without an attribute. -/
theorem leaf_without_attribute :
    Registry.ofSpecs specs = .ok hauntedEngine.registry ∧ hauntedEngine.registry.NamedKeys ∧
      (Action.ofName "readList").isBuiltin = true ∧
        ∃ entry ∈ hauntedEngine.recording 0 (.action "post" "readList" namelessInput) (),
          ¬entry.1.Canonical := by
  refine ⟨loaded, namedKeys, rfl, ?_⟩
  have hany : (hauntedEngine.recording 0 (.action "post" "readList" namelessInput) ()).any
      (fun entry => !decide entry.1.Canonical) = true := by decide +kernel
  simpa using hany

end Blog
end ModelActions
