import ModelActions.Proofs.CanonicalFilters
import ModelActions.Proofs.ClosedRegistries
import ModelActions.Proofs.FilterOffences

/-!
# Reported scopes

Models are loaded one after the other, and of each model first its scopes and then those of its
views. What goes wrong is what goes wrong with the first fragment that is no tree. If the fragment
has one of the forms in which filters are written, the error names model and scope. If it has none,
the error names only the field that it would have in a request.
-/
namespace ModelActions

/-- What went wrong, if anything did. -/
def failure? {ε α : Type} : Except ε α → Option ε
  | .error e => some e
  | .ok _ => none

section
variable {ε α β : Type}

theorem failure?_eq_some {x : Except ε α} {e : ε} : failure? x = some e ↔ x = .error e := by
  cases x <;> simp [failure?]

theorem failure?_eq_none {x : Except ε α} : failure? x = none ↔ ∃ a, x = .ok a := by
  cases x <;> simp [failure?]

/-- Of two parts the first to fail is reported, if the second fails whatever the first gave it. -/
theorem failure?_bind {x : Except ε α} {f : α → Except ε β} {later : Option ε}
    (h : ∀ a, failure? (f a) = later) : failure? (x >>= f) = (failure? x).or later := by
  cases x with
  | error e => rfl
  | ok a => exact h a

theorem failure?_bind_pure (x : Except ε α) (f : α → β) :
    failure? (x >>= fun a => pure (f a)) = failure? x := by
  cases x <;> rfl

theorem failure?_mapM (f : α → Except ε β) (as : List α) :
    failure? (as.mapM f) = as.findSome? fun a => failure? (f a) := by
  induction as with
  | nil => rfl
  | cons a as ih =>
    have hrest (b : β) : failure? (as.mapM f >>= fun bs => pure (b :: bs)) =
        as.findSome? fun a => failure? (f a) := by
      rw [failure?_bind_pure, ih]
    rw [List.mapM_cons, failure?_bind hrest, List.findSome?_cons]
    cases failure? (f a) <;> rfl

theorem findSome?_flatMap (f : β → Option ε) (g : α → List β) (as : List α) :
    (as.flatMap g).findSome? f = as.findSome? fun a => (g a).findSome? f := by
  induction as with
  | nil => rfl
  | cons a as ih =>
    rw [List.flatMap_cons, List.findSome?_append, ih, List.findSome?_cons]
    cases (g a).findSome? f <;> rfl

theorem findSome?_congr {f g : α → Option β} {as : List α} (h : ∀ a ∈ as, f a = g a) :
    as.findSome? f = as.findSome? g := by
  induction as with
  | nil => rfl
  | cons a as ih =>
    rw [List.findSome?_cons, List.findSome?_cons, h a List.mem_cons_self,
      ih fun b hb => h b (List.mem_cons_of_mem a hb)]

end

namespace Filter

/-- A group, or a condition with an attribute. -/
def isEntry (item : Json) : Bool :=
  (item.get? "conditions").isSome || (item.get? "attribute").isSome

/-- Written in one of the forms of a filter. -/
def hasForm : Json → Bool
  | .null | .obj _ => true
  | .arr items => items.all isEntry
  | _ => false

theorem fillCondition_of_isEntry {item : Json} (h : isEntry item = true) :
    ∃ filled, fillCondition item = .ok filled := by
  cases item with
  | obj members =>
    rw [fillCondition]
    split
    · exact ⟨_, rfl⟩
    · next hgroup =>
      have hattribute : Members.has members "attribute" = true :=
        (Bool.or_eq_true_iff.1 h).resolve_left hgroup
      rw [if_pos hattribute]
      exact ⟨_, rfl⟩
  | _ => cases h

theorem fillCondition_of_not_isEntry {item : Json} (h : isEntry item = false) :
    ∃ field fault, fillCondition item = .error (.invalid field fault) := by
  cases item with
  | obj members =>
    obtain ⟨hgroup, hattribute⟩ := Bool.or_eq_false_iff.1 h
    refine ⟨"attribute", .conditionWithoutAttribute, ?_⟩
    have hgroup : Members.has members "conditions" = false := hgroup
    have hattribute : Members.has members "attribute" = false := hattribute
    rw [fillCondition, hgroup, hattribute]
    rfl
  | _ => exact ⟨_, _, rfl⟩

theorem expandShorthand_of_hasForm {written : Json} (h : hasForm written = true) :
    ∃ expanded, expandShorthand written = .ok expanded := by
  cases written with
  | null => exact ⟨_, rfl⟩
  | arr items =>
    have hnone : failure? (items.mapM fillCondition) = none := by
      rw [failure?_mapM, List.findSome?_eq_none_iff]
      exact fun item hitem =>
        failure?_eq_none.2 (fillCondition_of_isEntry (List.all_eq_true.1 h item hitem))
    obtain ⟨filled, hfilled⟩ := failure?_eq_none.1 hnone
    rw [expandShorthand, hfilled]
    split <;> exact ⟨_, rfl⟩
  | obj members =>
    rw [expandShorthand]
    split
    · exact ⟨_, rfl⟩
    · split
      · exact ⟨_, rfl⟩
      · split
        · next hattribute =>
          have hentry : isEntry (.obj members) = true := Bool.or_eq_true_iff.2 (.inr hattribute)
          obtain ⟨filled, hfilled⟩ := fillCondition_of_isEntry hentry
          rw [hfilled]
          exact ⟨_, rfl⟩
        · exact ⟨_, rfl⟩
  | _ => cases h

theorem expandShorthand_of_not_hasForm {written : Json} (h : hasForm written = false) :
    ∃ field fault, expandShorthand written = .error (.invalid field fault) := by
  cases written with
  | arr items =>
    -- the first item that is no entry fails, and whatever fails is such an item
    cases hfailure : failure? (items.mapM fillCondition) with
    | none =>
      rw [failure?_mapM, List.findSome?_eq_none_iff] at hfailure
      obtain ⟨item, hitem, hentry⟩ := List.all_eq_false.1 h
      obtain ⟨field, fault, hfill⟩ := fillCondition_of_not_isEntry (by simpa using hentry)
      have hnone := hfailure item hitem
      rw [hfill] at hnone
      cases hnone
    | some e =>
      have hitems : items.isEmpty = false := by
        cases items with
        | nil => cases h
        | cons => rfl
      rw [expandShorthand, hitems, if_neg Bool.false_ne_true, failure?_eq_some.1 hfailure]
      rw [failure?_mapM] at hfailure
      obtain ⟨_, item, _, _, hfill, _⟩ := List.findSome?_eq_some_iff.1 hfailure
      cases hentry : isEntry item with
      | true =>
        obtain ⟨filled, hfilled⟩ := fillCondition_of_isEntry hentry
        rw [hfilled] at hfill
        cases hfill
      | false =>
        obtain ⟨field, fault, hfault⟩ := fillCondition_of_not_isEntry hentry
        rw [hfault] at hfill
        cases hfill
        exact ⟨field, fault, rfl⟩
  | null | obj => cases h
  | _ => exact ⟨_, _, rfl⟩

/-- What is wrong with a filter is wrong with one of its fields. -/
theorem check_eq_error {written : Json} {e : Error} (h : check written = .error e) :
    ∃ field fault, e = .invalid field fault := by
  have hreports := check_reports written
  rw [h] at hreports
  obtain ⟨o, -, he⟩ := hreports
  exact ⟨_, _, he⟩

/-- Why a value is no filter tree, with the field that its parse reports. An empty filter is none
for want of conditions. -/
def Unparsed (written : Json) (field : String) (fault : Fault) : Prop :=
  parse written = .error (.invalid field fault) ∨
    parse written = .ok none ∧ field = "conditions" ∧ fault = .groupNotObject

theorem unparsed_of_expandShorthand {written : Json} {field : String} {fault : Fault}
    (h : expandShorthand written = .error (.invalid field fault)) :
    Unparsed written field fault := by
  refine .inl ?_
  rw [parse, h]
  rfl

theorem unparsed_of_check {written expanded : Json} {field : String} {fault : Fault}
    (hexpand : expandShorthand written = .ok expanded)
    (hcheck : check expanded = .error (.invalid field fault)) : Unparsed written field fault := by
  cases expanded with
  | null =>
    cases hcheck
    refine .inr ⟨?_, rfl, rfl⟩
    rw [parse, hexpand]
    rfl
  | _ =>
    refine .inl (bind_eq_error.2 (.inr ⟨_, hexpand, ?_⟩))
    exact bind_eq_error.2 (.inl hcheck)

end Filter

/-- A scope as it is declared, in a model or in one of its views. -/
structure Fragment where
  model : String
  scope : String
  written : Json

namespace Fragment

def read (f : Fragment) : Except Error FilterGroup := Registry.readScope f.model f.scope f.written

def Parses (f : Fragment) : Prop := ∃ g, Filter.parse f.written = .ok (some g)

/-- A field of the fragment, seen from the declaration of its model. -/
def within (f : Fragment) (field : String) : String :=
  f.model ++ ".scopes." ++ f.scope ++ "." ++ field

theorem failure?_read_of_parses {f : Fragment} (h : f.Parses) : failure? f.read = none := by
  obtain ⟨g, hparse⟩ := h
  obtain ⟨expanded, hexpand, hcheck⟩ := Filter.parse_eq_ok_some.1 hparse
  refine failure?_eq_none.2 ⟨g, bind_eq_ok.2 ⟨expanded, hexpand, ?_⟩⟩
  rw [hcheck]
  rfl

/-- A fragment that is no tree is reported under its own name if it has one of the forms of a
filter, else by the bare field. -/
theorem exists_failure?_read {f : Fragment} (h : ¬f.Parses) :
    ∃ field fault, Filter.Unparsed f.written field fault ∧ failure? f.read =
      some (.invalid (if Filter.hasForm f.written then f.within field else field) fault) := by
  cases hform : Filter.hasForm f.written with
  | false =>
    obtain ⟨field, fault, hexpand⟩ := Filter.expandShorthand_of_not_hasForm hform
    refine ⟨field, fault, Filter.unparsed_of_expandShorthand hexpand, failure?_eq_some.2 ?_⟩
    exact bind_eq_error.2 (.inl hexpand)
  | true =>
    obtain ⟨expanded, hexpand⟩ := Filter.expandShorthand_of_hasForm hform
    cases hcheck : Filter.check expanded with
    | ok g => exact absurd ⟨g, Filter.parse_eq_ok_some.2 ⟨expanded, hexpand, hcheck⟩⟩ h
    | error e =>
      obtain ⟨field, fault, rfl⟩ := Filter.check_eq_error hcheck
      refine ⟨field, fault, Filter.unparsed_of_check hexpand hcheck, failure?_eq_some.2 ?_⟩
      refine bind_eq_error.2 (.inr ⟨expanded, hexpand, ?_⟩)
      rw [hcheck]
      rfl

end Fragment

namespace ModelSpec

/-- The scopes of a model and then those of its views, in the order in which they are read. -/
def fragments (spec : ModelSpec) : List Fragment :=
  (spec.scopes ++ spec.views.flatMap (·.2)).map fun e => ⟨spec.name, e.1, e.2⟩

end ModelSpec

namespace Registry

def fragmentsOf (specs : List ModelSpec) : List Fragment := specs.flatMap ModelSpec.fragments

/-- All relationships lead to models of the list. -/
def Related (specs : List ModelSpec) : Prop :=
  ∀ spec ∈ specs, ∀ e ∈ spec.relationships, e.2.model ∈ specs.map (·.name)

theorem failure?_readScopes (model : String) (written : Members Json) :
    failure? (readScopes model written) =
      written.findSome? fun e => failure? (readScope model e.1 e.2) := by
  rw [readScopes, failure?_mapM]
  simp only [failure?_bind_pure]

theorem failure?_readRelationships {specs : List ModelSpec} (related : Related specs)
    {spec : ModelSpec} (hspec : spec ∈ specs) (config : ModelConfig) :
    failure? (readRelationships (configs specs) spec config) = none := by
  rw [readRelationships, failure?_mapM, List.findSome?_eq_none_iff]
  intro e he
  have hkey : e.2.model ∈ (configs specs).keys := by
    refine (Members.mem_keys_overwrite [] _ _).2 (.inr ?_)
    simpa [Members.keys] using related spec hspec e he
  obtain ⟨config', hget⟩ := Option.isSome_iff_exists.1 ((Members.has_iff_mem_keys _ _).2 hkey)
  rw [hget]
  rfl

theorem failure?_readModel {specs : List ModelSpec} (related : Related specs) {spec : ModelSpec}
    (hspec : spec ∈ specs) :
    failure? (readModel (configs specs) spec) =
      spec.fragments.findSome? fun f => failure? f.read := by
  have hviews (relationships : Members Relationship) (config : ModelConfig) (scopes : ScopeTable) :
      failure? (do
        let views ← spec.views.mapM fun e => do return (e.1, ← readScopes spec.name e.2)
        return ({
          name := spec.name, schema := spec.schema, config, relationships, scopes, views
          actions := spec.actions } : Model)) =
        (spec.views.flatMap (·.2)).findSome? fun e => failure? (readScope spec.name e.1 e.2) := by
    rw [failure?_bind_pure, failure?_mapM, findSome?_flatMap]
    simp only [failure?_bind_pure, failure?_readScopes]
  rw [readModel, failure?_bind fun relationships => failure?_bind (hviews relationships _),
    failure?_readRelationships related hspec, failure?_readScopes, Option.none_or,
    ← List.findSome?_append, ModelSpec.fragments, List.findSome?_map]
  rfl

/-- Loading models whose relationships lead to models of the list fails where the first fragment
that is no tree does. -/
theorem failure?_ofSpecs {specs : List ModelSpec} (related : Related specs) :
    failure? (ofSpecs specs) = (fragmentsOf specs).findSome? fun f => failure? f.read := by
  rw [ofSpecs, failure?_bind_pure, failure?_mapM, fragmentsOf, findSome?_flatMap]
  exact findSome?_congr fun spec hspec => failure?_readModel related hspec

/-- The first fragment that is no tree is reported with the field that its parse reports. If it has
one of the forms of a filter, the field is named from the declaration of its model on, else it
stands alone. -/
theorem ofSpecs_reports_fragment {specs : List ModelSpec} (related : Related specs)
    {earlier later : List Fragment} {f : Fragment}
    (order : fragmentsOf specs = earlier ++ f :: later)
    (parsed : ∀ f' ∈ earlier, f'.Parses) (unparsed : ¬f.Parses) :
    ∃ field fault, Filter.Unparsed f.written field fault ∧ ofSpecs specs =
      .error (.invalid (if Filter.hasForm f.written then f.within field else field) fault) := by
  obtain ⟨field, fault, hfield, hread⟩ := Fragment.exists_failure?_read unparsed
  refine ⟨field, fault, hfield, failure?_eq_some.1 ?_⟩
  rw [failure?_ofSpecs related, order]
  exact List.findSome?_eq_some_iff.2
    ⟨earlier, f, later, rfl, hread, fun f' hf' => Fragment.failure?_read_of_parses (parsed f' hf')⟩

end Registry

/-! ## An example: posts that are public if they are loud -/

namespace Forum

def user : ModelSpec where
  name := "user"
  scopes := [("named", .obj [("name", .str "ada")])]

/-- Posts with a scope in one of their views. -/
def post (loud : Json) : ModelSpec where
  name := "post"
  relationships := [("author", { kind := .belongsTo, model := "user" })]
  views := [("public", [("loud", loud)])]

/-- A group with an operator that there is not. -/
def either : Json := .obj [("conditions", .arr []), ("op", .str "xor")]

theorem related (loud : Json) : Registry.Related [user, post loud] := by
  intro spec hspec e he
  rcases List.mem_pair.1 hspec with rfl | rfl
  · cases he
  · obtain rfl := List.mem_singleton.1 he
    exact List.mem_cons_self

def named : Fragment := ⟨"user", "named", .obj [("name", .str "ada")]⟩

theorem named_parses : named.Parses := ⟨.leaf "name" .eq (.str "ada"), rfl⟩

theorem either_reported :
    let loud : Fragment := ⟨"post", "loud", either⟩
    Registry.Related [user, post either] ∧
      Registry.fragmentsOf [user, post either] = [named] ++ loud :: [] ∧
      (∀ f ∈ [named], f.Parses) ∧ ¬loud.Parses ∧
      Registry.ofSpecs [user, post either] =
        .error (.invalid "post.scopes.loud.op" (.connective (some "xor"))) := by
  intro loud
  have order : Registry.fragmentsOf [user, post either] = [named] ++ loud :: [] := rfl
  have parsed : ∀ f ∈ [named], f.Parses := by
    intro f hf
    rw [List.mem_singleton.1 hf]
    exact named_parses
  have hparse : Filter.parse loud.written = .error (.invalid "op" (.connective (some "xor"))) := rfl
  have unparsed : ¬loud.Parses := by
    rintro ⟨g, hg⟩
    rw [hparse] at hg
    cases hg
  refine ⟨related either, order, parsed, unparsed, ?_⟩
  obtain ⟨field, fault, hfield, hload⟩ :=
    Registry.ofSpecs_reports_fragment (related either) order parsed unparsed
  rcases hfield with hfield | ⟨hnone, -⟩
  · rw [hparse] at hfield
    cases hfield
    exact hload
  · rw [hparse] at hnone
    cases hnone

/-- A number is no filter in any form. The error does not say that it stands for the scope. -/
theorem number_reported_bare :
    let loud : Fragment := ⟨"post", "loud", .int 42⟩
    Registry.Related [user, post (.int 42)] ∧
      Registry.fragmentsOf [user, post (.int 42)] = [named] ++ loud :: [] ∧ named.Parses ∧
      Filter.parse loud.written = .error (.invalid "filters" .filterShape) ∧
      Registry.ofSpecs [user, post (.int 42)] = .error (.invalid "filters" .filterShape) ∧
      loud.within "filters" = "post.scopes.loud.filters" ∧
      loud.within "filters" ≠ "filters" :=
  ⟨related (.int 42), rfl, named_parses, rfl, rfl, rfl, by decide⟩

end Forum
end ModelActions
