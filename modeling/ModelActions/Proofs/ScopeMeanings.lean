import ModelActions.Proofs.RelatedScopes

/-!
# What scope references mean

A reference means all or any of the references that it joins, or the scope that it names. A dotted
name ends at a scope of the model that its relationships lead to, and this scope is about the value
that stands in a row where they lead, or about null if there is none.
-/
namespace ModelActions

namespace Path

theorem not_mem_of_mem_segmentChars {cs s : List Char} (h : s ∈ segmentChars cs) : '.' ∉ s := by
  induction cs generalizing s with
  | nil => simp_all [segmentChars]
  | cons c cs ih => grind [segmentChars]

/-- No segment of a path has a point. -/
theorem not_mem_of_mem_segments {path s : String} (h : s ∈ segments path) : '.' ∉ s.toList := by
  obtain ⟨cs, hcs, rfl⟩ := List.mem_map.1 h
  simpa using not_mem_of_mem_segmentChars hcs

end Path

namespace Json

@[simp] theorem step_null (segment : String) : Json.null.step segment = none := rfl

/-- A path below a hop is looked up in what stands at the hop. -/
theorem lookup_append {hop path : String} (hhop : '.' ∉ hop.toList) (hpath : path ≠ "")
    (row : Json) : row.lookup (hop ++ "." ++ path) = (row.step hop).bind (·.lookup path) := by
  have hne : (hop ++ "." ++ path).isEmpty = false := by simp
  have hsegments : Path.segments (hop ++ "." ++ path) = hop :: Path.segments path := by
    rw [Path.segments_of_rest?_some (Path.rest?_append hhop path), Path.head_append hhop]
  rw [lookup, hne, hsegments]
  cases hstep : row.step hop with
  | none => simp [walk_cons, hstep]
  | some v => simp [walk_cons, hstep, lookup, hpath]

/-- Nothing stands below a value that is absent. -/
theorem lookup_null {path : String} (hpath : path ≠ "") : Json.null.lookup path = none := by
  obtain ⟨s, ss, hss⟩ := List.exists_cons_of_ne_nil (Path.segments_ne_nil path)
  simp [lookup, hpath, hss, walk_cons]

theorem walk_getD_null (s : String) (ss : List String) (row : Json) :
    (walk ss ((row.step s).getD .null)).getD .null = (walk (s :: ss) row).getD .null := by
  rw [walk_cons]
  cases row.step s with
  | some v => rfl
  | none =>
    cases ss with
    | nil => rfl
    | cons t ts => rfl

end Json

variable {hop : String}

theorem Condition.holds_prefixed (hhop : '.' ∉ hop.toList) {c : Condition} (hpath : c.path ≠ "")
    (row : Json) :
    Condition.holds { c with path := hop ++ "." ++ c.path } row =
      c.holds ((row.step hop).getD .null) := by
  rw [holds, holds, Json.lookup_append hhop hpath]
  cases row.step hop with
  | some v => rfl
  | none => simp [Json.lookup_null hpath]

namespace Filter

mutual
/-- A tree with a prefix holds of a row if the tree holds of what stands at the prefix. -/
theorem holds_prefixed (hhop : '.' ∉ hop.toList) {n : Filter} (canonical : n.Canonical)
    (row : Json) :
    (n.mapAttributes fun path => hop ++ "." ++ path).holds row =
      n.holds ((row.step hop).getD .null) := by
  match n with
  | .condition c => exact Condition.holds_prefixed hhop canonical row
  | .group .and children => exact allHold_prefixed hhop canonical.2 row
  | .group .or children => exact anyHolds_prefixed hhop canonical.2 row

theorem allHold_prefixed (hhop : '.' ∉ hop.toList) {ns : List Filter}
    (canonical : CanonicalAll ns) (row : Json) :
    allHold row (mapAttributesAll (fun path => hop ++ "." ++ path) ns) =
      allHold ((row.step hop).getD .null) ns := by
  match ns with
  | [] => rfl
  | n :: ns =>
    exact congrArg₂ and (holds_prefixed hhop canonical.1 row)
      (allHold_prefixed hhop canonical.2 row)

theorem anyHolds_prefixed (hhop : '.' ∉ hop.toList) {ns : List Filter}
    (canonical : CanonicalAll ns) (row : Json) :
    anyHolds row (mapAttributesAll (fun path => hop ++ "." ++ path) ns) =
      anyHolds ((row.step hop).getD .null) ns := by
  match ns with
  | [] => rfl
  | n :: ns =>
    exact congrArg₂ or (holds_prefixed hhop canonical.1 row)
      (anyHolds_prefixed hhop canonical.2 row)
end

end Filter

namespace Scope

/-- The scope at the end of a path: its first names lead to a model, which has a scope of the last
name. The model itself may have it from a view instead. -/
inductive Names (registry : Registry) :
    Option ScopeTable → Model → List String → FilterGroup → Prop
  | own {view : Option ScopeTable} {m : Model} {name : String} {g : FilterGroup}
      (found : m.scopes.get? name = some g) : Names registry view m [name] g
  | viewed {table : ScopeTable} {m : Model} {name : String} {g : FilterGroup}
      (missing : m.scopes.get? name = none) (found : table.get? name = some g) :
      Names registry (some table) m [name] g
  | related {view : Option ScopeTable} {m related : Model} {hop : String} {r : Relationship}
      {path : List String} {g : FilterGroup} (leads : registry.Leads m hop r related)
      (names : Names registry none related path g) : Names registry view m (hop :: path) g

/-- What a reference means for a row. -/
inductive Means (registry : Registry) (view : Option ScopeTable) (m : Model) :
    Json → (Json → Prop) → Prop
  | name {path : String} {g : FilterGroup}
      (names : Names registry view m (Path.segments path) g) :
      Means registry view m (.str path) fun row =>
        g.holds ((Json.walk (Path.segments path).dropLast row).getD .null) = true
  | list {items : List Json} {meanings : List (Json → Prop)} (nonempty : items ≠ [])
      (each : List.Forall₂ (Means registry view m) items meanings) :
      Means registry view m (.arr items) fun row => ∀ p ∈ meanings, p row
  | all {members : Members Json} {items : List Json} {meanings : List (Json → Prop)}
      (op : members.get? "op" = some (.str "and"))
      (scopes : members.get? "scopes" = some (.arr items)) (nonempty : items ≠ [])
      (each : List.Forall₂ (Means registry view m) items meanings) :
      Means registry view m (.obj members) fun row => ∀ p ∈ meanings, p row
  | any {members : Members Json} {items : List Json} {meanings : List (Json → Prop)}
      (op : members.get? "op" = some (.str "or"))
      (scopes : members.get? "scopes" = some (.arr items)) (nonempty : items ≠ [])
      (each : List.Forall₂ (Means registry view m) items meanings) :
      Means registry view m (.obj members) fun row => ∃ p ∈ meanings, p row

variable {registry : Registry} {view : Option ScopeTable} {m : Model}

/-! ## Names -/

theorem Means.of_segments {path : String} {names : List String} {g : FilterGroup}
    (h : Path.segments path = names) (found : Names registry view m names g) :
    Means registry view m (.str path) fun row =>
      g.holds ((Json.walk names.dropLast row).getD .null) = true := by
  subst h
  exact .name found

theorem Names.ne_nil {path : List String} {g : FilterGroup}
    (h : Names registry view m path g) : path ≠ [] := by
  cases h <;> exact List.cons_ne_nil _ _

theorem exists_names {path : List String} {g : FilterGroup}
    (h : named registry view m path = .ok g) : ∃ g', Names registry view m path g' := by
  induction path generalizing view m g with
  | nil => cases h
  | cons hop path ih =>
    cases path with
    | nil =>
      rw [named] at h
      split at h
      · next found =>
        rcases Option.or_eq_some_iff.1 found with hown | ⟨hmissing, hview⟩
        · exact ⟨_, .own hown⟩
        · obtain ⟨table, rfl, htable⟩ := Option.bind_eq_some_iff.1 hview
          exact ⟨_, .viewed hmissing htable⟩
      · cases h
    | cons next rest =>
      obtain ⟨r, hr, h⟩ := bind_eq_ok.1 h
      obtain ⟨related, hrelated, h⟩ := bind_eq_ok.1 h
      obtain ⟨g', hg', -⟩ := bind_eq_ok.1 h
      obtain ⟨g'', names⟩ := ih hg'
      exact ⟨g'', .related ⟨Model.relationship_eq_ok.1 hr, Registry.get_eq_ok.1 hrelated⟩ names⟩

/-- The filter of a name holds of a row if the scope holds of what stands where it leads. -/
theorem named_of_names (canonical : registry.CanonicalScopes) {path : List String}
    {g : FilterGroup} (names : Names registry view m path g)
    (flat : ∀ s ∈ path, '.' ∉ s.toList) :
    ∃ g', named registry view m path = .ok g' ∧
      ∀ row, g'.holds row = g.holds ((Json.walk path.dropLast row).getD .null) := by
  induction names with
  | own found => exact ⟨_, by simp only [named, found, Option.some_or], fun _ => rfl⟩
  | viewed missing found =>
    refine ⟨_, ?_, fun _ => rfl⟩
    simp only [named, missing, Option.none_or, Option.bind_some, found]
  | @related view m related hop r path g leads names ih =>
    obtain ⟨g', hg', hholds⟩ := ih fun s hs => flat s (List.mem_cons_of_mem hop hs)
    obtain ⟨next, rest, rfl⟩ := List.exists_cons_of_ne_nil names.ne_nil
    have hviewless : ∀ table ∈ (none : Option ScopeTable), CanonicalTable table :=
      fun table h => absurd h (Option.not_mem_none table)
    have hcanonical := canonical_of_named canonical hviewless leads.model hg'
    refine ⟨g'.mapAttributes fun path => hop ++ "." ++ path, ?_, fun row => ?_⟩
    · rw [named, Model.relationship_eq_ok.2 leads.relationship]
      exact bind_eq_ok.2 ⟨r, rfl, bind_eq_ok.2 ⟨related, Registry.get_eq_ok.2 leads.model,
        bind_eq_ok.2 ⟨g', hg', rfl⟩⟩⟩
    · have hprefixed := Filter.holds_prefixed (flat hop List.mem_cons_self) hcanonical row
      rw [List.dropLast_cons_cons, ← Json.walk_getD_null, ← hholds]
      exact hprefixed

/-! ## References -/

theorem resolveList_arr {items : List Json} (nonempty : items ≠ []) :
    resolveList registry m view (.arr items) = resolveAll registry m view items := by
  rw [resolveList, if_neg (by simpa using nonempty)]

theorem resolve_obj {members : Members Json} {op : String} {connective : Connective}
    (hop : members.get? "op" = some (.str op)) (hname : Connective.ofName? op = some connective) :
    resolve registry m view (.obj members) =
      do return ⟨connective, ← resolveIn registry m view members⟩ := by
  have hconnective : connective? members = some connective := by
    rw [connective?, hop, Option.bind_some, Json.string?_eq_some.2 rfl, Option.bind_some, hname]
  rw [resolve, hconnective]

/-- The two words that join references. -/
theorem op_of_connective? {members : Members Json} {op : Connective}
    (h : connective? members = some op) : members.get? "op" = some (.str op.name) := by
  obtain ⟨word, hword, hname⟩ := Option.bind_eq_some_iff.1 h
  obtain ⟨value, hvalue, hstr⟩ := Option.bind_eq_some_iff.1 hword
  rw [hvalue, Json.string?_eq_some.1 hstr, Connective.name_of_ofName? hname]

section
variable {ns : List Filter} {meanings : List (Json → Prop)}
  (h : List.Forall₂ (fun n p => ∀ row, n.holds row = true ↔ p row) ns meanings) (row : Json)
include h

theorem holds_and_iff : (FilterGroup.and ns).holds row = true ↔ ∀ p ∈ meanings, p row := by
  rw [FilterGroup.holds_and]
  induction h with
  | nil => simp
  | cons hp _ ih => rw [List.all_cons, Bool.and_eq_true, hp row, ih, List.forall_mem_cons]

theorem holds_or_iff : (FilterGroup.or ns).holds row = true ↔ ∃ p ∈ meanings, p row := by
  rw [FilterGroup.holds_or]
  induction h with
  | nil => simp
  | cons hp _ ih =>
    rw [List.any_cons, Bool.or_eq_true, hp row, ih]
    simp

end

mutual
/-- A reference that is resolved has a meaning. -/
theorem exists_means {reference : Json} {g : FilterGroup}
    (h : resolve registry m view reference = .ok g) :
    ∃ p, Means registry view m reference p := by
  match reference with
  | .str path =>
    rw [resolve] at h
    obtain ⟨g', names⟩ := exists_names h
    exact ⟨_, .name names⟩
  | .arr items =>
    rw [resolve] at h
    split at h
    · cases h
    · next hitems =>
      obtain ⟨gs, hgs, -⟩ := bind_eq_ok.1 h
      obtain ⟨meanings, each⟩ := exists_meansAll hgs
      exact ⟨_, .list (by simpa using hitems) each⟩
  | .obj members =>
    rw [resolve] at h
    split at h
    · cases h
    · next op hop =>
      obtain ⟨gs, hgs, -⟩ := bind_eq_ok.1 h
      obtain ⟨items, meanings, scopes, nonempty, each⟩ := exists_meansIn hgs
      cases op with
      | and => exact ⟨_, .all (op_of_connective? hop) scopes nonempty each⟩
      | or => exact ⟨_, .any (op_of_connective? hop) scopes nonempty each⟩
  | .null | .bool _ | .int _ | .float _ _ => cases h

theorem exists_meansIn {members : List (String × Json)} {gs : List Filter}
    (h : resolveIn registry m view members = .ok gs) :
    ∃ items meanings, Members.get? members "scopes" = some (.arr items) ∧ items ≠ [] ∧
      List.Forall₂ (Means registry view m) items meanings := by
  match members with
  | [] => cases h
  | (key, value) :: members =>
    rw [resolveIn] at h
    rw [Members.get?]
    split at h
    · obtain ⟨items, meanings, rfl, nonempty, each⟩ := exists_meansList h
      exact ⟨items, meanings, by simp [*], nonempty, each⟩
    · obtain ⟨items, meanings, scopes, nonempty, each⟩ := exists_meansIn h
      exact ⟨items, meanings, by simp [*], nonempty, each⟩

theorem exists_meansList {value : Json} {gs : List Filter}
    (h : resolveList registry m view value = .ok gs) :
    ∃ items meanings, value = .arr items ∧ items ≠ [] ∧
      List.Forall₂ (Means registry view m) items meanings := by
  match value with
  | .arr items =>
    rw [resolveList] at h
    split at h
    · cases h
    · next hitems =>
      obtain ⟨meanings, each⟩ := exists_meansAll h
      exact ⟨items, meanings, rfl, by simpa using hitems, each⟩
  | .null | .bool _ | .int _ | .float _ _ | .str _ | .obj _ => cases h

theorem exists_meansAll {items : List Json} {gs : List Filter}
    (h : resolveAll registry m view items = .ok gs) :
    ∃ meanings, List.Forall₂ (Means registry view m) items meanings := by
  match items with
  | [] => exact ⟨[], .nil⟩
  | j :: js =>
    obtain ⟨g, hg, h⟩ := bind_eq_ok.1 h
    obtain ⟨gs', hgs', -⟩ := bind_eq_ok.1 h
    obtain ⟨p, hp⟩ := exists_means hg
    obtain ⟨meanings, each⟩ := exists_meansAll hgs'
    exact ⟨p :: meanings, .cons hp each⟩
end

mutual
/-- A reference that has a meaning is resolved to a filter that means it. -/
theorem resolve_of_means (canonical : registry.CanonicalScopes) {reference : Json}
    {p : Json → Prop} (h : Means registry view m reference p) :
    ∃ g, resolve registry m view reference = .ok g ∧ ∀ row, g.holds row = true ↔ p row := by
  match reference, h with
  | .str path, .name names =>
    obtain ⟨g, hg, hholds⟩ := named_of_names canonical names fun _ => Path.not_mem_of_mem_segments
    exact ⟨g, by rw [resolve, hg], fun row => by rw [hholds]⟩
  | .arr items, .list nonempty each =>
    obtain ⟨ns, hns, hmeans⟩ := resolveAll_of_means canonical each
    refine ⟨.and ns, ?_, fun row => ?_⟩
    · rw [resolve, if_neg (by simpa using nonempty)]
      exact bind_eq_ok.2 ⟨ns, hns, rfl⟩
    · exact holds_and_iff hmeans row
  | .obj members, .all op scopes nonempty each =>
    obtain ⟨ns, hns, hmeans⟩ := resolveIn_of_means canonical scopes nonempty each
    refine ⟨.and ns, ?_, fun row => holds_and_iff hmeans row⟩
    rw [resolve_obj op rfl]
    exact bind_eq_ok.2 ⟨ns, hns, rfl⟩
  | .obj members, .any op scopes nonempty each =>
    obtain ⟨ns, hns, hmeans⟩ := resolveIn_of_means canonical scopes nonempty each
    refine ⟨.or ns, ?_, fun row => holds_or_iff hmeans row⟩
    rw [resolve_obj op rfl]
    exact bind_eq_ok.2 ⟨ns, hns, rfl⟩

theorem resolveIn_of_means (canonical : registry.CanonicalScopes)
    {members : List (String × Json)} {items : List Json} {meanings : List (Json → Prop)}
    (scopes : Members.get? members "scopes" = some (.arr items)) (nonempty : items ≠ [])
    (h : List.Forall₂ (Means registry view m) items meanings) :
    ∃ ns, resolveIn registry m view members = .ok ns ∧
      List.Forall₂ (fun n p => ∀ row, n.holds row = true ↔ p row) ns meanings := by
  match members with
  | [] => cases scopes
  | (key, value) :: members =>
    rw [Members.get?] at scopes
    rw [resolveIn]
    split at scopes
    · next hkey =>
      cases scopes
      rw [if_pos hkey, resolveList_arr nonempty]
      exact resolveAll_of_means canonical h
    · next hkey =>
      rw [if_neg hkey]
      exact resolveIn_of_means canonical scopes nonempty h

theorem resolveAll_of_means (canonical : registry.CanonicalScopes) {items : List Json}
    {meanings : List (Json → Prop)} (h : List.Forall₂ (Means registry view m) items meanings) :
    ∃ ns, resolveAll registry m view items = .ok ns ∧
      List.Forall₂ (fun n p => ∀ row, n.holds row = true ↔ p row) ns meanings := by
  match items, h with
  | [], .nil => exact ⟨[], rfl, .nil⟩
  | j :: js, .cons hp each =>
    obtain ⟨g, hg, hholds⟩ := resolve_of_means canonical hp
    obtain ⟨ns, hns, hall⟩ := resolveAll_of_means canonical each
    exact ⟨g.toFilter :: ns, bind_eq_ok.2 ⟨g, hg, bind_eq_ok.2 ⟨ns, hns, rfl⟩⟩,
      .cons hholds hall⟩
end

/-- A reference is resolved if and only if it has a meaning: it is a name that leads to a scope, or
joins references that do. The filter that it is resolved to holds of the rows that it means. -/
theorem resolve_means {specs : List ModelSpec} (loaded : Registry.ofSpecs specs = .ok registry)
    (m : Model) (view : Option ScopeTable) (reference : Json) :
    ((∃ g, resolve registry m view reference = .ok g) ↔
      ∃ p, Means registry view m reference p) ∧
    ∀ g p, resolve registry m view reference = .ok g → Means registry view m reference p →
      ∀ row, g.holds row = true ↔ p row := by
  have canonical := Registry.canonicalScopes_of_ofSpecs loaded
  refine ⟨⟨fun ⟨_, h⟩ => exists_means h, fun ⟨_, h⟩ => ?_⟩, fun g p hg hp => ?_⟩
  · obtain ⟨g, hg, -⟩ := resolve_of_means canonical h
    exact ⟨g, hg⟩
  · obtain ⟨g', hg', hholds⟩ := resolve_of_means canonical hp
    obtain rfl := Except.ok.inj (hg.symm.trans hg')
    exact hholds

end Scope

namespace Sagas
open Scope

def alive : FilterGroup := .and [.condition ⟨"died", .isEmpty, .null⟩]

/-- A view with a scope of those who are alive. -/
def living : ScopeTable := [("alive", alive)]

/-- The authors who are alive, and those of sagas. -/
def livingOrSagas : Json :=
  .obj [("op", .str "or"), ("scopes", .arr [.str "alive", .arr [.str "books.saga"]])]

/-- What stands in a row under its books is taken for a book. -/
theorem resolve_livingOrSagas :
    Registry.ofSpecs (specs "books" "saga" "id") = .ok (registry "books" "saga" "id") ∧
    ∃ g, resolve (registry "books" "saga" "id") (authorModel "books" "id") (some living)
        livingOrSagas = .ok g ∧
      ∀ row, g.holds row = true ↔
        alive.holds row = true ∨ saga.holds ((Json.walk ["books"] row).getD .null) = true := by
  have halive : Path.segments "alive" = ["alive"] := by decide +kernel
  have hsaga : Path.segments "books.saga" = ["books", "saga"] := by decide +kernel
  have leads : (registry "books" "saga" "id").Leads (authorModel "books" "id") "books"
      (booksOf "books" "id") (bookModel "saga") := ⟨rfl, rfl⟩
  have means : Means (registry "books" "saga" "id") (some living) (authorModel "books" "id")
      livingOrSagas _ :=
    .any rfl rfl (List.cons_ne_nil _ _)
      (.cons (.of_segments halive (.viewed rfl rfl))
        (.cons (.list (List.cons_ne_nil _ _)
          (.cons (.of_segments hsaga (.related leads (.own rfl))) .nil)) .nil))
  obtain ⟨hresolves, hmeaning⟩ := resolve_means (loaded "books" "saga" "id")
    (authorModel "books" "id") (some living) livingOrSagas
  obtain ⟨g, hg⟩ := hresolves.2 ⟨_, means⟩
  refine ⟨loaded _ _ _, g, hg, fun row => ?_⟩
  rw [hmeaning g _ hg means row]
  simp

end Sagas
end ModelActions
