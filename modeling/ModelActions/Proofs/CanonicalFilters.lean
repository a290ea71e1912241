import ModelActions.Filter.Grammar
import ModelActions.Filter.Wire
import ModelActions.Proofs.Computation

/-!
# Canonical filters

Filters that were checked have attributes at all leaves and children in all groups. Such a filter,
written as JSON, is in the form of a group, and reading it again changes nothing.
-/
namespace ModelActions.Filter

mutual
/-- Leaves name an attribute and groups are not empty. -/
def Canonical : Filter → Prop
  | .condition c => c.path ≠ ""
  | .group _ children => children ≠ [] ∧ CanonicalAll children

def CanonicalAll : List Filter → Prop
  | [] => True
  | n :: ns => Canonical n ∧ CanonicalAll ns
end

theorem checkConnective_toJson (path : String) (op : Connective) (conditions : Json) :
    checkConnective path [("conditions", conditions), ("op", .str op.name)] = .ok op := by
  cases op <;> rfl

theorem path_of_checkLeaf {place : String} {members : Members Json} {c : Condition}
    (h : checkLeaf place members = .ok c) : c.path ≠ "" := by
  unfold checkLeaf at h
  split at h
  · cases h
  · cases h
  · next path hne _ =>
    split at h
    · cases h
      exact fun hpath => hne hpath
    · cases h

theorem ne_nil_of_checkChildren {path : String} {i : Nat} {items : List Json}
    {children : List Filter} (hitems : items.isEmpty = false)
    (h : checkChildren path i items = .ok children) : children ≠ [] := by
  cases items with
  | nil => cases hitems
  | cons j js =>
    rw [checkChildren] at h
    obtain ⟨child, -, h⟩ := bind_eq_ok.1 h
    obtain ⟨rest, -, h⟩ := bind_eq_ok.1 h
    cases h
    exact List.cons_ne_nil child rest

mutual
theorem canonical_of_checkMembers {path : String} {members : List (String × Json)}
    {children : List Filter} (h : checkMembers path members = .ok children) :
    children ≠ [] ∧ CanonicalAll children := by
  match members with
  | [] => cases h
  | (key, value) :: members =>
    rw [checkMembers] at h
    split at h
    · exact canonical_of_checkConditions h
    · exact canonical_of_checkMembers h

theorem canonical_of_checkConditions {path : String} {value : Json} {children : List Filter}
    (h : checkConditions path value = .ok children) : children ≠ [] ∧ CanonicalAll children := by
  match value with
  | .arr items =>
    rw [checkConditions] at h
    split at h
    · cases h
    · next hitems =>
      rw [Bool.not_eq_true] at hitems
      exact ⟨ne_nil_of_checkChildren hitems h, canonical_of_checkChildren h⟩
  | .null | .bool _ | .int _ | .float _ _ | .str _ | .obj _ => cases h

theorem canonical_of_checkChildren {path : String} {i : Nat} {items : List Json}
    {children : List Filter} (h : checkChildren path i items = .ok children) :
    CanonicalAll children := by
  match items with
  | [] =>
    cases h
    trivial
  | j :: js =>
    rw [checkChildren] at h
    obtain ⟨child, hchild, h⟩ := bind_eq_ok.1 h
    obtain ⟨rest, hrest, h⟩ := bind_eq_ok.1 h
    cases h
    exact ⟨canonical_of_checkChild hchild, canonical_of_checkChildren hrest⟩

theorem canonical_of_checkChild {place : String} {value : Json} {child : Filter}
    (h : checkChild place value = .ok child) : Canonical child := by
  match value with
  | .obj members =>
    rw [checkChild] at h
    split at h
    · obtain ⟨op, -, h⟩ := bind_eq_ok.1 h
      obtain ⟨children, hchildren, h⟩ := bind_eq_ok.1 h
      cases h
      exact canonical_of_checkMembers hchildren
    · obtain ⟨c, hc, h⟩ := bind_eq_ok.1 h
      cases h
      exact path_of_checkLeaf hc
  | .null | .bool _ | .int _ | .float _ _ | .str _ | .arr _ => cases h
end

theorem toJsonAll_eq (ns : List Filter) : toJsonAll ns = ns.map toJson := by
  induction ns with
  | nil => rfl
  | cons n ns ih => rw [toJsonAll, ih, List.map_cons]

theorem checkLeaf_toJson {c : Condition} (h : c.path ≠ "") (place : String) :
    checkChild place c.toJson = .ok (.condition c) := by
  have hleaf : checkLeaf place [("attribute", .str c.path), ("op", .str c.op.name),
      ("value", c.value)] = .ok c := by
    simp [checkLeaf, Members.get?, Json.string?]
  simp only [Condition.toJson, conditionJson, checkChild, Members.has, Members.get?]
  simp [hleaf, bind, Except.bind, pure, Except.pure]

mutual
theorem checkChild_toJson {n : Filter} (h : n.Canonical) (place : String) :
    checkChild place n.toJson = .ok n := by
  match n with
  | .condition c => exact checkLeaf_toJson h place
  | .group op children =>
    have hop := checkConnective_toJson (place ++ ".") op (.arr (toJsonAll children))
    have hchildren := checkMembers_toJson h.1 h.2 (place ++ ".") (.str op.name)
    have hgroup : Members.has [("conditions", Json.arr (toJsonAll children)), ("op", .str op.name)]
        "conditions" = true := rfl
    rw [toJson, groupJson, checkChild, if_pos hgroup, hop, hchildren]
    rfl

theorem checkMembers_toJson {ns : List Filter} (hne : ns ≠ []) (h : CanonicalAll ns)
    (path : String) (op : Json) :
    checkMembers path [("conditions", .arr (toJsonAll ns)), ("op", op)] = .ok ns := by
  have hitems : (toJsonAll ns).isEmpty = false := by simpa [toJsonAll_eq] using hne
  rw [checkMembers, if_pos rfl, checkConditions, hitems, if_neg Bool.false_ne_true]
  exact checkChildren_toJson h path 0

theorem checkChildren_toJson {ns : List Filter} (h : CanonicalAll ns) (path : String) (i : Nat) :
    checkChildren path i (toJsonAll ns) = .ok ns := by
  match ns with
  | [] => rfl
  | n :: ns =>
    rw [toJsonAll, checkChildren, checkChild_toJson h.1, checkChildren_toJson h.2]
    rfl
end

theorem check_toJson {g : FilterGroup} (hne : g.children ≠ []) (h : CanonicalAll g.children) :
    check g.toJson = .ok g := by
  have hop := checkConnective_toJson "" g.op (.arr (toJsonAll g.children))
  have hchildren := checkMembers_toJson hne h "" (.str g.op.name)
  rw [FilterGroup.toJson, FilterGroup.toFilter, toJson, groupJson, check, hop, hchildren]
  rfl

/-- A filter is there if its expanded form is accepted. -/
theorem parse_eq_ok_some {written : Json} {g : FilterGroup} :
    parse written = .ok (some g) ↔
      ∃ expanded, expandShorthand written = .ok expanded ∧ check expanded = .ok g := by
  constructor
  · intro h
    obtain ⟨expanded, hexpand, h⟩ := bind_eq_ok.1 h
    split at h
    · cases h
    · obtain ⟨g', hcheck, h⟩ := bind_eq_ok.1 h
      cases h
      exact ⟨expanded, hexpand, hcheck⟩
  · rintro ⟨expanded, hexpand, hcheck⟩
    refine bind_eq_ok.2 ⟨expanded, hexpand, ?_⟩
    split
    · cases hcheck
    · exact bind_eq_ok.2 ⟨g, hcheck, rfl⟩

/-- A canonical filter, written as JSON, is read as what it is. -/
theorem parse_toJson {g : FilterGroup} (hne : g.children ≠ []) (h : CanonicalAll g.children) :
    parse g.toJson = .ok (some g) :=
  parse_eq_ok_some.2 ⟨g.toJson, rfl, check_toJson hne h⟩

theorem canonical_of_check {written : Json} {g : FilterGroup} (h : check written = .ok g) :
    g.children ≠ [] ∧ CanonicalAll g.children := by
  cases written with
  | obj members =>
    obtain ⟨op, -, h⟩ := bind_eq_ok.1 h
    obtain ⟨children, hchildren, h⟩ := bind_eq_ok.1 h
    cases h
    exact canonical_of_checkMembers hchildren
  | _ => cases h

/-- A filter that was read once is read again from its canonical form. -/
theorem parse_toJson_of_parse {written : Json} {g : FilterGroup}
    (h : parse written = .ok (some g)) : parse g.toJson = .ok (some g) := by
  obtain ⟨expanded, -, hcheck⟩ := parse_eq_ok_some.1 h
  obtain ⟨hne, hcanonical⟩ := canonical_of_check hcheck
  exact parse_toJson hne hcanonical

end ModelActions.Filter
