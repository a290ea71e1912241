import ModelActions.Proofs.CanonicalScopes
import ModelActions.Proofs.OperationForms

/-!
# Filters read alike

There are two readers of a filter in the form of a group: one checks it and names the first offence,
the other decodes it as a field of an operation and takes more forms than the first. What the first
accepts, the second reads as the same tree. So it does not matter which of them reads a filter, nor
how often it is expanded, written and read again.
-/
namespace ModelActions
namespace Filter

theorem childrenIn?_of_not_has {members : Members Json}
    (h : ¬Members.has members "conditions" = true) : childrenIn? members = none := by
  induction members with
  | nil => rfl
  | cons e members ih =>
    obtain ⟨key, value⟩ := e
    by_cases hkey : key = "conditions"
    · simp [Members.has, Members.get?, hkey] at h
    · simp only [Members.has, Members.get?, if_neg hkey] at h
      simpa [childrenIn?, hkey] using ih h

theorem ofJson?_of_checkConnective {path : String} {members : Members Json} {op : Connective}
    (h : checkConnective path members = .ok op) :
    (members.get? "op").bind Connective.ofJson? = some op := by
  have hname {s : String} (hs : (members.get? "op").bind Json.string? = some s) :
      (members.get? "op").bind Connective.ofJson? = Connective.ofName? s := by
    obtain ⟨j, hget, hj⟩ := Option.bind_eq_some_iff.1 hs
    rw [hget, Json.string?_eq_some.1 hj]
    rfl
  unfold checkConnective at h
  split at h
  · next hs =>
    cases h
    exact hname hs
  · next hs =>
    cases h
    exact hname hs
  · cases h

theorem ofMembers?_of_checkLeaf {place : String} {members : Members Json} {c : Condition}
    (h : checkLeaf place members = .ok c) : Condition.ofMembers? members = some c := by
  unfold checkLeaf at h
  split at h
  · cases h
  · cases h
  · next path _ hpath =>
    split at h
    · next op hop =>
      cases h
      obtain ⟨name, hname, hop⟩ := Option.bind_eq_some_iff.1 hop
      obtain ⟨j, hget, hj⟩ := Option.bind_eq_some_iff.1 hname
      have hcomparator : (members.get? "op").bind Comparator.ofJson? = some op := by
        rw [hget, Json.string?_eq_some.1 hj]
        exact hop
      have hvalue : members.defaulted "value" some .null =
          some ((members.get? "value").getD .null) := by
        unfold Members.defaulted
        cases members.get? "value" <;> rfl
      simp [Condition.ofMembers?, Members.required, hpath, hcomparator, hvalue]
    · cases h

mutual
theorem childrenIn?_of_checkMembers {path : String} {members : List (String × Json)}
    {children : List Filter} (h : checkMembers path members = .ok children) :
    childrenIn? members = some children := by
  match members with
  | [] => cases h
  | (key, value) :: members =>
    rw [checkMembers] at h
    rw [childrenIn?]
    split at h
    · next hkey =>
      rw [if_pos hkey]
      exact children?_of_checkConditions h
    · next hkey =>
      rw [if_neg hkey]
      exact childrenIn?_of_checkMembers h

theorem children?_of_checkConditions {path : String} {value : Json} {children : List Filter}
    (h : checkConditions path value = .ok children) : children? value = some children := by
  match value with
  | .arr items =>
    rw [checkConditions] at h
    split at h
    · cases h
    · exact ofJsonAll?_of_checkChildren h
  | .null | .bool _ | .int _ | .float _ _ | .str _ | .obj _ => cases h

theorem ofJsonAll?_of_checkChildren {path : String} {i : Nat} {items : List Json}
    {children : List Filter} (h : checkChildren path i items = .ok children) :
    ofJsonAll? items = some children := by
  match items with
  | [] =>
    cases h
    rfl
  | j :: js =>
    rw [checkChildren] at h
    obtain ⟨child, hchild, h⟩ := bind_eq_ok.1 h
    obtain ⟨rest, hrest, h⟩ := bind_eq_ok.1 h
    cases h
    rw [ofJsonAll?, ofJson?_of_checkChild hchild, ofJsonAll?_of_checkChildren hrest]
    rfl

/-- The check tells groups from leaves by the presence of `conditions`, the decoder by what can be
read. Neither takes what the other would call a leaf for a group. -/
theorem ofJson?_of_checkChild {place : String} {value : Json} {child : Filter}
    (h : checkChild place value = .ok child) : ofJson? value = some child := by
  match value with
  | .obj members =>
    rw [checkChild] at h
    rw [ofJson?]
    split at h
    · obtain ⟨op, hop, h⟩ := bind_eq_ok.1 h
      obtain ⟨children, hchildren, h⟩ := bind_eq_ok.1 h
      cases h
      rw [ofJson?_of_checkConnective hop, childrenIn?_of_checkMembers hchildren]
    · next hgroup =>
      obtain ⟨c, hc, h⟩ := bind_eq_ok.1 h
      cases h
      rw [childrenIn?_of_not_has hgroup, ofMembers?_of_checkLeaf hc]
      cases (Members.get? members "op").bind Connective.ofJson? <;> rfl
  | .null | .bool _ | .int _ | .float _ _ | .str _ | .arr _ => cases h
end

/-- A filter that is accepted is decoded as the same tree. -/
theorem ofJson?_of_check {written : Json} {g : FilterGroup} (h : check written = .ok g) :
    FilterGroup.ofJson? written = some g := by
  match written with
  | .obj members =>
    obtain ⟨op, hop, h⟩ := bind_eq_ok.1 h
    obtain ⟨children, hchildren, h⟩ := bind_eq_ok.1 h
    cases h
    rw [FilterGroup.ofJson?, ofJson?, ofJson?_of_checkConnective hop,
      childrenIn?_of_checkMembers hchildren]
  | .null | .bool _ | .int _ | .float _ _ | .str _ | .arr _ => cases h

/-- Only groups are accepted, and a group is kept when it is expanded. -/
theorem expandShorthand_of_check {expanded : Json} {g : FilterGroup}
    (h : check expanded = .ok g) : expandShorthand expanded = .ok expanded := by
  match expanded with
  | .obj members =>
    obtain ⟨op, -, h⟩ := bind_eq_ok.1 h
    obtain ⟨children, hchildren, -⟩ := bind_eq_ok.1 h
    have hgroup : Members.has members "conditions" = true := Decidable.byContradiction fun hnot =>
      Option.some_ne_none children <|
        (childrenIn?_of_checkMembers hchildren).symm.trans (childrenIn?_of_not_has hnot)
    have hmembers : members.isEmpty = false := by
      cases members with
      | nil => contradiction
      | cons => rfl
    simp [expandShorthand, hmembers, hgroup]
  | .null | .bool _ | .int _ | .float _ _ | .str _ | .arr _ => cases h

/-- Expanding a filter first makes no difference to how it is read. -/
theorem parse_expandShorthand {written : Json} {g : FilterGroup}
    (h : parse written = .ok (some g)) :
    ∃ expanded, expandShorthand written = .ok expanded ∧ parse expanded = .ok (some g) := by
  obtain ⟨expanded, hexpand, hcheck⟩ := parse_eq_ok_some.1 h
  exact ⟨expanded, hexpand,
    parse_eq_ok_some.2 ⟨expanded, expandShorthand_of_check hcheck, hcheck⟩⟩

end Filter

/-- Canonical filters have one reading. What the check accepts is decoded as the same tree. A
canonical tree, written as JSON, is accepted and decoded as what it is. And a filter that was read
in any of its written forms is read as the same tree from its expanded form and from its canonical
one. -/
theorem filters_read_alike :
    (∀ (written : Json) (g : FilterGroup), Filter.check written = .ok g →
      FilterGroup.ofJson? written = some g) ∧
    (∀ g : FilterGroup, g.toFilter.Canonical →
      Filter.check g.toJson = .ok g ∧ FilterGroup.ofJson? g.toJson = some g) ∧
    ∀ (written : Json) (g : FilterGroup), Filter.parse written = .ok (some g) →
      (∃ expanded, Filter.expandShorthand written = .ok expanded ∧
        Filter.parse expanded = .ok (some g)) ∧
      Filter.parse g.toJson = .ok (some g) := by
  refine ⟨fun written g => Filter.ofJson?_of_check, fun g canonical => ?_, fun written g h => ?_⟩
  · exact ⟨Filter.check_toJson canonical.1 canonical.2, g.ofJson?_toJson⟩
  · exact ⟨Filter.parse_expandShorthand h, Filter.parse_toJson_of_parse h⟩

namespace Blog

/-- What has no title, or is by Ada and about Babbage. -/
def untitledOrByAda : FilterGroup :=
  .or [.condition ⟨"title", .isEmpty, .null⟩,
    .group .and [.condition ⟨"author", .is, .str "Ada"⟩,
      .condition ⟨"topics", .contains, .str "Babbage"⟩]]

/-- The same, with remarks that no filter has and without the value that a leaf may leave out. -/
def untitledOrByAdaRemarked : Json :=
  .obj [("conditions", .arr [
      .obj [("attribute", .str "title"), ("children", .arr []), ("op", .str "is_empty")],
      .obj [("attribute", .int 1),
        ("conditions", .arr [
          .obj [("attribute", .str "author"), ("op", .str "is"), ("value", .str "Ada")],
          .obj [("attribute", .str "topics"), ("op", .str "contains"),
            ("value", .str "Babbage")]]),
        ("op", .str "and")]]),
    ("op", .str "or"),
    ("remark", .null)]

def byAda : FilterGroup :=
  .and [.condition ⟨"author", .eq, .str "Ada"⟩, .condition ⟨"editor", .eq, .null⟩]

def byAdaShorthand : Json := .obj [("author", .str "Ada"), ("editor", .null)]

theorem untitledOrByAda_read_alike :
    (Filter.check untitledOrByAdaRemarked = .ok untitledOrByAda ∧
      FilterGroup.ofJson? untitledOrByAdaRemarked = some untitledOrByAda) ∧
    (untitledOrByAda.toFilter.Canonical ∧
      Filter.check untitledOrByAda.toJson = .ok untitledOrByAda ∧
      FilterGroup.ofJson? untitledOrByAda.toJson = some untitledOrByAda) ∧
    Filter.parse byAdaShorthand = .ok (some byAda) ∧
      (∃ expanded, Filter.expandShorthand byAdaShorthand = .ok expanded ∧
        Filter.parse expanded = .ok (some byAda)) ∧
      Filter.parse byAda.toJson = .ok (some byAda) := by
  have hcheck : Filter.check untitledOrByAdaRemarked = .ok untitledOrByAda := by rfl
  have hcanonical : untitledOrByAda.toFilter.Canonical := by
    simp [untitledOrByAda, FilterGroup.or, FilterGroup.toFilter, Filter.Canonical,
      Filter.CanonicalAll]
  obtain ⟨hdecoded, hwritten, hparsed⟩ := filters_read_alike
  exact ⟨⟨hcheck, hdecoded _ _ hcheck⟩, ⟨hcanonical, hwritten _ hcanonical⟩,
    by rfl, hparsed _ _ rfl⟩

end Blog
end ModelActions
