import ModelActions.Operation.Wire
import ModelActions.Proofs.RecordForms

/-!
# Operations read back

Every operation is read from its JSON as what it is, whatever values it holds, and so is a selection
with its echo. The exception is a select whose scopes are null, which are not told from none.
-/
namespace ModelActions

namespace Filter

mutual
/-- A leaf has no conditions and a group has no attribute, so neither is read as the other. -/
theorem ofJson?_toJson (n : Filter) : ofJson? n.toJson = some n := by
  match n with
  | .condition c =>
    have hleaf : Condition.ofMembers? [("attribute", .str c.path), ("op", .str c.op.name),
        ("value", c.value)] = some c := c.ofJson?_toJson
    rw [toJson, Condition.toJson, conditionJson, ofJson?, hleaf]
    simp [childrenIn?]
  | .group op children =>
    have hop : Connective.ofJson? (.str op.name) = some op := op.ofName?_name
    have hchildren : childrenIn? [("conditions", .arr (toJsonAll children)), ("op", .str op.name)] =
        some children := ofJsonAll?_toJson children
    simp only [toJson, groupJson, ofJson?, hchildren, Members.get?]
    simp [hop]

theorem ofJsonAll?_toJson (ns : List Filter) : ofJsonAll? (toJsonAll ns) = some ns := by
  match ns with
  | [] => rfl
  | n :: ns =>
    rw [toJsonAll, ofJsonAll?, ofJson?_toJson n, ofJsonAll?_toJson ns]
    rfl
end

end Filter

theorem FilterGroup.ofJson?_toJson (g : FilterGroup) : ofJson? g.toJson = some g := by
  rw [ofJson?, toJson, Filter.ofJson?_toJson]
  rfl

theorem SortKey.ofJson?_toJson (s : SortKey) : ofJson? s.toJson = some s := by
  simp [ofJson?, toJson, Json.record?, Json.hasSurplus, Json.namedFields?, Members.required,
    Members.get?, Json.string?, SortDirection.ofJson?, Json.name?]

theorem JoinKind.ofJson?_str (k : JoinKind) : ofJson? (.str k.name) = some k := by cases k <;> rfl

theorem JoinCondition.ofJson?_toJson (c : JoinCondition) : ofJson? c.toJson = some c := by
  simp [ofJson?, toJson, Json.record?, Json.hasSurplus, Json.namedFields?, Members.required,
    Members.get?, Json.string?]

theorem Join.ofJson?_toJson (j : Join) : ofJson? j.toJson = some j := by
  have hconditions := Json.listOf_map JoinCondition.ofJson? j.conditions
    fun c _ => c.ofJson?_toJson
  simp [ofJson?, toJson, Json.record?, Json.hasSurplus, Json.namedFields?, Members.required,
    Members.get?, Json.string?, JoinKind.ofJson?_str, hconditions]

theorem Pagination.ofJson?_toJson (p : Pagination) : ofJson? p.toJson = some p := by
  have hget := Members.get?_written [("cursor", p.cursor.map Json.str),
    ("page", p.page.map .ofNat), ("per_page", some (.ofNat p.perPage))] (by simp [Members.keys])
  have hpage := Members.optional_eq Json.count? (hget "page") fun n _ => rfl
  have hperPage := Members.required_eq Json.count? (hget "per_page") rfl
  have hcursor := Members.optional_eq Json.string? (hget "cursor") fun s _ => rfl
  rw [ofJson?, toJson, Json.object_eq]
  simp [Json.record?, Json.hasSurplus, Json.namedFields?, hpage, hperPage, hcursor]

/-- What was written field by field is found under each name, where nothing but a `type` was put
besides. -/
def Members.Holds (r : Members Json) (fields : Members (Option Json)) : Prop :=
  ∀ key, key ≠ "type" → r.get? key = (fields.get? key).join

theorem Payload.ofMember?_toMember (p : Payload) :
    ofMember? p.toMember.1 p.toMember.2 = some p := by
  cases p with
  | row r => rfl
  | rows rs =>
    have hrows : Json.listOf Json.members? (.arr (rs.map .obj)) = some rs :=
      Json.listOf_map Json.members? rs fun _ _ => rfl
    simp [toMember, ofMember?, hrows]

theorem Insert.ofMembers?_of_holds {op : Insert} {r : Members Json} (hr : r.Holds op.toMembers) :
    ofMembers? r = some op := by
  have htable := Members.required_eq Json.string? (hr "table" (by decide)) rfl
  have hmodel := Members.required_eq Json.string? (hr "modelName" (by decide)) rfl
  have hpayload := op.payload.ofMember?_toMember
  obtain ⟨table, model, payload⟩ := op
  cases payload with
  | row row =>
    have hrow : r.get? "row" = some (.obj row) := hr "row" (by decide)
    simp [ofMembers?, htable, hmodel, hrow, Payload.ofMember?, Json.members?]
  | rows rows =>
    have hrow : r.get? "row" = none := hr "row" (by decide)
    have hrows : r.get? "rows" = some (.arr (rows.map .obj)) := hr "rows" (by decide)
    have hpayload : Payload.ofMember? "rows" (.arr (rows.map .obj)) = some (.rows rows) := hpayload
    simp [ofMembers?, htable, hmodel, hrow, hrows, hpayload]

theorem Update.ofMembers?_of_holds {op : Update} {r : Members Json} (hr : r.Holds op.toMembers) :
    ofMembers? r = some op := by
  have htable := Members.required_eq Json.string? (hr "table" (by decide)) rfl
  have hmodel := Members.required_eq Json.string? (hr "modelName" (by decide)) rfl
  have hdata := Members.required_eq Json.members? (hr "data" (by decide)) rfl
  have hconditions := Members.required_eq FilterGroup.ofJson? (hr "conditions" (by decide))
    op.conditions.ofJson?_toJson
  simp [ofMembers?, htable, hmodel, hdata, hconditions]

theorem Delete.ofMembers?_of_holds {op : Delete} {r : Members Json} (hr : r.Holds op.toMembers) :
    ofMembers? r = some op := by
  have htable := Members.required_eq Json.string? (hr "table" (by decide)) rfl
  have hmodel := Members.required_eq Json.string? (hr "modelName" (by decide)) rfl
  have hconditions := Members.required_eq FilterGroup.ofJson? (hr "conditions" (by decide))
    op.conditions.ofJson?_toJson
  have hsoft := Members.defaulted_eq Json.bool? false
    (hr "soft" (by decide)) rfl
  simp [ofMembers?, htable, hmodel, hconditions, hsoft]

theorem Select.ofMembers?_of_holds {op : Select} (scopes : op.scopes ≠ some .null)
    {r : Members Json} (hr : r.Holds op.toMembers) : ofMembers? r = some op := by
  have htable := Members.required_eq Json.string? (hr "table" (by decide)) rfl
  have hmodel := Members.required_eq Json.string? (hr "modelName" (by decide)) rfl
  have hpurpose := Members.optional_eq Json.string? (hr "purpose" (by decide))
    fun s _ => rfl
  have hfilters := Members.optional_eq FilterGroup.ofJson? (hr "filters" (by decide))
    fun g _ => Json.orNull_eq _ g.ofJson?_toJson rfl
  have hsorts := Json.defaulted_ofNonempty SortKey.ofJson? (hr "sorts" (by decide))
    fun s _ => s.ofJson?_toJson
  have hpagination := Members.optional_eq Pagination.ofJson? (hr "pagination" (by decide))
    fun p _ => Json.orNull_eq _ p.ofJson?_toJson rfl
  have hcolumns := Members.optional_eq (Json.listOf Json.string?) (hr "attributes" (by decide))
    fun ss _ => Json.orNull_eq _ (Json.listOf_ofStrings ss) rfl
  have hexpand := Json.defaulted_ofNonempty Json.string? (hr "expand" (by decide))
    fun s _ => rfl
  have hjoins := Json.defaulted_ofNonempty Join.ofJson? (hr "joins" (by decide))
    fun j _ => j.ofJson?_toJson
  have hscopes : r.optional "scopes" some = some op.scopes := by
    have hget : r.get? "scopes" = op.scopes.map id := by
      rw [hr "scopes" (by decide), Option.map_id]
      rfl
    refine Members.optional_eq some hget fun j hj => Json.orNull_eq some rfl ?_
    cases j with
    | null => exact absurd hj scopes
    | _ => rfl
  simp [ofMembers?, htable, hmodel, hpurpose, hfilters, hsorts, hpagination, hcolumns, hexpand,
    hjoins, hscopes]

theorem Select.ofJson?_toJson {op : Select} (scopes : op.scopes ≠ some .null) :
    ofJson? op.toJson = some op := by
  have distinct : (Members.keys op.toMembers).Nodup := by simp [toMembers, Members.keys]
  exact ofMembers?_of_holds scopes fun key _ => Members.get?_written op.toMembers distinct key

namespace Operation

/-- The fields of an operation besides its kind. -/
def toMembers : Operation → Members (Option Json)
  | .insert op => op.toMembers
  | .update op => op.toMembers
  | .delete op => op.toMembers
  | .select op => op.toMembers

theorem toJson_eq (op : Operation) :
    op.toJson = .object (("type", some (.str op.kind)) :: op.toMembers) := by cases op <;> rfl

theorem nodup_keys (op : Operation) :
    (Members.keys (("type", some (.str op.kind)) :: op.toMembers)).Nodup := by
  cases op with
  | insert op =>
    obtain ⟨table, model, payload⟩ := op
    cases payload <;> simp [Members.keys, toMembers, Insert.toMembers, Payload.toMember]
  | update op => simp [Members.keys, toMembers, Update.toMembers]
  | delete op => simp [Members.keys, toMembers, Delete.toMembers]
  | select op => simp [Members.keys, toMembers, Select.toMembers]

/-- The kind of an operation stands apart from its other fields. -/
theorem untag?_toJson (op : Operation) :
    ∃ r : Members Json, untag? op.toJson = some (op.kind, .obj r) ∧ r.Holds op.toMembers := by
  have hget := Members.get?_written _ op.nodup_keys
  let members := Members.written (("type", some (.str op.kind)) :: op.toMembers)
  refine ⟨members.erase "type", ?_, fun key hkey => ?_⟩
  · rw [toJson_eq, Json.object_eq, untag?, hget]
    rfl
  · rw [Members.get?_erase, if_neg hkey, hget, Members.get?_cons, if_neg (Ne.symm hkey)]

/-- The scopes that a select echoes; other operations have none. -/
def scopes? : Operation → Option Json
  | .select op => op.scopes
  | _ => none

theorem ofJson?_toJson (op : Operation) (scopes : op.scopes? ≠ some .null) :
    ofJson? op.toJson = some op := by
  obtain ⟨r, huntag, hr⟩ := op.untag?_toJson
  rw [ofJson?, huntag]
  cases op with
  | insert op => simp [kind, Json.members?, Insert.ofMembers?_of_holds hr]
  | update op =>
    simp [kind, Json.record?, Json.hasSurplus, Json.namedFields?, Update.ofMembers?_of_holds hr]
  | delete op =>
    simp [kind, Json.record?, Json.hasSurplus, Json.namedFields?, Delete.ofMembers?_of_holds hr]
  | select op =>
    simp [kind, Select.ofJson?, Json.record?, Json.hasSurplus, Json.namedFields?,
      Select.ofMembers?_of_holds scopes hr]

end Operation

theorem Selection.ofJson?_toJson (s : Selection) (scopes : s.operation.scopes ≠ some .null) :
    ofJson? s.toJson = some s := by
  have hget := Members.get?_written [("operation", some s.operation.toJson),
    ("result", some (.arr s.result)), ("total", s.total.map .ofNat)] (by simp [Members.keys])
  have hresult := Members.required_eq Json.items? (hget "result") rfl
  have hoperation := Members.required_eq Select.ofJson? (hget "operation")
    (Select.ofJson?_toJson scopes)
  have htotal := Members.optional_eq Json.count? (hget "total") fun n _ => rfl
  rw [ofJson?, toJson, Json.object_eq]
  simp [Json.record?, Json.hasSurplus, Json.namedFields?, hresult, hoperation, htotal]

end ModelActions
