import ModelActions.Filter.Wire
import ModelActions.Operation.Basic

/-!
# Operations as JSON

Empty lists and absent options are left out when written. An operation carries its kind under
`type`, or as its first item when it is written as an array.
-/
namespace ModelActions

namespace SortDirection

def ofJson? (j : Json) : Option SortDirection := j.name?.bind ofName?

end SortDirection

namespace SortKey

def fields : List String := ["attribute", "direction"]

def toJson (s : SortKey) : Json :=
  .obj [("attribute", .str s.column), ("direction", .str s.direction.name)]

def ofJson? (j : Json) : Option SortKey := do
  let r ← j.record? fields
  return ⟨← r.required "attribute" Json.string?, ← r.required "direction" SortDirection.ofJson?⟩

end SortKey

namespace Pagination

def fields : List String := ["page", "per_page", "cursor"]

def toJson (p : Pagination) : Json :=
  .object [("cursor", p.cursor.map .str), ("page", p.page.map .ofNat),
    ("per_page", some (.ofNat p.perPage))]

def ofJson? (j : Json) : Option Pagination := do
  let r ← j.record? fields
  return {
    page := ← r.optional "page" Json.count?
    perPage := ← r.required "per_page" Json.count?
    cursor := ← r.optional "cursor" Json.string? }

end Pagination

namespace JoinKind

def name : JoinKind → String
  | inner => "inner"
  | left => "left"

def ofJson? (j : Json) : Option JoinKind :=
  match j.name? with
  | some "inner" => some inner
  | some "left" => some left
  | _ => none

end JoinKind

namespace JoinCondition

def fields : List String := ["left", "right"]

def toJson (c : JoinCondition) : Json := .obj [("left", .str c.left), ("right", .str c.right)]

def ofJson? (j : Json) : Option JoinCondition := do
  let r ← j.record? fields
  return ⟨← r.required "left" Json.string?, ← r.required "right" Json.string?⟩

end JoinCondition

namespace Join

def fields : List String := ["table", "type", "conditions"]

def toJson (j : Join) : Json :=
  .obj [("conditions", .arr (j.conditions.map JoinCondition.toJson)), ("table", .str j.table),
    ("type", .str j.kind.name)]

def ofJson? (j : Json) : Option Join := do
  let r ← j.record? fields
  return {
    table := ← r.required "table" Json.string?
    kind := ← r.required "type" JoinKind.ofJson?
    conditions := ← r.required "conditions" (Json.listOf JoinCondition.ofJson?) }

end Join

namespace Payload

def toMember : Payload → String × Json
  | row r => ("row", .obj r)
  | rows rs => ("rows", .arr (rs.map .obj))

def ofMember? (key : String) (value : Json) : Option Payload :=
  if key = "row" then value.members?.map .row
  else if key = "rows" then (Json.listOf Json.members? value).map .rows
  else none

/-- A payload that stands alone, as an object with one member. -/
def ofJson? : Json → Option Payload
  | .obj [(key, value)] => ofMember? key value
  | _ => none

end Payload

namespace Insert

def toMembers (op : Insert) : List (String × Option Json) :=
  [("modelName", some (.str op.model)), ("table", some (.str op.table)),
    (op.payload.toMember.1, some op.payload.toMember.2)]

/-- The payload is read from the member `row`, or else from `rows`. -/
def ofMembers? (r : Members Json) : Option Insert := do
  return {
    table := ← r.required "table" Json.string?
    model := ← r.required "modelName" Json.string?
    payload := ← match r.get? "row" with
      | some j => Payload.ofMember? "row" j
      | none => (r.get? "rows").bind (Payload.ofMember? "rows") }

end Insert

namespace Update

def fields : List String := ["table", "modelName", "data", "conditions"]

def toMembers (op : Update) : List (String × Option Json) :=
  [("conditions", some op.conditions.toJson), ("data", some (.obj op.data)),
    ("modelName", some (.str op.model)), ("table", some (.str op.table))]

def ofMembers? (r : Members Json) : Option Update := do
  return {
    table := ← r.required "table" Json.string?
    model := ← r.required "modelName" Json.string?
    data := ← r.required "data" Json.members?
    conditions := ← r.required "conditions" FilterGroup.ofJson? }

end Update

namespace Delete

def fields : List String := ["table", "modelName", "conditions", "soft"]

def toMembers (op : Delete) : List (String × Option Json) :=
  [("conditions", some op.conditions.toJson), ("modelName", some (.str op.model)),
    ("soft", some (.bool op.soft)), ("table", some (.str op.table))]

def ofMembers? (r : Members Json) : Option Delete := do
  return {
    table := ← r.required "table" Json.string?
    model := ← r.required "modelName" Json.string?
    conditions := ← r.required "conditions" FilterGroup.ofJson?
    soft := ← r.defaulted "soft" Json.bool? false }

end Delete

namespace Select

def fields : List String :=
  ["table", "modelName", "purpose", "filters", "sorts", "pagination", "attributes", "expand",
    "joins", "scopes"]

def toMembers (op : Select) : List (String × Option Json) :=
  [("attributes", op.columns.map .ofStrings), ("expand", Json.ofNonempty .str op.expand),
    ("filters", op.filters.map FilterGroup.toJson), ("joins", Json.ofNonempty Join.toJson op.joins),
    ("modelName", some (.str op.model)), ("pagination", op.pagination.map Pagination.toJson),
    ("purpose", op.purpose.map .str), ("scopes", op.scopes),
    ("sorts", Json.ofNonempty SortKey.toJson op.sorts), ("table", some (.str op.table))]

def ofMembers? (r : Members Json) : Option Select := do
  return {
    table := ← r.required "table" Json.string?
    model := ← r.required "modelName" Json.string?
    purpose := ← r.optional "purpose" Json.string?
    filters := ← r.optional "filters" FilterGroup.ofJson?
    sorts := ← r.defaulted "sorts" (Json.listOf SortKey.ofJson?) []
    pagination := ← r.optional "pagination" Pagination.ofJson?
    columns := ← r.optional "attributes" (Json.listOf Json.string?)
    expand := ← r.defaulted "expand" (Json.listOf Json.string?) []
    joins := ← r.defaulted "joins" (Json.listOf Join.ofJson?) []
    scopes := ← r.optional "scopes" some }

def toJson (op : Select) : Json := .object op.toMembers

def ofJson? (j : Json) : Option Select := (j.record? fields).bind ofMembers?

end Select

namespace Operation

def toJson (op : Operation) : Json :=
  .object <| ("type", some (.str op.kind)) :: match op with
    | insert o => o.toMembers
    | update o => o.toMembers
    | delete o => o.toMembers
    | select o => o.toMembers

/-- The kind of an operation, and its other fields as an object or an array. -/
def untag? : Json → Option (String × Json)
  | .obj members => do
    return (← (Members.get? members "type").bind Json.string?, .obj (Members.erase members "type"))
  | .arr (.str kind :: fields) => some (kind, .arr fields)
  | _ => none

def ofJson? (j : Json) : Option Operation := do
  match ← untag? j with
  | ("insert", body) => return insert (← body.members?.bind Insert.ofMembers?)
  | ("update", body) => return update (← (body.record? Update.fields).bind Update.ofMembers?)
  | ("delete", body) => return delete (← (body.record? Delete.fields).bind Delete.ofMembers?)
  | ("select", body) => return select (← Select.ofJson? body)
  | _ => none

end Operation

namespace Selection

def fields : List String := ["result", "operation", "total"]

def toJson (s : Selection) : Json :=
  .object [("operation", some s.operation.toJson), ("result", some (.arr s.result)),
    ("total", s.total.map .ofNat)]

def ofJson? (j : Json) : Option Selection := do
  let r ← j.record? fields
  return {
    result := ← r.required "result" Json.items?
    operation := ← r.required "operation" Select.ofJson?
    total := ← r.optional "total" Json.count? }

end Selection
end ModelActions
