import ModelActions.Error
import ModelActions.Filter.Basic

/-!
# Written forms of filters

Callers write a filter as a group, as a list of conditions, as one condition, or as a map from
attributes to values. All of them are brought into the form of a group. Null, an empty list and an
empty map mean that there is no filter.
-/
namespace ModelActions.Filter

def groupJson (op : Json) (children : List Json) : Json :=
  .obj [("conditions", .arr children), ("op", op)]

def conditionJson (path op value : Json) : Json :=
  .obj [("attribute", path), ("op", op), ("value", value)]

/-- Fills in the operator `is` and the value null where a condition leaves them out. A group is kept
as it is. -/
def fillCondition : Json → Except Error Json
  | .obj members =>
    if Members.has members "conditions" then .ok (.obj members)
    else if Members.has members "attribute" then
      .ok (.obj ((Members.insertNew members "op" (.str "is")).insertNew "value" .null))
    else .error (.invalid "attribute" .conditionWithoutAttribute)
  | _ => .error (.invalid "conditions" .conditionNotObject)

/-- A filter in the form of a group, or null when there is none. -/
def expandShorthand : Json → Except Error Json
  | .null => .ok .null
  | .arr items =>
    if items.isEmpty then .ok .null
    else return groupJson (.str "and") (← items.mapM fillCondition)
  | .obj members =>
    if members.isEmpty then .ok .null
    else if Members.has members "conditions" then .ok (.obj members)
    else if Members.has members "attribute" then
      return groupJson (.str "and") [← fillCondition (.obj members)]
    else
      .ok (groupJson (.str "and") (members.map fun e => conditionJson (.str e.1) (.str "eq") e.2))
  | _ => .error (.invalid "filters" .filterShape)

end ModelActions.Filter
