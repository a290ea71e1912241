import ModelActions.Graph.Basic

/-!
# Built-in graphs

The graphs behind creating, reading, updating and deleting.
-/
namespace ModelActions.Graph

def taskTo (resource next : String) : State := .task { resource, next := some next }

def taskEnd (resource : String) : State := .task { resource, final := true }

/-- Goes to `next` if a variable passes a test, else to `other`. -/
def branch (variableName : String) (test : Test) (next other : String) : State :=
  .choice { rules := [⟨.test variableName test, next⟩], default := some other }

def create : Graph where
  comment := some "create"
  start := "CleanInput"
  states := [
    ("CleanInput", taskTo "clean_input" "ValidateInput"),
    ("DatabaseInsert", taskTo "database.insert" "DatabaseRead"),
    ("DatabaseRead", taskEnd "database.read"),
    ("GenerateAttributes", taskTo "generate_attributes" "DatabaseInsert"),
    ("ValidateInput", taskTo "validate" "GenerateAttributes")]

def readOne : Graph where
  comment := some "readOne"
  start := "ValidateInput"
  states := [
    ("CheckFound", branch "$" (.isNull true) "NotFound" "Success"),
    ("DatabaseRead", taskTo "database.read" "CheckFound"),
    ("NotFound", taskEnd "handle_not_found"),
    ("Success", taskEnd "transform_result"),
    ("ValidateInput", taskTo "validate" "DatabaseRead")]

/-- Reads rows, in pages if the request asks for them. -/
def readList : Graph where
  comment := some "readList"
  start := "ValidateInput"
  states := [
    ("CheckPagination",
      branch "$.pagination" (.isPresent true) "DatabasePaginate" "DatabaseSelect"),
    ("DatabasePaginate", taskTo "database.paginate" "TransformResults"),
    ("DatabaseSelect", taskTo "database.select" "TransformResults"),
    ("TransformResults", taskEnd "transform_results"),
    ("ValidateInput", taskTo "validate" "CheckPagination")]

def update : Graph where
  comment := some "update"
  start := "ValidateInput"
  states := [
    ("DatabaseRead", taskEnd "database.read"),
    ("DatabaseUpdate", taskTo "database.update" "DatabaseRead"),
    ("ValidateInput", taskTo "validate" "DatabaseUpdate")]

/-- Marks or removes rows, as the model's configuration has it. -/
def delete : Graph where
  comment := some "delete"
  start := "ValidateInput"
  states := [
    ("CheckSoftDelete",
      branch "$$.config.softDelete" (.booleanEquals true) "SoftDelete" "HardDelete"),
    ("HardDelete", taskEnd "database.hard_delete"),
    ("SoftDelete", taskEnd "database.soft_delete"),
    ("ValidateInput", taskTo "validate" "CheckSoftDelete")]

/-- The built-in graphs, in the order in which they are checked. -/
def builtin : List Graph := [create, readOne, readList, update, delete]

end ModelActions.Graph
