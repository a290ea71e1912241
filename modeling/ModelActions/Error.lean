/-!
# Errors

Everything that can go wrong, by cause, and the wording of each cause. A fault is what is wrong with
one field of an input, a filter, a scope reference or a specification; an error of kind `invalid`
names the field by its path.
-/
namespace ModelActions

inductive Fault where
  | malformed
  | filterShape
  | conditionNotObject
  | conditionWithoutAttribute
  | groupNotObject
  | connective (found : Option String)
  | groupEmpty
  | groupWithoutConditions
  | leafNotObject
  | leafWithoutAttribute
  | comparator (found : String)
  | scopeShape
  | scopeListEmpty
  | scopeConnective
  | scopeGroupEmpty
  | noAction (model action : String)
  | payloadBlank
  | payloadNotObject (action : String)
  | payloadNotRows
  | payloadNotObjects
  | rowBlank
  | rowNotObject
  | noRows
  | columnsDiffer
  | rowsExpected
  | objectExpected
  | listExpected
  | stringExpected
  | pathsExpected
  | typeExpected (type : String)
  | required (action key : String)
  | dataBlank
  | pathMalformed (path : String)
  | pathTooLong (path : String) (hops most : Nat)
  | tooManyHops (most : Nat)
  | pageTooLarge (most : Nat)
  | notPositive
  | sortWithoutAttribute
  | sortDirection
  deriving DecidableEq, Repr

def Fault.message : Fault → String
  | malformed => "the value does not have the expected shape"
  | filterShape => "expected a filter group, a list of conditions or an attribute map"
  | conditionNotObject => "each condition must be an object"
  | conditionWithoutAttribute => "condition requires an attribute"
  | groupNotObject => "filter group must be an object"
  | connective none => "group operator must be `and` or `or`"
  | connective (some found) => "group operator must be `and` or `or`, got `" ++ found ++ "`"
  | groupEmpty => "group requires at least one condition"
  | groupWithoutConditions => "group requires a conditions array"
  | leafNotObject => "condition must be an object"
  | leafWithoutAttribute => "condition requires a non-empty attribute"
  | comparator found => "unsupported operator " ++ found
  | scopeShape => "expected a scope name, a list of scopes or a scope group"
  | scopeListEmpty => "scope list must not be empty"
  | scopeConnective => "scope group operator must be `and` or `or`"
  | scopeGroupEmpty => "scope group requires a non-empty scopes array"
  | noAction model action => "model `" ++ model ++ "` has no action `" ++ action ++ "`"
  | payloadBlank => "create requires a non-empty payload"
  | payloadNotObject action => action ++ " expects an object"
  | payloadNotRows => "expected an object or a list"
  | payloadNotObjects => "expected an object or a list of objects"
  | rowBlank => "row must not be empty"
  | rowNotObject => "row must be an object"
  | noRows => "bulk insert requires at least one row"
  | columnsDiffer => "bulk rows must share identical columns"
  | rowsExpected => "expected a row or a list of rows"
  | objectExpected => "expected an object"
  | listExpected => "expected a list"
  | stringExpected => "expected a string"
  | pathsExpected => "expected a list of relationship paths"
  | typeExpected type => "expected " ++ type
  | required action key => action ++ " requires `" ++ key ++ "`"
  | dataBlank => "update requires a non-empty `data` map"
  | pathMalformed path => "malformed path `" ++ path ++ "`"
  | pathTooLong path hops most =>
    "path `" ++ path ++ "` has " ++ toString hops ++ " hops, at most " ++ toString most ++
      " allowed"
  | tooManyHops most => "at most " ++ toString most ++ " hops allowed"
  | pageTooLarge most => "must be at most " ++ toString most
  | notPositive => "must be an integer >= 1"
  | sortWithoutAttribute => "sort requires an attribute"
  | sortDirection => "direction must be `asc` or `desc`"

/-- What makes a state graph unfit to run, apart from its transitions and resources. -/
inductive GraphFault where
  | nextAndEnd (state : String)
  | noRules (state : String)
  deriving DecidableEq, Repr

def GraphFault.message : GraphFault → String
  | nextAndEnd state => "state `" ++ state ++ "` sets both `Next` and `End`"
  | noRules state => "choice state `" ++ state ++ "` has no rules"

/-- The cause of a failure. -/
inductive Error where
  | invalid (field : String) (fault : Fault)
  | unknownModel (model : String)
  | unknownRelationship (model relationship : String)
  | unknownScope (model scope : String)
  | unknownView (model view : String)
  | unknownTask (resource : String)
  | undefinedState (state target : String)
  | missingTransition (state : String)
  | unfitGraph (fault : GraphFault)
  | notFound (model : String)
  /-- What the operator said when it failed. -/
  | operator (reason : String)
  /-- The operator crashed: it gave neither an answer nor a reason. -/
  | crashed
  /-- A run was given up at a state because it had visited more states than it was allowed to. -/
  | givenUp (state : String)
  /-- A query was given up because an operator kept echoing longer expand paths than it was sent. -/
  | echoTooLong
  deriving DecidableEq, Repr

def Error.message : Error → String
  | invalid field fault => "invalid `" ++ field ++ "`: " ++ fault.message
  | unknownModel model => "unknown model `" ++ model ++ "`"
  | unknownRelationship model relationship =>
    "unknown relationship `" ++ relationship ++ "` on model `" ++ model ++ "`"
  | unknownScope model scope => "unknown scope `" ++ scope ++ "` on model `" ++ model ++ "`"
  | unknownView model view => "unknown view `" ++ view ++ "` on model `" ++ model ++ "`"
  | unknownTask resource => "no task registered for resource `" ++ resource ++ "`"
  | undefinedState state target =>
    "state `" ++ state ++ "` transitions to undefined state `" ++ target ++ "`"
  | missingTransition state => "state `" ++ state ++ "` has no transition and is not terminal"
  | unfitGraph fault => "invalid state graph: " ++ fault.message
  | notFound model => model ++ " not found"
  | operator reason => "operator error: " ++ reason
  | crashed => "the operator crashed"
  | givenUp state => "gave up at state `" ++ state ++ "`"
  | echoTooLong => "operator error: the echoed expand paths are longer than those sent"

def Error.field? : Error → Option String
  | invalid field _ => some field
  | _ => none

def Error.mapField (f : String → String) : Error → Error
  | invalid field fault => invalid (f field) fault
  | e => e

end ModelActions
