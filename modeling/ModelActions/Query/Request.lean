import ModelActions.Error
import ModelActions.Operation.Wire

/-!
# Select requests

What callers ask for when they read rows: filters and scopes in any written form, order, page,
columns, relationships to expand or to join.
-/
namespace ModelActions

/-- A page as asked for; the number of rows may be left to the settings. -/
structure PageRequest where
  page : Option Nat := none
  perPage : Option Nat := none
  cursor : Option String := none
  deriving DecidableEq, Repr

structure Request where
  filters : Json := .null
  scopes : Option Json := none
  sorts : List SortKey := []
  pagination : Option PageRequest := none
  columns : Option (List String) := none
  expand : List String := []
  joins : List String := []
  /-- A view whose scopes may be named too. -/
  view : Option String := none
  purpose : Option String := none

namespace PageRequest

def fields : List String := ["page", "per_page", "cursor"]

def toJson (p : PageRequest) : Json :=
  .obj [("cursor", .ofOption .str p.cursor), ("page", .ofOption .ofNat p.page),
    ("per_page", .ofOption .ofNat p.perPage)]

def ofJson? (j : Json) : Option PageRequest := do
  let r ← j.record? fields
  return {
    page := ← r.optional "page" Json.count?
    perPage := ← r.optional "per_page" Json.count?
    cursor := ← r.optional "cursor" Json.string? }

/-- The page with the number of rows filled in, the first page if none is named. -/
def complete (p : PageRequest) (perPage : Nat) : Pagination :=
  { page := some (p.page.getD 1), perPage := p.perPage.getD perPage, cursor := p.cursor }

end PageRequest

namespace Request

def fields : List String :=
  ["filters", "scopes", "sorts", "pagination", "attributes", "expand", "joins", "view", "purpose"]

def toJson (r : Request) : Json :=
  .obj [("attributes", .ofOption .ofStrings r.columns), ("expand", .ofStrings r.expand),
    ("filters", r.filters), ("joins", .ofStrings r.joins),
    ("pagination", .ofOption PageRequest.toJson r.pagination),
    ("purpose", .ofOption .str r.purpose), ("scopes", r.scopes.getD .null),
    ("sorts", .arr (r.sorts.map SortKey.toJson)), ("view", .ofOption .str r.view)]

def ofJson? (j : Json) : Option Request := do
  let r ← j.record? fields
  return {
    filters := ← r.defaulted "filters" some .null
    scopes := ← r.optional "scopes" some
    sorts := ← r.defaulted "sorts" (Json.listOf SortKey.ofJson?) []
    pagination := ← r.optional "pagination" PageRequest.ofJson?
    columns := ← r.optional "attributes" (Json.listOf Json.string?)
    expand := ← r.defaulted "expand" (Json.listOf Json.string?) []
    joins := ← r.defaulted "joins" (Json.listOf Json.string?) []
    view := ← r.optional "view" Json.string?
    purpose := ← r.optional "purpose" Json.string? }

def ofJson (j : Json) : Except Error Request :=
  match ofJson? j with
  | some r => .ok r
  | none => .error (.invalid "request" .malformed)

end Request
end ModelActions
