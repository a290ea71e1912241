import Mathlib.Data.List.Forall2
import ModelActions.Proofs.Sends
import ModelActions.Task.Payload

/-!
# Payloads row by row

The tasks that prepare a payload change its rows one by one. What comes of a payload has its shape,
and as many rows in the same order.
-/
namespace ModelActions.Task

open Act (Sends)

/-- Two objects that are in relation as rows. -/
def Related (R : Row → Row → Prop) (item item' : Json) : Prop :=
  ∃ row row', item = .obj row ∧ item' = .obj row' ∧ R row row'

/-- A payload that was made of another one, row by row. -/
inductive Reworks (R : Row → Row → Prop) : Json → Json → Prop
  | row {row row' : Row} (h : R row row') : Reworks R (.obj row) (.obj row')
  | rows {items items' : List Json} (h : List.Forall₂ (Related R) items items') :
      Reworks R (.arr items) (.arr items')

/-- The rows of a payload. -/
def rowsOf : Json → List Json
  | .arr items => items
  | payload => [payload]

variable {R R' R'' : Row → Row → Prop} {input output : Json}

namespace Reworks

theorem mono (h : Reworks R input output) (hR : ∀ {row row'}, R row row' → R' row row') :
    Reworks R' input output := by
  cases h with
  | row h => exact .row (hR h)
  | rows h =>
    refine .rows (h.imp ?_)
    rintro _ _ ⟨row, row', rfl, rfl, h⟩
    exact ⟨row, row', rfl, rfl, hR h⟩

/-- What is made in two steps is made row by row if both steps go row by row. -/
theorem trans {between : Json} (first : Reworks R input between)
    (second : Reworks R' between output)
    (hR : ∀ {row row' row''}, R row row' → R' row' row'' → R'' row row'') :
    Reworks R'' input output := by
  cases first with
  | row h =>
    cases second with
    | row h' => exact .row (hR h h')
  | @rows items items' h =>
    cases second with
    | @rows _ items'' h' =>
      refine .rows ?_
      induction h generalizing items'' with
      | nil =>
        cases h'
        exact .nil
      | cons hitem _ ih =>
        cases h' with
        | cons hitem' hitems' =>
          obtain ⟨row, row', rfl, rfl, hrow⟩ := hitem
          obtain ⟨_, row'', hrow', rfl, hrow''⟩ := hitem'
          cases hrow'
          exact .cons ⟨row, row'', rfl, rfl, hR hrow hrow''⟩ (ih hitems')

theorem eq (h : Reworks Eq input output) : output = input := by
  cases h with
  | row h => rw [h]
  | rows h =>
    congr 1
    induction h with
    | nil => rfl
    | cons hitem _ ih =>
      obtain ⟨row, _, rfl, rfl, rfl⟩ := hitem
      rw [ih]

theorem isObject_eq (h : Reworks R input output) : output.isObject = input.isObject := by
  cases h <;> rfl

/-- Each row is an object, made of a row of the payload. -/
theorem exists_of_mem (h : Reworks R input output) {item : Json} (hitem : item ∈ rowsOf output) :
    ∃ row row', .obj row ∈ rowsOf input ∧ item = .obj row' ∧ R row row' := by
  cases h with
  | @row row row' h => exact ⟨row, row', List.mem_singleton.2 rfl, List.mem_singleton.1 hitem, h⟩
  | rows h =>
    simp only [rowsOf] at hitem ⊢
    induction h with
    | nil => cases hitem
    | cons hrelated _ ih =>
      obtain ⟨row, row', rfl, rfl, hrow⟩ := hrelated
      rcases List.mem_cons.1 hitem with rfl | hitem
      · exact ⟨row, row', List.mem_cons_self, rfl, hrow⟩
      · obtain ⟨row, row', hmem, heq, hrow⟩ := ih hitem
        exact ⟨row, row', List.mem_cons_of_mem _ hmem, heq, hrow⟩

end Reworks

theorem mapItems_eq_ok {f : Option Nat → Row → Except Error Row}
    (hf : ∀ i row row', f i row = .ok row' → R row row') (i : Nat) {items items' : List Json}
    (h : mapItems f i items = .ok items') : List.Forall₂ (Related R) items items' := by
  induction items generalizing i items' with
  | nil =>
    cases h
    exact .nil
  | cons item items ih =>
    cases item with
    | obj row =>
      obtain ⟨row', hrow, h⟩ := bind_eq_ok.1 h
      obtain ⟨items'', hitems, h⟩ := bind_eq_ok.1 h
      cases h
      exact .cons ⟨row, row', rfl, rfl, hf _ _ _ hrow⟩ (ih (i + 1) hitems)
    | _ => cases h

theorem mapRows_eq_ok {f : Option Nat → Row → Except Error Row}
    (hf : ∀ i row row', f i row = .ok row' → R row row') (h : mapRows f input = .ok output) :
    Reworks R input output := by
  cases input with
  | obj row =>
    obtain ⟨row', hrow, h⟩ := bind_eq_ok.1 h
    cases h
    exact .row (hf _ _ _ hrow)
  | arr items =>
    obtain ⟨items', hitems, h⟩ := bind_eq_ok.1 h
    cases h
    exact .rows (mapItems_eq_ok hf 0 hitems)
  | _ => cases h

section
variable {σ : Type} {P : Operation → Prop} {host : Host σ} {f : Option Nat → Row → Act σ Row}
  (hf : ∀ i row, Sends host P (f i row) (R row))
include hf

theorem mapItems_sends (i : Nat) (items : List Json) :
    Sends host P (mapItems f i items) (List.Forall₂ (Related R) items) := by
  induction items generalizing i with
  | nil => exact .pure .nil
  | cons item items ih =>
    cases item with
    | obj row =>
      refine .bind (hf _ row) fun row' hrow => .bind (ih (i + 1)) fun items' hitems => .pure ?_
      exact .cons ⟨row, row', rfl, rfl, hrow⟩ hitems
    | _ => exact .throw _

theorem mapRows_sends (input : Json) : Sends host P (mapRows f input) (Reworks R input) := by
  cases input with
  | obj row => exact .bind (hf none row) fun row' hrow => .pure (.row hrow)
  | arr items => exact .bind (mapItems_sends hf 0 items) fun items' hitems => .pure (.rows hitems)
  | _ => exact .throw _

end
end ModelActions.Task
