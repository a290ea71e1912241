import ModelActions.Proofs.Computation

/-!
# What a computation sends

A computation sends only operations of some kind if each of its parts does. Whatever an operator
keeps up through operations of that kind is kept up by the whole computation.
-/
namespace ModelActions
variable {σ : Type} {host : Host σ} {P : Operation → Prop}

/-- The computation reaches the host through operations that satisfy `P`, its clock and its keys
only, and a result of it satisfies `Q`. -/
inductive Act.Sends (host : Host σ) (P : Operation → Prop) :
    {α : Type} → Act σ α → (α → Prop) → Prop
  | pure {α : Type} {Q : α → Prop} {a : α} (result : Q a) : Sends host P (Pure.pure a) Q
  | throw {α : Type} {Q : α → Prop} (e : Error) : Sends host P (MonadExcept.throw e : Act σ α) Q
  | perform {op : Operation} (sent : P op) : Sends host P (host.perform op) fun _ => True
  | readClock : Sends host P host.readClock fun _ => True
  | drawKey : Sends host P host.drawKey fun _ => True
  | bind {α β : Type} {x : Act σ α} {f : α → Act σ β} {Q : α → Prop} {Q' : β → Prop}
      (first : Sends host P x Q) (rest : ∀ a, Q a → Sends host P (f a) Q') :
      Sends host P (x >>= f) Q'

namespace Act.Sends
variable {α β : Type} {x : Act σ α} {Q Q' : α → Prop}

theorem mono {P' : Operation → Prop} (h : Sends host P x Q) (hP : ∀ op, P op → P' op) :
    Sends host P' x Q := by
  induction h with
  | pure result => exact .pure result
  | throw e => exact .throw e
  | perform sent => exact .perform (hP _ sent)
  | readClock => exact .readClock
  | drawKey => exact .drawKey
  | bind _ _ ih₁ ih₂ => exact .bind ih₁ ih₂

theorem ofExcept (r : Except Error α) : Sends host P (Act.ofExcept r) fun a => r = .ok a := by
  cases r with
  | ok a => exact .pure rfl
  | error e => exact .throw e

/-- Weakens what is known of a result. -/
theorem weaken (h : Sends host P x Q) (hQ : ∀ a, Q a → Q' a) : Sends host P x Q' := by
  have hb : Sends host P (x >>= Pure.pure) Q' := .bind h fun a ha => .pure (hQ a ha)
  rwa [bind_pure] at hb

theorem map {f : α → β} {Q' : β → Prop} (h : Sends host P x Q) (hf : ∀ a, Q a → Q' (f a)) :
    Sends host P (f <$> x) Q' := by
  rw [map_eq_pure_bind]
  exact .bind h fun a ha => .pure (hf a ha)

theorem result (h : Sends host P x Q) {s t : σ} {a : α} (hx : x.runFrom s = (.ok a, t)) : Q a := by
  induction h generalizing s t with
  | pure result =>
    cases hx
    exact result
  | throw e => cases hx
  | perform | readClock | drawKey => trivial
  | bind _ _ ih₁ ih₂ =>
    obtain ⟨b, u, hb, hx⟩ := runFrom_bind_eq_ok.1 hx
    exact ih₂ b (ih₁ hb) hx

end Act.Sends

/-- States in relation `R` give the same answers to operations that satisfy `P`, and stay in
relation. -/
structure Host.Respects (host : Host σ) (P : Operation → Prop) (R : σ → σ → Prop) : Prop where
  execute : ∀ {op s t}, P op → R s t →
    (host.execute op s).1 = (host.execute op t).1 ∧ R (host.execute op s).2 (host.execute op t).2
  now : ∀ {s t}, R s t → (host.now s).1 = (host.now t).1 ∧ R (host.now s).2 (host.now t).2
  freshKey : ∀ {s t}, R s t →
    (host.freshKey s).1 = (host.freshKey t).1 ∧ R (host.freshKey s).2 (host.freshKey t).2

/-- Operations that satisfy `P` keep an invariant. -/
structure Host.Keeps (host : Host σ) (P : Operation → Prop) (I : σ → Prop) : Prop where
  execute : ∀ {op s}, P op → I s → I (host.execute op s).2
  now : ∀ {s}, I s → I (host.now s).2
  freshKey : ∀ {s}, I s → I (host.freshKey s).2

namespace Act.Sends
variable {α : Type} {x : Act σ α} {Q : α → Prop}

/-- Two runs from states in relation end with the same result, and in states in relation. -/
theorem agree {R : σ → σ → Prop} (h : Sends host P x Q) (respects : host.Respects P R) {s t : σ}
    (hst : R s t) :
    (x.runFrom s).1 = (x.runFrom t).1 ∧ R (x.runFrom s).2 (x.runFrom t).2 := by
  induction h generalizing s t with
  | pure | throw => exact ⟨rfl, hst⟩
  | perform sent =>
    obtain ⟨ha, hr⟩ := respects.execute sent hst
    rw [runFrom_perform, runFrom_perform, ha]
    exact ⟨rfl, hr⟩
  | readClock =>
    obtain ⟨ha, hr⟩ := respects.now hst
    exact ⟨congrArg Except.ok ha, hr⟩
  | drawKey =>
    obtain ⟨ha, hr⟩ := respects.freshKey hst
    exact ⟨congrArg Except.ok ha, hr⟩
  | bind first rest ih₁ ih₂ =>
    rename_i x f _ _
    obtain ⟨ha, hr⟩ := ih₁ hst
    rw [runFrom_bind, runFrom_bind]
    rcases hs : x.runFrom s with ⟨result, s'⟩
    rcases ht : x.runFrom t with ⟨result', t'⟩
    rw [hs, ht] at ha hr
    obtain rfl : result = result' := ha
    cases result with
    | error e => exact ⟨rfl, hr⟩
    | ok a => exact ih₂ a (first.result hs) hr

/-- A run keeps what the operations that it sends keep. -/
theorem keeps {I : σ → Prop} (h : Sends host P x Q) (keeps : host.Keeps P I) {s : σ} (hs : I s) :
    I (x.runFrom s).2 := by
  have respects : host.Respects P fun s t => s = t ∧ I s := by
    constructor
    · rintro op s _ sent ⟨rfl, hs⟩
      exact ⟨rfl, rfl, keeps.execute sent hs⟩
    · rintro s _ ⟨rfl, hs⟩
      exact ⟨rfl, rfl, keeps.now hs⟩
    · rintro s _ ⟨rfl, hs⟩
      exact ⟨rfl, rfl, keeps.freshKey hs⟩
  exact (h.agree respects ⟨rfl, hs⟩).2.2

end Act.Sends
end ModelActions
