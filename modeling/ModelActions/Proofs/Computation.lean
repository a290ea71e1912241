import ModelActions.Run.Runner
import ModelActions.Store.Basic

/-!
# Running computations

How result and final state of a computation follow from those of its parts, and what one operation
does when the host is a row store.
-/
namespace ModelActions

theorem bind_eq_ok {ε α β : Type} {x : Except ε α} {f : α → Except ε β} {b : β} :
    x >>= f = .ok b ↔ ∃ a, x = .ok a ∧ f a = .ok b := by
  cases x with
  | error e => simp [bind, Except.bind]
  | ok a => simp [bind, Except.bind]

theorem bind_eq_error {ε α β : Type} {x : Except ε α} {f : α → Except ε β} {e : ε} :
    x >>= f = .error e ↔ x = .error e ∨ ∃ a, x = .ok a ∧ f a = .error e := by
  cases x with
  | error e => simp [bind, Except.bind]
  | ok a => simp [bind, Except.bind]

theorem forM_eq_ok {α : Type} {f : α → Except Error Unit} {as : List α} :
    as.forM f = .ok () ↔ ∀ a ∈ as, f a = .ok () := by
  induction as with
  | nil => simp [pure, Except.pure]
  | cons a as ih =>
    have hcons : (a :: as).forM f = f a >>= fun _ => as.forM f := rfl
    rw [hcons, bind_eq_ok, List.forall_mem_cons, ← ih]
    constructor
    · rintro ⟨⟨⟩, ha, has⟩
      exact ⟨ha, has⟩
    · rintro ⟨ha, has⟩
      exact ⟨(), ha, has⟩

theorem exists_of_mem_mapM {ε α β : Type} {f : α → Except ε β} {as : List α} {bs : List β}
    (h : as.mapM f = .ok bs) {b : β} (hb : b ∈ bs) : ∃ a ∈ as, f a = .ok b := by
  induction as generalizing bs with
  | nil =>
    cases h
    contradiction
  | cons a as ih =>
    rw [List.mapM_cons] at h
    obtain ⟨b', hb', h⟩ := bind_eq_ok.1 h
    obtain ⟨bs', hbs', h⟩ := bind_eq_ok.1 h
    cases h
    rcases List.mem_cons.1 hb with rfl | hb
    · exact ⟨a, List.mem_cons_self, hb'⟩
    · obtain ⟨a', ha', hfa⟩ := ih hbs' hb
      exact ⟨a', List.mem_cons_of_mem a ha', hfa⟩

namespace Act
variable {σ α β : Type}

@[simp] theorem runFrom_pure (a : α) (s : σ) : (pure a : Act σ α).runFrom s = (.ok a, s) := rfl

@[simp] theorem runFrom_ofExcept (x : Except Error α) (s : σ) :
    (ofExcept x : Act σ α).runFrom s = (x, s) := by
  cases x <;> rfl

theorem runFrom_bind (x : Act σ α) (f : α → Act σ β) (s : σ) :
    (x >>= f).runFrom s =
      match x.runFrom s with
      | (.ok a, t) => (f a).runFrom t
      | (.error e, t) => (.error e, t) := by
  simp only [runFrom, ExceptT.run_bind, StateT.run_bind]
  rcases h : x.run.run s with ⟨_ | a, t⟩ <;> rfl

theorem runFrom_bind_ok {x : Act σ α} {f : α → Act σ β} {s t : σ} {a : α}
    (h : x.runFrom s = (.ok a, t)) : (x >>= f).runFrom s = (f a).runFrom t := by
  rw [runFrom_bind, h]

theorem runFrom_bind_error {x : Act σ α} {f : α → Act σ β} {s t : σ} {e : Error}
    (h : x.runFrom s = (.error e, t)) : (x >>= f).runFrom s = (.error e, t) := by
  rw [runFrom_bind, h]

theorem runFrom_ofExcept_bind {x : Except Error α} {a : α} (h : x = .ok a) (f : α → Act σ β)
    (s : σ) : (ofExcept x >>= f).runFrom s = (f a).runFrom s := by
  subst h
  rfl

/-- A sequence succeeds if both parts do. -/
theorem runFrom_bind_eq_ok {x : Act σ α} {f : α → Act σ β} {s u : σ} {b : β} :
    (x >>= f).runFrom s = (.ok b, u) ↔
      ∃ a t, x.runFrom s = (.ok a, t) ∧ (f a).runFrom t = (.ok b, u) := by
  rw [runFrom_bind]
  constructor
  · intro h
    rcases hx : x.runFrom s with ⟨e | a, t⟩
    · rw [hx] at h
      cases h
    · rw [hx] at h
      exact ⟨a, t, rfl, h⟩
  · rintro ⟨a, t, hx, hf⟩
    rw [hx]
    exact hf

/-- An operation ends as the operator says. -/
theorem runFrom_perform (host : Host σ) (op : Operation) (s : σ) :
    (host.perform op).runFrom s =
      ((host.execute op s).1.mapError Failure.toError, (host.execute op s).2) := by
  simp only [runFrom, Host.perform, ExceptT.run, ExceptT.mk, StateT.run]
  split
  · next h =>
    rw [h]
    rfl
  · next h =>
    rw [h]
    rfl

end Act

theorem Model.relationship_eq_ok {m : Model} {name : String} {r : Relationship} :
    m.relationship name = .ok r ↔ m.relationships.get? name = some r := by
  unfold Model.relationship
  cases m.relationships.get? name <;> simp

theorem Registry.get_eq_ok {registry : Registry} {name : String} {m : Model} :
    registry.get name = .ok m ↔ registry.models.get? name = some m := by
  unfold Registry.get
  cases registry.models.get? name <;> simp

/-- Each model of a registry that was read is under its own name. -/
theorem Registry.name_of_ofSpecs {specs : List ModelSpec} {registry : Registry}
    (loaded : Registry.ofSpecs specs = .ok registry) {name : String} {m : Model}
    (hm : registry.models.get? name = some m) : m.name = name := by
  obtain ⟨models, -, hmodels⟩ := bind_eq_ok.1 loaded
  cases hmodels
  rcases Members.mem_of_get?_overwrite [] hm with hmem | hnone
  · obtain ⟨m', -, he⟩ := List.mem_map.1 hmem
    cases he
    rfl
  · contradiction

theorem Registry.get?_name_of_ofSpecs {specs : List ModelSpec} {registry : Registry}
    (loaded : Registry.ofSpecs specs = .ok registry) {name : String} {m : Model}
    (hm : registry.models.get? name = some m) : registry.models.get? m.name = some m := by
  rwa [name_of_ofSpecs loaded hm]

/-- The operation puts no rows in an order. -/
def Operation.Unsorted : Operation → Prop
  | .select op => op.sorts = []
  | _ => True

namespace Store
variable (world : World)

/-- An engine whose operator is a row store. -/
def engine (registry : Registry) (settings : Settings) : Engine Store :=
  { registry, settings, host := Store.host world }

/-- The context of an action on a row store. -/
def context (registry : Registry) (settings : Settings) (m : Model) (action : String) :
    Context Store :=
  { engine world registry settings with model := m, action }

/-- A runner of the built-in tasks whose operator is a row store. -/
def runner (registry : Registry) (settings : Settings) (patience : Nat) : Runner Store :=
  { engine world registry settings with tasks := Tasks.builtin, patience }

theorem runFrom_perform (op : Operation) (s : Store) :
    ((Store.host world).perform op).runFrom s =
      ((execute world op s).1.mapError Failure.toError, (execute world op s).2) :=
  Act.runFrom_perform _ op s

theorem runFrom_perform_of_answered {op : Operation} {s : Store} {answer : Answer}
    (h : (execute world op s).1 = .ok answer) :
    ((Store.host world).perform op).runFrom s = (.ok answer, (execute world op s).2) := by
  rw [runFrom_perform, h]
  rfl

theorem execute_of_unsorted {op : Operation} (unsorted : op.Unsorted) (s : Store) :
    ∃ answer, (execute world op s).1 = .ok answer := by
  cases op with
  | insert | update | delete => exact ⟨_, rfl⟩
  | select op =>
    rw [execute, carryOut, select_of_unsorted unsorted]
    exact ⟨_, rfl⟩

/-- A select is answered from the rows of the tables, and changes nothing but the log. -/
theorem runFrom_perform_select {op : Select} {s : Store} {found : Selection}
    (h : s.select world op = some found) :
    ((Store.host world).perform (.select op)).runFrom s =
      (.ok (.selected found), { s with log := s.log ++ [.select op] }) := by
  have hlogged : Store.select world { s with log := s.log ++ [.select op] } op = some found := h
  refine runFrom_perform_of_answered world ?_
  rw [execute, carryOut, hlogged]

theorem runFrom_perform_select_none {op : Select} {s : Store} (h : s.select world op = none) :
    ((Store.host world).perform (.select op)).runFrom s =
      (.error .crashed, { s with log := s.log ++ [.select op] }) := by
  have hlogged : Store.select world { s with log := s.log ++ [.select op] } op = none := h
  rw [runFrom_perform, execute, carryOut, hlogged]
  rfl

end Store
end ModelActions
