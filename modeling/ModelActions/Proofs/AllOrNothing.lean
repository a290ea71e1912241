import ModelActions.Proofs.GuardedOperations

/-!
# All or nothing

A computation against a row store either succeeds or leaves the tables as they were, if nothing can
fail after its first write. What comes before the write may send selects. What comes after it must
not fail from any state, or the tables stay as the write left them.
-/
namespace ModelActions

open Act (Sends)
open Operation (GuardedSelect)

/-- The operation puts rows into the table or changes them there. -/
def Operation.Stores (table : String) : Operation → Prop
  | .insert op => op.table = table
  | .update op => op.table = table
  | _ => False

/-- The tables have changed by one operation, which satisfies `P`. -/
def Store.Written (world : World) (P : Operation → Prop) (s t : Store) : Prop :=
  ∃ op, P op ∧ t.rows = (Store.carryOut world op s).2.rows

/-- A failure leaves the tables as they were, or as one operation that satisfies `P` left them. -/
def Act.AllOrNothing {α : Type} (world : World) (P : Operation → Prop) (act : Act Store α) : Prop :=
  ∀ s t e, act.runFrom s = (.error e, t) → t.rows = s.rows ∨ s.Written world P t

/-- The tables stay as they are. -/
def Act.ReadsOnly {α : Type} (act : Act Store α) : Prop := ∀ s, (act.runFrom s).2.rows = s.rows

/-- Whatever the outcome, the tables have changed by one operation at most, which satisfies `P`. -/
def Act.WritesOnce {α : Type} (world : World) (P : Operation → Prop) (act : Act Store α) : Prop :=
  ∀ s, (act.runFrom s).2.rows = s.rows ∨ s.Written world P (act.runFrom s).2

/-- A result comes from every state. -/
def Act.Succeeds {α : Type} (act : Act Store α) : Prop :=
  ∀ s, ∃ a t, act.runFrom s = (.ok a, t)

variable {α β : Type} {x : Act Store α} {f : α → Act Store β} {world : World}
  {registry : Registry} {P : Operation → Prop} {Q : α → Prop}

theorem Store.Written.mono {s t : Store} {P' : Operation → Prop} (h : s.Written world P t)
    (hP : ∀ op, P op → P' op) : s.Written world P' t := by
  obtain ⟨op, hop, hrows⟩ := h
  exact ⟨op, hP op hop, hrows⟩

theorem Store.Written.of_rows {s s' t t' : Store} (h : s.Written world P t)
    (hs : s.rows = s'.rows) (ht : t'.rows = t.rows) : s'.Written world P t' := by
  obtain ⟨op, hop, hrows⟩ := h
  exact ⟨op, hop, ht.trans (hrows.trans (Store.rows_carryOut_congr world op hs))⟩

theorem Store.Written.of_perform {op : Operation} (hop : P op) {s t : Store}
    {result : Except Error Answer}
    (h : ((Store.host world).perform op).runFrom s = (result, t)) : s.Written world P t := by
  rw [Store.runFrom_perform, Prod.mk.injEq] at h
  obtain ⟨-, rfl⟩ := h
  exact ⟨op, hop, Store.rows_carryOut_congr world op rfl⟩

namespace Act

theorem Succeeds.pure (a : α) : Succeeds (Pure.pure a : Act Store α) := fun s => ⟨a, s, rfl⟩

/-- What follows has to succeed only on the results that there are. -/
theorem Succeeds.bind_of_result (hx : Succeeds x)
    (hf : ∀ {s t a}, x.runFrom s = (.ok a, t) → Succeeds (f a)) : Succeeds (x >>= f) := by
  intro s
  obtain ⟨a, t, ha⟩ := hx s
  obtain ⟨b, u, hb⟩ := hf ha t
  exact ⟨b, u, runFrom_bind_eq_ok.2 ⟨a, t, ha, hb⟩⟩

theorem Succeeds.bind (hx : Succeeds x) (hf : ∀ a, Succeeds (f a)) : Succeeds (x >>= f) :=
  hx.bind_of_result fun _ => hf _

theorem Succeeds.perform {op : Operation} (unsorted : op.Unsorted) :
    Succeeds ((Store.host world).perform op) := by
  intro s
  obtain ⟨answer, hanswer⟩ := Store.execute_of_unsorted world unsorted s
  exact ⟨answer, _, Store.runFrom_perform_of_answered world hanswer⟩

theorem Succeeds.ofExcept_bind {r : Except Error α} {a : α} (h : r = .ok a)
    (hf : Succeeds (f a)) : Succeeds (Act.ofExcept r >>= f) := by
  subst h
  exact hf

/-- Guarded selects change no table. -/
theorem Sends.readsOnly (h : Sends (Store.host world) (GuardedSelect registry) x Q) :
    ReadsOnly x := by
  intro s
  have keeps : (Store.host world).Keeps (GuardedSelect registry) fun t => t.rows = s.rows := by
    constructor
    · rintro op t ⟨_⟩ ht
      exact ht
    · exact fun ht => ht
    · exact fun ht => ht
  exact h.keeps keeps rfl

theorem ReadsOnly.rows_eq (hx : ReadsOnly x) {s t : Store} {result : Except Error α}
    (h : x.runFrom s = (result, t)) : t.rows = s.rows := by
  have hrows := hx s
  rwa [h] at hrows

theorem ReadsOnly.ofExcept (r : Except Error α) : ReadsOnly (Act.ofExcept r : Act Store α) := by
  intro s
  rw [runFrom_ofExcept]

theorem ReadsOnly.pure (a : α) : ReadsOnly (Pure.pure a : Act Store α) := fun _ => rfl

theorem ReadsOnly.bind (hx : ReadsOnly x) (hf : ∀ a, ReadsOnly (f a)) : ReadsOnly (x >>= f) := by
  intro s
  rcases hxs : x.runFrom s with ⟨_ | a, t⟩
  · rw [runFrom_bind_error hxs]
    exact hx.rows_eq hxs
  · rw [runFrom_bind_ok hxs, hf a t]
    exact hx.rows_eq hxs

namespace WritesOnce

theorem of_readsOnly (h : ReadsOnly x) : WritesOnce world P x := fun s => .inl (h s)

theorem perform {op : Operation} (hop : P op) :
    WritesOnce world P ((Store.host world).perform op) := fun _ => .inr (.of_perform hop rfl)

theorem of_runFrom {P' : Operation → Prop} {y : Act Store α} (hy : WritesOnce world P y)
    (h : ∀ s, x.runFrom s = y.runFrom s) (hP : ∀ op, P op → P' op) : WritesOnce world P' x := by
  intro s
  rw [h]
  exact (hy s).imp id fun hwritten => hwritten.mono hP

/-- What only reads may come before the write. -/
theorem readsOnly_bind (hx : ReadsOnly x)
    (hf : ∀ {s t a}, x.runFrom s = (.ok a, t) → WritesOnce world P (f a)) :
    WritesOnce world P (x >>= f) := by
  intro s
  rcases hxs : x.runFrom s with ⟨e | a, t⟩
  · rw [runFrom_bind_error hxs]
    exact .inl (hx.rows_eq hxs)
  · rw [runFrom_bind_ok hxs]
    have hrows := hx.rows_eq hxs
    rcases hf hxs t with hu | hwritten
    · exact .inl (hu.trans hrows)
    · exact .inr (hwritten.of_rows hrows rfl)

/-- What only reads may come after the write. -/
theorem bind_readsOnly (hx : WritesOnce world P x) (hf : ∀ a, ReadsOnly (f a)) :
    WritesOnce world P (x >>= f) := by
  intro s
  rcases hxs : x.runFrom s with ⟨e | a, t⟩
  · have h := hx s
    rw [hxs] at h
    rwa [runFrom_bind_error hxs]
  · have h := hx s
    rw [hxs] at h
    rw [runFrom_bind_ok hxs]
    have hrows := hf a t
    rcases h with ht | hwritten
    · exact .inl (hrows.trans ht)
    · exact .inr (hwritten.of_rows rfl hrows)

end WritesOnce

namespace AllOrNothing

theorem mono {P' : Operation → Prop} (h : AllOrNothing world P x) (hP : ∀ op, P op → P' op) :
    AllOrNothing world P' x := fun s t e he =>
  (h s t e he).imp id fun hwritten => hwritten.mono hP

theorem of_succeeds (h : Succeeds x) : AllOrNothing world P x := by
  intro s t e he
  obtain ⟨a, u, ha⟩ := h s
  rw [ha] at he
  cases he

theorem ofExcept (r : Except Error α) : AllOrNothing world P (Act.ofExcept r) := by
  intro s t e he
  rw [runFrom_ofExcept, Prod.mk.injEq] at he
  exact .inl (congrArg Store.rows he.2.symm)

theorem sends_bind (hx : Sends (Store.host world) (GuardedSelect registry) x Q)
    (hf : ∀ a, Q a → AllOrNothing world P (f a)) : AllOrNothing world P (x >>= f) := by
  intro s u e he
  rcases hxs : x.runFrom s with ⟨_ | a, t⟩
  · rw [runFrom_bind_error hxs] at he
    cases he
    exact .inl (hx.readsOnly.rows_eq hxs)
  · rw [runFrom_bind_ok hxs] at he
    have hrows := hx.readsOnly.rows_eq hxs
    rcases hf a (hx.result hxs) t u e he with hu | hwritten
    · exact .inl (hu.trans hrows)
    · exact .inr (hwritten.of_rows hrows rfl)

theorem ofExcept_bind {r : Except Error α} (hf : ∀ a, r = .ok a → AllOrNothing world P (f a)) :
    AllOrNothing world P (Act.ofExcept r >>= f) := by
  cases r with
  | ok a => exact hf a rfl
  | error e =>
    intro s t e' he
    cases he
    exact .inl rfl

/-- After a write nothing may fail, unless it leaves the tables as the write left them. -/
theorem bind_of_result (hx : AllOrNothing world P x)
    (hf : ∀ {s t a}, x.runFrom s = (.ok a, t) → Succeeds (f a) ∨
      s.Written world P t ∧ ReadsOnly (f a)) :
    AllOrNothing world P (x >>= f) := by
  intro s u e he
  rcases hxs : x.runFrom s with ⟨_ | a, t⟩
  · rw [runFrom_bind_error hxs] at he
    cases he
    exact hx s u e hxs
  · rw [runFrom_bind_ok hxs] at he
    rcases hf hxs with hsucceeds | ⟨hwritten, hreads⟩
    · obtain ⟨b, v, hb⟩ := hsucceeds t
      rw [hb] at he
      cases he
    · exact .inr (hwritten.of_rows rfl (hreads.rows_eq he))

theorem bind_succeeds (hx : AllOrNothing world P x) (hf : ∀ a, Succeeds (f a)) :
    AllOrNothing world P (x >>= f) :=
  hx.bind_of_result fun _ => .inl (hf _)

end AllOrNothing
end Act

section
variable {settings : Settings} {m : Model} {action : String}

theorem Pushdown.pushGroup_readsOnly (g : FilterGroup) :
    (pushGroup (Store.engine world registry settings) m g).ReadsOnly :=
  (pushGroup_sends (Store.engine world registry settings) m g).readsOnly

theorem Pushdown.resolveGroup_readsOnly (g : FilterGroup) :
    (resolveGroup (Store.engine world registry settings) m g).ReadsOnly :=
  (resolveGroup_sends (Store.engine world registry settings) m g).readsOnly

theorem Task.currentTime_readsOnly :
    (currentTime (Store.context world registry settings m action)).ReadsOnly :=
  (currentTime_sends (Store.context world registry settings m action)
    (GuardedSelect registry)).readsOnly

theorem Task.read_readsOnly (input : Json) :
    (read (Store.context world registry settings m action) input).ReadsOnly :=
  (read_sends (Store.context world registry settings m action) input).readsOnly

end

namespace Task
variable (world registry) (P) (settings : Settings) (m : Model) (action : String)

theorem insert_allOrNothing (input : Json) :
    (insert (Store.context world registry settings m action) input).AllOrNothing world P := by
  refine .ofExcept_bind fun payload _ => .ofExcept_bind fun op _ => .of_succeeds ?_
  exact .bind (.perform trivial) fun answer => .pure _

theorem update_allOrNothing (input : Json) :
    (update (Store.context world registry settings m action) input).AllOrNothing world P := by
  have hnow := currentTime_sends (Store.context world registry settings m action)
    (GuardedSelect registry)
  refine .ofExcept_bind fun data _ => .sends_bind hnow fun now _ => .ofExcept_bind fun g _ => ?_
  refine .sends_bind (Pushdown.resolveGroup_sends (Store.engine world registry settings) m g)
    fun conditions _ => .of_succeeds ?_
  exact .bind (.perform trivial) fun answer => .pure _

theorem delete_allOrNothing (soft : Bool) (input : Json) :
    (delete soft (Store.context world registry settings m action) input).AllOrNothing world P := by
  refine .ofExcept_bind fun g _ => ?_
  refine .sends_bind (Pushdown.resolveGroup_sends (Store.engine world registry settings) m g)
    fun conditions _ => .of_succeeds ?_
  exact .bind (.perform trivial) fun answer => .pure _

end Task

namespace Walk

/-- A walk from a state on is all or nothing if the state's input satisfies `Q`. -/
def Safe (world : World) (P : Operation → Prop) (g : Graph) (ctx : Context Store) (traced : Bool)
    (fuel : Nat) (current : String) (Q : Json → Prop) : Prop :=
  ∀ previous p, Q p.input →
    (follow g .builtin ctx traced fuel previous current p).AllOrNothing world P

namespace Safe
variable {g : Graph} {ctx : Context Store} {traced : Bool} {fuel : Nat}
  {current next other resource : String} {handler : Handler Store} {Q Q' : Json → Prop}

theorem taskTo (h : g.states.get? current = some (Graph.taskTo resource next))
    (hh : Tasks.builtin.get resource = .ok handler)
    (hsends : ∀ input, Q input →
      Sends ctx.host (GuardedSelect ctx.registry) (handler ctx input) Q')
    (hworld : ctx.host = Store.host world)
    (hnext : Safe world P g ctx traced fuel next Q') :
    Safe world P g ctx traced (fuel + 1) current Q := by
  intro previous p hp
  rw [follow_taskTo h hh]
  rw [hworld] at hsends
  exact .sends_bind (hsends p.input hp) fun output ho =>
    hnext current (({ p with output }).record traced current .task).advance ho

theorem taskEnd (h : g.states.get? current = some (Graph.taskEnd resource))
    (hh : Tasks.builtin.get resource = .ok handler)
    (hall : ∀ input, Q input → (handler ctx input).AllOrNothing world P) :
    Safe world P g ctx traced (fuel + 1) current Q := by
  intro previous p hp
  rw [follow_taskEnd h hh]
  exact .bind_succeeds (hall p.input hp) fun _ => .pure _

/-- Where a task writes, the one after it is the last. It only reads, and either it does not fail or
the write is one of those that may stay. -/
theorem taskTo_taskEnd {handler' : Handler Store} {resource' : String}
    (h : g.states.get? current = some (Graph.taskTo resource next))
    (hh : Tasks.builtin.get resource = .ok handler)
    (h' : g.states.get? next = some (Graph.taskEnd resource'))
    (hh' : Tasks.builtin.get resource' = .ok handler')
    (hall : ∀ input, Q input → (handler ctx input).AllOrNothing world P)
    (hreads : ∀ input, (handler' ctx input).ReadsOnly)
    (hlast : ∀ {input output s t}, Q input → (handler ctx input).runFrom s = (.ok output, t) →
      (handler' ctx output).Succeeds ∨ s.Written world P t) :
    Safe world P g ctx traced (fuel + 2) current Q := by
  intro previous p hp
  rw [follow_taskTo h hh]
  refine .bind_of_result (hall p.input hp) fun hrun => ?_
  rw [follow_taskEnd h' hh']
  rcases hlast hp hrun with hsucceeds | hwritten
  · exact .inl (hsucceeds.bind fun output => .pure _)
  · exact .inr ⟨hwritten, (hreads _).bind fun output => .pure _⟩

theorem branch {variableName : String} {test : Test}
    (h : g.states.get? current = some (Graph.branch variableName test next other))
    (hnext : Safe world P g ctx traced fuel next Q)
    (hother : Safe world P g ctx traced fuel other Q) :
    Safe world P g ctx traced (fuel + 1) current Q := by
  intro previous p hp
  rw [follow_branch h]
  split
  · exact hnext _ _ hp
  · exact hother _ _ hp

end Safe
end Walk
end ModelActions
