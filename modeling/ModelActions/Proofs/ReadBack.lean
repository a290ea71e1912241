import ModelActions.Proofs.AllOrNothing
import ModelActions.Proofs.BatchedExpansion
import ModelActions.Proofs.CanonicalFilters
import ModelActions.Proofs.Reading

/-!
# Reading rows back

Rows are read back by the values of their primary key. That cannot fail if the name of the key can
be the path of a leaf.
-/
namespace ModelActions

open Act (Succeeds Sends)

/-- The filter of a request for keys is read as it was written. -/
theorem Filter.parse_keyRequest (leaf : Condition) (h : leaf.path ≠ "") :
    Filter.parse (Task.keyRequest leaf).filters = .ok (some (.and [.condition leaf])) :=
  parse_toJson (List.cons_ne_nil _ _) ⟨h, trivial⟩

namespace Pushdown

/-- The path of a leaf stays on the model or leads through relationships. -/
inductive Resolves (registry : Registry) : Model → String → Prop
  | here {m : Model} {path : String} (stays : Local m path) : Resolves registry m path
  | hop {m related : Model} {path rest : String} {r : Relationship}
      (hop : Path.rest? path = some rest) (leads : registry.Leads m (Path.head path) r related)
      (resolves : Resolves registry related rest) : Resolves registry m path

variable {world : World} {registry : Registry} {settings : Settings} {m : Model}

theorem pushLeaf_succeeds {c : Condition} (h : Resolves registry m c.path) :
    Succeeds (pushLeaf (Store.engine world registry settings) m c) := by
  generalize hpath : c.path = path at h
  induction h generalizing c with
  | here stays =>
    subst hpath
    rw [pushLeaf_of_local _ _ c stays]
    exact .pure c
  | @hop m related path rest r hop leads _ ih =>
    subst hpath
    by_cases hs : m.schema.has (Path.head c.path) = true
    · rw [pushLeaf_of_local _ m c (.inr hs)]
      exact .pure c
    · rw [Bool.not_eq_true] at hs
      rw [pushLeaf_of_not_local _ m c hop hs]
      refine .ofExcept_bind (Model.relationship_eq_ok.2 leads.relationship) ?_
      refine .ofExcept_bind (Registry.get_eq_ok.2 leads.model) ?_
      refine .bind (@ih { c with path := rest } rfl) fun leaf => ?_
      exact .bind (.perform rfl) fun answer => .pure _

/-- A leaf that was pushed down resolves, whatever the rows are. -/
theorem pushLeaf_resolves {c c' : Condition} {t u : Store}
    (h : (pushLeaf (Store.engine world registry settings) m c).runFrom t = (.ok c', u)) :
    Resolves registry m c.path := by
  induction c using Condition.hop_induction generalizing m c' t u with
  | last c hp => exact .here (.inl hp)
  | hop c rest hp ih =>
    by_cases hs : m.schema.has (Path.head c.path) = true
    · exact .here (.inr hs)
    · rw [Bool.not_eq_true] at hs
      obtain ⟨r, related, leaf, t', hr, hrel, hleaf, -⟩ := pushLeaf_hop_eq_ok hp hs h
      exact .hop hp ⟨hr, hrel⟩ (ih hleaf)

mutual
theorem push_resolves (n : Filter) {n' : Filter} {t u : Store}
    (h : (push (Store.engine world registry settings) m n).runFrom t = (.ok n', u)) :
    ∀ c ∈ n.leaves, Resolves registry m c.path := by
  match n with
  | .condition c =>
    obtain ⟨c', t₁, h₁, -⟩ := Act.runFrom_bind_eq_ok.1 h
    simpa [Filter.leaves] using pushLeaf_resolves h₁
  | .group op children =>
    obtain ⟨children', t₁, h₁, -⟩ := Act.runFrom_bind_eq_ok.1 h
    exact pushAll_resolves children h₁

theorem pushAll_resolves (ns : List Filter) {ns' : List Filter} {t u : Store}
    (h : (pushAll (Store.engine world registry settings) m ns).runFrom t = (.ok ns', u)) :
    ∀ c ∈ Filter.leavesAll ns, Resolves registry m c.path := by
  match ns with
  | [] => exact fun c hc => absurd hc List.not_mem_nil
  | n :: ns =>
    obtain ⟨n', t₁, h₁, h⟩ := Act.runFrom_bind_eq_ok.1 h
    obtain ⟨ns', t₂, h₂, -⟩ := Act.runFrom_bind_eq_ok.1 h
    exact fun c hc => (List.mem_append.1 hc).elim (push_resolves n h₁ c) (pushAll_resolves ns h₂ c)
end

mutual
theorem push_succeeds (n : Filter) (h : ∀ c ∈ n.leaves, Resolves registry m c.path) :
    Succeeds (push (Store.engine world registry settings) m n) := by
  match n with
  | .condition c =>
    exact .bind (pushLeaf_succeeds (h c (List.mem_singleton.2 rfl))) fun c' => .pure _
  | .group op children => exact .bind (pushAll_succeeds children h) fun children' => .pure _

theorem pushAll_succeeds (ns : List Filter)
    (h : ∀ c ∈ Filter.leavesAll ns, Resolves registry m c.path) :
    Succeeds (pushAll (Store.engine world registry settings) m ns) := by
  match ns with
  | [] => exact .pure []
  | n :: ns =>
    refine .bind (push_succeeds n fun c hc => h c (List.mem_append_left _ hc)) fun n' => ?_
    refine .bind (pushAll_succeeds ns fun c hc => h c (List.mem_append_right _ hc)) fun ns' => ?_
    exact .pure _
end

/-- What was pushed down once can be pushed down from every store. -/
theorem pushGroup_succeeds_of_ok {g g' : FilterGroup} {t u : Store}
    (h : (pushGroup (Store.engine world registry settings) m g).runFrom t = (.ok g', u))
    (world' : World) : Succeeds (pushGroup (Store.engine world' registry settings) m g) := by
  obtain ⟨children, t₁, h₁, -⟩ := Act.runFrom_bind_eq_ok.1 h
  exact .bind (pushAll_succeeds g.children (pushAll_resolves g.children h₁)) fun _ => .pure _

/-- A filter of one leaf can be pushed down if the leaf can. -/
theorem resolve_leaf_succeeds {leaf : Condition} (h : Resolves registry m leaf.path) :
    Succeeds (resolve (Store.engine world registry settings) m
      (some (.and [.condition leaf]))) := by
  have hall : Succeeds (pushAll (Store.engine world registry settings) m [.condition leaf]) :=
    pushAll_succeeds _ fun c hc => by
      obtain rfl : c = leaf := by simpa [Filter.leavesAll, Filter.leaves] using hc
      exact h
  have hgroup : Succeeds (pushGroup (Store.engine world registry settings) m
      (.and [.condition leaf])) := .bind hall fun children => .pure _
  exact .bind hgroup fun g => .pure _

end Pushdown

/-- A select without expand paths and sort keys is answered. -/
theorem Expansion.execute_succeeds {world : World} {registry : Registry} {settings : Settings}
    (m : Model) {op : Select} (unexpanded : op.expand = []) (unsorted : op.sorts = []) :
    Succeeds (Expansion.execute (Store.engine world registry settings) m op) := by
  intro t
  refine ⟨Store.selection op (t.found op), { t with log := t.log ++ [.select op] }, ?_⟩
  rw [Expansion.execute,
    Expansion.runFrom_fetch _ rfl _ _ (Store.select_of_unsorted unsorted), unexpanded]
  rfl

namespace Task
variable {world : World} {registry : Registry} {settings : Settings} {m : Model} {action : String}

/-- The rows with a key can be found by it. -/
structure Readable (registry : Registry) (m : Model) : Prop where
  nonempty : m.primaryKey ≠ ""
  resolves : Pushdown.Resolves registry m m.primaryKey

theorem select_keyRequest_succeeds (hm : registry.models.get? m.name = some m) {leaf : Condition}
    (nonempty : leaf.path ≠ "") (resolves : Pushdown.Resolves registry m leaf.path) :
    Succeeds (Query.select (Store.engine world registry settings) m.name (keyRequest leaf)) := by
  have hbuild : Succeeds (Query.build (Store.engine world registry settings) m
      (keyRequest leaf)) := by
    refine .ofExcept_bind (Filter.parse_keyRequest leaf nonempty) ?_
    refine .ofExcept_bind (a := none) rfl ?_
    refine .bind (Pushdown.resolve_leaf_succeeds resolves) fun filters => ?_
    exact .ofExcept_bind (a := ()) rfl (.ofExcept_bind (a := []) rfl (.pure _))
  refine .ofExcept_bind (Registry.get_eq_ok.2 hm) (.bind_of_result hbuild fun hrun => ?_)
  obtain ⟨-, -, unexpanded, unsorted, -⟩ := (Query.build_sends
    (Store.engine world registry settings) m (keyRequest leaf)).result hrun
  exact Expansion.execute_succeeds m unexpanded unsorted

theorem read_succeeds (hm : registry.models.get? m.name = some m) (readable : Readable registry m)
    {input : Json} (hrequest : isRequest m input = false)
    (hrows : input.isObject = true ∨ input.isArray = true) :
    Succeeds (read (Store.context world registry settings m action) input) := by
  have hkeys (leaf : Condition) (hpath : leaf.path = m.primaryKey) :
      Succeeds (Query.select (Store.engine world registry settings) m.name (keyRequest leaf)) :=
    select_keyRequest_succeeds hm (hpath ▸ readable.nonempty) (hpath ▸ readable.resolves)
  have hselect (leaf : Condition) (hpath : leaf.path = m.primaryKey) (answer : Selection → Json) :
      Succeeds (do
        let found ← Query.select (Store.engine world registry settings) m.name (keyRequest leaf)
        return answer found) := (hkeys leaf hpath).bind fun found => .pure _
  unfold read
  dsimp only [Store.context]
  rw [hrequest, if_neg Bool.false_ne_true]
  cases input with
  | obj row =>
    dsimp only
    split
    · exact .pure _
    · exact .pure _
    · exact hselect _ rfl fun found => firstOf found.result
  | arr rows =>
    dsimp only
    split
    · exact .pure _
    · exact hselect _ rfl fun found => .arr found.result
  | _ => simp [Json.isObject, Json.isArray] at hrows

end Task
end ModelActions
