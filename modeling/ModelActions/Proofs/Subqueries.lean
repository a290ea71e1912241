import ModelActions.Proofs.ExpandedRows
import ModelActions.Proofs.ReadBack
import ModelActions.Proofs.Recordings

/-!
# The selects of a push-down

A push-down keeps the shape of a tree and sends one select for each hop of each of its leaves: leaf
after leaf, and for a leaf the last hop of its path first, since the rows that it finds are those
that the hop before it is about. Relationships may lead back to the model they started from; what
gets smaller with each hop is the path.
-/
namespace ModelActions
variable {σ : Type}

/-- Two trees of the same shape, whose leaves are related one by one. -/
inductive Filter.Alike (leaf : Condition → Condition → Prop) : Filter → Filter → Prop
  | condition {c c' : Condition} (h : leaf c c') : Alike leaf (.condition c) (.condition c')
  | group {op : Connective} {ns ns' : List Filter} (h : List.Forall₂ (Alike leaf) ns ns') :
      Alike leaf (.group op ns) (.group op ns')

namespace Act
variable {α β : Type} {x : Act (σ × Recording) α} {n k : Nat} {F F' : Error → Prop}
  {Q : α → Recording → Prop}

/-- What a computation adds to a record of what is sent: at most a number of operations. If it
succeeds, its result and what it added satisfy `Q`, and if it fails, its error satisfies `F`. -/
def Records (x : Act (σ × Recording) α) (most : Nat) (F : Error → Prop)
    (Q : α → Recording → Prop) : Prop :=
  ∀ s, ∃ sent, (x.runFrom s).2.2 = s.2 ++ sent ∧ sent.length ≤ most ∧
    match (x.runFrom s).1 with
    | .ok a => Q a sent
    | .error err => F err

namespace Records

theorem pure {a : α} (h : Q a []) : Records (Pure.pure a : Act (σ × Recording) α) n F Q :=
  fun s => ⟨[], (List.append_nil s.2).symm, Nat.zero_le n, h⟩

theorem ofExcept {r : Except Error α} (failed : ∀ err, r = .error err → F err) :
    Records (Act.ofExcept r : Act (σ × Recording) α) 0 F fun a sent => r = .ok a ∧ sent = [] := by
  intro s
  rw [runFrom_ofExcept]
  refine ⟨[], (List.append_nil s.2).symm, Nat.le_refl 0, ?_⟩
  cases r with
  | ok a => exact ⟨rfl, rfl⟩
  | error err => exact failed err rfl

theorem perform {host : Host σ} (op : Operation) (failed : ∀ failure, F (Failure.toError failure)) :
    Records (host.recorded.perform op) 1 F fun answer sent => sent = [(op, .ok answer)] := by
  intro s
  rw [runFrom_perform]
  refine ⟨[(op, (host.execute op s.1).1)], rfl, Nat.le_refl 1, ?_⟩
  simp only [Host.recorded]
  cases (host.execute op s.1).1 with
  | ok answer => rfl
  | error failure => exact failed failure

/-- What two computations add, one after the other. -/
theorem bind {f : α → Act (σ × Recording) β} {Q' : β → Recording → Prop} (hx : Records x n F Q)
    (hf : ∀ a sent, Q a sent → Records (f a) k F fun b sent' => Q' b (sent ++ sent')) :
    Records (x >>= f) (n + k) F Q' := by
  intro s
  obtain ⟨sent, hsent, hn, hresult⟩ := hx s
  rw [runFrom_bind]
  rcases hrun : x.runFrom s with ⟨err | a, t⟩
  · rw [hrun] at hsent hresult
    exact ⟨sent, hsent, Nat.le_add_right_of_le hn, hresult⟩
  · rw [hrun] at hsent hresult
    obtain ⟨sent', hsent', hk, hresult'⟩ := hf a sent hresult t
    refine ⟨sent ++ sent', ?_, ?_, hresult'⟩
    · rw [hsent', hsent, List.append_assoc]
    · rw [List.length_append]
      exact Nat.add_le_add hn hk

theorem weaken {Q' : α → Recording → Prop} (h : Records x n F Q) (hk : n ≤ k)
    (hF : ∀ err, F err → F' err) (hQ : ∀ a sent, Q a sent → Q' a sent) : Records x k F' Q' := by
  intro s
  obtain ⟨sent, hsent, hn, hresult⟩ := h s
  refine ⟨sent, hsent, hn.trans hk, ?_⟩
  cases hrun : (x.runFrom s).1 with
  | ok a =>
    rw [hrun] at hresult
    exact hQ a sent hresult
  | error err =>
    rw [hrun] at hresult
    exact hF err hresult

end Records
end Act

namespace Pushdown
variable {registry : Registry} {m : Model}

/-- The hops of a path, given by its segments, each with the model that it leads to. There is none
if the path has one segment or leads into an attribute of the schema. -/
def hopsFrom (registry : Registry) : Model → List String → List (Relationship × Model)
  | m, name :: next :: rest =>
    if m.schema.has name then []
    else match Expansion.lead? registry m name with
      | some (r, related) => (r, related) :: hopsFrom registry related (next :: rest)
      | none => []
  | _, _ => []

def hops (registry : Registry) (m : Model) (path : String) : List (Relationship × Model) :=
  hopsFrom registry m (Path.segments path)

theorem hops_of_local {path : String} (h : Local m path) : hops registry m path = [] := by
  rw [hops]
  cases hrest : Path.rest? path with
  | none =>
    rw [Path.segments_of_rest?_none hrest]
    rfl
  | some rest =>
    have hs : m.schema.has (Path.head path) = true := by simpa [Local, hrest] using h
    rw [Path.segments_of_rest?_some hrest]
    obtain ⟨next, ss, hss⟩ := List.exists_cons_of_ne_nil (Path.segments_ne_nil rest)
    rw [hss, hopsFrom, if_pos hs]

/-- A path that leads through a relationship has one hop more than the rest of it. -/
theorem hops_of_leads {path rest : String} {r : Relationship} {related : Model}
    (hrest : Path.rest? path = some rest) (foreign : m.schema.has (Path.head path) = false)
    (leads : registry.Leads m (Path.head path) r related) :
    hops registry m path = (r, related) :: hops registry related rest := by
  rw [hops, hops, Path.segments_of_rest?_some hrest]
  obtain ⟨next, ss, hss⟩ := List.exists_cons_of_ne_nil (Path.segments_ne_nil rest)
  simp only [hss, hopsFrom, foreign, Expansion.lead?_eq_some_iff.2 leads, Bool.false_eq_true,
    if_false]

/-- Asks for the keys of a hop: one column of the related model's rows, on all pages. -/
def AsksForKeys (hop : Relationship × Model) (op : Operation) : Prop :=
  ∃ select : Select, op = .select select ∧ select.table = hop.2.table ∧
    select.model = hop.2.name ∧ select.columns = some [hop.1.target] ∧ select.pagination = none

/-- What a leaf becomes: it stays as it is if its path takes no hop, and asks otherwise for some of
the keys of the first hop, each of them once. -/
def Pushed (registry : Registry) (m : Model) (c c' : Condition) : Prop :=
  match hops registry m c.path with
  | [] => c' = c
  | (r, _) :: _ => ∃ keys, Json.Unrepeated keys ∧ c' = ⟨r.source, .in, .arr keys⟩

variable (e : Engine σ)

/-- What can go wrong: the operator fails, or a path takes a hop that does not exist. -/
def Fails (registry : Registry) (m : Model) (leaves : List Condition) (err : Error) : Prop :=
  (∃ failure : Failure, err = failure.toError) ∨ ∃ c ∈ leaves, ¬Resolves registry m c.path

/-- A path that leads off the model resolves if its first hop exists and the rest resolves. -/
theorem Resolves.onward {path rest : String} (h : Resolves registry m path)
    (hrest : Path.rest? path = some rest) (foreign : m.schema.has (Path.head path) = false) :
    ∃ r related, registry.Leads m (Path.head path) r related ∧ Resolves registry related rest := by
  cases h with
  | here stays => simp [Local, hrest, foreign] at stays
  | hop hop leads resolves =>
    obtain rfl := Option.some.inj (hrest.symm.trans hop)
    exact ⟨_, _, leads, resolves⟩

/-- What pushing a leaf down gives and sends: one select for each hop of its path, the last hop
first. -/
structure SendsHops (registry : Registry) (m : Model) (c c' : Condition) (sent : Recording) :
    Prop where
  resolves : Resolves registry m c.path
  pushed : Pushed registry m c c'
  sent : List.Forall₂ AsksForKeys (hops registry m c.path).reverse (sent.map Prod.fst)

theorem pushLeaf_records_of_local {m : Model} {c : Condition} (stays : Local m c.path) {n : Nat}
    {F : Error → Prop} :
    (pushLeaf e.recorded m c).Records n F (SendsHops e.registry m c) := by
  rw [pushLeaf_of_local _ m c stays]
  refine .pure ⟨.here stays, ?_, ?_⟩
  · rw [Pushed, hops_of_local stays]
  · rw [hops_of_local stays]
    exact .nil

/-- One hop more is one select more, after those of the rest of the path. -/
theorem pushLeaf_records_of_hop {m : Model} {c : Condition} {rest : String} {n : Nat}
    (hrest : Path.rest? c.path = some rest) (foreign : m.schema.has (Path.head c.path) = false)
    (onward : ∀ related, (pushLeaf e.recorded related { c with path := rest }).Records n
      (Fails e.registry related [{ c with path := rest }])
      (SendsHops e.registry related { c with path := rest })) :
    (pushLeaf e.recorded m c).Records (n + 1) (Fails e.registry m [c])
      (SendsHops e.registry m c) := by
  have missing {err : Error} (h : ∀ r related, e.registry.Leads m (Path.head c.path) r related →
      ¬Resolves e.registry related rest) : Fails e.registry m [c] err := by
    refine .inr ⟨c, List.mem_singleton_self c, fun resolves => ?_⟩
    obtain ⟨r, related, leads, hresolves⟩ := resolves.onward hrest foreign
    exact h r related leads hresolves
  have operator (failure : Failure) : Fails e.registry m [c] failure.toError :=
    .inl ⟨failure, rfl⟩
  rw [pushLeaf_of_not_local _ m c hrest foreign]
  suffices h : Act.Records _ (0 + (0 + (n + (1 + 0)))) _ _ from
    h.weaken (by omega) (fun _ hfails => hfails) fun _ _ hsends => hsends
  refine .bind (.ofExcept fun err herr => missing fun r related leads => ?_) ?_
  · rw [Model.relationship_eq_ok.2 leads.relationship] at herr
    contradiction
  rintro r _ ⟨hr, rfl⟩
  refine .bind (.ofExcept fun err herr => missing fun r' related leads => ?_) ?_
  · obtain rfl : r' = r := by simpa [Model.relationship_eq_ok.2 leads.relationship] using hr
    have hget : e.recorded.model r'.related = .ok related := Registry.get_eq_ok.2 leads.model
    rw [hget] at herr
    contradiction
  rintro related _ ⟨hrelated, rfl⟩
  have leads : e.registry.Leads m (Path.head c.path) r related :=
    ⟨Model.relationship_eq_ok.1 hr, Registry.get_eq_ok.1 hrelated⟩
  refine .bind ((onward related).weaken (Nat.le_refl n) ?_ fun _ _ hsends => hsends) ?_
  · rintro err (⟨failure, rfl⟩ | ⟨c', hc', hnot⟩)
    · exact operator failure
    · obtain rfl := List.mem_singleton.1 hc'
      refine missing fun r' related' leads' => ?_
      obtain rfl := Option.some.inj (leads.relationship.symm.trans leads'.relationship)
      obtain rfl := Option.some.inj (leads.model.symm.trans leads'.model)
      exact hnot
  rintro leaf sent ⟨resolves, -, hsent⟩
  refine .bind (.perform _ operator) ?_
  rintro answer _ rfl
  have hhops := hops_of_leads hrest foreign leads
  refine .pure ⟨.hop hrest leads resolves, ?_, ?_⟩
  · rw [Pushed, hhops]
    exact ⟨_, Json.unrepeated_distinct _, rfl⟩
  · rw [hhops, List.reverse_cons]
    simp only [List.nil_append, List.append_nil, List.map_append, List.map_cons, List.map_nil]
    exact List.rel_append hsent (.cons ⟨_, rfl, rfl, rfl, rfl, rfl⟩ .nil)

/-- The number of points in a path. -/
def points (path : String) : Nat := Path.length path - 1

theorem pushLeaf_records (m : Model) (c : Condition) :
    (pushLeaf e.recorded m c).Records (points c.path) (Fails e.registry m [c])
      (SendsHops e.registry m c) := by
  induction c using Condition.hop_induction generalizing m with
  | last c hp => exact pushLeaf_records_of_local e (.inl hp)
  | hop c rest hp ih =>
    by_cases hs : m.schema.has (Path.head c.path) = true
    · exact pushLeaf_records_of_local e (.inr hs)
    · have hpoints : points c.path = points rest + 1 := by
        have hpos := List.length_pos_of_ne_nil (Path.segments_ne_nil rest)
        rw [points, points, Path.length, Path.length, Path.segments_of_rest?_some hp,
          List.length_cons]
        omega
      rw [hpoints]
      exact pushLeaf_records_of_hop e hp (by simpa using hs) ih

/-- What pushing trees down sends: the selects of their leaves, one leaf after the other. -/
structure SendsLeaves (registry : Registry) (m : Model) (leaves : List Condition)
    (sent : Recording) : Prop where
  resolves : ∀ c ∈ leaves, Resolves registry m c.path
  sent : List.Forall₂ AsksForKeys (leaves.flatMap fun c => (hops registry m c.path).reverse)
    (sent.map Prod.fst)

theorem SendsLeaves.append {leaves leaves' : List Condition} {sent sent' : Recording}
    (first : SendsLeaves registry m leaves sent) (rest : SendsLeaves registry m leaves' sent') :
    SendsLeaves registry m (leaves ++ leaves') (sent ++ sent') where
  resolves c hc := (List.mem_append.1 hc).elim (first.resolves c) (rest.resolves c)
  sent := by
    rw [List.flatMap_append, List.map_append]
    exact List.rel_append first.sent rest.sent

theorem Fails.mono {leaves leaves' : List Condition} (h : leaves ⊆ leaves') {err : Error}
    (fails : Fails registry m leaves err) : Fails registry m leaves' err :=
  fails.imp id fun ⟨c, hc, hnot⟩ => ⟨c, h hc, hnot⟩

mutual
theorem push_records (m : Model) (n : Filter) :
    (push e.recorded m n).Records (n.leaves.map fun c => points c.path).sum
      (Fails e.registry m n.leaves) fun n' sent =>
        n.Alike (Pushed e.registry m) n' ∧ SendsLeaves e.registry m n.leaves sent := by
  match n with
  | .condition c =>
    refine .bind (k := 0) (pushLeaf_records e m c) fun c' sent hsends => .pure ⟨?_, ?_, ?_⟩
    · exact .condition hsends.pushed
    · simpa [Filter.leaves] using hsends.resolves
    · simpa [Filter.leaves] using hsends.sent
  | .group op children =>
    refine .bind (k := 0) (pushAll_records m children) fun children' sent hsends => .pure ⟨?_, ?_⟩
    · exact .group hsends.1
    · rw [List.append_nil]
      exact hsends.2

theorem pushAll_records (m : Model) (ns : List Filter) :
    (pushAll e.recorded m ns).Records ((Filter.leavesAll ns).map fun c => points c.path).sum
      (Fails e.registry m (Filter.leavesAll ns)) fun ns' sent =>
        List.Forall₂ (Filter.Alike (Pushed e.registry m)) ns ns' ∧
          SendsLeaves e.registry m (Filter.leavesAll ns) sent := by
  match ns with
  | [] => exact .pure ⟨.nil, ⟨fun c hc => absurd hc List.not_mem_nil, .nil⟩⟩
  | n :: ns =>
    rw [Filter.leavesAll, List.map_append, List.sum_append]
    refine .bind ((push_records m n).weaken (Nat.le_refl _) (fun err hfails => ?_)
      fun _ _ hsends => hsends) fun n' sent hn => ?_
    · exact hfails.mono (List.subset_append_left ..)
    refine .bind (k := 0) ((pushAll_records m ns).weaken (Nat.le_refl _) (fun err hfails => ?_)
      fun _ _ hsends => hsends) fun ns' sent' hns => .pure ⟨.cons hn.1 hns.1, ?_⟩
    · exact hfails.mono (List.subset_append_right ..)
    · rw [List.append_nil]
      exact hn.2.append hns.2
end

/-- Pushing a filter down ends with every operator: it sends no more operations than there are
points in its paths, and it fails only if the operator does or a hop does not exist. If it succeeds,
the tree has kept its shape, and what was sent are the selects for the keys of the hops of its
leaves, from left to right, with the last hop of a leaf first. -/
theorem pushGroup_sends_hops (m : Model) (g : FilterGroup) (s : σ) :
    let run := (pushGroup e.recorded m g).runFrom (s, [])
    run.2.2.length ≤ (g.leaves.map fun c => points c.path).sum ∧
      (∀ err, run.1 = .error err → Fails e.registry m g.leaves err) ∧
      ∀ g', run.1 = .ok g' →
        g.toFilter.Alike (Pushed e.registry m) g'.toFilter ∧
        (∀ c ∈ g.leaves, Resolves e.registry m c.path) ∧
        List.Forall₂ AsksForKeys
          (g.leaves.flatMap fun c => (hops e.registry m c.path).reverse)
          (run.2.2.map Prod.fst) := by
  have hrecords : (pushGroup e.recorded m g).Records (g.leaves.map fun c => points c.path).sum
      (Fails e.registry m g.leaves) fun g' sent =>
        g.toFilter.Alike (Pushed e.registry m) g'.toFilter ∧
          SendsLeaves e.registry m g.leaves sent :=
    .bind (k := 0) (pushAll_records e m g.children) fun children' sent hsends =>
      .pure ⟨.group hsends.1, by rw [List.append_nil]; exact hsends.2⟩
  obtain ⟨sent, hsent, hcount, hresult⟩ := hrecords (s, [])
  rw [List.nil_append] at hsent
  refine ⟨hsent ▸ hcount, fun err herr => ?_, fun g' hg' => ?_⟩
  · rwa [herr] at hresult
  · rw [hg'] at hresult
    exact ⟨hresult.1, hresult.2.resolves, hsent ▸ hresult.2.sent⟩

end Pushdown

namespace Blog
open Pushdown

/-- The posts of those who wrote a post of Ada, and the post `"q"`. -/
def sharedPosts : FilterGroup :=
  ⟨.or, [.condition ⟨"author.posts.author.name", .is, .str "ada"⟩,
    .group .and [.condition ⟨"id", .is, .str "q"⟩]]⟩

/-- Its path leads from the posts back to the posts, and takes three selects. -/
theorem pushGroup_sharedPosts :
    ∃ g' t sent, (pushGroup (Store.engine world registry {}).recorded post sharedPosts).runFrom
        (store, []) = (.ok g', t, sent) ∧
      sharedPosts.toFilter.Alike (Pushed registry post) g'.toFilter ∧
      List.Forall₂ AsksForKeys
        (sharedPosts.leaves.flatMap fun c => (hops registry post c.path).reverse)
        (sent.map Prod.fst) ∧
      sent.map (fun entry => entry.1.table) = ["users", "posts", "users"] := by
  have htables : ((pushGroup (Store.engine world registry {}).recorded post sharedPosts).runFrom
      (store, [])).2.2.map (fun entry => entry.1.table) = ["users", "posts", "users"] := by
    decide +kernel
  have hok : ((pushGroup (Store.engine world registry {}).recorded post sharedPosts).runFrom
      (store, [])).1.isOk = true := by decide +kernel
  obtain ⟨-, -, hsuccess⟩ := pushGroup_sends_hops (Store.engine world registry {}) post sharedPosts
    store
  rcases hrun : (pushGroup (Store.engine world registry {}).recorded post sharedPosts).runFrom
      (store, []) with ⟨_ | g', t, sent⟩
  · rw [hrun] at hok
    cases hok
  · rw [hrun] at htables hsuccess
    obtain ⟨halike, -, hsent⟩ := hsuccess g' rfl
    exact ⟨g', t, sent, rfl, halike, hsent, htables⟩

end Blog
end ModelActions
