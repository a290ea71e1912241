import ModelActions.Proofs.GuardedOperations
import ModelActions.Proofs.SeparateHops

/-!
# Selects that were built

A request is checked before anything of it is read: each hop of its expand paths exists, and no path
is longer than the settings allow. A select that was built from it is therefore answered, with its
result expanded, whatever the tables hold by then and however the relationships lead back to where
they came from. No hop is followed deeper than the paths go, and each hop of a path costs one select
at most.

One thing can still go wrong. Nulls and values of other kinds in the column of a sort key make the
order of the rows inconsistent, and the sort may crash on it. The selects for related rows have no
sort keys, so that it is always the sort of the select itself.
-/
namespace ModelActions

namespace Act
variable {σ α β : Type}

/-- One computation does what another does, where that one succeeds. -/
def Extends (y x : Act σ α) : Prop :=
  ∀ (s : σ) (a : α) (t : σ), x.runFrom s = (.ok a, t) → y.runFrom s = (.ok a, t)

theorem Extends.refl (x : Act σ α) : Extends x x := fun _ _ _ h => h

theorem Extends.bind {x y : Act σ α} {f g : α → Act σ β} (h : Extends y x)
    (hfg : ∀ a, Extends (g a) (f a)) : Extends (y >>= g) (x >>= f) := by
  intro s b u hrun
  obtain ⟨a, t, hx, hf⟩ := runFrom_bind_eq_ok.1 hrun
  exact runFrom_bind_eq_ok.2 ⟨a, t, h s a t hx, hfg a t b u hf⟩

end Act

namespace Expansion
variable {σ : Type} (e : Engine σ)

section
variable {fetch' fetch : Model → Select → Act σ Selection}

theorem expandHop_extends (h : ∀ m op, Act.Extends (fetch' m op) (fetch m op)) (m : Model)
    (rows : List Json) (group : String × List String) :
    Act.Extends (expandHop e fetch' m rows group) (expandHop e fetch m rows group) := by
  unfold expandHop
  refine (Act.Extends.refl _).bind fun r => (Act.Extends.refl _).bind fun related => ?_
  dsimp only
  split
  · exact .refl _
  · exact (h related _).bind fun selection => .refl _

theorem expandGroups_extends (h : ∀ m op, Act.Extends (fetch' m op) (fetch m op)) (m : Model)
    (groups : List (String × List String)) (rows : List Json) :
    Act.Extends (expandGroups e fetch' m groups rows) (expandGroups e fetch m groups rows) := by
  induction groups generalizing rows with
  | nil => exact .refl _
  | cons g groups ih => exact (expandHop_extends e h m rows g).bind fun rows' => ih rows'

end

/-- A select that is answered within some hops is answered alike when more hops are allowed. -/
theorem fetch_extends {hops hops' : Nat} (h : hops ≤ hops') (m : Model) (op : Select) :
    Act.Extends (fetch e hops' m op) (fetch e hops m op) := by
  induction hops generalizing hops' m op with
  | zero =>
    unfold fetch
    refine (Act.Extends.refl _).bind fun answer => (Act.Extends.refl _).bind fun selection => ?_
    split
    · exact .refl _
    · intro s found t hrun
      cases hrun
  | succ hops ih =>
    obtain ⟨hops', rfl⟩ : ∃ k, hops' = k + 1 := ⟨hops' - 1, by omega⟩
    unfold fetch
    refine (Act.Extends.refl _).bind fun answer => (Act.Extends.refl _).bind fun selection => ?_
    split
    · exact .refl _
    · have hbelow := expandGroups_extends e (ih (Nat.le_of_succ_le_succ h)) m
      exact (hbelow _ selection.result).bind fun rows => .refl _

/-! ### The selects that an expansion sends -/

/-- The number of hops in some paths. -/
def hopCount (paths : List String) : Nat := (paths.map Path.length).sum

/-- The number of hops in some groups of paths, where the paths of a group share the first. -/
def hopCountOf (groups : List (String × List String)) : Nat :=
  (groups.map fun g => hopCount g.2 + 1).sum

theorem hopCountOf_cons (g : String × List String) (groups : List (String × List String)) :
    hopCountOf (g :: groups) = hopCount g.2 + 1 + hopCountOf groups := by
  simp [hopCountOf]

theorem hopCountOf_addPath (path : String) (groups : List (String × List String)) :
    hopCountOf (addPath (Path.head path) (Path.rest? path) groups) ≤
      hopCountOf groups + Path.length path := by
  have hlength : Path.length path = (((Path.rest? path).map Path.length).getD 0) + 1 := by
    rw [Path.length, Path.segments_eq, List.length_cons]
    cases Path.rest? path <;> rfl
  rw [hlength]
  induction groups with
  | nil => cases Path.rest? path <;> simp [addPath, hopCountOf, hopCount]
  | cons g groups ih =>
    obtain ⟨head, rests⟩ := g
    unfold addPath
    split
    · simp only [hopCountOf_cons]
      cases hrest : Path.rest? path with
      | none => simp only [Option.map_none, Option.getD_none]; omega
      | some rest =>
        dsimp only
        split
        · omega
        · simp only [hopCount, List.map_append, List.sum_append, List.map_cons, List.map_nil,
            List.sum_cons, List.sum_nil, Option.map_some, Option.getD_some]
          omega
    · simp only [hopCountOf_cons]
      omega

theorem hopCountOf_groupByHead (paths : List String) :
    hopCountOf (groupByHead paths) ≤ hopCount paths := by
  have hfold (paths : List String) (groups : List (String × List String)) :
      hopCountOf (paths.foldl (fun gs p => addPath (Path.head p) (Path.rest? p) gs) groups) ≤
        hopCountOf groups + hopCount paths := by
    induction paths generalizing groups with
    | nil => simp [hopCount]
    | cons p paths ih =>
      have hfirst := hopCountOf_addPath p groups
      have hlater := ih (addPath (Path.head p) (Path.rest? p) groups)
      simp only [List.foldl_cons, hopCount, List.map_cons, List.sum_cons] at hlater ⊢
      omega
  exact (hfold paths []).trans (by simp [hopCountOf])

variable {world : World} {registry : Registry} {settings : Settings}

theorem length_log_expandGroups {hops : Nat}
    (hfetch : ∀ {m op t found u},
      (fetch (Store.engine world registry settings) hops m op).runFrom t = (.ok found, u) →
      u.log.length ≤ t.log.length + (hopCount op.expand + 1))
    {m : Model} {groups : List (String × List String)} {rows rows' : List Json} {t u : Store}
    (h : (expandGroups (Store.engine world registry settings)
      (fetch (Store.engine world registry settings) hops) m groups rows).runFrom t =
        (.ok rows', u)) :
    u.log.length ≤ t.log.length + hopCountOf groups := by
  induction groups generalizing rows t with
  | nil =>
    cases h
    exact Nat.le_add_right _ _
  | cons g groups ih =>
    obtain ⟨rows₁, t₁, hhop, h⟩ := Act.runFrom_bind_eq_ok.1 h
    have hlater := ih h
    have hfirst : t₁.log.length ≤ t.log.length + (hopCount g.2 + 1) := by
      obtain ⟨r, t₂, hr, hhop⟩ := Act.runFrom_bind_eq_ok.1 hhop
      rw [Act.runFrom_ofExcept, Prod.mk.injEq] at hr
      obtain ⟨related, t₃, hrelated, hhop⟩ := Act.runFrom_bind_eq_ok.1 hhop
      rw [Act.runFrom_ofExcept, Prod.mk.injEq] at hrelated
      rw [hr.2, hrelated.2]
      dsimp only at hhop
      split at hhop
      · cases hhop
        exact Nat.le_add_right _ _
      · obtain ⟨selection, t₄, hselect, hhop⟩ := Act.runFrom_bind_eq_ok.1 hhop
        cases hhop
        exact hfetch hselect
    rw [hopCountOf_cons]
    omega

/-- A select is one operation, and each hop of its paths causes one more at most. -/
theorem length_log_fetch {hops : Nat} {m : Model} {op : Select} {t u : Store} {found : Selection}
    (h : (fetch (Store.engine world registry settings) hops m op).runFrom t = (.ok found, u)) :
    u.log.length ≤ t.log.length + (hopCount op.expand + 1) := by
  obtain ⟨answered, hselect⟩ := exists_select_of_fetch rfl h
  induction hops generalizing m op t u found answered with
  | zero =>
    rw [runFrom_fetch _ rfl _ _ hselect] at h
    split at h <;> cases h
    simp
  | succ hops ih =>
    rw [runFrom_fetch _ rfl _ _ hselect] at h
    split at h
    · cases h
      simp
    · obtain ⟨rows, u', hgroups, h⟩ := Act.runFrom_bind_eq_ok.1 h
      cases h
      have hlog := length_log_expandGroups (fun hfetch =>
        (exists_select_of_fetch rfl hfetch).elim (ih hfetch)) hgroups
      have hcount := hopCountOf_groupByHead op.expand
      simp only [List.length_append, List.length_cons, List.length_nil] at hlog
      omega

end Expansion

namespace Query
open Expansion

theorem length_le_of_checkExpandPath {σ : Type} {e : Engine σ} {m : Model} {path : String}
    (h : checkExpandPath e m path = .ok ()) : Path.length path ≤ e.settings.maxExpandDepth := by
  unfold checkExpandPath at h
  dsimp only at h
  split at h
  · cases h
  · split at h
    · cases h
    · next hlong => exact Nat.le_of_not_lt hlong

/-- The paths of a select that was built are those of the request, and were accepted. -/
theorem accepted_of_build {σ : Type} {e : Engine σ} {m : Model} {request : Request} {s t : σ}
    {op : Select} (h : (build e m request).runFrom s = (.ok op, t)) :
    ∀ p ∈ op.expand, checkExpandPath e m p = .ok () := by
  obtain ⟨written, s₁, -, h⟩ := Act.runFrom_bind_eq_ok.1 h
  obtain ⟨named, s₂, -, h⟩ := Act.runFrom_bind_eq_ok.1 h
  obtain ⟨filters, s₃, -, h⟩ := Act.runFrom_bind_eq_ok.1 h
  obtain ⟨_, s₄, hexpand, h⟩ := Act.runFrom_bind_eq_ok.1 h
  obtain ⟨joins, s₅, -, h⟩ := Act.runFrom_bind_eq_ok.1 h
  cases h
  rw [Act.runFrom_ofExcept, Prod.mk.injEq] at hexpand
  exact forM_eq_ok.1 hexpand.1

/-- A select that was built from a request succeeds, whatever rows it finds, unless their order is
inconsistent and its own sort crashes. Its paths are not longer than the settings allow, more hops
than the longest of them change nothing, and apart from itself it takes one select for each hop of
its paths at most. -/
theorem execute_of_build (world : World) {specs : List ModelSpec} {registry : Registry}
    (loaded : Registry.ofSpecs specs = .ok registry) (settings : Settings) {model : String}
    {m : Model} (hm : registry.models.get? model = some m) {request : Request} {s u : Store}
    {op : Select}
    (built : (build (Store.engine world registry settings) m request).runFrom s = (.ok op, u)) :
    depth op.expand ≤ settings.maxExpandDepth ∧
      ∀ t : Store,
        (∃ found v,
          (execute (Store.engine world registry settings) m op).runFrom t = (.ok found, v) ∧
          v.rows = t.rows ∧
          (∀ hops, depth op.expand ≤ hops →
            (fetch (Store.engine world registry settings) hops m op).runFrom t = (.ok found, v)) ∧
          v.log.length ≤ t.log.length + (hopCount op.expand + 1)) ∨
        (¬Consistent (SortKey.orderAll request.sorts) (t.found op) ∧
          (execute (Store.engine world registry settings) m op).runFrom t =
            (.error .crashed, { t with log := t.log ++ [.select op] })) := by
  have accepted := accepted_of_build built
  have valid : Valid registry m op.expand :=
    valid_of_checkExpandPath (Registry.get?_name_of_ofSpecs loaded hm) accepted
  refine ⟨depth_le_iff.2 fun p hp => length_le_of_checkExpandPath (accepted p hp), ?_⟩
  intro t
  cases hselect : t.select world op with
  | some answered =>
    have below (k : Nat) (_ : k < depth op.expand) : FetchExpands world registry settings t k :=
      fetchExpands k
    obtain ⟨v, hrun, hv⟩ := runFrom_fetch_expanded below hselect valid
      (fun _ hp => length_le_depth hp) (Eq.refl t.rows)
    exact .inl ⟨_, v, hrun, hv, fun hops hhops => fetch_extends _ hhops m op t _ v hrun,
      length_log_fetch hrun⟩
  | none =>
    refine .inr ⟨fun consistent => ?_, runFrom_fetch_of_none _ rfl _ m hselect⟩
    obtain ⟨-, -, -, sorts, -⟩ := (build_sends _ m request).result built
    obtain ⟨rows, hrows⟩ := world.sorter.exists_sortRows consistent
    rw [Store.select, Store.sorted, sorts, hrows] at hselect
    cases hselect

end Query

namespace Letters
open Expansion

/-- The letters of Ada, with what their authors wrote and to whom, and with their readers. -/
def lettersOfAda : Request :=
  { filters := .obj [("author", .str "ada")], expand := ["author.letters.reader", "reader"] }

/-- The select for them leads from the letters back to the letters, and succeeds against any tables
once it was built. -/
theorem execute_lettersOfAda :
    ∃ op u, (Query.build engine letterModel lettersOfAda).runFrom store = (.ok op, u) ∧
      depth op.expand = 3 ∧ hopCount op.expand = 4 ∧
      ∀ t : Store, ∃ found v,
        (execute engine letterModel op).runFrom t = (.ok found, v) ∧ v.rows = t.rows ∧
        (∀ hops, 3 ≤ hops → (fetch engine hops letterModel op).runFrom t = (.ok found, v)) ∧
        v.log.length ≤ t.log.length + 5 := by
  have hm : registry.models.get? "letter" = some letterModel := rfl
  have hbuilt : ((Query.build engine letterModel lettersOfAda).runFrom store).1.toOption.map
      (fun op => (depth op.expand, hopCount op.expand)) = some (3, 4) := by decide +kernel
  rcases hrun : (Query.build engine letterModel lettersOfAda).runFrom store with ⟨_ | op, u⟩
  · rw [hrun] at hbuilt
    cases hbuilt
  · obtain ⟨hdepth, hcount⟩ : depth op.expand = 3 ∧ hopCount op.expand = 4 := by
      simpa [hrun, Except.toOption] using hbuilt
    obtain ⟨-, hexecute⟩ := Query.execute_of_build Blog.world loaded {} hm hrun
    rw [hdepth, hcount] at hexecute
    refine ⟨op, u, rfl, hdepth, hcount, fun t => (hexecute t).resolve_right fun hcrash => ?_⟩
    exact hcrash.1 (consistent_of_unsorted _)

end Letters

namespace Ranks

def spec : ModelSpec where
  name := "song"
  config := ⟨some "id", some "songs", none, false, false, some "song", some "songs"⟩

def model : Model :=
  ⟨"song", [], ⟨"id", "songs", none, false, false, "song", "songs"⟩, [], [], [], []⟩

def registry : Registry := ⟨[("song", model)]⟩

def engine : Engine Store := Store.engine Blog.world registry {}

def song (i : Nat) : Json :=
  .obj [("id", .ofNat i), ("rank", if i % 3 = 1 then .null else .ofNat (i % 3))]

/-- Every third song has no rank. -/
def store : Store where
  rows t := if t = "songs" then (List.range 21).map song else []

def byRank : Request := { sorts := [⟨"rank", .asc⟩] }

/-- What is built from the request. -/
def ranking : Select := { table := "songs", model := "song", sorts := [⟨"rank", .asc⟩] }

theorem found_ranking : store.found ranking = (List.range 21).map song := by
  rfl

/-- A song of the second rank counts as equal to one without a rank, and this one as equal to a song
of the first rank. -/
theorem not_consistent : ¬Consistent (SortKey.orderAll ranking.sorts) (store.found ranking) := by
  intro h
  rw [found_ranking] at h
  have hsong (i : Nat) (hi : i < 21) : song i ∈ (List.range 21).map song :=
    List.mem_map_of_mem (List.mem_range.2 hi)
  have hle := h.trans _ (hsong 2 (by decide)) _ (hsong 1 (by decide)) _ (hsong 0 (by decide))
  exact absurd (hle (by decide +kernel) (by decide +kernel)) (by decide +kernel)

/-- The select for the songs by their ranks was built, and still its sort crashes. -/
theorem ranking_crashes :
    Registry.ofSpecs [spec] = .ok registry ∧ registry.models.get? "song" = some model ∧
      (Query.build engine model byRank).runFrom store = (.ok ranking, store) ∧
      (Expansion.execute engine model ranking).runFrom store =
        (.error .crashed, { store with log := [.select ranking] }) := by
  have hcrash : store.select Blog.world ranking = none := by
    have hmany : 20 < (store.found ranking).length := by
      rw [found_ranking, List.length_map, List.length_range]
      decide
    have hsorted : store.sorted Blog.world ranking = none :=
      Sorter.strict_of_not_consistent hmany not_consistent
    rw [Store.select, hsorted, Option.map_none]
  exact ⟨rfl, rfl, rfl, Expansion.runFrom_fetch_of_none _ rfl _ _ hcrash⟩

end Ranks
end ModelActions
