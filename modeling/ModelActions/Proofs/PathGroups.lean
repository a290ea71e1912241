import Mathlib.Data.List.Induction
import ModelActions.Proofs.FirstSeen
import ModelActions.Query.Expansion

/-!
# Groups of expand paths

Paths are grouped by their first hop. Each first hop has one group, and the rests in a group are
those of the paths that begin with its hop. Hops and rests stand in the order in which they were
first seen.
-/
namespace ModelActions.Expansion

/-- Some group of a name has a rest. -/
def Asks (groups : List (String × List String)) (name rest : String) : Prop :=
  ∃ rests, (name, rests) ∈ groups ∧ rest ∈ rests

/-- The rests in the first group of a name, none if it has no group. -/
def restsOf (groups : List (String × List String)) (name : String) : List String :=
  (groups.lookup name).getD []

theorem restsOf_cons (first : String) (rests : List String)
    (groups : List (String × List String)) (name : String) :
    restsOf ((first, rests) :: groups) name =
      if name = first then rests else restsOf groups name := by
  by_cases h : name = first
  · simp [restsOf, h]
  · have hne : (name == first) = false := by simpa using h
    simp only [restsOf, List.lookup_cons, hne, if_neg h]

theorem restsOf_of_mem {groups : List (String × List String)}
    (nodup : (groups.map Prod.fst).Nodup) {name : String} {rests : List String}
    (hmem : (name, rests) ∈ groups) : restsOf groups name = rests := by
  induction groups with
  | nil => cases hmem
  | cons g groups ih =>
    obtain ⟨first, rests'⟩ := g
    obtain ⟨hfirst, hgroups⟩ := List.nodup_cons.1 nodup
    rw [restsOf_cons]
    rcases List.mem_cons.1 hmem with heq | hlater
    · cases heq
      exact if_pos rfl
    · have hname : name ∈ groups.map Prod.fst := List.mem_map_of_mem hlater
      have hne : name ≠ first := by
        rintro rfl
        exact hfirst hname
      rw [if_neg hne, ih hgroups hlater]

theorem asks_iff {groups : List (String × List String)} (nodup : (groups.map Prod.fst).Nodup)
    {name rest : String} : Asks groups name rest ↔ rest ∈ restsOf groups name := by
  constructor
  · rintro ⟨rests, hmem, hrest⟩
    rwa [restsOf_of_mem nodup hmem]
  · intro hrest
    cases hlookup : groups.lookup name with
    | none => simp [restsOf, hlookup] at hrest
    | some rests =>
      obtain ⟨before, after, rfl, -⟩ := List.lookup_eq_some_iff.1 hlookup
      refine ⟨rests, by simp, ?_⟩
      rwa [restsOf, hlookup] at hrest

theorem heads_addPath (head : String) (rest : Option String)
    (groups : List (String × List String)) :
    (addPath head rest groups).map Prod.fst = addNew (groups.map Prod.fst) (some head) := by
  induction groups with
  | nil => simp [addPath, addNew]
  | cons g groups ih =>
    obtain ⟨first, rests⟩ := g
    unfold addPath
    split
    · next he => simp [addNew, he]
    · next hne =>
      rw [List.map_cons, ih]
      simp only [addNew, List.map_cons, List.mem_cons, Ne.symm hne, false_or]
      split <;> rfl

theorem restsOf_addPath (head : String) (rest : Option String)
    (groups : List (String × List String)) (name : String) :
    restsOf (addPath head rest groups) name =
      addNew (restsOf groups name) (if name = head then rest else none) := by
  induction groups with
  | nil =>
    rw [addPath, restsOf_cons]
    cases rest <;> by_cases h : name = head <;> simp [restsOf, addNew, h]
  | cons g groups ih =>
    obtain ⟨first, rests⟩ := g
    unfold addPath
    split
    · next hfirst =>
      subst hfirst
      rw [restsOf_cons, restsOf_cons]
      split
      · cases rest <;> rfl
      · rfl
    · next hfirst =>
      rw [restsOf_cons, restsOf_cons, ih]
      split
      · next hname => rw [if_neg (hname ▸ hfirst), addNew]
      · rfl

theorem mem_heads_addPath (head : String) (rest : Option String)
    (groups : List (String × List String)) {name : String} :
    name ∈ (addPath head rest groups).map Prod.fst ↔ name = head ∨ name ∈ groups.map Prod.fst := by
  rw [heads_addPath, mem_addNew, Option.some.injEq, eq_comm, or_comm]

theorem groupByHead_append_singleton (paths : List String) (path : String) :
    groupByHead (paths ++ [path]) =
      addPath (Path.head path) (Path.rest? path) (groupByHead paths) := by
  simp [groupByHead]

/-- Every path shows its first hop. -/
theorem firstSeen_heads (paths : List String) :
    FirstSeen (fun name path => Path.head path = name) paths
      ((groupByHead paths).map Prod.fst) := by
  induction paths using List.reverseRecOn with
  | nil => exact .nil
  | append_singleton paths path ih =>
    rw [groupByHead_append_singleton, heads_addPath]
    exact ih.append_singleton fun name => Option.some_inj.symm

/-- A path that begins with a name shows what follows the name, if it goes on. -/
theorem firstSeen_rests (paths : List String) (name : String) :
    FirstSeen (fun rest path => Path.head path = name ∧ Path.rest? path = some rest) paths
      (restsOf (groupByHead paths) name) := by
  induction paths using List.reverseRecOn with
  | nil => exact .nil
  | append_singleton paths path ih =>
    rw [groupByHead_append_singleton, restsOf_addPath]
    exact ih.append_singleton fun rest => by grind

theorem mem_heads_groupByHead (paths : List String) {name : String} :
    name ∈ (groupByHead paths).map Prod.fst ↔ ∃ p ∈ paths, Path.head p = name :=
  (firstSeen_heads paths).mem_iff name

/-- No two groups have the same first hop. -/
theorem nodup_heads_groupByHead (paths : List String) :
    ((groupByHead paths).map Prod.fst).Nodup :=
  (firstSeen_heads paths).nodup

/-- Every path is in the group of its first hop, and nothing else is. -/
theorem asks_groupByHead (paths : List String) {name r : String} :
    Asks (groupByHead paths) name r ↔
      ∃ p ∈ paths, Path.head p = name ∧ Path.rest? p = some r := by
  rw [asks_iff (nodup_heads_groupByHead paths), (firstSeen_rests paths name).mem_iff]

end ModelActions.Expansion
