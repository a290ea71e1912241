import ModelActions.Proofs.PathGroups
import ModelActions.Proofs.ScopeMeanings

/-!
# Paths parted by their first hops

Grouping loses no path and adds none. Each first hop has one group, its rests are what follows the
hop in the paths, and hops and rests stand in the order in which they were first seen. Only one list
of groups is so, and paths that come again leave it as it is.
-/
namespace ModelActions

namespace Path

/-- A path is made of a hop and a rest, with a point between them. -/
def Follows (hop rest path : String) : Prop := path = hop ++ "." ++ rest

/-- A path begins with a hop, which has no point: it is the hop, or a rest follows the hop. -/
def Opens (hop path : String) : Prop :=
  '.' ∉ hop.toList ∧ (path = hop ∨ ∃ rest, Follows hop rest path)

theorem not_mem_head (path : String) : '.' ∉ (head path).toList := by
  have hhead : head path ∈ segments path := by
    rw [segments_eq]
    exact List.mem_cons_self
  exact not_mem_of_mem_segments hhead

theorem head_of_rest?_none {path : String} (h : rest? path = none) : head path = path := by
  have hsegments := segments_eq path
  rw [segments_of_rest?_none h] at hsegments
  exact (List.cons.inj hsegments).1.symm

theorem append_headChars {cs ds : List Char} (h : (headChars cs).2 = some ds) :
    (headChars cs).1 ++ '.' :: ds = cs := by
  induction cs with
  | nil => cases h
  | cons c cs ih => grind [headChars]

theorem append_rest? {path rest : String} (h : rest? path = some rest) :
    head path ++ "." ++ rest = path := by
  obtain ⟨ds, hds, rfl⟩ := Option.map_eq_some_iff.1 h
  have hpath := append_headChars hds
  apply String.ext
  simpa [head] using hpath

theorem opens_iff {hop path : String} : Opens hop path ↔ head path = hop := by
  constructor
  · rintro ⟨hhop, rfl | ⟨rest, rfl⟩⟩
    · exact head_of_rest?_none (rest?_of_not_mem hhop)
    · exact head_append hhop rest
  · rintro rfl
    refine ⟨not_mem_head path, ?_⟩
    cases hrest : rest? path with
    | none => exact .inl (head_of_rest?_none hrest).symm
    | some rest => exact .inr ⟨rest, (append_rest? hrest).symm⟩

theorem follows_iff {hop rest path : String} (hhop : '.' ∉ hop.toList) :
    Follows hop rest path ↔ head path = hop ∧ rest? path = some rest := by
  constructor
  · rintro rfl
    exact ⟨head_append hhop rest, rest?_append hhop rest⟩
  · rintro ⟨rfl, hrest⟩
    exact (append_rest? hrest).symm

end Path

namespace Expansion

/-- Groups that part some paths by their first hops. -/
structure Parted (paths : List String) (groups : List (String × List String)) : Prop where
  /-- The hops are those with which a path begins. -/
  hops : FirstSeen Path.Opens paths (groups.map Prod.fst)
  /-- The rests of a hop are those that follow it in a path. -/
  rests : ∀ hop rests, (hop, rests) ∈ groups → FirstSeen (Path.Follows hop) paths rests

theorem parted_groupByHead (paths : List String) : Parted paths (groupByHead paths) := by
  have hopens : Path.Opens = fun hop path => Path.head path = hop :=
    funext₂ fun _ _ => propext Path.opens_iff
  refine ⟨hopens ▸ firstSeen_heads paths, fun hop rests hmem => ?_⟩
  obtain ⟨path, -, rfl⟩ := (mem_heads_groupByHead paths).1 (List.mem_map_of_mem hmem)
  have hfollows : Path.Follows (Path.head path) = fun rest path' =>
      Path.head path' = Path.head path ∧ Path.rest? path' = some rest :=
    funext₂ fun _ _ => propext (Path.follows_iff (Path.not_mem_head path))
  rw [hfollows, ← restsOf_of_mem (nodup_heads_groupByHead paths) hmem]
  exact firstSeen_rests paths (Path.head path)

namespace Parted
variable {paths : List String} {groups groups' : List (String × List String)}

theorem firstSeen_restsOf (h : Parted paths groups) {hop : String}
    (hhop : hop ∈ groups.map Prod.fst) :
    FirstSeen (Path.Follows hop) paths (restsOf groups hop) := by
  obtain ⟨⟨_, rests⟩, hmem, rfl⟩ := List.mem_map.1 hhop
  rw [restsOf_of_mem h.hops.nodup hmem]
  exact h.rests _ rests hmem

theorem eq_map (h : Parted paths groups) :
    (groups.map Prod.fst).map (fun hop => (hop, restsOf groups hop)) = groups := by
  have hsame : ∀ g ∈ groups, (g.1, restsOf groups g.1) = id g := fun g hg => by
    rw [restsOf_of_mem h.hops.nodup hg, id]
  rw [List.map_map]
  exact (List.map_congr_left hsame).trans (List.map_id groups)

theorem unique (h : Parted paths groups) (h' : Parted paths groups') : groups = groups' := by
  have hhops := h.hops.unique h'.hops
  rw [← h.eq_map, ← h'.eq_map, ← hhops]
  refine List.map_congr_left fun hop hhop => ?_
  rw [(h.firstSeen_restsOf hhop).unique (h'.firstSeen_restsOf (hhops ▸ hhop))]

theorem again (h : Parted paths groups) {more : List String} (hmore : more ⊆ paths) :
    Parted (paths ++ more) groups :=
  ⟨h.hops.again hmore, fun hop rests hmem => (h.rests hop rests hmem).again hmore⟩

end Parted

/-- Paths are parted into one group for each hop with which one of them begins. A group has what
follows its hop in a path, each rest once, and groups and rests stand in the order in which they are
first seen. No other groups part the paths, and paths that come again make no difference. -/
theorem groupByHead_parts (paths : List String) :
    Parted paths (groupByHead paths) ∧
      ((groupByHead paths).map Prod.fst).Nodup ∧ (∀ group ∈ groupByHead paths, group.2.Nodup) ∧
      (∀ groups, Parted paths groups → groups = groupByHead paths) ∧
      ∀ again, again ⊆ paths → groupByHead (paths ++ again) = groupByHead paths := by
  have hparted := parted_groupByHead paths
  refine ⟨hparted, hparted.hops.nodup, ?_, fun groups h => h.unique hparted, ?_⟩
  · exact fun group hmem => (hparted.rests group.1 group.2 hmem).nodup
  · exact fun again hagain => (parted_groupByHead _).unique (hparted.again hagain)

/-- One path comes twice, and the rest of another is empty. -/
def letterPaths : List String := ["author.city", "reader", "author", "author.city", "author."]

theorem letterPaths_parted :
    Parted letterPaths [("author", ["city", ""]), ("reader", [])] ∧
      groupByHead letterPaths = [("author", ["city", ""]), ("reader", [])] ∧
      ["reader", "author.city"] ⊆ letterPaths ∧
      groupByHead (letterPaths ++ ["reader", "author.city"]) =
        [("author", ["city", ""]), ("reader", [])] := by
  have hgroups : groupByHead letterPaths = [("author", ["city", ""]), ("reader", [])] := by
    decide
  have hagain : ["reader", "author.city"] ⊆ letterPaths := by decide
  obtain ⟨hparted, -, -, hunique, hrepeat⟩ := groupByHead_parts letterPaths
  rw [hgroups] at hparted
  refine ⟨hparted, (hunique _ hparted).symm, hagain, ?_⟩
  rw [hrepeat _ hagain, hgroups]

end Expansion
end ModelActions
