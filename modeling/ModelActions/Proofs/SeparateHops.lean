import ModelActions.Proofs.ExpandedRows
import ModelActions.Proofs.MemberLaws

/-!
# Hops apart

What is attached under a first hop depends on that hop alone, not on what else is asked for: deeper
paths add members to the attached rows, and other hops add members beside them. That is so as long
as no hop writes over a column by which rows are matched.
-/
namespace ModelActions

/-- A row without some columns. -/
def Json.without (names : List String) : Json → Json
  | .obj members => .obj (members.filter fun e => e.1 ∉ names)
  | j => j

/-- A row, or each row of a list, changed in some way. -/
def Json.each (f : Json → Json) : Json → Json
  | .arr rows => .arr (rows.map f)
  | row => f row

/-- One row or a list of rows, each without some columns. -/
def Json.eachWithout (names : List String) (j : Json) : Json := j.each (without names)

theorem Path.head_of_head (path : String) : head (head path) = head path := by
  have hchars (cs : List Char) : (headChars (headChars cs).1).1 = (headChars cs).1 := by
    induction cs with
    | nil => rfl
    | cons c cs ih => by_cases h : c = '.' <;> simp [headChars, h, ih]
  simp [head, hchars]

theorem Path.rest?_head (path : String) : rest? (head path) = none := by
  have hchars (cs : List Char) : (headChars (headChars cs).1).2 = none := by
    induction cs with
    | nil => rfl
    | cons c cs ih => by_cases h : c = '.' <;> simp [headChars, h, ih]
  simp [head, rest?, hchars]

namespace Json

theorem get?_without {names : List String} {column : String} (h : column ∉ names) (row : Json) :
    (row.without names).get? column = row.get? column := by
  cases row with
  | obj members => exact Members.get?_filter members (fun k => k ∉ names) (by simpa using h)
  | _ => rfl

theorem get?_of_without_eq {names : List String} {column : String} (h : column ∉ names)
    {row row' : Json} (heq : row'.without names = row.without names) :
    row'.get? column = row.get? column := by
  rw [← get?_without h row', heq, get?_without h row]

theorem without_insert {names : List String} {key : String} (h : key ∈ names)
    (members : Members Json) (value : Json) :
    (obj (members.insert key value)).without names = (obj members).without names :=
  congrArg obj (Members.filter_insert members _ (by simp [h]) (by simp [h]))

theorem isObject_of_without_eq {names : List String} {row row' : Json}
    (heq : row'.without names = row.without names) : row'.isObject = row.isObject := by
  have hisObject (j : Json) : (j.without names).isObject = j.isObject := by cases j <;> rfl
  rw [← hisObject row', heq, hisObject row]

end Json

namespace Expansion
variable {registry : Registry} {s : Store} {m : Model} {names : List String}

theorem without_attach {name : String} (h : name ∈ names) (r : Relationship) (related : List Json)
    (row : Json) : (attach name r related row).without names = row.without names := by
  cases row with
  | obj members => exact Json.without_insert h members _
  | _ => rfl

/-- Hops work on each row by itself, and change what stands under their names only. -/
theorem foldl_expandedHop_eq_map (registry : Registry) (s : Store) (m : Model)
    (below : Model → List Json → List String → List Json) {groups : List (String × List String)}
    (h : ∀ g ∈ groups, g.1 ∈ names) (rows : List Json) :
    ∃ f : Json → Json, groups.foldl (expandedHop registry s below m) rows = rows.map f ∧
      ∀ row, (f row).without names = row.without names := by
  induction groups generalizing rows with
  | nil => exact ⟨id, by simp, fun _ => rfl⟩
  | cons g groups ih =>
    obtain ⟨f, hf, hwithout⟩ : ∃ f : Json → Json,
        expandedHop registry s below m rows g = rows.map f ∧
          ∀ row, (f row).without names = row.without names := by
      unfold expandedHop
      split
      · split
        · exact ⟨id, by simp, fun _ => rfl⟩
        · exact ⟨_, rfl, fun row => without_attach (h g List.mem_cons_self) _ _ row⟩
      · exact ⟨id, by simp, fun _ => rfl⟩
    obtain ⟨f', hf', hwithout'⟩ :=
      ih (fun g' hg' => h g' (List.mem_cons_of_mem g hg')) (rows.map f)
    refine ⟨f' ∘ f, ?_, fun row => ?_⟩
    · rw [List.foldl_cons, hf, hf', List.map_map]
    · rw [Function.comp_apply, hwithout', hwithout]

/-- An expansion changes what stands under the first hops only. -/
theorem expanded_eq_map (registry : Registry) (s : Store) (m : Model) (hops : Nat)
    (rows : List Json) {paths : List String} (h : ∀ p ∈ paths, Path.head p ∈ names) :
    ∃ f : Json → Json, expanded registry s hops m rows paths = rows.map f ∧
      ∀ row, (f row).without names = row.without names := by
  cases hops with
  | zero => exact ⟨id, by simp [expanded], fun _ => rfl⟩
  | succ hops =>
    apply foldl_expandedHop_eq_map
    intro g hg
    obtain ⟨p, hp, hhead⟩ := (mem_heads_groupByHead paths).1 (List.mem_map_of_mem hg)
    exact hhead ▸ h p hp

theorem each_joined {r : Relationship} {f : Json → Json} (hnull : f .null = .null)
    {rows : List Json} (objects : ∀ row ∈ rows, row.isObject = true) :
    (r.joined rows).each f = r.joined (rows.map f) := by
  unfold Relationship.joined
  split
  · rfl
  · cases rows with
    | nil => exact hnull
    | cons row rows =>
      have hrow := objects row List.mem_cons_self
      cases row with
      | obj members => rfl
      | _ => contradiction

/-- What is attached to a row does not change with members that related rows gain, unless one of
these is the column by which the rows are matched. -/
theorem eachWithout_attachment {r : Relationship} (target : r.target ∉ names) {f : Json → Json}
    (hf : ∀ row, (f row).without names = row.without names) (related : List Json) (row : Json) :
    (attachment r (related.map f) row).eachWithout names =
      (attachment r related row).eachWithout names := by
  have hlinks := links_comp (fun x => Json.get?_of_without_eq target (hf x)) row
  have objects : ∀ x ∈ related.filter (r.links row), x.isObject = true := by
    intro x hx
    obtain ⟨key, hkey, -⟩ := Relationship.links_iff.1 (List.mem_filter.1 hx).2
    cases x with
    | obj members => rfl
    | _ => contradiction
  have objects' : ∀ x ∈ (related.filter (r.links row)).map f, x.isObject = true := by
    intro x hx
    obtain ⟨y, hy, rfl⟩ := List.mem_map.1 hx
    rw [Json.isObject_of_without_eq (hf y), objects y hy]
  rw [attachment_eq_joined, attachment_eq_joined, List.filter_map, hlinks, Json.eachWithout,
    Json.eachWithout, each_joined rfl objects', each_joined rfl objects, List.map_map]
  congr 1
  exact List.map_congr_left fun x _ => hf x

/-- What stands under a name in a row, without some columns of the rows that are attached there. -/
def attachedUnder (name : String) (names : List String) (row : Json) : Option Json :=
  (row.get? name).map (Json.eachWithout names)

theorem keysOf_map {column : String} {f : Json → Json}
    (hf : ∀ row, (f row).get? column = row.get? column) (rows : List Json) :
    Pushdown.keysOf column (rows.map f) = Pushdown.keysOf column rows := by
  simp only [Pushdown.keysOf, List.filterMap_map, Function.comp_def, hf]

theorem attachment_congr {r : Relationship} {row row' : Json}
    (h : row'.get? r.source = row.get? r.source) (related : List Json) :
    attachment r related row' = attachment r related row := by
  unfold attachment
  rw [h]

/-- Two rows of one key get the same related rows, also if one of them gets these with more
members. -/
theorem attachedUnder_attach {name : String} {r : Relationship} (target : r.target ∉ names)
    {f : Json → Json} (hf : ∀ row, (f row).without names = row.without names)
    {related : List Json} {row row' : Json} (hobject : row'.isObject = row.isObject)
    (hsource : row'.get? r.source = row.get? r.source) :
    attachedUnder name names (attach name r (related.map f) row') =
      attachedUnder name names (attach name r related row) := by
  rw [attachedUnder, attachedUnder]
  cases hrow : row.isObject with
  | true =>
    rw [get?_attach_self _ _ _ hrow, get?_attach_self _ _ _ (hobject.trans hrow),
      attachment_congr hsource, Option.map_some, Option.map_some, eachWithout_attachment target hf]
  | false =>
    have hnone {row : Json} (hrow : row.isObject = false) (related : List Json) :
        (attach name r related row).get? name = none := by
      cases row with
      | obj members => contradiction
      | _ => rfl
    rw [hnone hrow, hnone (hobject.trans hrow)]

theorem groupByHead_head (path : String) :
    groupByHead [Path.head path] = [(Path.head path, [])] := by
  simp [groupByHead, addPath, Path.head_of_head, Path.rest?_head]

/-- What a hop attaches does not depend on what deeper hops and other hops attach, unless a deeper
hop has the name of the column by which the related rows are matched, or a hop before it that of the
column by which the rows themselves are. -/
theorem attachedUnder_expanded (hops hops' : Nat) {paths : List String}
    {done later : List (String × List String)} {name : String} {rest : List String}
    (groups : groupByHead paths = done ++ (name, rest) :: later) {r : Relationship}
    {related : Model} (leads : registry.Leads m name r related)
    (source : r.source ∉ done.map Prod.fst) (deeper : ∀ p ∈ rest, Path.head p ∈ names)
    (target : r.target ∉ names) (rows : List Json) :
    (expanded registry s (hops + 1) m rows paths).map (attachedUnder name names) =
      (expanded registry s (hops' + 1) m rows [name]).map (attachedUnder name names) := by
  have hnodup := nodup_heads_groupByHead paths
  rw [groups, List.map_append, List.map_cons, List.nodup_append] at hnodup
  obtain ⟨-, hlater, hdone⟩ := hnodup
  replace hdone : name ∉ done.map Prod.fst := fun h => hdone name h name List.mem_cons_self rfl
  replace hlater : name ∉ later.map Prod.fst := (List.nodup_cons.1 hlater).1
  have halone : groupByHead [name] = [(name, [])] := by
    have hname : name ∈ (groupByHead paths).map Prod.fst := by
      rw [groups]
      simp
    obtain ⟨p, -, rfl⟩ := (mem_heads_groupByHead paths).1 hname
    exact groupByHead_head p
  -- the hops before and after keep the columns that count, and so does what the rests add
  obtain ⟨f, hf, hfkeeps⟩ := foldl_expandedHop_eq_map registry s m
    (expanded registry s hops) (fun g hg => List.mem_map_of_mem (f := Prod.fst) hg) rows
  obtain ⟨g, hg, hgkeeps⟩ := foldl_expandedHop_eq_map registry s m
    (expanded registry s hops) (fun g hg => List.mem_map_of_mem (f := Prod.fst) hg)
    (expandedHop registry s (expanded registry s hops) m (rows.map f) (name, rest))
  obtain ⟨below, hbelow, hbelowkeeps⟩ := expanded_eq_map registry s related hops
    (found s r related rows) deeper
  have hsource (row : Json) : (f row).get? r.source = row.get? r.source :=
    Json.get?_of_without_eq source (hfkeeps row)
  have hkeys : Pushdown.keysOf r.source (rows.map f) = Pushdown.keysOf r.source rows :=
    keysOf_map hsource rows
  have hfound : found s r related (rows.map f) = found s r related rows := by
    rw [found, found, hkeys]
  have hleft : expanded registry s (hops + 1) m rows paths =
      (expandedHop registry s (expanded registry s hops) m (rows.map f) (name, rest)).map g := by
    rw [expanded, groups, List.foldl_append, List.foldl_cons, hf, hg]
  have hright : expanded registry s (hops' + 1) m rows [name] =
      expandedHop registry s (expanded registry s hops') m rows (name, []) := by
    rw [expanded, halone, List.foldl_cons, List.foldl_nil]
  have hafter (row : Json) : attachedUnder name names (g row) = attachedUnder name names row := by
    rw [attachedUnder, attachedUnder, Json.get?_of_without_eq hlater (hgkeeps row)]
  rw [hleft, hright, expandedHop_of_leads leads, expandedHop_of_leads leads, hkeys, hfound,
    expanded_nil, hbelow]
  split
  · rw [List.map_map, List.map_map]
    apply List.map_congr_left
    intro row _
    simp only [Function.comp_apply, hafter]
    rw [attachedUnder, attachedUnder, Json.get?_of_without_eq hdone (hfkeeps row)]
  · simp only [List.map_map]
    apply List.map_congr_left
    intro row _
    simp only [Function.comp_apply, hafter]
    exact attachedUnder_attach target hbelowkeeps (Json.isObject_of_without_eq (hfkeeps row))
      (hsource row)

/-- The hops that follow a first hop in some paths. -/
def secondHops (hop : String) (paths : List String) : List String :=
  paths.filterMap fun p => if Path.head p = hop then (Path.rest? p).map Path.head else none

theorem head_mem_secondHops {paths : List String} {hop : String} {rest : List String}
    (h : (hop, rest) ∈ groupByHead paths) {p : String} (hp : p ∈ rest) :
    Path.head p ∈ secondHops hop paths := by
  obtain ⟨q, hq, hhead, hrest⟩ := (mem_rests_iff h).1 hp
  exact List.mem_filterMap.2 ⟨q, hq, by rw [if_pos hhead, hrest, Option.map_some]⟩

/-- More paths add groups at the end only. -/
theorem heads_isPrefix (paths : List String) (groups : List (String × List String)) :
    groups.map Prod.fst <+:
      (paths.foldl (fun gs p => addPath (Path.head p) (Path.rest? p) gs) groups).map Prod.fst := by
  induction paths generalizing groups with
  | nil => exact List.prefix_rfl
  | cons p paths ih =>
    refine List.IsPrefix.trans ?_ (ih _)
    rw [heads_addPath]
    exact isPrefix_addNew _ _

/-- The groups before that of a hop come from the paths before any path of the hop. -/
theorem mem_heads_of_before {before after : List String} {p : String}
    {done later : List (String × List String)} {rest : List String}
    (groups : groupByHead (before ++ p :: after) = done ++ (Path.head p, rest) :: later)
    {name : String} (h : name ∈ done.map Prod.fst) : name ∈ before.map Path.head := by
  have hnodup := nodup_heads_groupByHead (before ++ p :: after)
  rw [groups, List.map_append, List.map_cons, List.nodup_append] at hnodup
  have hdone : Path.head p ∉ done.map Prod.fst := fun hp =>
    hnodup.2.2 _ hp _ List.mem_cons_self rfl
  -- the heads that were noted with the path `p`, which no later path removes
  let noted := (addPath (Path.head p) (Path.rest? p) (groupByHead before)).map Prod.fst
  have hnoted : Path.head p ∈ noted := (mem_heads_addPath ..).2 (.inl rfl)
  have hprefix : noted <+: done.map Prod.fst ++ Path.head p :: later.map Prod.fst := by
    have hall := congrArg (List.map Prod.fst) groups
    rw [List.map_append, List.map_cons] at hall
    rw [← hall, groupByHead, List.foldl_append, List.foldl_cons]
    exact heads_isPrefix after _
  obtain ⟨more, hmore⟩ := hprefix
  have hmem : name ∈ noted := by
    rcases List.append_eq_append_iff.1 hmore with ⟨as, hsplit, -⟩ | ⟨as, hsplit, -⟩
    · rw [hsplit] at hdone
      exact absurd (List.mem_append_left as hnoted) hdone
    · rw [hsplit]
      exact List.mem_append_left as h
  rcases (mem_heads_addPath ..).1 hmem with rfl | hbefore
  · contradiction
  · obtain ⟨q, hq, rfl⟩ := (mem_heads_groupByHead before).1 hbefore
    exact List.mem_map_of_mem hq

/-- A path that is accepted has hops that exist. -/
theorem valid_of_checkExpandPath {σ : Type} {e : Engine σ}
    (hm : e.registry.models.get? m.name = some m) {paths : List String}
    (accepted : ∀ p ∈ paths, Query.checkExpandPath e m p = .ok ()) :
    Valid e.registry m paths := by
  intro p hp
  have h := accepted p hp
  unfold Query.checkExpandPath at h
  dsimp only at h
  split at h
  · contradiction
  · split at h
    · contradiction
    · obtain ⟨m', hm', h⟩ := bind_eq_ok.1 h
      rw [Engine.model, Registry.get_eq_ok, hm] at hm'
      cases hm'
      exact h

/-- A first hop is a path of one hop, which exists if the path does. -/
theorem valid_head {paths : List String} (valid : Valid registry m paths) {p : String}
    (hp : p ∈ paths) : Valid registry m [Path.head p] := by
  intro hop hhop
  rw [List.mem_singleton.1 hhop, Path.segments_of_rest?_none (Path.rest?_head p)]
  have hhops := valid p hp
  rw [Path.segments_eq] at hhops
  obtain ⟨r, related, leads, -⟩ := checkHops_cons_eq_ok.1 hhops
  exact checkHops_cons_eq_ok.2 ⟨r, related, leads, rfl⟩

/-- What an expansion attaches under the first hop of a path is what this hop alone attaches, apart
from the members that deeper hops add to the attached rows. It is so unless a path before it begins
with the name of the column by which rows are matched, or a deeper hop has the name of the column by
which the related rows are. -/
theorem attached_alone (world : World) (settings : Settings) {specs : List ModelSpec}
    (loaded : Registry.ofSpecs specs = .ok registry) {model : String}
    (hm : registry.models.get? model = some m) (s : Store) (rows : List Json)
    {paths before after : List String} {p : String} (split : paths = before ++ p :: after)
    (accepted : ∀ q ∈ paths,
      Query.checkExpandPath (Store.engine world registry settings) m q = .ok ())
    {r : Relationship} {related : Model} (leads : registry.Leads m (Path.head p) r related)
    (source : r.source ∉ before.map Path.head)
    (target : r.target ∉ secondHops (Path.head p) paths) :
    ∃ together alone t u,
      (expand (Store.engine world registry settings) m rows paths).runFrom s = (.ok together, t) ∧
      (expand (Store.engine world registry settings) m rows [Path.head p]).runFrom s =
        (.ok alone, u) ∧
      together.length = rows.length ∧
      together.map (attachedUnder (Path.head p) (secondHops (Path.head p) paths)) =
        alone.map (attachedUnder (Path.head p) (secondHops (Path.head p) paths)) := by
  have hp : p ∈ paths := by
    rw [split]
    simp
  have valid : Valid registry m paths :=
    valid_of_checkExpandPath (Registry.get?_name_of_ofSpecs loaded hm) accepted
  obtain ⟨t, htogether, -⟩ := runFrom_expand world settings rows valid s
  obtain ⟨u, halone, -⟩ := runFrom_expand world settings rows (valid_head valid hp) s
  refine ⟨_, _, t, u, htogether, halone, ?_, ?_⟩
  · obtain ⟨f, hf, -⟩ := expanded_eq_map registry s m (depth paths + 1) rows
      fun _ => List.mem_map_of_mem (f := Path.head)
    rw [hf, List.length_map]
  · obtain ⟨g, hg, hhead⟩ := List.mem_map.1 ((mem_heads_groupByHead paths).2 ⟨p, hp, rfl⟩)
    obtain ⟨hop, rest⟩ := g
    obtain rfl : hop = Path.head p := hhead
    obtain ⟨done, later, groups⟩ := List.append_of_mem hg
    apply attachedUnder_expanded _ _ groups leads _ (fun _ => head_mem_secondHops hg) target
    intro hdone
    rw [split] at groups
    exact source (mem_heads_of_before groups hdone)

end Expansion

/-! ## Letters, whose key column has the name of a relationship -/

namespace Letters
open Expansion

def specs : List ModelSpec :=
  [{ name := "letter"
     config := ⟨some "id", some "letters", none, false, false, some "letter", some "letters"⟩
     relationships := [
       ("author", { kind := .belongsTo, model := "user", foreignKey := some "author" }),
       ("reader", { kind := .belongsTo, model := "user", foreignKey := some "reader_id" })] },
   { name := "user"
     config := ⟨some "id", some "users", none, false, false, some "user", some "users"⟩
     relationships := [
       ("letters", { kind := .hasMany, model := "letter", foreignKey := some "author" })] }]

def letterModel : Model :=
  ⟨"letter", [], ⟨"id", "letters", none, false, false, "letter", "letters"⟩,
    [("author", ⟨.belongsTo, "author", "letter", "user", "author", "id"⟩),
      ("reader", ⟨.belongsTo, "reader", "letter", "user", "reader_id", "id"⟩)], [], [], []⟩

def userModel : Model :=
  ⟨"user", [], ⟨"id", "users", none, false, false, "user", "users"⟩,
    [("letters", ⟨.hasMany, "letters", "user", "letter", "id", "author"⟩)], [], [], []⟩

def registry : Registry := ⟨[("letter", letterModel), ("user", userModel)]⟩

theorem loaded : Registry.ofSpecs specs = .ok registry := by rfl

def ada : Json := .obj [("id", .str "ada")]

def bob : Json := .obj [("id", .str "bob")]

/-- A letter from Ada to Bob. -/
def letter : Json :=
  .obj [("author", .str "ada"), ("id", .str "l"), ("reader_id", .str "bob")]

def store : Store where
  rows table :=
    if table = "letters" then [letter] else if table = "users" then [ada, bob] else []

def engine : Engine Store := Store.engine Blog.world registry {}

/-- The reader of the letter is the same whether or not the author and the reader's own letters are
asked for. -/
theorem reader_alone :
    Registry.ofSpecs specs = .ok registry ∧
    (∀ p ∈ ["author", "reader.letters"], Query.checkExpandPath engine letterModel p = .ok ()) ∧
    ∃ together alone t u,
      (expand engine letterModel [letter] ["author", "reader.letters"]).runFrom store =
        (.ok together, t) ∧
      (expand engine letterModel [letter] ["reader"]).runFrom store = (.ok alone, u) ∧
      together.length = 1 ∧
      together.map (attachedUnder "reader" ["letters"]) =
        alone.map (attachedUnder "reader" ["letters"]) := by
  have haccepted : ∀ p ∈ ["author", "reader.letters"],
      Query.checkExpandPath engine letterModel p = .ok () := by
    have hauthor : Path.segments "author" = ["author"] := by decide +kernel
    have hreader : Path.segments "reader.letters" = ["reader", "letters"] := by decide +kernel
    intro p hp
    simp only [List.mem_cons, List.not_mem_nil, or_false] at hp
    obtain rfl | rfl := hp
    · rw [Query.checkExpandPath, hauthor]
      rfl
    · rw [Query.checkExpandPath, hreader]
      rfl
  have hm : registry.models.get? "letter" = some letterModel := rfl
  have hhead : Path.head "reader.letters" = "reader" := by decide +kernel
  have hsecond : secondHops "reader" ["author", "reader.letters"] = ["letters"] := by
    decide +kernel
  have leads : registry.Leads letterModel (Path.head "reader.letters")
      ⟨.belongsTo, "reader", "letter", "user", "reader_id", "id"⟩ userModel := by
    rw [hhead]
    exact ⟨rfl, rfl⟩
  have hsplit : ["author", "reader.letters"] = ["author"] ++ "reader.letters" :: [] := rfl
  have h := attached_alone Blog.world {} loaded hm store [letter] hsplit haccepted leads
    (by decide +kernel) (by rw [hhead, hsecond]; decide)
  rw [hhead, hsecond] at h
  exact ⟨loaded, haccepted, h⟩

/-- Ada with letters that were attached. -/
def adaWithLetters (letters : List Json) : Json :=
  .obj [("id", .str "ada"), ("letters", .arr letters)]

/-- The letters of Ada are found when they are asked for alone. When they are asked for with their
authors they are lost: the author that is attached to a letter takes the place of the key by which
the letter is matched. -/
theorem letters_lost :
    Registry.ofSpecs specs = .ok registry ∧
    Query.checkExpandPath engine userModel "letters.author" = .ok () ∧
    ∃ t u,
      (expand engine userModel [ada] ["letters.author"]).runFrom store =
        (.ok [adaWithLetters []], t) ∧
      (expand engine userModel [ada] ["letters"]).runFrom store =
        (.ok [adaWithLetters [letter]], u) ∧
      attachedUnder "letters" ["author"] (adaWithLetters []) ≠
        attachedUnder "letters" ["author"] (adaWithLetters [letter]) := by
  have hsegments : Path.segments "letters.author" = ["letters", "author"] := by decide +kernel
  have hhead : Path.head "letters.author" = "letters" := by decide +kernel
  have haccepted : Query.checkExpandPath engine userModel "letters.author" = .ok () := by
    rw [Query.checkExpandPath, hsegments]
    rfl
  have hvalid : Valid registry userModel ["letters.author"] :=
    valid_of_checkExpandPath (e := engine) rfl (by simpa using haccepted)
  have hvalid' : Valid registry userModel ["letters"] := by
    have h := valid_head hvalid List.mem_cons_self
    rwa [hhead] at h
  obtain ⟨t, htogether, -⟩ := runFrom_expand Blog.world {} [ada] hvalid store
  obtain ⟨u, halone, -⟩ := runFrom_expand Blog.world {} [ada] hvalid' store
  have hlost : expanded registry store (depth ["letters.author"] + 1) userModel [ada]
      ["letters.author"] = [adaWithLetters []] := by cbv
  have hfound : expanded registry store (depth ["letters"] + 1) userModel [ada] ["letters"] =
      [adaWithLetters [letter]] := by cbv
  rw [hlost] at htogether
  rw [hfound] at halone
  refine ⟨loaded, haccepted, t, u, htogether, halone, ?_⟩
  simp [attachedUnder, adaWithLetters, Json.get?, Members.get?, Json.eachWithout, Json.each]

end Letters
end ModelActions
