import ModelActions.Proofs.LinkedRows
import ModelActions.Proofs.PathGroups
import ModelActions.Store.Basic

/-!
# What expansion attaches

Expansion fetches the related rows of all rows at once, hop by hop. Each row ends up with the rows
that a join would give it, and the attached rows have in turn grown along the rest of the paths.
-/
namespace ModelActions

/-- No key column has the name of a relationship of its model. -/
def Registry.KeysApart (registry : Registry) : Prop :=
  ∀ {name hop : String} {m related : Model} {r : Relationship},
    registry.models.get? name = some m → registry.Leads m hop r related →
      m.relationships.get? r.source = none ∧ related.relationships.get? r.target = none

namespace Expansion

/-- The hops of some paths. -/
def hopsOf (paths : List String) (hops : List String) : Prop :=
  ∃ p ∈ paths, Path.segments p = hops

/-- What follows a name in some hops. -/
def after (name : String) (hops : List String → Prop) (rest : List String) : Prop :=
  rest ≠ [] ∧ hops (name :: rest)

/-- A row with what is added to it. -/
def grown (add : Json → Row) (row : Json) : Json := row.overwrite (add row)

mutual
/-- What the rows of a model gain along some hops: attachments for the first hops and nothing
else. -/
inductive Grows (registry : Registry) (s : Store) :
    Model → List Json → (List String → Prop) → (Json → Row) → Prop
  | level {m : Model} {rows : List Json} {hops : List String → Prop} {add : Json → Row}
      (attaches : ∀ name rest, hops (name :: rest) →
        Attaches registry s m rows name (after name hops) add)
      (named : ∀ row, ∀ name ∈ (add row).keys, ∃ rest, hops (name :: rest)) :
      Grows registry s m rows hops add

/-- Each row gains under a name the visible rows that are linked to it, in the order of their table,
with what these gain along the rest of the hops. Where no row has a key none gains anything. -/
inductive Attaches (registry : Registry) (s : Store) :
    Model → List Json → String → (List String → Prop) → (Json → Row) → Prop
  | joined {m related : Model} {rows : List Json} {name : String} {rest : List String → Prop}
      {r : Relationship} {add below : Json → Row} (leads : registry.Leads m name r related)
      (keyed : ∃ row ∈ rows, r.keyed row = true)
      (grows : Grows registry s related (s.linked r related rows) rest below)
      (attached : ∀ row ∈ rows, row.isObject = true → (grown add row).get? name =
        some (r.joined (((s.seen related).filter (r.links row)).map (grown below)))) :
      Attaches registry s m rows name rest add
  | idle {m related : Model} {rows : List Json} {name : String} {rest : List String → Prop}
      {r : Relationship} {add : Json → Row} (leads : registry.Leads m name r related)
      (unkeyed : ∀ row ∈ rows, r.keyed row = false)
      (nothing : ∀ row ∈ rows, name ∉ (add row).keys) :
      Attaches registry s m rows name rest add
end

/-! ## Additions to a row -/

theorem get?_grown_of_not_mem {add : Json → Row} {row : Json} {column : String}
    (h : column ∉ (add row).keys) : (grown add row).get? column = row.get? column := by
  cases row with
  | obj members => exact Members.get?_overwrite_of_not_mem members h
  | _ => rfl

/-- Where only relationships are attached, every column that is not named like one stays. -/
theorem get?_grown_of_not_relationship {registry : Registry} {m : Model} {add : Json → Row}
    {row : Json} (named : ∀ name ∈ (add row).keys, ∃ r related, registry.Leads m name r related)
    {column : String} (hc : m.relationships.get? column = none) :
    (grown add row).get? column = row.get? column := by
  refine get?_grown_of_not_mem fun hmem => ?_
  obtain ⟨r, related, leads⟩ := named column hmem
  rw [leads.relationship] at hc
  contradiction

theorem isObject_grown (add : Json → Row) (row : Json) :
    (grown add row).isObject = row.isObject := by
  cases row <;> rfl

theorem map_grown_nil (rows : List Json) : rows.map (grown fun _ => []) = rows := by
  have hid : grown (fun _ => []) = id := by
    funext row
    cases row <;> rfl
  rw [hid, List.map_id]

/-- Attaching is adding one member more. -/
theorem attach_grown (name : String) (r : Relationship) (related : List Json)
    (add : Json → Row) (row : Json) :
    attach name r related (grown add row) =
      grown (fun row => add row ++ [(name, attachment r related (grown add row))]) row := by
  cases row with
  | obj members => simp [grown, Json.overwrite, Members.overwrite, attach]
  | _ => rfl

theorem get?_attach_self (name : String) (r : Relationship) (related : List Json) {row : Json}
    (h : row.isObject = true) :
    (attach name r related row).get? name = some (attachment r related row) := by
  cases row with
  | obj members => exact Members.get?_insert_self ..
  | _ => contradiction

theorem get?_attach_of_ne {name column : String} (r : Relationship) (related : List Json)
    (row : Json) (h : column ≠ name) :
    (attach name r related row).get? column = row.get? column := by
  cases row with
  | obj members => exact Members.get?_insert_of_ne members _ h
  | _ => rfl

variable {registry : Registry} {s : Store} {m : Model} {rows : List Json} {add : Json → Row}

theorem Attaches.leads {name : String} {rest : List String → Prop}
    (h : Attaches registry s m rows name rest add) :
    ∃ r related, registry.Leads m name r related := by
  cases h with
  | joined leads | idle leads => exact ⟨_, _, leads⟩

/-- An attachment is not changed by another one. -/
theorem Attaches.attach {name other : String} {rest : List String → Prop}
    (h : Attaches registry s m rows name rest add) (hne : name ≠ other) (r : Relationship)
    (related : List Json) :
    Attaches registry s m rows name rest
      fun row => add row ++ [(other, attachment r related (grown add row))] := by
  cases h with
  | joined leads keyed grows attached =>
    refine .joined leads keyed grows fun row hrow ho => ?_
    rw [← attach_grown, get?_attach_of_ne r related _ hne, attached row hrow ho]
  | idle leads unkeyed nothing =>
    refine .idle leads unkeyed fun row hrow => ?_
    have hn := nothing row hrow
    simp only [Members.keys, List.map_append, List.mem_append, not_or] at hn ⊢
    exact ⟨hn, by simpa using hne⟩

theorem Grows.get?_of_not_relationship {hops : List String → Prop}
    (h : Grows registry s m rows hops add) {column : String}
    (hc : m.relationships.get? column = none) (row : Json) :
    (grown add row).get? column = row.get? column := by
  cases h with
  | level attaches named =>
    have hrelated : ∀ name ∈ (add row).keys, ∃ r related, registry.Leads m name r related := by
      intro name hname
      obtain ⟨rest, hhops⟩ := named row name hname
      exact (attaches name rest hhops).leads
    exact get?_grown_of_not_relationship hrelated hc

/-! ## Groups that were attached already -/

/-- What the rows gain from the groups that were attached. -/
structure Partly (registry : Registry) (s : Store) (m : Model) (rows : List Json)
    (done : List (String × List String)) (add : Json → Row) : Prop where
  attaches : ∀ g ∈ done, Attaches registry s m rows g.1 (hopsOf g.2) add
  named : ∀ row, ∀ name ∈ (add row).keys, name ∈ done.map Prod.fst

namespace Partly
variable {done : List (String × List String)}

theorem nil (registry : Registry) (s : Store) (m : Model) (rows : List Json) :
    Partly registry s m rows [] fun _ => [] where
  attaches _ h := by contradiction
  named _ _ h := by contradiction

theorem get?_of_not_relationship (h : Partly registry s m rows done add) {column : String}
    (hc : m.relationships.get? column = none) (row : Json) :
    (grown add row).get? column = row.get? column := by
  have hrelated : ∀ name ∈ (add row).keys, ∃ r related, registry.Leads m name r related := by
    intro name hname
    obtain ⟨g, hg, rfl⟩ := List.mem_map.1 (h.named row name hname)
    exact (h.attaches g hg).leads
  exact get?_grown_of_not_relationship hrelated hc

theorem idle (h : Partly registry s m rows done add) {g : String × List String}
    (fresh : g.1 ∉ done.map Prod.fst) {r : Relationship} {related : Model}
    (leads : registry.Leads m g.1 r related) (unkeyed : ∀ row ∈ rows, r.keyed row = false) :
    Partly registry s m rows (done ++ [g]) add where
  attaches g' hg' := by
    rcases List.mem_append.1 hg' with hd | hg'
    · exact h.attaches g' hd
    · obtain rfl := List.mem_singleton.1 hg'
      exact .idle leads unkeyed fun row _ hmem => fresh (h.named row g'.1 hmem)
  named row name hmem := by
    rw [List.map_append, List.mem_append]
    exact .inl (h.named row name hmem)

theorem joined (h : Partly registry s m rows done add) {g : String × List String}
    (fresh : g.1 ∉ done.map Prod.fst) {r : Relationship} {related : Model}
    (leads : registry.Leads m g.1 r related) (keyed : ∃ row ∈ rows, r.keyed row = true)
    (hsource : m.relationships.get? r.source = none)
    (htarget : related.relationships.get? r.target = none) {below : Json → Row}
    (grows : Grows registry s related (s.linked r related rows) (hopsOf g.2) below) :
    Partly registry s m rows (done ++ [g]) fun row => add row ++
      [(g.1, attachment r ((s.linked r related rows).map (grown below)) (grown add row))] where
  attaches g' hg' := by
    rcases List.mem_append.1 hg' with hd | hg'
    · refine (h.attaches g' hd).attach (fun he => fresh ?_) r _
      exact List.mem_map.2 ⟨g', hd, he⟩
    · obtain rfl := List.mem_singleton.1 hg'
      refine .joined leads keyed grows fun row hrow ho => ?_
      have hkey : attachment r ((s.linked r related rows).map (grown below)) (grown add row) =
          attachment r ((s.linked r related rows).map (grown below)) row := by
        simp only [attachment, h.get?_of_not_relationship hsource]
      rw [← attach_grown, get?_attach_self _ _ _ ((isObject_grown add row).trans ho), hkey,
        attachment_map hrow (grows.get?_of_not_relationship htarget)]
  named row name hmem := by
    simp only [Members.keys, List.map_append, List.mem_append] at hmem ⊢
    rcases hmem with hmem | hmem
    · exact .inl (h.named row name hmem)
    · exact .inr (by simpa using hmem)

end Partly
end Expansion

theorem Blog.keysApart : Blog.registry.KeysApart := by
  intro name hop m related r hm leads
  obtain ⟨rfl, hs, ht⟩ | ⟨rfl, hs, ht⟩ := Blog.get?_relationships hm leads.relationship <;>
    obtain rfl | rfl := Blog.get?_registry leads.model <;>
    rw [hs, ht] <;> exact ⟨rfl, rfl⟩

end ModelActions
