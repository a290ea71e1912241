import ModelActions.Proofs.KeyColumns
import ModelActions.Query.Expansion

/-!
# One hop of an expansion

The select of a hop finds the visible rows that are linked to one of the rows at hand, and what is
attached to a row is picked from these by its own key.
-/
namespace ModelActions

/-- A relationship of a model, and the model it leads to. -/
structure Registry.Leads (registry : Registry) (m : Model) (name : String) (r : Relationship)
    (related : Model) : Prop where
  relationship : m.relationships.get? name = some r
  model : registry.models.get? r.related = some related

/-- The row has a key other than null. -/
def Relationship.keyed (r : Relationship) (row : Json) : Bool :=
  (row.get? r.source).any (!·.isNull)

/-- How related rows are attached: all of them, or the first one. -/
def Relationship.joined (r : Relationship) (rows : List Json) : Json :=
  if r.isCollection then .arr rows else rows.headD .null

/-- The visible rows that are linked to one of some rows. -/
def Store.linked (s : Store) (r : Relationship) (related : Model) (rows : List Json) : List Json :=
  (s.seen related).filter fun x => rows.any (r.links · x)

/-- Linked rows are rows of their table. -/
theorem Store.mem_rows_of_linked (s : Store) {r : Relationship} {related : Model}
    {rows : List Json} : ∀ x ∈ s.linked r related rows, x ∈ s.rows related.table :=
  fun _ hx => (mem_seen.1 (List.mem_filter.1 hx).1).1

namespace Relationship
variable {r : Relationship}

theorem belongs_eq_links (row x : Json) :
    Expansion.belongs r ((row.get? r.source).getD .null) x = r.links row x := by
  unfold Expansion.belongs links
  cases row.get? r.source with
  | none => rfl
  | some own =>
    cases x.get? r.target with
    | none => simp
    | some key =>
      have hnull : key.looseEq own = true → own.isNull = false → key.isNull = false := by
        intro he hn
        rw [Json.looseEq_comm] at he
        exact Json.isNull_eq_false_of_looseEq he hn
      simp only [Option.getD_some, Option.any_some]
      cases hn : own.isNull <;> cases he : key.looseEq own <;> simp_all

/-- The link of two rows, said of the key of the first. -/
theorem links_iff_source {row x : Json} :
    r.links row x = true ↔ ∃ own, row.get? r.source = some own ∧ own.isNull = false ∧
      own.looseEq ((x.get? r.target).getD .null) = true := by
  rw [← belongs_eq_links, Expansion.belongs]
  cases row.get? r.source with
  | none => simp [Json.isNull]
  | some own =>
    simp only [Option.getD_some, Option.some.injEq, Bool.and_eq_true, Bool.not_eq_true']
    constructor
    · rintro ⟨hn, he⟩
      obtain ⟨key, hk, he⟩ := (Option.any_eq_true _ _).1 he
      refine ⟨own, rfl, hn, ?_⟩
      rw [hk, Json.looseEq_comm]
      exact he
    · rintro ⟨_, rfl, hn, he⟩
      refine ⟨hn, ?_⟩
      cases hk : x.get? r.target with
      | none =>
        rw [hk, Option.getD_none, Json.looseEq_null, hn] at he
        contradiction
      | some key =>
        rw [hk, Json.looseEq_comm] at he
        exact he

end Relationship

namespace Expansion
variable {registry : Registry} {s : Store} {name hop : String} {m related : Model}
  {r : Relationship}

theorem keysOf_eq_nil_iff (rows : List Json) :
    Pushdown.keysOf r.source rows = [] ↔ ∀ row ∈ rows, r.keyed row = false := by
  constructor
  · intro h row hrow
    cases hk : r.keyed row with
    | false => rfl
    | true =>
      obtain ⟨own, ho, hn⟩ := (Option.any_eq_true _ _).1 hk
      have hmem : own ∈ rows.filterMap (·.get? r.source) := List.mem_filterMap.2 ⟨row, hrow, ho⟩
      obtain ⟨key, hkey, -⟩ := Json.exists_mem_distinct hmem (by simpa using hn)
      rw [← Pushdown.keysOf, h] at hkey
      contradiction
  · intro h
    refine List.eq_nil_iff_forall_not_mem.2 fun key hkey => ?_
    obtain ⟨hmem, hn⟩ := Json.mem_of_mem_distinct hkey
    obtain ⟨row, hrow, ho⟩ := List.mem_filterMap.1 hmem
    have hk := h row hrow
    simp [Relationship.keyed, ho, hn] at hk

/-- A row has one of the keys of some rows just if it is linked to one of them. -/
theorem holds_relatedKeys (hm : registry.models.get? name = some m)
    (leads : registry.Leads m hop r related) (plain : registry.PlainKeys)
    {rows : List Json} (trans : KeysTransitive registry s m rows) {x : Json}
    (hx : x.isObject = true) (hmem : x ∈ s.rows related.table) :
    (FilterGroup.leaf r.target .in (.arr (Pushdown.keysOf r.source rows))).holds x =
      rows.any (r.links · x) := by
  have hown : ∀ v, x.get? r.target = some v → KeyValue registry s m rows v := fun v hv =>
    .target hm leads.relationship leads.model hmem hv
  have hkeys : ∀ row ∈ rows, ∀ v, row.get? r.source = some v → KeyValue registry s m rows v :=
    fun row hrow v hv => .given leads.relationship hrow hv
  have hplain := (plain hm leads.relationship).2
  rw [Bool.eq_iff_iff, FilterGroup.holds_leaf, Pushdown.keysOf, List.any_eq_true,
    holds_oneOf_iff (fun a b c => trans) hplain hx hown hkeys]
  simp only [Relationship.links_iff_source]

/-- The select of a hop answers with all rows that it finds, and with all of their columns. -/
theorem result_relatedSelect (related : Model) (r : Relationship) (keys : List Json)
    (rest : List String) (found : List Json) :
    (Store.selection (relatedSelect related r keys rest) found).result = found := rfl

/-- The select of a hop finds the rows that are linked to those at hand. -/
theorem found_relatedSelect (hm : registry.models.get? name = some m)
    (leads : registry.Leads m hop r related) (plain : registry.PlainKeys)
    (objects : s.ObjectRows) {rows : List Json} (trans : KeysTransitive registry s m rows)
    (rest : List String) :
    s.found (relatedSelect related r (Pushdown.keysOf r.source rows) rest) =
      s.linked r related rows := by
  rw [s.found_guard related (f := some (.leaf r.target .in (.arr (Pushdown.keysOf r.source rows))))
    rfl rfl, Store.linked]
  refine List.filter_congr fun x hx => ?_
  have hmem := (Store.mem_seen.1 hx).1
  exact holds_relatedKeys hm leads plain trans (objects _ x hmem) hmem

/-- What is attached to a row is picked by its links. -/
theorem attachment_eq_joined (rows : List Json) (row : Json) :
    attachment r rows row = r.joined (rows.filter (r.links row)) := by
  have hbelongs : belongs r ((row.get? r.source).getD .null) = r.links row :=
    funext (Relationship.belongs_eq_links row)
  rw [attachment, Relationship.joined, hbelongs, List.headD_eq_head?_getD, List.head?_filter]

/-- Changes in other columns than the key keep the links. -/
theorem links_comp {f : Json → Json} (hf : ∀ x, (f x).get? r.target = x.get? r.target)
    (row : Json) : r.links row ∘ f = r.links row := by
  funext x
  rw [Function.comp_apply, Relationship.links, hf, Relationship.links]

/-- What is attached to a row, if the rows at hand were changed in other columns than the key. -/
theorem attachment_map {rows : List Json} {row : Json} (hrow : row ∈ rows) {f : Json → Json}
    (hf : ∀ x, (f x).get? r.target = x.get? r.target) :
    attachment r ((s.linked r related rows).map f) row =
      r.joined (((s.seen related).filter (r.links row)).map f) := by
  have hlinked : (s.linked r related rows).filter (r.links row) =
      (s.seen related).filter (r.links row) := by
    rw [Store.linked, List.filter_filter]
    refine List.filter_congr fun x _ => ?_
    cases hl : r.links row x with
    | false => rfl
    | true => simpa using ⟨row, hrow, hl⟩
  rw [attachment_eq_joined, List.filter_map, links_comp hf, hlinked]

end Expansion
end ModelActions
