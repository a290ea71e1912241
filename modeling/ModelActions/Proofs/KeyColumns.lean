import ModelActions.Proofs.LooseEquality
import ModelActions.Proofs.Visible

/-!
# Key columns

A relationship links a row to the rows of the related table that carry a loosely equal key. Asking
for one of the distinct keys of some rows finds just the rows that are linked to one of them, as
long as loose equality is transitive on the keys at hand.
-/
namespace ModelActions

/-- Both rows have a key other than null, and the keys are loosely equal. -/
def Relationship.links (r : Relationship) (row x : Json) : Bool :=
  match row.get? r.source, x.get? r.target with
  | some own, some key => !own.isNull && !key.isNull && key.looseEq own
  | _, _ => false

/-- The values in the key columns of some rows of a model and of the tables. -/
inductive KeyValue (registry : Registry) (s : Store) (m : Model) (given : List Json) : Json → Prop
  | given {hop : String} {r : Relationship} {row v : Json}
      (relationship : m.relationships.get? hop = some r)
      (member : row ∈ given) (value : row.get? r.source = some v) :
      KeyValue registry s m given v
  | source {name hop : String} {model : Model} {r : Relationship} {row v : Json}
      (registered : registry.models.get? name = some model)
      (relationship : model.relationships.get? hop = some r)
      (member : row ∈ s.rows model.table) (value : row.get? r.source = some v) :
      KeyValue registry s m given v
  | target {name hop : String} {model related : Model} {r : Relationship} {row v : Json}
      (registered : registry.models.get? name = some model)
      (relationship : model.relationships.get? hop = some r)
      (leads : registry.models.get? r.related = some related)
      (member : row ∈ s.rows related.table) (value : row.get? r.target = some v) :
      KeyValue registry s m given v

/-- Every key column of a registry has a plain name. -/
def Registry.PlainKeys (registry : Registry) : Prop :=
  ∀ {name hop : String} {m : Model} {r : Relationship}, registry.models.get? name = some m →
    m.relationships.get? hop = some r → Path.Plain r.source ∧ Path.Plain r.target

/-- Loose equality is transitive on the keys at hand. -/
def KeysTransitive (registry : Registry) (s : Store) (m : Model) (given : List Json) : Prop :=
  ∀ {a b c : Json}, KeyValue registry s m given a → KeyValue registry s m given b →
    KeyValue registry s m given c → a.looseEq b = true → b.looseEq c = true → a.looseEq c = true

/-- All rows of all tables are objects. -/
def Store.ObjectRows (s : Store) : Prop := ∀ table, ∀ row ∈ s.rows table, row.isObject = true

/-- No key of a stored row is a proper fraction. -/
def Store.WholeKeys (registry : Registry) (s : Store) : Prop :=
  ∀ {name hop : String} {m : Model} {r : Relationship}, registry.models.get? name = some m →
    m.relationships.get? hop = some r →
      (∀ row ∈ s.rows m.table, ∀ v, row.get? r.source = some v → v.isFraction = false) ∧
      ∀ related, registry.models.get? r.related = some related →
        ∀ row ∈ s.rows related.table, ∀ v, row.get? r.target = some v → v.isFraction = false

/-- No key of a row of a model is a proper fraction. -/
def Model.WholeKeys (m : Model) (row : Json) : Prop :=
  ∀ hop r v, m.relationships.get? hop = some r → row.get? r.source = some v → v.isFraction = false

section
variable {registry : Registry} {s : Store} {m : Model} {given : List Json}

/-- Keys of stored rows stay at hand when others are given. -/
theorem KeyValue.of_stored {name : String} {related : Model} {rows : List Json} {v : Json}
    (hrel : registry.models.get? name = some related)
    (hrows : ∀ x ∈ rows, x ∈ s.rows related.table)
    (h : KeyValue registry s related rows v) : KeyValue registry s m given v := by
  cases h with
  | given relationship member value => exact .source hrel relationship (hrows _ member) value
  | source registered relationship member value =>
    exact .source registered relationship member value
  | target registered relationship leads member value =>
    exact .target registered relationship leads member value

theorem KeysTransitive.of_stored {name : String} {related : Model} {rows : List Json}
    (hrel : registry.models.get? name = some related)
    (hrows : ∀ x ∈ rows, x ∈ s.rows related.table) (h : KeysTransitive registry s m given) :
    KeysTransitive registry s related rows := fun ha hb hc =>
  h (ha.of_stored hrel hrows) (hb.of_stored hrel hrows) (hc.of_stored hrel hrows)

/-- The link of two rows, said of the key of the second. -/
theorem Relationship.links_iff {r : Relationship} {row x : Json} :
    r.links row x = true ↔ ∃ key, x.get? r.target = some key ∧ key.isNull = false ∧
      key.looseEq ((row.get? r.source).getD .null) = true := by
  unfold links
  cases ho : row.get? r.source with
  | none =>
    simp only [Option.getD_none, Json.looseEq_null]
    constructor
    · intro h; contradiction
    · rintro ⟨key, -, hn, he⟩
      rw [hn] at he
      contradiction
  | some own =>
    cases hk : x.get? r.target with
    | none => simp
    | some key =>
      simp only [Bool.and_eq_true, Bool.not_eq_true', Option.getD_some, Option.some.injEq]
      constructor
      · rintro ⟨⟨-, hn⟩, he⟩
        exact ⟨key, rfl, hn, he⟩
      · rintro ⟨_, rfl, hn, he⟩
        exact ⟨⟨Json.isNull_eq_false_of_looseEq he hn, hn⟩, he⟩

/-- Asking for one of the distinct values of a column is asking for one of its values, if loose
equality is transitive on these and on the value that is compared with them. -/
theorem holds_oneOf_iff {K : Json → Prop}
    (trans : ∀ a b c, K a → K b → K c → a.looseEq b = true → b.looseEq c = true →
      a.looseEq c = true)
    {column other : String} (plain : Path.Plain column) {x : Json} (hx : x.isObject = true)
    (hown : ∀ v, x.get? column = some v → K v) {rows : List Json}
    (hrows : ∀ row ∈ rows, ∀ v, row.get? other = some v → K v) :
    (Condition.mk column .in (.arr (Json.distinct (rows.filterMap (·.get? other))))).holds x =
      true ↔ ∃ row ∈ rows, ∃ v, row.get? other = some v ∧ v.isNull = false ∧
        v.looseEq ((x.get? column).getD .null) = true := by
  simp only [Condition.holds, Comparator.holds, Json.isOneOf, Json.lookup_of_plain hx plain]
  rw [Json.any_distinct_iff trans]
  · simp only [List.mem_filterMap]
    constructor
    · rintro ⟨v, ⟨row, hrow, hv⟩, hn, he⟩
      exact ⟨row, hrow, v, hv, hn, he⟩
    · rintro ⟨row, hrow, v, hv, hn, he⟩
      exact ⟨v, ⟨row, hrow, hv⟩, hn, he⟩
  · intro v hv _
    obtain ⟨row, hrow, hv⟩ := List.mem_filterMap.1 hv
    exact hrows row hrow v hv
  · intro hn
    cases ho : x.get? column with
    | none =>
      rw [ho] at hn
      contradiction
    | some own => exact hown own ho

/-- Strings are loosely equal only if they are the same. -/
theorem KeysTransitive.of_strings
    (h : ∀ v, KeyValue registry s m given v → ∃ text, v = .str text) :
    KeysTransitive registry s m given := by
  intro a b c ha hb hc hab hbc
  obtain ⟨x, rfl⟩ := h a ha
  obtain ⟨y, rfl⟩ := h b hb
  have hxy : x = y := of_decide_eq_true hab
  rwa [hxy]

/-- Loose equality is transitive on keys that are not proper fractions. -/
theorem KeysTransitive.of_wholeKeys (whole : s.WholeKeys registry)
    (hgiven : ∀ row ∈ given, m.WholeKeys row) : KeysTransitive registry s m given := by
  have hwhole {v : Json} (hv : KeyValue registry s m given v) : v.isFraction = false := by
    cases hv with
    | given relationship member value => exact hgiven _ member _ _ _ relationship value
    | source registered relationship member value =>
      exact (whole registered relationship).1 _ member v value
    | target registered relationship leads member value =>
      exact (whole registered relationship).2 _ leads _ member v value
  intro a b c ha hb hc
  exact Json.looseEq_trans (hwhole ha) (hwhole hb) (hwhole hc)

theorem Store.WholeKeys.stored (whole : s.WholeKeys registry) {name : String}
    (hm : registry.models.get? name = some m) {row : Json} (hrow : row ∈ s.rows m.table) :
    m.WholeKeys row :=
  fun _ _ v relationship value => (whole hm relationship).1 row hrow v value

end

namespace Blog

theorem get?_relationships {name hop : String} {m : Model} {r : Relationship}
    (hm : registry.models.get? name = some m) (hr : m.relationships.get? hop = some r) :
    m = post ∧ r.source = "author_id" ∧ r.target = "id" ∨
      m = user ∧ r.source = "id" ∧ r.target = "author_id" := by
  have hr := Members.mem_of_get? hr
  obtain rfl | rfl := get?_registry hm
  · simp only [post, model, List.mem_singleton, Prod.mk.injEq] at hr
    simp [hr.2]
  · simp only [user, model, List.mem_singleton, Prod.mk.injEq] at hr
    simp [hr.2]

theorem plainKeys : registry.PlainKeys := by
  intro name hop m r hm hr
  have hid : Path.Plain "id" := ⟨by decide, by decide⟩
  have hauthor : Path.Plain "author_id" := ⟨by decide, by decide⟩
  obtain ⟨-, hs, ht⟩ | ⟨-, hs, ht⟩ := get?_relationships hm hr
  · exact ⟨hs ▸ hauthor, ht ▸ hid⟩
  · exact ⟨hs ▸ hid, ht ▸ hauthor⟩

theorem mem_store {table : String} {row : Json} (h : row ∈ store.rows table) :
    row = ada ∨ row = deletedAda ∨ row = note := by
  simp only [store] at h
  split at h
  · simp only [List.mem_cons, List.not_mem_nil, or_false] at h
    exact h.imp id Or.inl
  · split at h
    · exact .inr (.inr (List.mem_singleton.1 h))
    · contradiction

theorem objectRows : store.ObjectRows := fun _ row hrow => by
  obtain rfl | rfl | rfl := mem_store hrow <;> rfl

theorem key_is_text {name hop column : String} {m : Model} {r : Relationship} {row v : Json}
    (hm : registry.models.get? name = some m) (hr : m.relationships.get? hop = some r)
    (hcolumn : column = r.source ∨ column = r.target)
    (hrow : row = ada ∨ row = deletedAda ∨ row = note) (hv : row.get? column = some v) :
    ∃ text, v = .str text := by
  have hkey : column = "id" ∨ column = "author_id" := by
    have := get?_relationships hm hr
    grind
  have hentry : (column, v) ∈ row.members?.getD [] := by
    cases row with
    | obj members => exact Members.mem_of_get? hv
    | _ => contradiction
  obtain rfl | rfl | rfl := hrow <;> obtain rfl | rfl := hkey <;>
    simp [ada, deletedAda, note, Json.members?] at hentry <;> exact ⟨_, hentry⟩

theorem wholeKeys : store.WholeKeys registry := by
  have htext {v : Json} (h : ∃ text, v = .str text) : v.isFraction = false := by
    obtain ⟨text, rfl⟩ := h
    rfl
  intro name hop m r hm hr
  refine ⟨fun row hrow v hv => ?_, fun related hrel row hrow v hv => ?_⟩
  · exact htext (key_is_text hm hr (.inl rfl) (mem_store hrow) hv)
  · exact htext (key_is_text hm hr (.inr rfl) (mem_store hrow) hv)

/-- The keys of the rows are strings. -/
theorem keysTransitive {name : String} {m : Model} (hm : registry.models.get? name = some m)
    (given : List Json) (hgiven : ∀ row ∈ given, row = ada ∨ row = deletedAda ∨ row = note) :
    KeysTransitive registry store m given := by
  refine KeysTransitive.of_strings fun v hv => ?_
  cases hv with
  | given relationship member value =>
    exact key_is_text hm relationship (.inl rfl) (hgiven _ member) value
  | source registered relationship member value =>
    exact key_is_text registered relationship (.inl rfl) (mem_store member) value
  | target registered relationship leads member value =>
    exact key_is_text registered relationship (.inr rfl) (mem_store member) value

end Blog
end ModelActions
