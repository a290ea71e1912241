import ModelActions.Proofs.Computation
import ModelActions.Query.Pushdown

/-!
# One leaf of a push-down

A leaf is kept if its path stays on the model, and otherwise takes one hop: the rest of its path is
pushed down on the related model and the keys of the rows found there are asked for.
-/
namespace ModelActions

/-- Induction on the path of a leaf from its end, one segment more at a time. -/
theorem Condition.hop_induction {motive : Condition → Prop}
    (last : ∀ c, Path.rest? c.path = none → motive c)
    (hop : ∀ c rest, Path.rest? c.path = some rest → motive { c with path := rest } → motive c)
    (c : Condition) : motive c := by
  generalize hn : Path.segments c.path = ss
  induction ss generalizing c with
  | nil => exact absurd hn (Path.segments_ne_nil c.path)
  | cons s ss ih =>
    cases hr : Path.rest? c.path with
    | none => exact last c hr
    | some rest =>
      rw [Path.segments_of_rest?_some hr, List.cons.injEq] at hn
      exact hop c rest hr (ih { c with path := rest } hn.2)

namespace Pushdown
variable {σ : Type} (e : Engine σ) (m : Model) (c : Condition)

/-- The path of a leaf stays on the model: it has one segment, or leads into an attribute. -/
def Local (m : Model) (path : String) : Prop :=
  Path.rest? path = none ∨ m.schema.has (Path.head path) = true

theorem pushLeaf_of_local (h : Local m c.path) : pushLeaf e m c = pure c := by
  unfold pushLeaf
  cases hr : Path.rest? c.path with
  | none =>
    rw [Path.segments_of_rest?_none hr]
    rfl
  | some rest =>
    have hs : m.schema.has (Path.head c.path) = true := by simpa [Local, hr] using h
    have hp := Path.ofSegments_segments c.path
    rw [Path.segments_of_rest?_some hr] at hp ⊢
    obtain ⟨next, ss, hss⟩ := List.exists_cons_of_ne_nil (Path.segments_ne_nil rest)
    rw [hss] at hp ⊢
    simp [pushPath, hs, hp]

theorem pushGroup_of_local (h : Local m c.path) :
    pushGroup e m (.and [.condition c]) = pure (.and [.condition c]) := by
  simp only [pushGroup, FilterGroup.and, pushAll, push, pushLeaf_of_local e m c h, pure_bind]

/-- One hop of a leaf whose path leads through a relationship. -/
theorem pushLeaf_of_not_local {rest : String} (hr : Path.rest? c.path = some rest)
    (hs : m.schema.has (Path.head c.path) = false) :
    pushLeaf e m c = do
      let r ← Act.ofExcept (m.relationship (Path.head c.path))
      let related ← Act.ofExcept (e.model r.related)
      let leaf ← pushLeaf e related { c with path := rest }
      let answer ← e.host.perform (.select (keySelect related r leaf))
      return ⟨r.source, .in, .arr (keysOf r.target answer.toRows)⟩ := by
  unfold pushLeaf
  rw [Path.segments_of_rest?_some hr]
  obtain ⟨next, ss, hss⟩ := List.exists_cons_of_ne_nil (Path.segments_ne_nil rest)
  simp only [hss, pushPath, hs]
  rfl

end Pushdown
end ModelActions
