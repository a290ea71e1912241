import Mathlib.Data.List.Sort

/-!
# The order in which names are first seen

The items of a list show names, and a name that is shown again is not noted again. The names that
were noted are then all that are shown, in the order in which they were first shown, and no other
list of names is so.
-/
namespace ModelActions

/-- At some point of a list, one name has been shown and another has not. -/
def Sooner {α β : Type} (shows : α → β → Prop) (items : List β) (name other : α) : Prop :=
  ∃ earlier, earlier <+: items ∧ (∃ item ∈ earlier, shows name item) ∧
    ∀ item ∈ earlier, ¬ shows other item

/-- The names that the items of a list show, in the order in which they are first shown. -/
structure FirstSeen {α β : Type} (shows : α → β → Prop) (items : List β) (names : List α) :
    Prop where
  mem_iff : ∀ name, name ∈ names ↔ ∃ item ∈ items, shows name item
  ordered : names.Pairwise (Sooner shows items)

namespace Sooner
variable {α β : Type} {shows : α → β → Prop} {items : List β} {name other : α}

theorem append (h : Sooner shows items name other) (later : List β) :
    Sooner shows (items ++ later) name other := by
  obtain ⟨earlier, hearlier, hname, hother⟩ := h
  exact ⟨earlier, hearlier.trans (List.prefix_append items later), hname, hother⟩

theorem asymm (h : Sooner shows items name other) : ¬ Sooner shows items other name := by
  rintro ⟨later, hlater, ⟨item, hitem, hshows⟩, hnot⟩
  obtain ⟨earlier, hearlier, ⟨item', hitem', hshows'⟩, hnot'⟩ := h
  -- of two beginnings of a list, one begins the other
  rcases List.prefix_or_prefix_of_prefix hearlier hlater with hle | hle
  · exact hnot item' (hle.subset hitem') hshows'
  · exact hnot' item (hle.subset hitem) hshows

instance : Std.Irrefl (Sooner shows items) := ⟨fun _ h => h.asymm h⟩

instance : Std.Antisymm (Sooner shows items) := ⟨fun _ _ h h' => absurd h' h.asymm⟩

end Sooner

namespace FirstSeen
variable {α β : Type} {shows : α → β → Prop} {items : List β} {names names' : List α}

theorem nodup (h : FirstSeen shows items names) : names.Nodup := h.ordered.nodup

theorem unique (h : FirstSeen shows items names) (h' : FirstSeen shows items names') :
    names = names' :=
  h.ordered.eq_of_mem_iff h'.ordered fun name => (h.mem_iff name).trans (h'.mem_iff name).symm

/-- Items that come again show no new name. -/
theorem again (h : FirstSeen shows items names) {more : List β} (hmore : more ⊆ items) :
    FirstSeen shows (items ++ more) names := by
  refine ⟨fun name => ?_, h.ordered.imp fun hsooner => hsooner.append more⟩
  rw [h.mem_iff]
  constructor
  · rintro ⟨item, hitem, hshows⟩
    exact ⟨item, List.mem_append_left more hitem, hshows⟩
  · rintro ⟨item, hitem, hshows⟩
    rcases List.mem_append.1 hitem with hitem | hitem
    · exact ⟨item, hitem, hshows⟩
    · exact ⟨item, hmore hitem, hshows⟩

theorem nil : FirstSeen shows ([] : List β) ([] : List α) := ⟨by simp, .nil⟩

end FirstSeen

/-- Puts a name, if there is one, at the end of a list that does not have it yet. -/
def addNew (names : List String) : Option String → List String
  | none => names
  | some name => if name ∈ names then names else names ++ [name]

theorem mem_addNew {names : List String} {shown : Option String} {name : String} :
    name ∈ addNew names shown ↔ name ∈ names ∨ shown = some name := by
  unfold addNew
  split
  · simp
  · split <;> grind

theorem isPrefix_addNew (names : List String) (shown : Option String) :
    names <+: addNew names shown := by
  unfold addNew
  split
  · exact List.prefix_rfl
  · split
    · exact List.prefix_rfl
    · exact List.prefix_append names _

/-- An item that shows one name at most adds the name if it is new. -/
theorem FirstSeen.append_singleton {β : Type} {shows : String → β → Prop} {items : List β}
    {names : List String} (h : FirstSeen shows items names) {item : β} {shown : Option String}
    (hshown : ∀ name, shows name item ↔ shown = some name) :
    FirstSeen shows (items ++ [item]) (addNew names shown) := by
  have hbefore : names.Pairwise (Sooner shows (items ++ [item])) :=
    h.ordered.imp fun hsooner => hsooner.append [item]
  refine ⟨fun name => ?_, ?_⟩
  · rw [mem_addNew, h.mem_iff, ← hshown]
    simp [or_and_right, exists_or]
  · unfold addNew
    split
    · exact hbefore
    · next name =>
      split
      · exact hbefore
      · next hnew =>
        refine List.pairwise_append.2 ⟨hbefore, List.pairwise_singleton _ _, ?_⟩
        intro other hother new hnewmem
        obtain rfl := List.mem_singleton.1 hnewmem
        refine ⟨items, List.prefix_append items [item], (h.mem_iff other).1 hother, ?_⟩
        exact fun item' hitem' hshows => hnew ((h.mem_iff new).2 ⟨item', hitem', hshows⟩)

end ModelActions
