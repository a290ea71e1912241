import Mathlib.Data.List.Forall2
import ModelActions.Filter.Grammar
import ModelActions.Proofs.Computation

/-!
# Accepted filters and first offences

A JSON value is accepted as a filter tree just if the grammar of groups and leaves writes it. Any
other value has offences, each of a node that is reached through the conditions of groups. The check
reports the first of them: those of a node come before those of its children, and the children are
taken from left to right.
-/
namespace ModelActions.Filter

/-! ## The grammar -/

/-- An object that is written as a leaf. A value that is left out is null. -/
structure WritesLeaf (members : Members Json) (c : Condition) : Prop where
  path : members.get? "attribute" = some (.str c.path)
  named : c.path ≠ ""
  op : members.get? "op" = some (.str c.op.name)
  value : (members.get? "value").getD .null = c.value

/-- A value that is written as a node of a filter tree. Objects with conditions are groups, all
others are leaves. -/
inductive Writes : Json → Filter → Prop
  | leaf {members : Members Json} {c : Condition} (bare : members.has "conditions" = false)
      (h : WritesLeaf members c) : Writes (.obj members) (.condition c)
  | group {members : Members Json} {op : Connective} {items : List Json} {children : List Filter}
      (connective : members.get? "op" = some (.str op.name))
      (conditions : members.get? "conditions" = some (.arr items)) (nonempty : items ≠ [])
      (written : List.Forall₂ Writes items children) : Writes (.obj members) (.group op children)

theorem checkConnective_eq_ok {path : String} {members : Members Json} {op : Connective} :
    checkConnective path members = .ok op ↔ members.get? "op" = some (.str op.name) := by
  constructor
  · intro h
    unfold checkConnective at h
    split at h
    · next hop =>
      cases h
      obtain ⟨j, hj, hs⟩ := Option.bind_eq_some_iff.1 hop
      rw [hj, Json.string?_eq_some.1 hs]
      rfl
    · next hop =>
      cases h
      obtain ⟨j, hj, hs⟩ := Option.bind_eq_some_iff.1 hop
      rw [hj, Json.string?_eq_some.1 hs]
      rfl
    · cases h
  · intro h
    rw [checkConnective, h]
    cases op <;> rfl

theorem checkLeaf_eq_ok {place : String} {members : Members Json} {c : Condition} :
    checkLeaf place members = .ok c ↔ WritesLeaf members c := by
  constructor
  · intro h
    unfold checkLeaf at h
    split at h
    · cases h
    · cases h
    · next path hne hpath =>
      split at h
      · next op hop =>
        cases h
        obtain ⟨j, hj, hs⟩ := Option.bind_eq_some_iff.1 hpath
        obtain ⟨s, hs', hname⟩ := Option.bind_eq_some_iff.1 hop
        obtain ⟨j', hj', hs'⟩ := Option.bind_eq_some_iff.1 hs'
        rw [Json.string?_eq_some] at hs hs'
        refine ⟨hs ▸ hj, fun he => hne he, ?_, rfl⟩
        rw [hj', hs', Comparator.name_of_ofName? hname]
      · cases h
  · rintro ⟨hpath, hne, hop, hvalue⟩
    have hop' : ((members.get? "op").bind Json.string?).bind Comparator.ofName? = some c.op := by
      simp [hop, Json.string?]
    have hpath' : (members.get? "attribute").bind Json.string? = some c.path := by
      simp [hpath, Json.string?]
    unfold checkLeaf
    rw [hpath']
    simp only [hop', hvalue]

mutual
theorem checkMembers_eq_ok {path : String} {members : List (String × Json)}
    {children : List Filter} :
    checkMembers path members = .ok children ↔
      ∃ items, Members.get? members "conditions" = some (.arr items) ∧ items ≠ [] ∧
        List.Forall₂ Writes items children := by
  match members with
  | [] => simp [checkMembers]
  | (key, value) :: members =>
    rw [checkMembers, Members.get?_cons]
    split
    · rw [checkConditions_eq_ok]
      simp
    · exact checkMembers_eq_ok

theorem checkConditions_eq_ok {path : String} {value : Json} {children : List Filter} :
    checkConditions path value = .ok children ↔
      ∃ items, value = .arr items ∧ items ≠ [] ∧ List.Forall₂ Writes items children := by
  match value with
  | .arr items =>
    rw [checkConditions]
    split
    · next hitems => simp [List.isEmpty_iff.1 hitems]
    · next hitems =>
      rw [checkChildren_eq_ok]
      simp [List.isEmpty_iff] at hitems
      simp [hitems]
  | .null | .bool _ | .int _ | .float _ _ | .str _ | .obj _ => simp [checkConditions]

theorem checkChildren_eq_ok {path : String} {i : Nat} {items : List Json}
    {children : List Filter} :
    checkChildren path i items = .ok children ↔ List.Forall₂ Writes items children := by
  match items with
  | [] => cases children <;> simp [checkChildren]
  | j :: js =>
    rw [checkChildren, bind_eq_ok]
    simp only [bind_eq_ok, checkChild_eq_ok, @checkChildren_eq_ok _ _ js]
    cases children <;> simp [pure, Except.pure]

theorem checkChild_eq_ok {place : String} {value : Json} {n : Filter} :
    checkChild place value = .ok n ↔ Writes value n := by
  match value with
  | .obj members =>
    rw [checkChild]
    split
    · next hgroup =>
      simp only [bind_eq_ok, checkConnective_eq_ok, @checkMembers_eq_ok _ members]
      constructor
      · rintro ⟨op, hop, children, ⟨items, hitems, hne, hchildren⟩, h⟩
        cases h
        exact .group hop hitems hne hchildren
      · intro h
        cases h with
        | leaf bare => simp [hgroup] at bare
        | @group _ op items children hop hitems hne hchildren =>
          exact ⟨op, hop, children, ⟨items, hitems, hne, hchildren⟩, rfl⟩
    · next hleaf =>
      simp only [bind_eq_ok, checkLeaf_eq_ok]
      constructor
      · rintro ⟨c, hc, h⟩
        cases h
        exact .leaf (by simpa using hleaf) hc
      · intro h
        cases h with
        | @leaf _ c _ hc => exact ⟨c, hc, rfl⟩
        | group _ hitems => simp [Members.has, hitems] at hleaf
  | .null | .bool _ | .int _ | .float _ _ | .str _ | .arr _ =>
    constructor
    · intro h
      cases h
    · intro h
      cases h
end

theorem check_eq_ok {v : Json} {g : FilterGroup} : check v = .ok g ↔ Writes v g.toFilter := by
  cases v with
  | obj members =>
    simp only [check, bind_eq_ok, checkConnective_eq_ok, checkMembers_eq_ok]
    constructor
    · rintro ⟨op, hop, children, ⟨items, hitems, hne, hchildren⟩, h⟩
      cases h
      exact .group hop hitems hne hchildren
    · intro h
      cases h with
      | group hop hitems hne hchildren =>
        exact ⟨g.op, hop, g.children, ⟨_, hitems, hne, hchildren⟩, rfl⟩
  | _ =>
    constructor
    · intro h
      cases h
    · intro h
      cases h

/-! ## Offences -/

/-- What of a node is at fault, in the order in which it is looked at. -/
inductive Part where
  | node
  | path
  | op
  | children
  deriving DecidableEq

namespace Part

def rank : Part → Nat
  | node => 0
  | path => 1
  | op => 2
  | children => 3

def member? : Part → Option String
  | node => none
  | path => some "attribute"
  | op => some "op"
  | children => some "conditions"

end Part

/-- A fault in a filter tree, with the place of its node: the positions of children from the top
down. -/
structure Offence where
  place : List Nat
  part : Part
  fault : Fault

namespace Offence

def segment (i : Nat) : String := "conditions[" ++ toString i ++ "]"

/-- The path under which an offence is reported. -/
def field (o : Offence) : String := Path.ofSegments (o.place.map segment ++ o.part.member?.toList)

/-- Comes first from the top and from left to right. -/
def Before (o o' : Offence) : Prop :=
  o.place < o'.place ∨ o.place = o'.place ∧ o.part.rank < o'.part.rank

/-- The offence as it is seen from a node further up. -/
def within (place : List Nat) (o : Offence) : Offence := { o with place := place ++ o.place }

theorem within_within (place place' : List Nat) (o : Offence) :
    (o.within place').within place = o.within (place ++ place') := by
  simp [within]

theorem Before.asymm {o o' : Offence} (h : o.Before o') : ¬o'.Before o := by
  rintro (h' | ⟨h', hrank'⟩) <;> rcases h with h | ⟨h, hrank⟩
  · exact List.lt_asymm h h'
  · exact List.lt_irrefl _ (h ▸ h')
  · exact List.lt_irrefl _ (h' ▸ h)
  · omega

theorem Before.within {o o' : Offence} (h : o.Before o') (i : Nat) :
    (o.within [i]).Before (o'.within [i]) := by
  rcases h with h | ⟨h, hrank⟩
  · exact .inl (List.cons_lt_cons_iff.2 (.inr ⟨rfl, h⟩))
  · exact .inr ⟨congrArg (i :: ·) h, hrank⟩

end Offence

/-- What can be wrong with the conditions of a group, which may be missing. -/
inductive ConditionsFault : Option Json → Fault → Prop
  | notArray {found : Option Json} (h : ∀ items, found ≠ some (.arr items)) :
      ConditionsFault found .groupWithoutConditions
  | empty : ConditionsFault (some (.arr [])) .groupEmpty

/-- What can be wrong with a group itself. -/
inductive GroupFault : Json → Part → Fault → Prop
  | notObject {j : Json} (h : j.isObject = false) : GroupFault j .children .groupNotObject
  | connective {members : Members Json}
      (h : ∀ op : Connective, members.get? "op" ≠ some (.str op.name)) :
      GroupFault (.obj members) .op (.connective ((members.get? "op").bind Json.string?))
  | conditions {members : Members Json} {fault : Fault}
      (h : ConditionsFault (members.get? "conditions") fault) :
      GroupFault (.obj members) .children fault

/-- What can be wrong with a leaf. -/
inductive LeafFault : Json → Part → Fault → Prop
  | notObject {j : Json} (h : j.isObject = false) : LeafFault j .node .leafNotObject
  | path {members : Members Json}
      (h : ∀ path, path ≠ "" → members.get? "attribute" ≠ some (.str path)) :
      LeafFault (.obj members) .path .leafWithoutAttribute
  | op {members : Members Json}
      (h : ∀ op : Comparator, members.get? "op" ≠ some (.str op.name)) :
      LeafFault (.obj members) .op (.comparator ((members.get? "op").getD .null).text)

/-- What can be wrong with a child, which is a group if it has conditions. -/
def ChildFault (j : Json) : Part → Fault → Prop :=
  if (j.get? "conditions").isSome then GroupFault j else LeafFault j

def childrenOf (j : Json) : List Json := ((j.get? "conditions").bind Json.items?).getD []

/-- The node at a place below a node. -/
def nodeAt : Json → List Nat → Option Json
  | j, [] => some j
  | j, i :: place => (childrenOf j)[i]?.bind (nodeAt · place)

/-- An offence of a child or of a node below it. -/
def ChildOffends (j : Json) (o : Offence) : Prop :=
  ∃ node, nodeAt j o.place = some node ∧ ChildFault node o.part o.fault

/-- An offence of a whole filter, which is a group, or of a node below it. -/
def Offends (j : Json) (o : Offence) : Prop :=
  match o.place with
  | [] => GroupFault j o.part o.fault
  | _ :: _ => ChildOffends j o

/-- An offence of one of some children, which are counted from `i`, or of a node below them. -/
def ChildrenOffend (i : Nat) (items : List Json) (o : Offence) : Prop :=
  ∃ k child o', items[k]? = some child ∧ ChildOffends child o' ∧ o = o'.within [i + k]

theorem not_childrenOffend_nil {i : Nat} {o : Offence} : ¬ChildrenOffend i [] o := by
  rintro ⟨k, child, o', hk, -⟩
  simp at hk

theorem childrenOffend_cons {i : Nat} {j : Json} {js : List Json} {o : Offence} :
    ChildrenOffend i (j :: js) o ↔
      (∃ o', ChildOffends j o' ∧ o = o'.within [i]) ∨ ChildrenOffend (i + 1) js o := by
  constructor
  · rintro ⟨k, child, o', hk, ho', rfl⟩
    cases k with
    | zero =>
      cases hk
      exact .inl ⟨o', ho', rfl⟩
    | succ k => exact .inr ⟨k, child, o', hk, ho', by rw [Nat.add_right_comm, Nat.add_assoc]⟩
  · rintro (⟨o', ho', rfl⟩ | ⟨k, child, o', hk, ho', rfl⟩)
    · exact ⟨0, j, o', rfl, ho', rfl⟩
    · exact ⟨k + 1, child, o', hk, ho', by rw [Nat.add_right_comm, Nat.add_assoc]⟩

theorem not_childrenOffend_here {i : Nat} {items : List Json} {part : Part} {fault : Fault} :
    ¬ChildrenOffend i items ⟨[], part, fault⟩ := by
  rintro ⟨k, child, o', -, -, h⟩
  simp [Offence.within] at h

/-- Below a node its children are at fault. -/
theorem childOffends_cons {j : Json} {i : Nat} {place : List Nat} {part : Part} {fault : Fault} :
    ChildOffends j ⟨i :: place, part, fault⟩ ↔
      ChildrenOffend 0 (childrenOf j) ⟨i :: place, part, fault⟩ := by
  constructor
  · rintro ⟨node, hnode, hfault⟩
    obtain ⟨child, hchild, hnode⟩ := Option.bind_eq_some_iff.1 hnode
    exact ⟨i, child, ⟨place, part, fault⟩, hchild, ⟨node, hnode, hfault⟩, by simp [Offence.within]⟩
  · rintro ⟨k, child, ⟨place', part', fault'⟩, hchild, ⟨node, hnode, hfault⟩, h⟩
    simp only [Offence.within, Nat.zero_add, List.singleton_append, Offence.mk.injEq,
      List.cons.injEq] at h
    obtain ⟨⟨rfl, rfl⟩, rfl, rfl⟩ := h
    exact ⟨node, by simp [nodeAt, hchild, hnode], hfault⟩

theorem childOffends_iff {j : Json} {o : Offence} :
    ChildOffends j o ↔
      (o.place = [] ∧ ChildFault j o.part o.fault) ∨ ChildrenOffend 0 (childrenOf j) o := by
  obtain ⟨place, part, fault⟩ := o
  cases place with
  | nil => simp [ChildOffends, nodeAt, not_childrenOffend_here]
  | cons i place => simp [childOffends_cons]

theorem offends_iff {j : Json} {o : Offence} :
    Offends j o ↔
      (o.place = [] ∧ GroupFault j o.part o.fault) ∨ ChildrenOffend 0 (childrenOf j) o := by
  obtain ⟨place, part, fault⟩ := o
  cases place with
  | nil => simp [Offends, not_childrenOffend_here]
  | cons i place => simp [Offends, childOffends_cons]

/-! ## The first offence -/

/-- The first of the offences that satisfy `P`. -/
def IsFirst (P : Offence → Prop) (o : Offence) : Prop := P o ∧ ∀ o', P o' → o' = o ∨ o.Before o'

theorem IsFirst.of_only {P : Offence → Prop} {o : Offence} (h : ∀ o', P o' ↔ o' = o) :
    IsFirst P o := ⟨(h o).2 rfl, fun o' ho' => .inl ((h o').1 ho')⟩

theorem IsFirst.unique {P : Offence → Prop} {o o' : Offence} (h : IsFirst P o)
    (h' : IsFirst P o') : o' = o := by
  rcases h.2 o' h'.1 with rfl | hbefore
  · rfl
  · rcases h'.2 o h.1 with rfl | hbefore'
    · rfl
    · exact absurd hbefore' hbefore.asymm

/-- A check of a node at a place that fails just if there are offences that satisfy `P`, and then
with the first of them. -/
def Reports {α : Type} (place : List Nat) (P : Offence → Prop) : Except Error α → Prop
  | .ok _ => ∀ o, ¬P o
  | .error e => ∃ o, IsFirst P o ∧ e = .invalid (o.within place).field o.fault

namespace Reports
variable {α β : Type} {place : List Nat} {P Q : Offence → Prop} {x : Except Error α}
  {f : α → Except Error β}

theorem congr (h : Reports place P x) (hPQ : ∀ o, P o ↔ Q o) : Reports place Q x := by
  have hfun : P = Q := funext fun o => propext (hPQ o)
  exact hfun ▸ h

theorem ok (a : α) (h : ∀ o, ¬P o) : Reports place P (.ok a : Except Error α) := h

theorem error {o : Offence} (h : IsFirst P o) :
    Reports place P (.error (.invalid (o.within place).field o.fault) : Except Error α) :=
  ⟨o, h, rfl⟩

/-- One check after the other reports the first offence if those of the first come first. -/
theorem bind (hx : Reports place P x) (hf : ∀ a, x = .ok a → Reports place Q (f a))
    (before : ∀ o o', P o → Q o' → o.Before o') : Reports place (fun o => P o ∨ Q o) (x >>= f) := by
  cases x with
  | error e =>
    obtain ⟨o, ⟨ho, hfirst⟩, he⟩ := hx
    refine ⟨o, ⟨.inl ho, ?_⟩, he⟩
    rintro o' (ho' | ho')
    · exact hfirst o' ho'
    · exact .inr (before o o' ho ho')
  | ok a =>
    refine (hf a rfl).congr fun o => ?_
    have hnone : ¬P o := hx o
    simp [hnone]

/-- What follows a check may only build its result. -/
theorem bind_pure (hx : Reports place P x) (g : α → β) :
    Reports place P (x >>= fun a => Pure.pure (g a)) := by
  cases x with
  | error e => exact hx
  | ok a => exact hx

/-- An offence of a child is one of the parent, further down. -/
theorem within {i : Nat} (h : Reports (place ++ [i]) P x) :
    Reports place (fun o => ∃ o', P o' ∧ o = o'.within [i]) x := by
  cases x with
  | ok a =>
    rintro _ ⟨o, ho, -⟩
    exact h o ho
  | error e =>
    obtain ⟨o, ⟨ho, hfirst⟩, rfl⟩ := h
    refine ⟨o.within [i], ⟨⟨o, ho, rfl⟩, ?_⟩, by rw [Offence.within_within]; rfl⟩
    rintro _ ⟨o', ho', rfl⟩
    exact (hfirst o' ho').imp (congrArg _) fun h => h.within i

end Reports

/-- What stands before the members of a group at a place. -/
def prefixAt : List Nat → String
  | [] => ""
  | i :: place => Offence.segment i ++ "." ++ prefixAt place

theorem prefixAt_append (place : List Nat) (i : Nat) :
    prefixAt (place ++ [i]) = prefixAt place ++ Offence.segment i ++ "." := by
  induction place with
  | nil => simp [prefixAt]
  | cons k place ih => simp [prefixAt, ih, String.append_assoc]

theorem ofSegments_cons (s : String) {ss : List String} (h : ss ≠ []) :
    Path.ofSegments (s :: ss) = s ++ "." ++ Path.ofSegments ss := by
  obtain ⟨t, ts, rfl⟩ := List.exists_cons_of_ne_nil h
  apply String.toList_injective
  simp [Path.ofSegments, Path.joinChars]

theorem ofSegments_append (place : List Nat) (name : String) :
    Path.ofSegments (place.map Offence.segment ++ [name]) = prefixAt place ++ name := by
  induction place with
  | nil => simp [prefixAt, Path.ofSegments, Path.joinChars]
  | cons i place ih =>
    rw [List.map_cons, List.cons_append, ofSegments_cons _ (by simp), ih, prefixAt]
    simp only [String.append_assoc]

theorem field_of_member {place : List Nat} {part : Part} {name : String} (fault : Fault)
    (h : part.member? = some name) :
    (Offence.mk place part fault).field = prefixAt place ++ name := by
  rw [Offence.field, h]
  exact ofSegments_append place name

theorem field_of_node (place : List Nat) (i : Nat) (fault : Fault) :
    (Offence.mk (place ++ [i]) .node fault).field = prefixAt place ++ Offence.segment i := by
  rw [Offence.field, List.map_append]
  exact (congrArg Path.ofSegments (List.append_nil _)).trans (ofSegments_append place _)

/-- An offence of a member of a node is reported under its path. -/
theorem Reports.member {α : Type} {place : List Nat} (part : Part) {name : String} {fault : Fault}
    {P : Offence → Prop} (hname : part.member? = some name) (h : IsFirst P ⟨[], part, fault⟩) :
    Reports place P (.error (.invalid (prefixAt place ++ name) fault) : Except Error α) := by
  rw [← field_of_member fault hname]
  have hplace : (Offence.mk place part fault) = (Offence.mk [] part fault).within place := by
    simp [Offence.within]
  rw [hplace]
  exact .error h

theorem checkConnective_reports (place : List Nat) (members : Members Json) :
    Reports place (fun o => o.place = [] ∧ o.part = .op ∧ GroupFault (.obj members) .op o.fault)
      (checkConnective (prefixAt place) members) := by
  by_cases h : ∃ op : Connective, members.get? "op" = some (.str op.name)
  · obtain ⟨op, hop⟩ := h
    rw [checkConnective_eq_ok.2 hop]
    rintro ⟨place, part, fault⟩ ⟨-, -, hfault⟩
    cases hfault with
    | connective hnone => exact hnone op hop
  · simp only [not_exists] at h
    have herror : checkConnective (prefixAt place) members =
        .error (.invalid (prefixAt place ++ "op")
          (.connective ((members.get? "op").bind Json.string?))) := by
      cases hcheck : checkConnective (prefixAt place) members with
      | ok op => exact absurd (checkConnective_eq_ok.1 hcheck) (h op)
      | error e =>
        unfold checkConnective at hcheck
        split at hcheck <;> cases hcheck
        rfl
    rw [herror]
    refine .member .op rfl (.of_only ?_)
    rintro ⟨place, part, fault⟩
    constructor
    · rintro ⟨rfl, rfl, hfault⟩
      cases hfault
      rfl
    · rintro ⟨⟩
      exact ⟨rfl, rfl, .connective h⟩

/-- What the conditions of a group offend against, the children among them. -/
def ConditionsOffend (found : Option Json) (o : Offence) : Prop :=
  (o.place = [] ∧ o.part = .children ∧ ConditionsFault found o.fault) ∨
    ChildrenOffend 0 ((found.bind Json.items?).getD []) o

theorem conditionsOffend_of_notArray {found : Option Json}
    (h : ∀ items, found ≠ some (.arr items)) (o : Offence) :
    ConditionsOffend found o ↔ o = ⟨[], .children, .groupWithoutConditions⟩ := by
  have hitems : found.bind Json.items? = none := by
    refine Option.eq_none_iff_forall_ne_some.2 fun items hsome => ?_
    obtain ⟨j, rfl, hj⟩ := Option.bind_eq_some_iff.1 hsome
    cases j with
    | arr items => exact h items rfl
    | _ => cases hj
  obtain ⟨place, part, fault⟩ := o
  simp only [ConditionsOffend, hitems, Option.getD_none, not_childrenOffend_nil, or_false]
  constructor
  · rintro ⟨rfl, rfl, hfault⟩
    cases hfault with
    | notArray => rfl
    | empty => exact absurd rfl (h [])
  · rintro ⟨⟩
    exact ⟨rfl, rfl, .notArray h⟩

theorem conditionsOffend_nil (o : Offence) :
    ConditionsOffend (some (.arr [])) o ↔ o = ⟨[], .children, .groupEmpty⟩ := by
  have hitems : (((some (Json.arr [])).bind Json.items?).getD []) = [] := rfl
  obtain ⟨place, part, fault⟩ := o
  simp only [ConditionsOffend, hitems, not_childrenOffend_nil, or_false]
  constructor
  · rintro ⟨rfl, rfl, hfault⟩
    cases hfault with
    | notArray h => exact absurd rfl (h [])
    | empty => rfl
  · rintro ⟨⟩
    exact ⟨rfl, rfl, .empty⟩

theorem conditionsOffend_of_ne_nil {items : List Json} (hne : items ≠ []) (o : Offence) :
    ConditionsOffend (some (.arr items)) o ↔ ChildrenOffend 0 items o := by
  refine or_iff_right ?_
  rintro ⟨-, -, hfault⟩
  generalize o.fault = fault at hfault
  cases hfault with
  | notArray h => exact h items rfl
  | empty => exact hne rfl

/-- The offences of a group are those of its operator and those of its conditions. -/
theorem groupOffends_iff {members : Members Json} {o : Offence} :
    (o.place = [] ∧ GroupFault (.obj members) o.part o.fault) ∨
        ChildrenOffend 0 (childrenOf (.obj members)) o ↔
      (o.place = [] ∧ o.part = .op ∧ GroupFault (.obj members) .op o.fault) ∨
        ConditionsOffend (members.get? "conditions") o := by
  rw [ConditionsOffend, ← or_assoc]
  refine or_congr_left ?_
  obtain ⟨place, part, fault⟩ := o
  constructor
  · rintro ⟨rfl, hfault⟩
    cases hfault with
    | notObject h => cases h
    | connective h => exact .inl ⟨rfl, rfl, .connective h⟩
    | conditions h => exact .inr ⟨rfl, rfl, h⟩
  · rintro (⟨rfl, rfl, hfault⟩ | ⟨rfl, rfl, hfault⟩)
    · exact ⟨rfl, hfault⟩
    · exact ⟨rfl, .conditions hfault⟩

/-- A group whose conditions are reported on is reported on as a whole. -/
theorem Reports.group {α : Type} {place : List Nat} {members : Members Json}
    (h : Reports place (ConditionsOffend (members.get? "conditions"))
      (checkMembers (prefixAt place) members)) (build : Connective → List Filter → α) :
    Reports place (fun o => (o.place = [] ∧ GroupFault (.obj members) o.part o.fault) ∨
        ChildrenOffend 0 (childrenOf (.obj members)) o) (do
      let op ← checkConnective (prefixAt place) members
      let children ← checkMembers (prefixAt place) members
      return build op children) := by
  refine Reports.congr (.bind (checkConnective_reports place members)
    (fun op _ => h.bind_pure (build op)) ?_) fun o => groupOffends_iff.symm
  rintro o o' ⟨hplace, hpart, -⟩ (⟨hplace', hpart', -⟩ | ⟨k, child, o'', -, -, rfl⟩)
  · refine .inr ⟨hplace.trans hplace'.symm, ?_⟩
    rw [hpart, hpart']
    decide
  · refine .inl ?_
    rw [hplace]
    exact List.nil_lt_cons _ _

theorem checkLeaf_of_no_path {place : String} {members : Members Json}
    (h : ∀ path, path ≠ "" → members.get? "attribute" ≠ some (.str path)) :
    checkLeaf place members = .error (.invalid (place ++ ".attribute") .leafWithoutAttribute) := by
  unfold checkLeaf
  split
  · rfl
  · rfl
  · next path hne hpath =>
    obtain ⟨j, hj, hs⟩ := Option.bind_eq_some_iff.1 hpath
    rw [Json.string?_eq_some] at hs
    exact absurd (hs ▸ hj) (h path fun he => hne he)

theorem checkLeaf_of_no_op {place path : String} {members : Members Json} (hne : path ≠ "")
    (hpath : members.get? "attribute" = some (.str path))
    (h : ∀ op : Comparator, members.get? "op" ≠ some (.str op.name)) :
    checkLeaf place members =
      .error (.invalid (place ++ ".op") (.comparator ((members.get? "op").getD .null).text)) := by
  cases hcheck : checkLeaf place members with
  | ok c => exact absurd (checkLeaf_eq_ok.1 hcheck).op (h c.op)
  | error e =>
    unfold checkLeaf at hcheck
    rw [hpath, Option.bind_some, Json.string?] at hcheck
    split at hcheck
    · next hnone => cases hnone
    · next hempty => exact absurd (Option.some.inj hempty) hne
    · split at hcheck <;> cases hcheck
      rfl

/-- A leaf is checked for its attribute first. -/
theorem checkLeaf_reports (place : List Nat) (i : Nat) (members : Members Json) :
    Reports (place ++ [i]) (fun o => o.place = [] ∧ LeafFault (.obj members) o.part o.fault)
      (checkLeaf (prefixAt place ++ Offence.segment i) members) := by
  have hmember (name : String) : prefixAt (place ++ [i]) ++ name =
      prefixAt place ++ Offence.segment i ++ ("." ++ name) := by
    rw [prefixAt_append]
    simp only [String.append_assoc]
  have hpathField : prefixAt (place ++ [i]) ++ "attribute" =
      prefixAt place ++ Offence.segment i ++ ".attribute" := hmember "attribute"
  have hopField : prefixAt (place ++ [i]) ++ "op" = prefixAt place ++ Offence.segment i ++ ".op" :=
    hmember "op"
  by_cases hpath : ∃ path, path ≠ "" ∧ members.get? "attribute" = some (.str path)
  · obtain ⟨path, hne, hpath⟩ := hpath
    by_cases hop : ∃ op : Comparator, members.get? "op" = some (.str op.name)
    · obtain ⟨op, hop⟩ := hop
      have hleaf : WritesLeaf members ⟨path, op, (members.get? "value").getD .null⟩ :=
        ⟨hpath, hne, hop, rfl⟩
      rw [checkLeaf_eq_ok.2 hleaf]
      rintro ⟨place', part, fault⟩ ⟨-, hfault⟩
      cases hfault with
      | notObject h => cases h
      | path h => exact h path hne hpath
      | op h => exact h op hop
    · simp only [not_exists] at hop
      rw [checkLeaf_of_no_op hne hpath hop, ← hopField]
      refine .member .op rfl (.of_only ?_)
      rintro ⟨place', part, fault⟩
      constructor
      · rintro ⟨rfl, hfault⟩
        cases hfault with
        | notObject h => cases h
        | path h => exact absurd hpath (h path hne)
        | op => rfl
      · rintro ⟨⟩
        exact ⟨rfl, .op hop⟩
  · simp only [not_exists, not_and] at hpath
    rw [checkLeaf_of_no_path hpath, ← hpathField]
    refine .member .path rfl ⟨⟨rfl, .path hpath⟩, ?_⟩
    rintro ⟨place', part, fault⟩ ⟨rfl, hfault⟩
    cases hfault with
    | notObject h => cases h
    | path => exact .inl rfl
    | op => exact .inr (.inr ⟨rfl, Nat.lt_succ_self _⟩)

theorem childOffends_of_not_object {j : Json} (h : j.isObject = false) (o : Offence) :
    ChildOffends j o ↔ o = ⟨[], .node, .leafNotObject⟩ := by
  have hnone : j.get? "conditions" = none := by
    cases j with
    | obj => cases h
    | _ => rfl
  have hfault : ChildFault j = LeafFault j := if_neg (by simp [hnone])
  have hchildren : childrenOf j = [] := by simp [childrenOf, hnone]
  obtain ⟨place, part, fault⟩ := o
  simp only [childOffends_iff, hfault, hchildren, not_childrenOffend_nil, or_false]
  constructor
  · rintro ⟨rfl, hfault⟩
    cases hfault with
    | notObject => rfl
    | _ => cases h
  · rintro ⟨⟩
    exact ⟨rfl, .notObject h⟩

theorem offends_of_not_object {j : Json} (h : j.isObject = false) (o : Offence) :
    Offends j o ↔ o = ⟨[], .children, .groupNotObject⟩ := by
  have hchildren : childrenOf j = [] := by
    cases j with
    | obj => cases h
    | _ => rfl
  obtain ⟨place, part, fault⟩ := o
  simp only [offends_iff, hchildren, not_childrenOffend_nil, or_false]
  constructor
  · rintro ⟨rfl, hfault⟩
    cases hfault with
    | notObject => rfl
    | _ => cases h
  · rintro ⟨⟩
    exact ⟨rfl, .notObject h⟩

/-- A child that is no object is reported under its bare place. -/
theorem checkChild_reports_not_object {α : Type} (place : List Nat) (i : Nat) {j : Json}
    (h : j.isObject = false) :
    Reports (place ++ [i]) (ChildOffends j) (.error
      (.invalid (prefixAt place ++ Offence.segment i) .leafNotObject) : Except Error α) := by
  have hwithin : (Offence.mk [] .node .leafNotObject).within (place ++ [i]) =
      ⟨place ++ [i], .node, .leafNotObject⟩ := by
    simp [Offence.within]
  rw [← field_of_node place i .leafNotObject, ← hwithin]
  exact .error (.of_only (childOffends_of_not_object h))

mutual
theorem checkMembers_reports (place : List Nat) (members : List (String × Json)) :
    Reports place (ConditionsOffend (Members.get? members "conditions"))
      (checkMembers (prefixAt place) members) := by
  match members with
  | [] => exact .member .children rfl (.of_only (conditionsOffend_of_notArray (by simp)))
  | (key, value) :: members =>
    rw [checkMembers, Members.get?_cons]
    split
    · exact checkConditions_reports place value
    · exact checkMembers_reports place members

theorem checkConditions_reports (place : List Nat) (value : Json) :
    Reports place (ConditionsOffend (some value)) (checkConditions (prefixAt place) value) := by
  match value with
  | .arr items =>
    rw [checkConditions]
    split
    · next hitems =>
      rw [List.isEmpty_iff.1 hitems]
      exact .member .children rfl (.of_only conditionsOffend_nil)
    · next hitems =>
      rw [List.isEmpty_iff] at hitems
      exact (checkChildren_reports place 0 items).congr fun o =>
        (conditionsOffend_of_ne_nil hitems o).symm
  | .null | .bool _ | .int _ | .float _ _ | .str _ | .obj _ =>
    exact .member .children rfl (.of_only (conditionsOffend_of_notArray (by simp)))

theorem checkChildren_reports (place : List Nat) (i : Nat) (items : List Json) :
    Reports place (ChildrenOffend i items) (checkChildren (prefixAt place) i items) := by
  match items with
  | [] => exact .ok [] fun o => not_childrenOffend_nil
  | j :: js =>
    have hsegment : prefixAt place ++ "conditions[" ++ toString i ++ "]" =
        prefixAt place ++ Offence.segment i := by
      simp [Offence.segment, String.append_assoc]
    rw [checkChildren, hsegment]
    refine Reports.congr ?_ fun o => childrenOffend_cons.symm
    refine .bind (checkChild_reports place i j).within (fun child _ => ?_) ?_
    · exact (checkChildren_reports place (i + 1) js).bind_pure (child :: ·)
    · rintro _ _ ⟨o, -, rfl⟩ ⟨k, child, o', -, -, rfl⟩
      refine .inl (List.cons_lt_cons_iff.2 (.inl ?_))
      omega

theorem checkChild_reports (place : List Nat) (i : Nat) (j : Json) :
    Reports (place ++ [i]) (ChildOffends j)
      (checkChild (prefixAt place ++ Offence.segment i) j) := by
  match j with
  | .obj members =>
    rw [checkChild]
    split
    · next hgroup =>
      have hfault : ChildFault (.obj members) = GroupFault (.obj members) := if_pos hgroup
      rw [← prefixAt_append]
      refine Reports.congr (.group (checkMembers_reports (place ++ [i]) members) Filter.group)
        fun o => ?_
      rw [childOffends_iff, hfault]
    · next hleaf =>
      have hfault : ChildFault (.obj members) = LeafFault (.obj members) := if_neg hleaf
      have hnone : childrenOf (.obj members) = [] := by
        have hget : Members.get? members "conditions" = none := by
          simpa [Members.has] using hleaf
        simp [childrenOf, Json.get?, hget]
      have hreports := (checkLeaf_reports place i members).bind_pure Filter.condition
      refine hreports.congr fun o => ?_
      simp [childOffends_iff, hfault, hnone, not_childrenOffend_nil]
  | .null | .bool _ | .int _ | .float _ _ | .str _ | .arr _ =>
    exact checkChild_reports_not_object place i rfl
end

theorem check_reports (v : Json) : Reports [] (Offends v) (check v) := by
  cases v with
  | obj members =>
    exact Reports.congr (.group (checkMembers_reports [] members) FilterGroup.mk)
      fun o => offends_iff.symm
  | _ =>
    exact Reports.member .children rfl (.of_only (offends_of_not_object rfl))

/-- A value is accepted as the filter that it writes. Any other value has a first offence, and that
is reported under its path. -/
theorem check_accepts_or_reports (v : Json) :
    (∀ g, check v = .ok g ↔ Writes v g.toFilter) ∧
      ∀ e, check v = .error e ↔ ∃ o, IsFirst (Offends v) o ∧ e = .invalid o.field o.fault := by
  have hreports := check_reports v
  refine ⟨fun g => check_eq_ok, fun e => ⟨fun h => ?_, ?_⟩⟩
  · rw [h] at hreports
    exact hreports
  · rintro ⟨o, hfirst, rfl⟩
    cases hcheck : check v with
    | ok g =>
      rw [hcheck] at hreports
      exact absurd hfirst.1 (hreports o)
    | error e =>
      rw [hcheck] at hreports
      obtain ⟨o', hfirst', rfl⟩ := hreports
      rw [hfirst.unique hfirst']
      rfl

/-- A child that is no object comes before the operator of a later child. -/
example : check (groupJson (.str "or") [
    groupJson (.str "and") [conditionJson (.str "name") (.str "is") .null, .null],
    conditionJson (.str "name") (.str "like") .null]) =
      .error (.invalid "conditions[0].conditions[1]" .leafNotObject) := by
  rfl

end ModelActions.Filter
