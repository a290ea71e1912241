import ModelActions.Proofs.CanonicalOperations
import ModelActions.Proofs.PagedInputs
import ModelActions.Proofs.Recordings

/-!
# Sizes of pages

A page has as many rows as the input asks for, and the check of the input keeps that number between
one and the limit of the settings. The number for an input that asks for none is a setting of its
own, which no check compares with the limit.
-/
namespace ModelActions
variable {σ : Type}

/-- The number of rows of a page that an input asks for. -/
def Json.perPage? (input : Json) : Option Nat :=
  ((input.get? "pagination").bind (·.get? "per_page")).bind Json.count?

/-- The number of rows of the page that an operation asks for. -/
def Operation.pageSize? : Operation → Option Nat
  | .select op => op.pagination.map (·.perPage)
  | _ => none

/-- The numbers of rows of the pages that a host was asked for. -/
def Recording.pageSizes (recording : Recording) : List Nat :=
  recording.filterMap (·.1.pageSize?)

/-- A page may have the number of rows that was asked for, within the limit, or the number of the
settings if none was. -/
def Settings.Admits (settings : Settings) (asked : Option Nat) (perPage : Nat) : Prop :=
  (asked = some perPage ∧ 1 ≤ perPage ∧ perPage ≤ settings.maxPerPage) ∨
    (asked = none ∧ perPage = settings.defaultPerPage)

namespace Input
variable {settings : Settings} {members : Members Json}

theorem bounds_of_checkCount {pagination : Members Json} {key : String} {most n : Nat}
    (h : checkCount pagination key (some most) = .ok ())
    (hn : (pagination.get? key).bind Json.count? = some n) : 1 ≤ n ∧ n ≤ most := by
  unfold checkCount at h
  split at h
  · next hget =>
    rw [hget] at hn
    cases hn
  · next hget =>
    rw [hget] at hn
    cases hn
  · next value _ hget =>
    have hcount : value.count? = some n := by simpa [hget] using hn
    rw [hcount] at h
    cases n with
    | zero => cases h
    | succ n =>
      have hmost : ¬most < n + 1 := fun hlt => by simp [hlt] at h
      omega

/-- An accepted input asks for a number of rows within the limit, if for any. -/
theorem bounds_of_checkPagination (h : checkPagination settings members = .ok ()) {n : Nat}
    (hn : (Json.obj members).perPage? = some n) : 1 ≤ n ∧ n ≤ settings.maxPerPage := by
  unfold checkPagination at h
  unfold Json.perPage? at hn
  rw [Json.get?_obj] at hn
  split at h
  · next hget =>
    rw [hget] at hn
    cases hn
  · next hget =>
    rw [hget] at hn
    cases hn
  · next pagination hget =>
    rw [hget] at hn
    obtain ⟨_, -, h⟩ := bind_eq_ok.1 h
    exact bounds_of_checkCount h hn
  · cases h

end Input

theorem Members.eq_bind_of_optional_count {r : Members Json} {key : String} {o : Option Nat}
    (h : r.optional key Json.count? = some o) : o = (r.get? key).bind Json.count? := by
  unfold optional at h
  cases hget : r.get? key with
  | none =>
    rw [hget] at h
    exact (Option.some.inj h).symm
  | some j =>
    rw [hget] at h
    cases hnull : j.isNull with
    | true =>
      cases j with
      | null => exact (Option.some.inj h).symm
      | _ => cases hnull
    | false =>
      have hcount : j.orNull Json.count? = j.count?.map some := by
        cases j with
        | null => cases hnull
        | _ => rfl
      obtain ⟨n, hn, rfl⟩ := Option.map_eq_some_iff.1 (hcount.symm.trans h)
      exact hn.symm

theorem PageRequest.perPage_of_ofJson? {members : Members Json} {p : PageRequest}
    (h : ofJson? (.obj members) = some p) :
    p.perPage = (members.get? "per_page").bind Json.count? := by
  have hrecord : (Json.obj members).record? fields = some members := rfl
  simp only [ofJson?, hrecord, Option.bind_eq_bind, Option.bind_eq_some_iff, Option.some.injEq,
    exists_eq_left'] at h
  obtain ⟨page, -, perPage, hperPage, cursor, -, h⟩ := h
  cases h
  exact Members.eq_bind_of_optional_count hperPage

/-- A request asks for as many rows as the accepted input that it was read from. -/
theorem Request.perPage_of_ofJson {settings : Settings} {members : Members Json}
    {request : Request} (accepted : Input.checkPagination settings members = .ok ())
    (h : ofJson (.obj members) = .ok request) :
    request.pagination.bind (·.perPage) = (Json.obj members).perPage? := by
  obtain ⟨-, -, -, hpagination, -⟩ := ofJson_obj_eq_ok.1 h
  unfold Members.optional at hpagination
  unfold Json.perPage?
  rw [Json.get?_obj]
  unfold Input.checkPagination at accepted
  split at accepted
  · next hget =>
    rw [hget] at hpagination ⊢
    rw [← Option.some.inj hpagination]
    rfl
  · next hget =>
    rw [hget] at hpagination ⊢
    rw [← Option.some.inj hpagination]
    rfl
  · next pagination hget =>
    rw [hget] at hpagination ⊢
    obtain ⟨p, hp, hsome⟩ := Option.map_eq_some_iff.1 hpagination
    rw [← hsome]
    exact PageRequest.perPage_of_ofJson? hp
  · cases accepted

/-- What is left open of an accepted page is filled in so that the page is admitted. -/
theorem Settings.admits_complete {settings : Settings} {members : Members Json}
    (accepted : Input.checkPagination settings members = .ok ()) {asked : PageRequest}
    (h : asked.perPage = (Json.obj members).perPage?) :
    settings.Admits (Json.obj members).perPage?
      (asked.complete settings.defaultPerPage).perPage := by
  unfold Admits PageRequest.complete
  rw [h]
  cases hperPage : (Json.obj members).perPage? with
  | none => exact .inr ⟨rfl, rfl⟩
  | some n => exact .inl ⟨rfl, Input.bounds_of_checkPagination accepted hperPage⟩

theorem Task.select_admits {ctx : Context σ} {members : Members Json}
    (accepted : Input.checkPagination ctx.settings members = .ok ()) (paged : Bool) :
    Act.Sends ctx.host
      (fun op => ∀ n ∈ op.pageSize?, ctx.settings.Admits (Json.obj members).perPage? n)
      (select paged ctx (.obj members)) fun _ => True := by
  refine .bind (.ofExcept _) fun request hrequest => ?_
  have hasked := Request.perPage_of_ofJson accepted hrequest
  have hselect (pagination : Option PageRequest)
      (hpagination : ∀ asked ∈ pagination, asked.perPage = (Json.obj members).perPage?) :
      Act.Sends ctx.host
        (fun op => ∀ n ∈ op.pageSize?, ctx.settings.Admits (Json.obj members).perPage? n)
        (Query.select ctx.toEngine ctx.model.name { request with pagination }) fun _ => True := by
    refine Query.select_sends_of ctx.toEngine (fun _ _ _ _ h => nomatch h)
      (fun _ _ _ _ _ _ h => nomatch h) fun _ _ _ hpage _ n hn => ?_
    obtain ⟨p, hp, rfl⟩ := Option.map_eq_some_iff.1 hn
    obtain ⟨asked, hmem, rfl⟩ := Option.map_eq_some_iff.1 (hpage.symm.trans hp)
    exact Settings.admits_complete accepted (hpagination asked hmem)
  refine .bind (hselect _ fun asked hmem => ?_) fun _ _ => .pure trivial
  -- a page that is not the request's own leaves everything open, as does then the input
  rw [← hasked]
  cases hpagination : request.pagination with
  | some own =>
    rw [hpagination] at hmem
    cases paged <;> cases hmem <;> rfl
  | none =>
    rw [hpagination] at hmem
    cases paged <;> cases hmem
    rfl

/-- Reading a list sends selects only whose pages are admitted. -/
theorem Runner.run_admits (r : Runner σ) (htasks : r.tasks = Tasks.builtin) (model : String)
    (input : Json) :
    Act.Sends r.host (fun op => ∀ n ∈ op.pageSize?, r.settings.Admits input.perPage? n)
      (r.run model "readList" input) fun _ => True := by
  refine .bind (.ofExcept _) fun m _ => .bind (.ofExcept _) fun checked hchecked => ?_
  refine .bind (.ofExcept _) fun g hg => ?_
  cases hg
  cases input with
  | obj members =>
    obtain ⟨hpagination, -⟩ := Input.check_readList_eq_ok.1 hchecked
    obtain ⟨kept, rfl, -, hkept⟩ := Input.members_of_check_readList hchecked
    have hget : kept.get? "pagination" = Members.get? members "pagination" :=
      hkept "pagination" (by decide) (by decide)
    have hasked : (Json.obj kept).perPage? = (Json.obj members).perPage? := by
      rw [Json.perPage?, Json.get?_obj, hget, ← Json.get?_obj, ← Json.perPage?]
    have accepted : Input.checkPagination r.settings kept = .ok () := by
      unfold Input.checkPagination at hpagination ⊢
      rwa [hget]
    rw [drive_eq, htasks, Nat.add_comm, ← hasked]
    refine .bind (.ofExcept _) fun m' _ => ?_
    let ctx := r.context m' "readList"
    exact Walk.readList_sends ctx _ (r.patience + 2) _
      { input := .obj kept, context := ctx.document } (Task.select_admits accepted)
  | _ => cases hchecked

/-- Whatever an operator answers while a list is read, the pages that it is asked for have as many
rows as the input says, which is at most the limit, or as many as the settings say where the input
says nothing. -/
theorem Engine.admits_of_mem_pageSizes (e : Engine σ) (patience : Nat) (model : String)
    (input : Json) (s : σ) :
    ∀ n ∈ (e.recording patience (.action model "readList" input) s).pageSizes,
      e.settings.Admits input.perPage? n := by
  intro n hn
  obtain ⟨entry, hentry, hsize⟩ := List.mem_filterMap.1 hn
  exact ((e.recorded.runner patience).run_admits rfl model input).recorded s entry hentry n hsize

namespace Blog

/-- The posts in pages of seven. -/
def pagedInput : Json := .obj [("pagination", .obj [("per_page", .int 7)])]

theorem admits_pageSizes_posts :
    (hauntedEngine.recording 0 (.action "post" "readList" pagedInput) ()).pageSizes = [7] ∧
      ∀ n ∈ (hauntedEngine.recording 0 (.action "post" "readList" pagedInput) ()).pageSizes,
        hauntedEngine.settings.Admits (some 7) n := by
  refine ⟨by decide +kernel, ?_⟩
  exact hauntedEngine.admits_of_mem_pageSizes 0 "post" pagedInput ()

/-- The posts in pages whose size is left to the settings. -/
def openInput : Json := .obj [("pagination", .obj [])]

/-- The number that stands in for one that is left out may be above the limit. -/
theorem page_above_limit :
    let e : Engine Unit := { registry, settings := { defaultPerPage := 1000 }, host := haunted }
    Registry.ofSpecs specs = .ok e.registry ∧
      ∃ n ∈ (e.recording 0 (.action "post" "readList" openInput) ()).pageSizes,
        e.settings.maxPerPage < n := by
  intro e
  have hsizes : (e.recording 0 (.action "post" "readList" openInput) ()).pageSizes = [1000] := by
    decide +kernel
  refine ⟨loaded, 1000, ?_, by decide⟩
  rw [hsizes]
  exact List.mem_singleton_self 1000

end Blog
end ModelActions
