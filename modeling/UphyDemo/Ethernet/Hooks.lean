import UphyDemo.Foundation.Transition

namespace UphyDemo.Ethernet.Hooks
open Transition

abbrev Pbuf := Nat

abbrev Err := Int

def errOk : Err := 0

def errIf : Err := -12

structure Returned where
  err : Err
  frees : Nat
deriving DecidableEq, Repr

-- what each `netif_input_fn` does: it frees the pbuf exactly when it returns ERR_OK
structure Behaviour (N H : Type) where
  call : H → Pbuf → N → Returned
  frees_iff : ∀ hook pbuf netif, (call hook pbuf netif).frees =
    if (call hook pbuf netif).err = errOk then 1 else 0

structure Dispatch (H : Type) where
  called : Option H
  returned : Returned

variable {N H : Type} (B : Behaviour N H)

def lwipHookUnknownEthProtocol (hook : Option H) (pbuf : Pbuf) (netif : N) : Dispatch H :=
  match hook with
  | none => ⟨none,⟨errIf,0⟩⟩
  | some fn => ⟨some fn,B.call fn pbuf netif⟩

-- the caller frees the pbuf unless it was accepted
def ethernetInputFrees (d : Dispatch H) : Nat :=
  d.returned.frees + if d.returned.err = errOk then 0 else 1

inductive Event (N H : Type) where
  | setHook (netif : N) (hook : Option H)
  | frame (pbuf : Pbuf) (netif : N)

def step (hook : Option H) : Event N H → Option (Option H)
  | .setHook _ hook' => some hook'
  | .frame _ _ => some hook

def system (N H : Type) : Machine (Option H) (Event N H) where
  start := none
  step := step

def setFor [DecidableEq N] (netif : N) : Event N H → Option (Option H)
  | .setHook netif' hook => if netif' = netif then some hook else none
  | .frame _ _ => none

def setAny : Event N H → Option (Option H)
  | .setHook _ hook => some hook
  | .frame _ _ => none

def mostRecent (view : Event N H → Option (Option H)) (es : List (Event N H)) : Option H :=
  (es.filterMap view).getLast?.join

structure Passed (own : Option H) (pbuf : Pbuf) (netif : N) (d : Dispatch H) : Prop where
  called : d.called = own
  result : ∀ hook, own = some hook → d.returned = B.call hook pbuf netif
  untouched : own = none → d.returned = ⟨errIf,0⟩
  freed : ethernetInputFrees d = 1

section Dispatched

variable {B}

theorem dispatch_called (hook : Option H) (pbuf : Pbuf) (netif : N) :
    (lwipHookUnknownEthProtocol B hook pbuf netif).called = hook := by
  cases hook <;> rfl

theorem dispatch_freed (hook : Option H) (pbuf : Pbuf) (netif : N) :
    ethernetInputFrees (lwipHookUnknownEthProtocol B hook pbuf netif) = 1 := by
  cases hook with
  | none => rfl
  | some fn =>
    simp only [ethernetInputFrees, lwipHookUnknownEthProtocol, B.frees_iff]
    split <;> simp [*]

theorem passed_iff {own hook : Option H} {pbuf : Pbuf} {netif : N} :
    Passed B own pbuf netif (lwipHookUnknownEthProtocol B hook pbuf netif) ↔ hook = own := by
  constructor
  · intro h
    exact (dispatch_called hook pbuf netif).symm.trans h.called
  · rintro rfl
    refine ⟨dispatch_called _ _ _,?_,?_,dispatch_freed _ _ _⟩
    · rintro fn rfl
      rfl
    · rintro rfl
      rfl

theorem dispatch_injective {hook hook' : Option H} {pbuf : Pbuf} {netif : N}
    (h : lwipHookUnknownEthProtocol B hook pbuf netif =
      lwipHookUnknownEthProtocol B hook' pbuf netif) : hook = hook' := by
  have hcalled := congrArg Dispatch.called h
  rwa [dispatch_called, dispatch_called] at hcalled

end Dispatched

section Kept

variable [DecidableEq N]

def Kept (pre : List (Event N H)) (hook : Option H) : Event N H → Prop
  | .setHook netif hook' => ∀ netif', netif' ≠ netif → ∀ pbuf,
      lwipHookUnknownEthProtocol B hook' pbuf netif' = lwipHookUnknownEthProtocol B hook pbuf netif'
  | .frame pbuf netif =>
      Passed B (mostRecent (setFor netif) pre) pbuf netif
        (lwipHookUnknownEthProtocol B hook pbuf netif)

-- on two interfaces or more: no hook but NULL is ever set (`meets_unmixed_iff`)
def Unmixed (pre : List (Event N H)) (_ : Option H) : Event N H → Prop
  | .setHook netif hook => mostRecent setAny pre = hook ∨ ∀ netif', netif' = netif
  | .frame _ netif => mostRecent setAny pre = mostRecent (setFor netif) pre

variable {B}

theorem kept_iff {pre : List (Event N H)} {e : Event N H} :
    Kept B pre (mostRecent setAny pre) e ↔ Unmixed pre (mostRecent setAny pre) e := by
  cases e with
  | frame pbuf netif => exact passed_iff
  | setHook netif hook =>
    constructor
    · intro h
      by_cases hsingle : ∀ netif', netif' = netif
      · exact .inr hsingle
      · obtain ⟨netif',hne⟩ := not_forall.mp hsingle
        exact .inl (dispatch_injective (h netif' hne 0)).symm
    · rintro (h | h) netif' hne pbuf
      · rw [h]
      · exact absurd (h netif') hne

end Kept

theorem mostRecent_concat (view : Event N H → Option (Option H)) (es : List (Event N H))
    (e : Event N H) :
    mostRecent view (es ++ [e]) = (view e).getD (mostRecent view es) := by
  unfold mostRecent
  rw [List.filterMap_append]
  cases h : view e with
  | none => simp [h]
  | some hook => simp [h]

theorem mostRecent_step {pre : List (Event N H)} {e : Event N H} {hook : Option H}
    (h : step (mostRecent setAny pre) e = some hook) :
    hook = mostRecent setAny (pre ++ [e]) := by
  rw [mostRecent_concat]
  cases e <;> exact (Option.some.inj h).symm

theorem hooks_kept_iff {N H : Type} [DecidableEq N] (B : Behaviour N H) (es : List (Event N H)) :
    (system N H).Meets (Kept B) es ↔ (system N H).Meets Unmixed es := by
  refine Machine.meets_congr (I := fun pre hook => hook = mostRecent setAny pre) rfl ?_ ?_ es
  · rintro pre _ e hook rfl h
    exact mostRecent_step h
  · rintro pre _ e rfl
    exact kept_iff

theorem mostRecent_unset {view : Event N H → Option (Option H)} {es : List (Event N H)}
    (h : ∀ e ∈ es, view e = none ∨ view e = some none) : mostRecent view es = none := by
  have hnone : ∀ hook ∈ es.filterMap view, hook = none := by
    intro hook hhook
    obtain ⟨e,he,hview⟩ := List.mem_filterMap.mp hhook
    rcases h e he with hquiet | hnull
    · rw [hquiet] at hview
      cases hview
    · exact (Option.some.inj (hnull.symm.trans hview)).symm
  cases hlast : (es.filterMap view).getLast? with
  | none => simp [mostRecent, hlast]
  | some hook =>
    obtain rfl := hnone hook (List.mem_of_getLast? hlast)
    simp [mostRecent, hlast]

def NullOnly : Event N H → Prop
  | .setHook _ hook => hook = none
  | .frame _ _ => True

theorem mostRecent_null [DecidableEq N] {es : List (Event N H)} (h : ∀ e ∈ es, NullOnly e) :
    mostRecent setAny es = none ∧ ∀ netif, mostRecent (setFor netif) es = none := by
  refine ⟨mostRecent_unset ?_,fun netif => mostRecent_unset ?_⟩
  · intro e he
    cases e with
    | frame pbuf netif => exact .inl rfl
    | setHook netif hook => exact .inr (congrArg some (h _ he))
  · intro e he
    cases e with
    | frame pbuf netif => exact .inl rfl
    | setHook netif' hook =>
      obtain rfl : hook = none := h _ he
      by_cases hsame : netif' = netif <;> simp [setFor, hsame]

theorem meets_unmixed_iff {N H : Type} [DecidableEq N] {netif netif' : N} (hne : netif ≠ netif')
    (es : List (Event N H)) : (system N H).Meets Unmixed es ↔ ∀ e ∈ es, NullOnly e := by
  have hseveral (netif'' : N) : ¬ ∀ other, other = netif'' := fun h =>
    hne ((h netif).trans (h netif').symm)
  have hfrom (pre : List (Event N H)) (hook : Option H) (hpre : ∀ e ∈ pre, NullOnly e) :
      (system N H).MeetsFrom Unmixed pre hook es ↔ ∀ e ∈ es, NullOnly e := by
    induction es generalizing pre hook with
    | nil => simp [Machine.MeetsFrom]
    | cons e es ih =>
      obtain ⟨hany,hfor⟩ := mostRecent_null hpre
      have hone : Unmixed pre hook e ↔ NullOnly e := by
        cases e with
        | frame pbuf netif => simp [Unmixed, NullOnly, hany, hfor]
        | setHook netif hook' =>
          rw [Unmixed, or_iff_left (hseveral netif), hany]
          exact eq_comm
      rw [Machine.MeetsFrom, List.forall_mem_cons, hone]
      refine and_congr_right fun he => ?_
      have hpre' : ∀ e' ∈ pre ++ [e], NullOnly e' := by
        intro e' he'
        rcases List.mem_append.mp he' with hold | hlast
        · exact hpre e' hold
        · obtain rfl := List.mem_singleton.mp hlast
          exact he
      have hstep : ∃ next, (system N H).step hook e = some next := by
        cases e <;> exact ⟨_,rfl⟩
      obtain ⟨next,hnext⟩ := hstep
      constructor
      · intro h
        exact (ih _ next hpre').mp (h next hnext)
      · intro h t _
        exact (ih _ t hpre').mpr h
  exact hfrom [] none (fun _ => List.not_mem_nil.elim)

def accepting : Behaviour Nat Nat where
  call := fun _ _ _ => ⟨errOk,1⟩
  frees_iff := fun _ _ _ => rfl

theorem hooks_mixed :
    ¬ ∀ (B : Behaviour Nat Nat) (es : List (Event Nat Nat)), (system Nat Nat).Meets (Kept B) es := by
  intro h
  have hframe := ((h accepting [.setHook 0 (some 7),.frame 0 1]).2 (some 7) rfl).1
  cases hframe.called

end UphyDemo.Ethernet.Hooks
