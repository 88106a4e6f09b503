import UphyDemo.Foundation.Simulation
import UphyDemo.Led.Controller

namespace UphyDemo.Led
open Flags Transition

def configTickRateHz : Nat := 1000
def portTickPeriodMs : Nat := 1000 / configTickRateHz
def ledProfinetFlashDelay : Nat := 500 / portTickPeriodMs
def ledActivityFlashDelay : Nat := 20 / portTickPeriodMs
def ledWaitTicks : Nat := 2000

@[simp] theorem ledProfinetFlashDelay_eq : ledProfinetFlashDelay = 500 := rfl

@[simp] theorem ledActivityFlashDelay_eq : ledActivityFlashDelay = 20 := rfl

@[simp] theorem ledWaitTicks_eq : ledWaitTicks = 2000 := rfl

def Pc.delay : Pc → Nat
  | .burstDelay _ => ledProfinetFlashDelay
  | .flashDelay => ledActivityFlashDelay
  | _ => 0

-- `slept` counts the ticks since the task last moved
structure Timed where
  task : LedTask
  now : Nat
  slept : Nat
deriving DecidableEq, Repr

inductive TimedAct where
  | setBits (bits : EventBits)
  | task
  | timeout
  | tick
deriving DecidableEq, Repr

namespace Timed

def boot : Timed where
  task := .boot
  now := 0
  slept := 0

def step (s : Timed) : TimedAct → Option Timed
  | .setBits bits => (Led.step s.task (.setBits bits)).map fun task => { s with task := task }
  | .task =>
      if s.task.pc.delay ≤ s.slept then
        (Led.step s.task .task).map fun task => { s with task := task, slept := 0 }
      else none
  | .timeout =>
      if ledWaitTicks ≤ s.slept then
        (Led.step s.task .timeout).map fun task => { s with task := task, slept := 0 }
      else none
  | .tick => some { s with now := s.now + 1, slept := s.slept + 1 }

def Blocked (s : Timed) : Prop := s.step .task = none ∧ s.step .timeout = none

-- time passes only while the task is blocked: nothing keeps it from running when it is ready
def Prompt (s : Timed) (a : TimedAct) : Prop := a = .tick → s.Blocked

instance (s : Timed) : Decidable s.Blocked := by
  unfold Blocked
  infer_instance

instance (s : Timed) (a : TimedAct) : Decidable (Prompt s a) := by
  unfold Prompt
  infer_instance

end Timed

def TimedAct.act : TimedAct → Option Act
  | .setBits bits => some (.setBits bits)
  | .task => some .task
  | .timeout => some .timeout
  | .tick => none

def timed : Machine Timed TimedAct where
  start := .boot
  step := Timed.step

section Steps

variable {s t : Timed} {a : TimedAct}

theorem timed_step_cases (h : s.step a = some t) :
    (a = .tick ∧ t = { s with now := s.now + 1, slept := s.slept + 1 }) ∨
    (∃ bits task, a = .setBits bits ∧ Fires s.task (.setBits bits) task ∧
      t = { s with task := task }) ∨
    (∃ task, a = .task ∧ s.task.pc.delay ≤ s.slept ∧ Fires s.task .task task ∧
      t = { s with task := task, slept := 0 }) ∨
    (∃ task, a = .timeout ∧ ledWaitTicks ≤ s.slept ∧ Fires s.task .timeout task ∧
      t = { s with task := task, slept := 0 }) := by
  cases a with
  | tick => exact .inl ⟨rfl,(Option.some.inj h).symm⟩
  | setBits bits =>
    simp only [Timed.step, Option.map_eq_some_iff] at h
    obtain ⟨task,htask,rfl⟩ := h
    exact .inr (.inl ⟨bits,task,rfl,fires_of_step htask,rfl⟩)
  | task =>
    simp only [Timed.step] at h
    split at h
    · rename_i hdelay
      simp only [Option.map_eq_some_iff] at h
      obtain ⟨task,htask,rfl⟩ := h
      exact .inr (.inr (.inl ⟨task,rfl,hdelay,fires_of_step htask,rfl⟩))
    · cases h
  | timeout =>
    simp only [Timed.step] at h
    split at h
    · rename_i hwait
      simp only [Option.map_eq_some_iff] at h
      obtain ⟨task,htask,rfl⟩ := h
      exact .inr (.inr (.inr ⟨task,rfl,hwait,fires_of_step htask,rfl⟩))
    · cases h

end Steps

theorem ledTask_blocked {s : LedTask} (h : s.ledTask = none) :
    s.pc = .wait ∧ has s.ledEvents ledEvtMask = false := by
  unfold LedTask.ledTask at h
  split at h
  case h_1 hpc =>
    split at h
    · cases h
    · rename_i hset
      exact ⟨hpc,Bool.eq_false_iff.mpr hset⟩
  case h_3 | h_5 | h_7 => split at h <;> cases h
  all_goals cases h

theorem blocked_cases {s : Timed} (h : s.Blocked) :
    (s.task.pc = .wait ∧ has s.task.ledEvents ledEvtMask = false ∧ s.slept < ledWaitTicks) ∨
    (∃ i, s.task.pc = .burstDelay i ∧ s.slept < ledProfinetFlashDelay) ∨
    (s.task.pc = .flashDelay ∧ s.slept < ledActivityFlashDelay) := by
  obtain ⟨htask,htimeout⟩ := h
  simp only [Timed.step, Led.step, ite_eq_right_iff, Option.map_eq_none_iff] at htask htimeout
  by_cases hdelay : s.task.pc.delay ≤ s.slept
  · obtain ⟨hpc,hidle⟩ := ledTask_blocked (htask hdelay)
    refine .inl ⟨hpc,hidle,?_⟩
    by_contra hlong
    have hnone := htimeout (by omega)
    simp [LedTask.waitTimeout, hpc] at hnone
  · cases hpc : s.task.pc with
    | burstDelay i => exact .inr (.inl ⟨i,rfl,by simpa [hpc, Pc.delay] using hdelay⟩)
    | flashDelay => exact .inr (.inr ⟨rfl,by simpa [hpc, Pc.delay] using hdelay⟩)
    | _ => simp [hpc, Pc.delay] at hdelay

theorem timed_follows : timed.Follows machine Timed.task TimedAct.act where
  start := rfl
  silent := by
    intro s a t ha h
    rcases timed_step_cases h with ⟨rfl,rfl⟩ | ⟨_,_,rfl,_⟩ | ⟨_,rfl,_⟩ | ⟨_,rfl,_⟩
    · rfl
    · cases ha
    · cases ha
    · cases ha
  seen := by
    intro s a t k ha h
    cases a with
    | tick => cases ha
    | setBits bits =>
      obtain rfl := Option.some.inj ha
      simp only [timed, Timed.step, Option.map_eq_some_iff] at h
      obtain ⟨task,htask,rfl⟩ := h
      exact htask
    | task =>
      obtain rfl := Option.some.inj ha
      simp only [timed, Timed.step, Option.ite_none_right_eq_some, Option.map_eq_some_iff] at h
      obtain ⟨_,task,htask,rfl⟩ := h
      exact htask
    | timeout =>
      obtain rfl := Option.some.inj ha
      simp only [timed, Timed.step, Option.ite_none_right_eq_some, Option.map_eq_some_iff] at h
      obtain ⟨_,task,htask,rfl⟩ := h
      exact htask

theorem orderly_task {s : LedTask} {as : List Act} (h : machine.run as = some s) : Orderly s :=
  Machine.run_invariant orderly_boot (fun _ _ _ => orderly_step) h

theorem orderly_timed {s t : Timed} {a : TimedAct} (hs : Orderly s.task)
    (h : timed.step s a = some t) : Orderly t.task := by
  cases ha : a.act with
  | none => rwa [timed_follows.silent s a t ha h]
  | some k => exact orderly_step hs (timed_follows.seen s a t k ha h)

section Spacing

def toggleTimes (s : Timed) (a : TimedAct) (_ : Timed) : List Nat :=
  match a, s.task.pc with
  | .task, .burst i => if i < 6 then [s.now] else []
  | _, _ => []

def flashTimes (s : Timed) (a : TimedAct) (_ : Timed) : List Nat :=
  match a, s.task.pc with
  | .task, .flashOn => [s.now]
  | _, _ => []

def toggleDebt (s : Timed) : Nat :=
  match s.task.pc with
  | .burstDelay _ => ledProfinetFlashDelay - s.slept
  | _ => 0

-- a flash needs a wait that timed out, so an event on the way costs a whole new wait
def roundDebt (events : EventBits) : Nat := if events = 0 then 0 else ledWaitTicks

def flashDebt (s : Timed) : Nat :=
  match s.task.pc with
  | .wait => ledWaitTicks - s.slept
  | .profinet | .enter | .exit | .idle => roundDebt s.task.events
  | .burst _ | .burstDelay _ | .enterWrite | .exitWrite | .flashOff => ledWaitTicks
  | .flashOn => 0
  | .flashDelay => ledActivityFlashDelay - s.slept + ledWaitTicks

theorem roundDebt_busy {events m : EventBits} (h : has events m = true) :
    roundDebt events = ledWaitTicks := if_neg (events_ne_zero h)

theorem roundDebt_le (events : EventBits) : roundDebt events ≤ ledWaitTicks := by
  unfold roundDebt
  split <;> omega

theorem toggle_spacing {s t : Timed} {a : TimedAct} (h : timed.step s a = some t) :
    (toggleTimes s a t = [] ∧ s.now + toggleDebt s ≤ t.now + toggleDebt t) ∨
    (toggleTimes s a t = [s.now] ∧ toggleDebt s = 0 ∧
      s.now + ledProfinetFlashDelay ≤ t.now + toggleDebt t) := by
  rcases timed_step_cases h with ⟨rfl,rfl⟩ | ⟨bits,task,rfl,hfires,rfl⟩ |
    ⟨task,rfl,hdelay,hfires,rfl⟩ | ⟨task,rfl,hwait,hfires,rfl⟩
  · refine .inl ⟨by simp [toggleTimes],?_⟩
    simp only [toggleDebt]
    split <;> omega
  · cases hfires
    exact .inl ⟨by simp [toggleTimes],Nat.le_refl _⟩
  · cases hfires with
    | toggle i hpc hi =>
      refine .inr ⟨by simp [toggleTimes, hpc, hi],by simp [toggleDebt, hpc],?_⟩
      simp [toggleDebt, LedTask.writeLed3]
    | burstDelay i hpc =>
      refine .inl ⟨by simp [toggleTimes, hpc],?_⟩
      simp only [Pc.delay, hpc] at hdelay
      simp only [toggleDebt, hpc]
      omega
    | burstEnd i hpc hi => exact .inl ⟨by simp [toggleTimes, hpc, hi],by simp [toggleDebt, hpc]⟩
    | _ hpc => exact .inl ⟨by simp [toggleTimes, hpc],by simp [toggleDebt, hpc]⟩
  · cases hfires with
    | waitTimeout hpc => exact .inl ⟨by simp [toggleTimes],by simp [toggleDebt, hpc]⟩

theorem flash_spacing {s t : Timed} {a : TimedAct} (hs : Orderly s.task)
    (h : timed.step s a = some t) :
    (flashTimes s a t = [] ∧ s.now + flashDebt s ≤ t.now + flashDebt t) ∨
    (flashTimes s a t = [s.now] ∧ flashDebt s = 0 ∧
      s.now + (ledActivityFlashDelay + ledWaitTicks) ≤ t.now + flashDebt t) := by
  have hcaused := hs.caused
  rcases timed_step_cases h with ⟨rfl,rfl⟩ | ⟨bits,task,rfl,hfires,rfl⟩ |
    ⟨task,rfl,hdelay,hfires,rfl⟩ | ⟨task,rfl,hwait,hfires,rfl⟩
  · refine .inl ⟨by simp [flashTimes],?_⟩
    simp only [flashDebt]
    split <;> omega
  · cases hfires
    exact .inl ⟨by simp [flashTimes],Nat.le_refl _⟩
  · cases hfires with
    | flashOn hpc =>
      refine .inr ⟨by simp [flashTimes, hpc],by simp [flashDebt, hpc],?_⟩
      simp [flashDebt, LedTask.writeLed3]
    | waitBits hpc hset =>
      refine .inl ⟨by simp [flashTimes, hpc],?_⟩
      have hevents : has (s.task.ledEvents &&& ledEvtMask) ledEvtMask = true := by
        rw [masked_has (by decide)]
        exact hset
      simp only [flashDebt, hpc, roundDebt_busy hevents]
      omega
    | burstEnd i hpc hi =>
      refine .inl ⟨by simp [flashTimes, hpc],?_⟩
      simp only [Caused, hpc] at hcaused
      simp [flashDebt, hpc, roundDebt_busy hcaused]
    | exitWrite hpc =>
      refine .inl ⟨by simp [flashTimes, hpc],?_⟩
      simp only [Caused, hpc] at hcaused
      simp [flashDebt, LedTask.writeLed3, hpc, roundDebt_busy hcaused]
    | enterWrite hpc =>
      refine .inl ⟨by simp [flashTimes, hpc],?_⟩
      simp only [Caused, hpc] at hcaused
      simp [flashDebt, LedTask.writeLed3, hpc, roundDebt_busy hcaused]
    | flashDelay hpc =>
      refine .inl ⟨by simp [flashTimes, hpc],?_⟩
      simp only [Pc.delay, hpc] at hdelay
      simp only [flashDebt, hpc]
      omega
    | idleFlash hpc hev hrun =>
      exact .inl ⟨by simp [flashTimes, hpc],by simp [flashDebt, roundDebt, hpc, hev]⟩
    | burstBegin hpc hbit =>
      refine .inl ⟨by simp [flashTimes, hpc],?_⟩
      simp [flashDebt, hpc, roundDebt_busy hbit]
    | enterSet hpc hbit | exitSet hpc hbit =>
      refine .inl ⟨by simp [flashTimes, hpc],?_⟩
      simp [flashDebt, hpc, roundDebt_busy hbit]
    | idleSkip hpc hbusy =>
      refine .inl ⟨by simp [flashTimes, hpc],?_⟩
      have hle := roundDebt_le s.task.events
      simp only [flashDebt, hpc]
      omega
    | burstSkip hpc | enterSkip hpc | exitSkip hpc | toggle i hpc | burstDelay i hpc
    | flashOff hpc =>
      exact .inl ⟨by simp [flashTimes, hpc],by simp [flashDebt, LedTask.writeLed3, hpc]⟩
  · cases hfires with
    | waitTimeout hpc =>
      refine .inl ⟨by simp [flashTimes],?_⟩
      simp only [flashDebt, hpc]
      omega

theorem led_rates {as : List TimedAct} {s : Timed} (h : timed.run as = some s) :
    (timed.outputs toggleTimes .boot as).IsChain (fun x y => x + ledProfinetFlashDelay ≤ y) ∧
    (timed.outputs flashTimes .boot as).IsChain
      (fun x y => x + (ledActivityFlashDelay + ledWaitTicks) ≤ y) := by
  constructor
  · exact (Machine.outputs_spaced (I := fun _ => True) (fun _ _ _ _ _ => trivial)
      (fun _ _ _ _ => toggle_spacing) trivial h).2
  · exact (Machine.outputs_spaced (I := fun s : Timed => Orderly s.task)
      (fun _ _ _ => orderly_timed) (fun _ _ _ => flash_spacing) orderly_boot h).2

def twoToggles : List TimedAct :=
  .setBits ledEvtProfinetSignal :: List.replicate 3 .task ++
    (List.replicate ledProfinetFlashDelay .tick ++ List.replicate 2 .task)

theorem led_rates_two_toggles :
    (timed.outputs toggleTimes .boot twoToggles).IsChain
      fun x y => x + ledProfinetFlashDelay ≤ y := by
  have hrun : (timed.run twoToggles).isSome = true := by decide +kernel
  obtain ⟨s,hs⟩ := Option.isSome_iff_exists.mp hrun
  exact (led_rates hs).1

end Spacing

end UphyDemo.Led
