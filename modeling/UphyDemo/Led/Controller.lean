import UphyDemo.Foundation.Simulation
import UphyDemo.Led.Signal

namespace UphyDemo.Led
open Flags Transition

-- what `led_task` is for: one reaction to each set of events a wait returns
namespace Controller

def mode (running : Bool) (events : EventBits) : Bool :=
  if has events ledEvtExitRunningMode then false
  else if has events ledEvtEnterRunningMode then true else running

def flash (running : Bool) (events : EventBits) : List Bool :=
  if events = 0 ∧ running = false then [ledOn,ledOff] else []

def leave (running : Bool) (events : EventBits) : List Bool :=
  if has events ledEvtExitRunningMode then [ledOff] else flash running events

def change (running : Bool) (events : EventBits) : List Bool :=
  if has events ledEvtEnterRunningMode then ledOn :: leave true events else leave running events

def burst (running : Bool) (events : EventBits) : List Bool :=
  if has events ledEvtProfinetSignal then toggles (modeLevel running) 6 else []

def writes (running : Bool) (events : EventBits) (_ : Bool) : List Bool :=
  burst running events ++ change running events

def machine : Machine Bool EventBits where
  start := false
  step := fun running events => some (mode running events)

end Controller

def ledWrites (s : LedTask) (a : Act) (t : LedTask) : List Bool :=
  match a, s.pc with
  | .task, .burst i => if i < 6 then [t.userLed3] else []
  | .task, .enterWrite | .task, .exitWrite | .task, .flashOn | .task, .flashOff => [t.userLed3]
  | _, _ => []

def writesOwed (s : LedTask) : List Bool :=
  match s.pc with
  | .wait => []
  | .profinet => Controller.burst s.running s.events ++ Controller.change s.running s.events
  | .burst i => (toggles (modeLevel s.running) 6).drop i ++ Controller.change s.running s.events
  | .burstDelay i =>
      (toggles (modeLevel s.running) 6).drop (i + 1) ++ Controller.change s.running s.events
  | .enter => Controller.change s.running s.events
  | .enterWrite => ledOn :: Controller.leave s.running s.events
  | .exit => Controller.leave s.running s.events
  | .exitWrite => [ledOff]
  | .idle => Controller.flash s.running s.events
  | .flashOn => [ledOn,ledOff]
  | .flashDelay | .flashOff => [ledOff]

def Caused (s : LedTask) : Prop :=
  match s.pc with
  | .burst _ | .burstDelay _ => has s.events ledEvtProfinetSignal = true
  | .enterWrite => has s.events ledEvtEnterRunningMode = true
  | .exitWrite => has s.events ledEvtExitRunningMode = true
  | _ => True

theorem caused_step {s t : LedTask} {a : Act} (hs : Caused s) (h : step s a = some t) :
    Caused t := by
  cases fires_of_step h with
  | setBits => exact hs
  | burstBegin hpc hbit => exact hbit
  | toggle i hpc | burstDelay i hpc =>
    simp only [Caused, hpc] at hs
    simpa [Caused, LedTask.writeLed3] using hs
  | enterSet hpc hbit => exact hbit
  | exitSet hpc hbit => exact hbit
  | idleFlash | idleSkip | waitBits | waitTimeout | burstSkip | burstEnd | enterSkip | enterWrite
  | exitSkip | exitWrite | flashOn | flashDelay | flashOff => trivial

structure Orderly (s : LedTask) : Prop where
  settled : Settled s
  caused : Caused s

theorem orderly_boot : Orderly LedTask.boot := ⟨settled_boot,trivial⟩

theorem orderly_step {s t : LedTask} {a : Act} (hs : Orderly s) (h : step s a = some t) :
    Orderly t := ⟨settled_step hs.settled h,caused_step hs.caused h⟩

theorem waitReturn_blocked {s t : LedTask} (a : Act) (h : s.pc ≠ .wait) : waitReturn s a t = [] := by
  simp [waitReturn, h]

theorem waitReturn_setBits (s : LedTask) (a : Act) (bits : EventBits) :
    waitReturn s a { s with ledEvents := bits } = [] := by
  simp [waitReturn]

theorem settledMode_step {s t : LedTask} {a : Act} (h : step s a = some t) :
    Controller.machine.exec (settledMode s) (waitReturn s a t) = some (settledMode t) := by
  cases fires_of_step h with
  | setBits =>
    rw [waitReturn_setBits]
    rfl
  | waitBits hpc | waitTimeout hpc =>
    simp [waitReturn, hpc, Machine.exec, Controller.machine, Controller.mode, settledMode]
  | enterSet hpc hbit | enterSkip hpc hbit | exitSet hpc hbit | exitSkip hpc hbit =>
    rw [waitReturn_blocked _ (by simp [hpc])]
    simp [settledMode, hpc, hbit]
  | toggle i hpc | enterWrite hpc | exitWrite hpc | flashOn hpc | flashOff hpc =>
    rw [waitReturn_blocked _ (by simp [hpc])]
    simp only [settledMode, hpc]
    rfl
  | burstBegin hpc | burstSkip hpc | burstEnd i hpc | burstDelay i hpc | idleFlash hpc
  | idleSkip hpc | flashDelay hpc =>
    rw [waitReturn_blocked _ (by simp [hpc])]
    simp [settledMode, hpc]

theorem toggles_drop (level : Bool) {i : Nat} (hi : i < 6) :
    (toggles level 6).drop i = toggled (i + 1) level :: (toggles level 6).drop (i + 1) := by
  interval_cases i <;> rfl

theorem events_ne_zero {events m : EventBits} (h : has events m = true) : ¬ events = 0 := by
  rintro rfl
  simp at h

theorem flash_busy {running : Bool} {events m : EventBits} (h : has events m = true) :
    Controller.flash running events = [] :=
  if_neg fun hidle => events_ne_zero h hidle.1

theorem silent_writes {s t : LedTask} {a : Act} (hpc : s.pc ≠ .wait)
    (h : ledWrites s a t ++ writesOwed t = writesOwed s) :
    ledWrites s a t ++ writesOwed t = writesOwed s ++
      Controller.machine.outputs Controller.writes (settledMode s) (waitReturn s a t) := by
  rw [waitReturn_blocked _ hpc, Machine.outputs_nil, List.append_nil, h]

theorem writes_step {s t : LedTask} {a : Act} (hs : Orderly s) (h : step s a = some t) :
    ledWrites s a t ++ writesOwed t = writesOwed s ++
      Controller.machine.outputs Controller.writes (settledMode s) (waitReturn s a t) := by
  have hlevel := hs.settled
  cases fires_of_step h with
  | setBits =>
    rw [waitReturn_setBits]
    simp [ledWrites, writesOwed]
  | waitBits hpc | waitTimeout hpc =>
    simp [ledWrites, writesOwed, waitReturn, hpc, Machine.outputs, Controller.machine,
      Controller.writes, settledMode]
  | burstBegin hpc hbit =>
    refine silent_writes (by simp [hpc]) ?_
    simp [ledWrites, writesOwed, hpc, Controller.burst, hbit]
  | burstSkip hpc hbit =>
    refine silent_writes (by simp [hpc]) ?_
    simp [ledWrites, writesOwed, hpc, Controller.burst, hbit]
  | toggle i hpc hi =>
    refine silent_writes (by simp [hpc]) ?_
    simp only [Settled, hpc] at hlevel
    simp [ledWrites, writesOwed, LedTask.writeLed3, hpc, hi, toggles_drop _ hi, hlevel.2, toggled]
  | burstEnd i hpc hi =>
    refine silent_writes (by simp [hpc]) ?_
    simp only [Settled, hpc] at hlevel
    obtain rfl : i = 6 := by omega
    simp [ledWrites, writesOwed, hpc, toggles]
  | burstDelay i hpc =>
    refine silent_writes (by simp [hpc]) ?_
    simp [ledWrites, writesOwed, hpc]
  | enterSet hpc hbit | enterSkip hpc hbit =>
    refine silent_writes (by simp [hpc]) ?_
    simp [ledWrites, writesOwed, hpc, Controller.change, hbit]
  | enterWrite hpc | flashOn hpc | flashOff hpc =>
    refine silent_writes (by simp [hpc]) ?_
    simp [ledWrites, writesOwed, LedTask.writeLed3, hpc]
  | exitSet hpc hbit | exitSkip hpc hbit =>
    refine silent_writes (by simp [hpc]) ?_
    simp [ledWrites, writesOwed, hpc, Controller.leave, hbit]
  | exitWrite hpc =>
    refine silent_writes (by simp [hpc]) ?_
    have hbit := hs.caused
    simp only [Caused, hpc] at hbit
    simp [ledWrites, writesOwed, LedTask.writeLed3, hpc, flash_busy hbit]
  | idleFlash hpc hev hrun =>
    refine silent_writes (by simp [hpc]) ?_
    simp [ledWrites, writesOwed, hpc, Controller.flash, hev, hrun]
  | idleSkip hpc hbusy =>
    refine silent_writes (by simp [hpc]) ?_
    have hflash : Controller.flash s.running s.events = [] := if_neg hbusy
    simp [ledWrites, writesOwed, hpc, hflash]
  | flashDelay hpc =>
    refine silent_writes (by simp [hpc]) ?_
    simp [ledWrites, writesOwed, hpc]

theorem realises_controller : machine.Realises Controller.machine Orderly settledMode waitReturn
    ledWrites Controller.writes writesOwed where
  start := rfl
  inv_start := orderly_boot
  owed_start := rfl
  keeps := fun _ _ _ => orderly_step
  reacts := fun _ _ _ _ => settledMode_step
  gives := fun _ _ _ => writes_step

theorem led_task_realises_controller {as : List Act} {s : LedTask}
    (h : machine.run as = some s) :
    (∃ owed, machine.outputs ledWrites machine.start as ++ owed =
      Controller.machine.outputs Controller.writes Controller.machine.start
        (machine.outputs waitReturn machine.start as)) ∧
    (s.pc = .wait →
      Controller.machine.run (machine.outputs waitReturn machine.start as) = some s.running ∧
      machine.outputs ledWrites machine.start as =
        Controller.machine.outputs Controller.writes Controller.machine.start
          (machine.outputs waitReturn machine.start as)) := by
  obtain ⟨hmode,hwrites⟩ := realises_controller.run h
  refine ⟨⟨_,hwrites⟩,?_⟩
  intro hpc
  have howed : writesOwed s = [] := by simp [writesOwed, hpc]
  have hrunning : settledMode s = s.running := by simp [settledMode, hpc]
  rw [hrunning] at hmode
  rw [howed, List.append_nil] at hwrites
  exact ⟨hmode,hwrites⟩

theorem led_task_realises_controller_entered :
    machine.outputs ledWrites machine.start enterRun = [ledOn] :=
  ((led_task_realises_controller (by decide : machine.run enterRun = some .entered)).2 rfl).2

end UphyDemo.Led
