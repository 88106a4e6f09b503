import UphyDemo.Led.Task
import Mathlib.Tactic.IntervalCases

namespace UphyDemo.Led
open Flags Transition

def modeLevel (running : Bool) : Bool := if running then ledOn else ledOff

def toggled : Nat → Bool → Bool
  | 0, level => level
  | i + 1, level => !toggled i level

theorem toggled_six (level : Bool) : toggled 6 level = level := by cases level <;> rfl

def LedTask.flashing (s : LedTask) : Prop :=
  s.pc = .flashOn ∨ s.pc = .flashDelay ∨ s.pc = .flashOff

def Settled (s : LedTask) : Prop :=
  match s.pc with
  | .wait | .profinet | .enter | .exit | .idle => s.userLed3 = modeLevel s.running
  | .burst i => i ≤ 6 ∧ s.userLed3 = toggled i (modeLevel s.running)
  | .burstDelay i => i < 6 ∧ s.userLed3 = toggled (i + 1) (modeLevel s.running)
  | .enterWrite => s.running = true
  | .exitWrite => s.running = false
  | .flashOn | .flashDelay | .flashOff => s.running = false

theorem settled_boot : Settled LedTask.boot := rfl

theorem settled_step {s t : LedTask} {a : Act} (hs : Settled s) (h : step s a = some t) :
    Settled t := by
  cases fires_of_step h with
  | setBits => exact hs
  | waitBits hpc | waitTimeout hpc | burstSkip hpc | enterSkip hpc | exitSkip hpc | idleSkip hpc =>
    simpa [Settled, hpc] using hs
  | burstBegin hpc => simpa [Settled, hpc, toggled] using hs
  | toggle i hpc hi =>
    simp only [Settled, hpc] at hs
    simp [Settled, LedTask.writeLed3, hi, hs.2, toggled]
  | burstEnd i hpc hi =>
    simp only [Settled, hpc] at hs
    obtain rfl : i = 6 := by omega
    simpa [Settled, toggled_six] using hs.2
  | burstDelay i hpc =>
    simp only [Settled, hpc] at hs
    exact ⟨by omega,hs.2⟩
  | enterSet hpc => rfl
  | enterWrite hpc =>
    simp only [Settled, hpc] at hs
    simp [Settled, LedTask.writeLed3, modeLevel, hs]
  | exitSet hpc => rfl
  | exitWrite hpc =>
    simp only [Settled, hpc] at hs
    simp [Settled, LedTask.writeLed3, modeLevel, hs]
  | idleFlash hpc hev hrun => exact hrun
  | flashOn hpc | flashDelay hpc => simpa [Settled, LedTask.writeLed3, hpc] using hs
  | flashOff hpc =>
    simp only [Settled, hpc] at hs
    simp [Settled, LedTask.writeLed3, modeLevel, hs]

theorem settled_run {as : List Act} {s : LedTask} (h : machine.run as = some s) : Settled s :=
  Machine.run_invariant settled_boot (fun _ _ _ => settled_step) h

theorem level_at_wait {as : List Act} {s : LedTask} (h : machine.run as = some s)
    (hpc : s.pc = .wait) : s.userLed3 = modeLevel s.running := by
  have hs := settled_run h
  simpa only [Settled, hpc] using hs

def burstLevels : List Bool := [ledOff, ledOn, ledOff, ledOn, ledOff, ledOn]

def burstOf (events : EventBits) : List Bool :=
  if has events ledEvtProfinetSignal then burstLevels else []

def levelChange (s : LedTask) (_ : Act) (t : LedTask) : List Bool :=
  if t.userLed3 = s.userLed3 then [] else [t.userLed3]

def waitReturn (s : LedTask) (_ : Act) (t : LedTask) : List EventBits :=
  if s.pc = .wait ∧ t.pc ≠ .wait then [t.events] else []

def burstBegun (s : LedTask) (a : Act) (t : LedTask) : List Bool :=
  (waitReturn s a t).flatMap burstOf

def owed (s : LedTask) : List Bool :=
  match s.pc with
  | .profinet => burstOf s.events
  | .burst i => burstLevels.drop i
  | .burstDelay i => burstLevels.drop (i + 1)
  | _ => []

structure Steady (s : LedTask) : Prop where
  settled : Settled s
  running : s.running = true
  lit : s.pc = .enterWrite → s.userLed3 = ledOn

theorem steady_step {s t : LedTask} {a : Act} (hs : Steady s) (h : step s a = some t)
    (ht : t.running = true) : Steady t := by
  refine ⟨settled_step hs.settled h,ht,?_⟩
  cases fires_of_step h with
  | setBits => exact hs.lit
  | enterSet hpc =>
    have hlevel := hs.settled
    simp only [Settled, hpc, hs.running, modeLevel] at hlevel
    intro _
    simpa using hlevel
  | burstBegin hpc | toggle i hpc | burstDelay i hpc => simp [LedTask.writeLed3]
  | _ => simp [LedTask.writeLed3]

theorem toggled_burst {i : Nat} (hi : i < 6) :
    burstLevels.drop i = (!toggled i ledOn) :: burstLevels.drop (i + 1) := by
  interval_cases i <;> rfl

theorem steady_balance {s t : LedTask} {a : Act} (hs : Steady s) (ht : Steady t)
    (h : step s a = some t) :
    levelChange s a t ++ owed t = owed s ++ burstBegun s a t := by
  have hlevel := hs.settled
  have hrun := hs.running
  cases fires_of_step h with
  | setBits => simp [levelChange, burstBegun, waitReturn, owed]
  | waitBits hpc | waitTimeout hpc =>
    simp [levelChange, burstBegun, waitReturn, owed, hpc]
  | toggle i hpc hi =>
    simp only [Settled, hpc, hrun, modeLevel, if_true] at hlevel
    simp [levelChange, burstBegun, waitReturn, owed, LedTask.writeLed3, hpc, hlevel.2,
      toggled_burst hi]
  | burstEnd i hpc hi =>
    simp only [Settled, hpc] at hlevel
    obtain rfl : i = 6 := by omega
    simp [levelChange, burstBegun, waitReturn, owed, hpc, burstLevels]
  | enterWrite hpc =>
    simp [levelChange, burstBegun, waitReturn, owed, LedTask.writeLed3, hpc, hs.lit hpc]
  | exitWrite hpc | flashOn hpc | flashOff hpc =>
    simp [Settled, hpc, hrun] at hlevel
  | burstBegin hpc hbit | burstSkip hpc hbit =>
    simp [levelChange, burstBegun, waitReturn, owed, burstOf, hpc, hbit]
  | burstDelay i hpc | enterSet hpc | enterSkip hpc | exitSet hpc | exitSkip hpc
  | idleFlash hpc | idleSkip hpc | flashDelay hpc =>
    simp [levelChange, burstBegun, waitReturn, owed, hpc]

theorem running_balance {as : List Act} {s t : LedTask} (hs : Settled s) (hpc : s.pc = .wait)
    (hrun : machine.AlwaysFrom (fun u : LedTask => u.running = true) s as)
    (h : machine.exec s as = some t) :
    machine.outputs levelChange s as ++ owed t = machine.outputs burstBegun s as := by
  have hnow : s.running = true := Machine.alwaysFrom_start (P := fun u : LedTask => u.running = true) hrun
  have hsteady : Steady s := ⟨hs,hnow,by simp [hpc]⟩
  have hall := Machine.alwaysFrom_strengthen (fun _ _ _ => steady_step) hsteady hrun
  have hbalance := Machine.outputs_balance (fun _ _ _ => steady_balance) hall h
  have howed : owed s = [] := by simp [owed, hpc]
  simpa [howed] using hbalance

theorem outputs_flatMap_waitReturn (s : LedTask) (as : List Act) :
    machine.outputs burstBegun s as = (machine.outputs waitReturn s as).flatMap burstOf := by
  induction as generalizing s with
  | nil => rfl
  | cons a as ih =>
    cases hstep : machine.step s a with
    | none => simp [Machine.outputs, hstep]
    | some t => simp [Machine.outputs_cons hstep, burstBegun, ih]

theorem mode_led_matches_mode {as : List Act} {s : LedTask} (h : machine.run as = some s) :
    (s.pc = .wait → (s.userLed3 = ledOn ↔ s.running = true)) ∧
    (s.flashing → s.running = false) ∧
    (s.pc = .wait → ∀ bs t, machine.exec s bs = some t → t.pc = .wait →
      machine.AlwaysFrom (fun u : LedTask => u.running = true) s bs →
      machine.outputs levelChange s bs = (machine.outputs waitReturn s bs).flatMap burstOf ∧
      t.userLed3 = s.userLed3) := by
  have hs := settled_run h
  refine ⟨?_,?_,?_⟩
  · intro hpc
    have hlevel := level_at_wait h hpc
    cases hrun : s.running <;> simp [hlevel, hrun, modeLevel, ledOn, ledOff]
  · intro hflash
    rcases hflash with hpc | hpc | hpc <;> simpa only [Settled, hpc] using hs
  · intro hpc bs t ht htpc hrun
    have hbalance := running_balance hs hpc hrun ht
    have howed : owed t = [] := by simp [owed, htpc]
    have hsrun : s.running = true := Machine.alwaysFrom_start (P := fun u : LedTask => u.running = true) hrun
    have htrun : t.running = true := (Machine.alwaysFrom_iff.mp hrun) bs List.prefix_rfl t ht
    have hreach : machine.run (as ++ bs) = some t := Machine.exec_append_of h ht
    refine ⟨?_,?_⟩
    · rw [← outputs_flatMap_waitReturn]
      simpa [howed] using hbalance
    · rw [level_at_wait h hpc, level_at_wait hreach htpc, hsrun, htrun]

def enterRun : List Act := .setBits ledEvtEnterRunningMode :: List.replicate 6 .task

theorem mode_led_matches_mode_entered :
    machine.run enterRun = some .entered ∧
      (LedTask.entered.userLed3 = ledOn ↔ LedTask.entered.running = true) :=
  ⟨by decide,(mode_led_matches_mode (by decide : machine.run enterRun = some .entered)).1 rfl⟩

example : machine.outputs levelChange .entered
    (.setBits ledEvtProfinetSignal :: List.replicate 18 .task) = burstLevels := by decide

end UphyDemo.Led
