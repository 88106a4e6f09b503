import UphyDemo.Foundation.Flags
import UphyDemo.Foundation.Transition

namespace UphyDemo.Led
open Flags

abbrev EventBits := BitVec 32

def ledEvtProfinetSignal : EventBits := 1 <<< 0
def ledEvtEnterRunningMode : EventBits := 1 <<< 1
def ledEvtExitRunningMode : EventBits := 1 <<< 2
def ledEvtMask : EventBits :=
  ledEvtProfinetSignal ||| ledEvtEnterRunningMode ||| ledEvtExitRunningMode

def ledOn : Bool := false
def ledOff : Bool := true

def xEventGroupSetBits (group bits : EventBits) : EventBits := group ||| bits

def xEventGroupWaitBits (group mask : EventBits) : EventBits × EventBits :=
  (group &&& mask, group &&& ~~~mask)

inductive Pc where
  | wait
  | profinet
  | burst (i : Nat)
  | burstDelay (i : Nat)
  | enter
  | enterWrite
  | exit
  | exitWrite
  | idle
  | flashOn
  | flashDelay
  | flashOff
deriving DecidableEq, Repr

structure LedTask where
  ledEvents : EventBits
  userLed3 : Bool
  events : EventBits
  running : Bool
  pc : Pc
deriving DecidableEq, Repr

namespace LedTask

def boot : LedTask where
  ledEvents := 0
  userLed3 := ledOff
  events := 0
  running := false
  pc := .wait

def entered : LedTask where
  ledEvents := 0
  userLed3 := ledOn
  events := ledEvtEnterRunningMode
  running := true
  pc := .wait

def writeLed3 (s : LedTask) (level : Bool) (pc : Pc) : LedTask :=
  { s with userLed3 := level, pc := pc }

def ledTask (s : LedTask) : Option LedTask :=
  match s.pc with
  | .wait =>
      -- no masked bit set: the task stays blocked in the call
      if has s.ledEvents ledEvtMask then
        let (events, group) := xEventGroupWaitBits s.ledEvents ledEvtMask
        some { s with ledEvents := group, events := events, pc := .profinet }
      else none
  | .profinet =>
      some { s with pc := if has s.events ledEvtProfinetSignal then .burst 0 else .enter }
  | .burst i =>
      if i < 6 then some (s.writeLed3 (!s.userLed3) (.burstDelay i))
      else some { s with pc := .enter }
  | .burstDelay i => some { s with pc := .burst (i + 1) }
  | .enter =>
      if has s.events ledEvtEnterRunningMode then
        some { s with running := true, pc := .enterWrite }
      else some { s with pc := .exit }
  | .enterWrite => some (s.writeLed3 ledOn .exit)
  | .exit =>
      if has s.events ledEvtExitRunningMode then
        some { s with running := false, pc := .exitWrite }
      else some { s with pc := .idle }
  | .exitWrite => some (s.writeLed3 ledOff .idle)
  | .idle => some { s with pc := if s.events == 0 && !s.running then .flashOn else .wait }
  | .flashOn => some (s.writeLed3 ledOn .flashDelay)
  | .flashDelay => some { s with pc := .flashOff }
  | .flashOff => some (s.writeLed3 ledOff .wait)

def waitTimeout (s : LedTask) : Option LedTask :=
  if s.pc = .wait then some { s with events := 0, pc := .profinet } else none

end LedTask

inductive Act where
  | setBits (bits : EventBits)
  | task
  | timeout
deriving DecidableEq, Repr

def step (s : LedTask) : Act → Option LedTask
  | .setBits bits => some { s with ledEvents := xEventGroupSetBits s.ledEvents bits }
  | .task => s.ledTask
  | .timeout => s.waitTimeout

inductive Fires : LedTask → Act → LedTask → Prop
  | setBits (s : LedTask) (bits : EventBits) :
      Fires s (.setBits bits) { s with ledEvents := s.ledEvents ||| bits }
  | waitBits (s : LedTask) (hpc : s.pc = .wait) (hset : has s.ledEvents ledEvtMask = true) :
      Fires s .task { s with
        ledEvents := s.ledEvents &&& ~~~ledEvtMask
        events := s.ledEvents &&& ledEvtMask
        pc := .profinet }
  | waitTimeout (s : LedTask) (hpc : s.pc = .wait) :
      Fires s .timeout { s with events := 0, pc := .profinet }
  | burstBegin (s : LedTask) (hpc : s.pc = .profinet)
      (hbit : has s.events ledEvtProfinetSignal = true) :
      Fires s .task { s with pc := .burst 0 }
  | burstSkip (s : LedTask) (hpc : s.pc = .profinet)
      (hbit : has s.events ledEvtProfinetSignal = false) :
      Fires s .task { s with pc := .enter }
  | toggle (s : LedTask) (i : Nat) (hpc : s.pc = .burst i) (hi : i < 6) :
      Fires s .task (s.writeLed3 (!s.userLed3) (.burstDelay i))
  | burstEnd (s : LedTask) (i : Nat) (hpc : s.pc = .burst i) (hi : ¬ i < 6) :
      Fires s .task { s with pc := .enter }
  | burstDelay (s : LedTask) (i : Nat) (hpc : s.pc = .burstDelay i) :
      Fires s .task { s with pc := .burst (i + 1) }
  | enterSet (s : LedTask) (hpc : s.pc = .enter)
      (hbit : has s.events ledEvtEnterRunningMode = true) :
      Fires s .task { s with running := true, pc := .enterWrite }
  | enterSkip (s : LedTask) (hpc : s.pc = .enter)
      (hbit : has s.events ledEvtEnterRunningMode = false) :
      Fires s .task { s with pc := .exit }
  | enterWrite (s : LedTask) (hpc : s.pc = .enterWrite) :
      Fires s .task (s.writeLed3 ledOn .exit)
  | exitSet (s : LedTask) (hpc : s.pc = .exit)
      (hbit : has s.events ledEvtExitRunningMode = true) :
      Fires s .task { s with running := false, pc := .exitWrite }
  | exitSkip (s : LedTask) (hpc : s.pc = .exit)
      (hbit : has s.events ledEvtExitRunningMode = false) :
      Fires s .task { s with pc := .idle }
  | exitWrite (s : LedTask) (hpc : s.pc = .exitWrite) :
      Fires s .task (s.writeLed3 ledOff .idle)
  | idleFlash (s : LedTask) (hpc : s.pc = .idle) (hev : s.events = 0)
      (hrun : s.running = false) : Fires s .task { s with pc := .flashOn }
  | idleSkip (s : LedTask) (hpc : s.pc = .idle) (hbusy : ¬ (s.events = 0 ∧ s.running = false)) :
      Fires s .task { s with pc := .wait }
  | flashOn (s : LedTask) (hpc : s.pc = .flashOn) :
      Fires s .task (s.writeLed3 ledOn .flashDelay)
  | flashDelay (s : LedTask) (hpc : s.pc = .flashDelay) :
      Fires s .task { s with pc := .flashOff }
  | flashOff (s : LedTask) (hpc : s.pc = .flashOff) :
      Fires s .task (s.writeLed3 ledOff .wait)

theorem fires_of_ledTask {s t : LedTask} (h : s.ledTask = some t) : Fires s .task t := by
  unfold LedTask.ledTask at h
  split at h
  case h_1 hpc =>
    split at h
    · rename_i hset
      obtain rfl := Option.some.inj h
      exact .waitBits s hpc hset
    · simp at h
  case h_2 hpc =>
    obtain rfl := Option.some.inj h
    cases hbit : has s.events ledEvtProfinetSignal with
    | true => simpa [hbit] using Fires.burstBegin s hpc hbit
    | false => simpa [hbit] using Fires.burstSkip s hpc hbit
  case h_3 i hpc =>
    split at h <;> obtain rfl := Option.some.inj h
    · exact .toggle s i hpc ‹_›
    · exact .burstEnd s i hpc ‹_›
  case h_4 i hpc =>
    obtain rfl := Option.some.inj h
    exact .burstDelay s i hpc
  case h_5 hpc =>
    split at h <;> obtain rfl := Option.some.inj h
    · exact .enterSet s hpc ‹_›
    · exact .enterSkip s hpc (Bool.eq_false_iff.mpr ‹_›)
  case h_6 hpc =>
    obtain rfl := Option.some.inj h
    exact .enterWrite s hpc
  case h_7 hpc =>
    split at h <;> obtain rfl := Option.some.inj h
    · exact .exitSet s hpc ‹_›
    · exact .exitSkip s hpc (Bool.eq_false_iff.mpr ‹_›)
  case h_8 hpc =>
    obtain rfl := Option.some.inj h
    exact .exitWrite s hpc
  case h_9 hpc =>
    obtain rfl := Option.some.inj h
    by_cases hidle : s.events = 0 ∧ s.running = false
    · simpa [hidle] using Fires.idleFlash s hpc hidle.1 hidle.2
    · have hcond : (s.events == 0 && !s.running) = false := by
        rw [Bool.eq_false_iff]
        simpa [Bool.and_eq_true] using hidle
      rw [hcond]
      exact .idleSkip s hpc hidle
  case h_10 hpc =>
    obtain rfl := Option.some.inj h
    exact .flashOn s hpc
  case h_11 hpc =>
    obtain rfl := Option.some.inj h
    exact .flashDelay s hpc
  case h_12 hpc =>
    obtain rfl := Option.some.inj h
    exact .flashOff s hpc

theorem fires_of_step {s t : LedTask} {a : Act} (h : step s a = some t) : Fires s a t := by
  cases a with
  | setBits bits =>
    obtain rfl := Option.some.inj h
    exact .setBits s bits
  | task => exact fires_of_ledTask h
  | timeout =>
    simp only [step, LedTask.waitTimeout] at h
    split at h
    · rename_i hpc
      obtain rfl := Option.some.inj h
      exact .waitTimeout s hpc
    · simp at h

def machine : Transition.Machine LedTask Act where
  start := LedTask.boot
  step := step

end UphyDemo.Led
