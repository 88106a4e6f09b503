import UphyDemo.Led.Task

namespace UphyDemo.Led
open Flags Transition

def ledProfinetSignal : Act := .setBits ledEvtProfinetSignal

def ledSetRunningMode (on : Bool) : Act :=
  if on then .setBits ledEvtEnterRunningMode else .setBits ledEvtExitRunningMode

section Status

variable (upCoreRunning : BitVec 32)

def cbStatusInd (status : BitVec 32) : Act := ledSetRunningMode (has status upCoreRunning)

def cbProfinetSignalLedInd : Act := ledProfinetSignal

inductive Event where
  | cbStatusInd (status : BitVec 32)
  | cbProfinetSignalLedInd
  | ledTask
  | waitTimeout
deriving DecidableEq, Repr

def Event.act : Event → Act
  | .cbStatusInd status => Led.cbStatusInd upCoreRunning status
  | .cbProfinetSignalLedInd => Led.cbProfinetSignalLedInd
  | .ledTask => .task
  | .waitTimeout => .timeout

def system : Machine LedTask Event where
  start := LedTask.boot
  step := fun s e => step s (e.act upCoreRunning)

theorem system_exec (s : LedTask) (es : List Event) :
    (system upCoreRunning).exec s es = machine.exec s (es.map (Event.act upCoreRunning)) := by
  induction es generalizing s with
  | nil => rfl
  | cons e es ih =>
    simp only [Machine.exec, List.map_cons]
    exact congrArg _ (funext ih)

def latest (running : Bool) : Event → Bool
  | .cbStatusInd status => has status upCoreRunning
  | _ => running

def mostRecentRunning (es : List Event) : Bool := es.foldl (latest upCoreRunning) false

theorem mostRecentRunning_concat (es : List Event) (e : Event) :
    mostRecentRunning upCoreRunning (es ++ [e]) =
      latest upCoreRunning (mostRecentRunning upCoreRunning es) e := by
  simp [mostRecentRunning]

end Status

def settledMode (s : LedTask) : Bool :=
  match s.pc with
  | .profinet | .burst _ | .burstDelay _ | .enter =>
      if has s.events ledEvtExitRunningMode then false
      else if has s.events ledEvtEnterRunningMode then true else s.running
  | .enterWrite | .exit => if has s.events ledEvtExitRunningMode then false else s.running
  | _ => s.running

structure Tracks (last : Bool) (s : LedTask) : Prop where
  quiet : has s.ledEvents ledEvtEnterRunningMode = false →
    has s.ledEvents ledEvtExitRunningMode = false → settledMode s = last
  entering : has s.ledEvents ledEvtEnterRunningMode = true →
    has s.ledEvents ledEvtExitRunningMode = false → last = true
  leaving : has s.ledEvents ledEvtEnterRunningMode = false →
    has s.ledEvents ledEvtExitRunningMode = true → last = false

theorem tracks_status (s : LedTask) (on : Bool) {t : LedTask}
    (h : step s (ledSetRunningMode on) = some t) : Tracks on t := by
  cases on with
  | true =>
    obtain rfl := Option.some.inj h
    have henter : has (s.ledEvents ||| ledEvtEnterRunningMode) ledEvtEnterRunningMode = true := by
      simp [show has ledEvtEnterRunningMode ledEvtEnterRunningMode = true by decide]
    exact ⟨fun hq => absurd (henter.symm.trans hq) (by simp),fun _ _ => rfl,
      fun hq => absurd (henter.symm.trans hq) (by simp)⟩
  | false =>
    obtain rfl := Option.some.inj h
    have hexit : has (s.ledEvents ||| ledEvtExitRunningMode) ledEvtExitRunningMode = true := by
      simp [show has ledEvtExitRunningMode ledEvtExitRunningMode = true by decide]
    exact ⟨fun _ hq => absurd (hexit.symm.trans hq) (by simp),
      fun _ hq => absurd (hexit.symm.trans hq) (by simp),fun _ _ => rfl⟩

theorem tracks_signal {last : Bool} {s t : LedTask} (hs : Tracks last s)
    (h : step s ledProfinetSignal = some t) : Tracks last t := by
  obtain rfl := Option.some.inj h
  have henter : has (s.ledEvents ||| ledEvtProfinetSignal) ledEvtEnterRunningMode =
      has s.ledEvents ledEvtEnterRunningMode := by
    simp [show has ledEvtProfinetSignal ledEvtEnterRunningMode = false by decide]
  have hexit : has (s.ledEvents ||| ledEvtProfinetSignal) ledEvtExitRunningMode =
      has s.ledEvents ledEvtExitRunningMode := by
    simp [show has ledEvtProfinetSignal ledEvtExitRunningMode = false by decide]
  refine ⟨?_,?_,?_⟩
  · intro h1 h2
    exact hs.quiet (henter.symm.trans h1) (hexit.symm.trans h2)
  · intro h1 h2
    exact hs.entering (henter.symm.trans h1) (hexit.symm.trans h2)
  · intro h1 h2
    exact hs.leaving (henter.symm.trans h1) (hexit.symm.trans h2)

theorem tracks_of_same {last : Bool} {s t : LedTask} (hs : Tracks last s)
    (hbits : t.ledEvents = s.ledEvents) (hmode : settledMode t = settledMode s) :
    Tracks last t := by
  refine ⟨?_,?_,?_⟩
  · simpa only [hbits, hmode] using hs.quiet
  · simpa only [hbits] using hs.entering
  · simpa only [hbits] using hs.leaving

theorem settledMode_return {last : Bool} {s : LedTask} (hs : Tracks last s) (hpc : s.pc = .wait)
    (hrace : has s.ledEvents ledEvtExitRunningMode = true → last = false) :
    (if has s.ledEvents ledEvtExitRunningMode then false
      else if has s.ledEvents ledEvtEnterRunningMode then true else s.running) = last := by
  cases hexit : has s.ledEvents ledEvtExitRunningMode with
  | true => simp [hrace hexit]
  | false =>
    cases henter : has s.ledEvents ledEvtEnterRunningMode with
    | true => simp [hs.entering henter hexit]
    | false =>
      have hquiet := hs.quiet henter hexit
      simpa [settledMode, hpc] using hquiet

theorem tracks_wait {last : Bool} {s : LedTask} (hs : Tracks last s) (hpc : s.pc = .wait)
    (hrace : has s.ledEvents ledEvtExitRunningMode = true → last = false) :
    Tracks last { s with
      ledEvents := s.ledEvents &&& ~~~ledEvtMask
      events := s.ledEvents &&& ledEvtMask
      pc := .profinet } := by
  have henter : has (s.ledEvents &&& ~~~ledEvtMask) ledEvtEnterRunningMode = false :=
    cleared_has (by decide) _
  have hexit : has (s.ledEvents &&& ~~~ledEvtMask) ledEvtExitRunningMode = false :=
    cleared_has (by decide) _
  refine ⟨?_,?_,?_⟩
  · intro _ _
    simp only [settledMode, masked_has (show ledEvtMask &&& ledEvtExitRunningMode = _ by decide),
      masked_has (show ledEvtMask &&& ledEvtEnterRunningMode = _ by decide)]
    exact settledMode_return hs hpc hrace
  · intro h1 _
    exact absurd (henter.symm.trans h1) (by simp)
  · intro _ h2
    exact absurd (hexit.symm.trans h2) (by simp)

theorem tracks_task {last : Bool} {s t : LedTask} (hs : Tracks last s)
    (hrace : s.pc = .wait → has s.ledEvents ledEvtExitRunningMode = true → last = false)
    (h : step s .task = some t) : Tracks last t := by
  cases fires_of_step h with
  | waitBits hpc => exact tracks_wait hs hpc (hrace hpc)
  | enterSet hpc hbit => exact tracks_of_same hs rfl (by simp [settledMode, hpc, hbit])
  | enterSkip hpc hbit => exact tracks_of_same hs rfl (by simp [settledMode, hpc, hbit])
  | exitSet hpc hbit => exact tracks_of_same hs rfl (by simp [settledMode, hpc, hbit])
  | exitSkip hpc hbit => exact tracks_of_same hs rfl (by simp [settledMode, hpc, hbit])
  | toggle i hpc | enterWrite hpc | exitWrite hpc | flashOn hpc | flashOff hpc =>
    exact tracks_of_same hs rfl (by simp only [settledMode, hpc]; rfl)
  | burstBegin hpc | burstSkip hpc | burstEnd i hpc | burstDelay i hpc | idleFlash hpc
  | idleSkip hpc | flashDelay hpc =>
    exact tracks_of_same hs rfl (by simp [settledMode, hpc])

theorem tracks_timeout {last : Bool} {s t : LedTask} (hs : Tracks last s)
    (h : step s .timeout = some t) : Tracks last t := by
  cases fires_of_step h with
  | waitTimeout hpc => exact tracks_of_same hs rfl (by simp [settledMode, hpc])

section Run

variable (upCoreRunning : BitVec 32)

def ReturnsInOrder (pre : List Event) (s : LedTask) (e : Event) : Prop :=
  e = .ledTask → s.pc = .wait → has s.ledEvents ledEvtExitRunningMode = true →
    mostRecentRunning upCoreRunning pre = false

instance (pre : List Event) (s : LedTask) (e : Event) :
    Decidable (ReturnsInOrder upCoreRunning pre s e) := by
  unfold ReturnsInOrder
  infer_instance

theorem tracks_boot : Tracks (mostRecentRunning upCoreRunning []) LedTask.boot :=
  ⟨fun _ _ => rfl,fun h => absurd h (by decide),fun _ h => absurd h (by decide)⟩

theorem tracks_step (pre : List Event) (s : LedTask) (e : Event) (t : LedTask)
    (hs : Tracks (mostRecentRunning upCoreRunning pre) s)
    (horder : ReturnsInOrder upCoreRunning pre s e)
    (h : (system upCoreRunning).step s e = some t) :
    Tracks (mostRecentRunning upCoreRunning (pre ++ [e])) t := by
  rw [mostRecentRunning_concat]
  cases e with
  | cbStatusInd status => exact tracks_status s _ h
  | cbProfinetSignalLedInd => exact tracks_signal hs h
  | ledTask => exact tracks_task hs (horder rfl) h
  | waitTimeout => exact tracks_timeout hs h

theorem running_tracks_status {es : List Event} {s : LedTask}
    (horder : (system upCoreRunning).Meets (ReturnsInOrder upCoreRunning) es)
    (h : (system upCoreRunning).run es = some s) (hpc : s.pc = .wait)
    (hidle : has s.ledEvents ledEvtMask = false) :
    s.running = mostRecentRunning upCoreRunning es := by
  have hs := Machine.run_history (tracks_boot upCoreRunning) (tracks_step upCoreRunning) horder h
  simp only [ledEvtMask, has_or, Bool.or_eq_false_iff] at hidle
  have hquiet := hs.quiet hidle.1.2 hidle.2
  simpa [settledMode, hpc] using hquiet

end Run

def settledRun : List Event := .cbStatusInd 1 :: List.replicate 6 .ledTask

theorem running_tracks_status_settled :
    LedTask.entered.running = mostRecentRunning 1 settledRun :=
  running_tracks_status 1 (by decide : (system 1).Meets (ReturnsInOrder 1) settledRun)
    (by decide) rfl (by decide)

def racingRun : List Event := .cbStatusInd 0 :: .cbStatusInd 1 :: List.replicate 7 .ledTask

def racedState : LedTask where
  ledEvents := 0
  userLed3 := ledOff
  events := ledEvtEnterRunningMode ||| ledEvtExitRunningMode
  running := false
  pc := .wait

theorem running_misses_status :
    ¬ ∀ (upCoreRunning : BitVec 32) (es : List Event) (s : LedTask),
      (system upCoreRunning).run es = some s → s.pc = .wait →
      has s.ledEvents ledEvtMask = false →
      s.running = mostRecentRunning upCoreRunning es := by
  intro h
  have hmode := h 1 racingRun racedState (by decide) rfl (by decide)
  exact absurd hmode (by decide)

def TaskRuns (s t : LedTask) : Prop :=
  ∃ n, machine.exec s (List.replicate n .task) = some t

theorem TaskRuns.refl (s : LedTask) : TaskRuns s s := ⟨0,rfl⟩

theorem TaskRuns.head {s t u : LedTask} (h : step s .task = some t) (ht : TaskRuns t u) :
    TaskRuns s u := by
  obtain ⟨n,hn⟩ := ht
  exact ⟨n + 1,Machine.exec_cons_iff.mpr ⟨t,h,hn⟩⟩

theorem TaskRuns.trans {s t u : LedTask} (h : TaskRuns s t) (ht : TaskRuns t u) :
    TaskRuns s u := by
  obtain ⟨n,hn⟩ := h
  obtain ⟨m,hm⟩ := ht
  refine ⟨n + m,?_⟩
  rw [List.replicate_add]
  exact Machine.exec_append_of hn hm

theorem burst_ends (k i : Nat) (s : LedTask) (hk : i + k = 6) (hpc : s.pc = .burst i) :
    ∃ level, TaskRuns s { s with userLed3 := level, pc := .enter } := by
  induction k generalizing i s with
  | zero =>
    have hi : ¬ i < 6 := by omega
    refine ⟨s.userLed3,.head (t := { s with pc := .enter }) ?_ (.refl _)⟩
    simp [step, LedTask.ledTask, hpc, hi]
  | succ k ih =>
    have hi : i < 6 := by omega
    obtain ⟨level,hrun⟩ := ih (i + 1) { s with userLed3 := !s.userLed3, pc := .burst (i + 1) }
      (by omega) rfl
    have htoggle : step s .task = some (s.writeLed3 (!s.userLed3) (.burstDelay i)) := by
      simp [step, LedTask.ledTask, hpc, hi]
    exact ⟨level,.head htoggle (.head rfl hrun)⟩

theorem profinet_ends (s : LedTask) (hpc : s.pc = .profinet) :
    ∃ level, TaskRuns s { s with userLed3 := level, pc := .enter } := by
  cases hbit : has s.events ledEvtProfinetSignal with
  | true =>
    obtain ⟨level,hrun⟩ := burst_ends 6 0 { s with pc := .burst 0 } (by omega) rfl
    exact ⟨level,.head (by simp [step, LedTask.ledTask, hpc, hbit]) hrun⟩
  | false =>
    refine ⟨s.userLed3,.head (t := { s with pc := .enter }) ?_ (.refl _)⟩
    simp [step, LedTask.ledTask, hpc, hbit]

theorem exit_ends (s : LedTask) (hpc : s.pc = .exit)
    (hexit : has s.events ledEvtExitRunningMode = true) :
    TaskRuns s { s with userLed3 := ledOff, running := false, pc := .wait } := by
  have hbusy : ¬ s.events = 0#32 := by
    intro hzero
    simp [hzero] at hexit
  have hset : step s .task = some { s with running := false, pc := .exitWrite } := by
    simp [step, LedTask.ledTask, hpc, hexit]
  refine .head hset (.head rfl (.head ?_ (.refl _)))
  simp [step, LedTask.ledTask, LedTask.writeLed3, hbusy]

theorem enter_ends (s : LedTask) (hpc : s.pc = .enter)
    (hexit : has s.events ledEvtExitRunningMode = true) :
    TaskRuns s { s with userLed3 := ledOff, running := false, pc := .wait } := by
  cases henter : has s.events ledEvtEnterRunningMode with
  | true =>
    have hset : step s .task = some { s with running := true, pc := .enterWrite } := by
      simp [step, LedTask.ledTask, hpc, henter]
    exact .head hset (.head rfl (exit_ends _ rfl hexit))
  | false =>
    have hskip : step s .task = some { s with pc := .exit } := by
      simp [step, LedTask.ledTask, hpc, henter]
    exact .head hskip (exit_ends _ rfl hexit)

theorem exit_bit_wins (s : LedTask) (hpc : s.pc = .wait)
    (hexit : has s.ledEvents ledEvtExitRunningMode = true) :
    ∃ t, TaskRuns s t ∧ t.pc = .wait ∧ has t.ledEvents ledEvtMask = false ∧ t.running = false := by
  have hmask : has s.ledEvents ledEvtMask = true := by
    simp only [ledEvtMask, has_or, hexit, Bool.or_true]
  have hevents : has (s.ledEvents &&& ledEvtMask) ledEvtExitRunningMode = true := by
    rw [masked_has (by decide)]
    exact hexit
  have hreturn : step s .task = some { s with
      ledEvents := s.ledEvents &&& ~~~ledEvtMask
      events := s.ledEvents &&& ledEvtMask
      pc := .profinet } := by
    simp [step, LedTask.ledTask, hpc, hmask, xEventGroupWaitBits]
  obtain ⟨level,hburst⟩ := profinet_ends { s with
      ledEvents := s.ledEvents &&& ~~~ledEvtMask
      events := s.ledEvents &&& ledEvtMask
      pc := .profinet } rfl
  have hrest := (TaskRuns.head hreturn hburst).trans (enter_ends _ rfl hevents)
  exact ⟨_,hrest,rfl,cleared_has (by decide) _,rfl⟩

theorem mostRecentRunning_tasks (upCoreRunning : BitVec 32) (es : List Event) (n : Nat) :
    mostRecentRunning upCoreRunning (es ++ List.replicate n .ledTask) =
      mostRecentRunning upCoreRunning es := by
  induction n with
  | zero => simp
  | succ n ih =>
    rw [List.replicate_succ', ← List.append_assoc, mostRecentRunning_concat, ih]
    rfl

theorem disorder_sticks (upCoreRunning : BitVec 32) {es : List Event} {s : LedTask}
    (h : (system upCoreRunning).run es = some s)
    (hdisorder : ¬ ReturnsInOrder upCoreRunning es s .ledTask) :
    ∃ n t, (system upCoreRunning).run (es ++ List.replicate n .ledTask) = some t ∧
      t.pc = .wait ∧ has t.ledEvents ledEvtMask = false ∧
      t.running ≠ mostRecentRunning upCoreRunning (es ++ List.replicate n .ledTask) := by
  simp only [ReturnsInOrder, forall_const, Classical.not_imp, Bool.not_eq_false] at hdisorder
  obtain ⟨hpc,hexit,hlast⟩ := hdisorder
  obtain ⟨t,⟨n,hn⟩,htpc,hidle,hrun⟩ := exit_bit_wins s hpc hexit
  refine ⟨n,t,?_,htpc,hidle,by simp [hrun, mostRecentRunning_tasks, hlast]⟩
  apply Machine.exec_append_of h
  rw [system_exec, List.map_replicate]
  exact hn

end UphyDemo.Led
