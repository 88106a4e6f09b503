import UphyDemo.Led.Timed

namespace UphyDemo.Led
open Flags Transition

def Applied (s : LedTask) : Prop :=
  match s.pc with
  | .exit => has s.events ledEvtEnterRunningMode = true → s.running = true
  | .idle => (has s.events ledEvtExitRunningMode = true → s.running = false) ∧
      (has s.events ledEvtEnterRunningMode = true → has s.events ledEvtExitRunningMode = false →
        s.running = true)
  | _ => True

theorem applied_step {s t : LedTask} {a : Act} (hs : Orderly s) (happlied : Applied s)
    (h : step s a = some t) : Applied t := by
  have hlevel := hs.settled
  have hcaused := hs.caused
  cases fires_of_step h with
  | setBits => exact happlied
  | enterSkip hpc hbit => simp [Applied, hbit]
  | enterWrite hpc =>
    simp only [Settled, hpc] at hlevel
    simp [Applied, LedTask.writeLed3, hlevel]
  | exitSkip hpc hbit =>
    simp only [Applied, hpc] at happlied
    simp only [Applied, hbit]
    exact ⟨fun hexit => absurd hexit (by simp),fun henter _ => happlied henter⟩
  | exitWrite hpc =>
    simp only [Settled, hpc] at hlevel
    simp only [Caused, hpc] at hcaused
    simp [Applied, LedTask.writeLed3, hlevel, hcaused]
  | waitBits | waitTimeout | burstBegin | burstSkip | toggle | burstEnd | burstDelay | enterSet
  | exitSet | idleFlash | idleSkip | flashOn | flashDelay | flashOff => trivial

theorem applied_task {s : LedTask} {as : List Act} (h : machine.run as = some s) : Applied s := by
  have hboth : Orderly s ∧ Applied s := by
    refine Machine.run_invariant (I := fun s : LedTask => Orderly s ∧ Applied s) ?_ ?_ h
    · exact ⟨orderly_boot,trivial⟩
    · intro s a t hs hstep
      exact ⟨orderly_step hs.1 hstep,applied_step hs.1 hs.2 hstep⟩
  exact hboth.2

def Pc.inRound : Pc → Bool
  | .wait | .flashOn | .flashDelay | .flashOff => false
  | _ => true

def Carrying (m : EventBits) (s : LedTask) : Prop :=
  s.pc.inRound = true ∧ has s.events m = true

instance (m : EventBits) (s : LedTask) : Decidable (Carrying m s) := by
  unfold Carrying
  infer_instance

def Handled (m : EventBits) (s : Timed) : Prop := s.task.pc = .idle ∧ has s.task.events m = true

def flashLeft (events : EventBits) : Nat := if events = 0 then ledActivityFlashDelay else 0

-- ticks until the task is next at its wait, when nothing keeps it from running
def roundLeft (s : Timed) : Nat :=
  match s.task.pc with
  | .wait => if ledWaitTicks ≤ s.slept then ledActivityFlashDelay else 0
  | .profinet =>
      if has s.task.events ledEvtProfinetSignal then 6 * ledProfinetFlashDelay
      else flashLeft s.task.events
  | .burst i => (6 - i) * ledProfinetFlashDelay
  | .burstDelay i => ledProfinetFlashDelay - s.slept + (5 - i) * ledProfinetFlashDelay
  | .enter | .exit | .idle => flashLeft s.task.events
  | .enterWrite | .exitWrite | .flashOff => 0
  | .flashOn => ledActivityFlashDelay
  | .flashDelay => ledActivityFlashDelay - s.slept

-- a burst may be under way, and the wait may return another signal with the event
def responseTicks : Nat := 2 * (6 * ledProfinetFlashDelay)

def isTick : TimedAct → Bool
  | .tick => true
  | _ => false

def Takes (s : Timed) (a : TimedAct) : Prop := s.task.pc = .wait ∧ a = .task

def Busy (s : LedTask) : Prop := has s.ledEvents ledEvtMask = true ∨ s.pc.inRound = true

section Rank

variable {m : EventBits} {s t : Timed} {a : TimedAct}

theorem pending_mask {group : EventBits} (hm : ledEvtMask &&& m = m) (h : has group m = true) :
    has group ledEvtMask = true := by
  rw [← masked_has hm, has, bne_iff_ne] at h
  rw [has, bne_iff_ne]
  intro hzero
  rw [hzero, BitVec.zero_and] at h
  exact h rfl

theorem pending_step_kept (hpending : has s.task.ledEvents m = true) (hnot : ¬ Takes s a)
    (h : timed.step s a = some t) : has t.task.ledEvents m = true := by
  rcases timed_step_cases h with ⟨rfl,rfl⟩ | ⟨bits,task,rfl,hfires,rfl⟩ |
    ⟨task,rfl,hdelay,hfires,rfl⟩ | ⟨task,rfl,hwait,hfires,rfl⟩
  · exact hpending
  · cases hfires
    simp [hpending]
  · cases hfires with
    | waitBits hpc => exact absurd ⟨hpc,rfl⟩ hnot
    | _ => exact hpending
  · cases hfires
    exact hpending

theorem carrying_step (hs : Carrying m s.task) (hpc : s.task.pc ≠ .idle)
    (h : timed.step s a = some t) : Carrying m t.task ∧ t.task.events = s.task.events := by
  have hround := hs.1
  rcases timed_step_cases h with ⟨rfl,rfl⟩ | ⟨bits,task,rfl,hfires,rfl⟩ |
    ⟨task,rfl,hdelay,hfires,rfl⟩ | ⟨task,rfl,hwait,hfires,rfl⟩
  · exact ⟨hs,rfl⟩
  · cases hfires
    exact ⟨hs,rfl⟩
  · cases hfires with
    | waitBits hwait | flashOn hwait | flashDelay hwait | flashOff hwait =>
      simp [hwait, Pc.inRound] at hround
    | idleFlash hidle | idleSkip hidle => exact absurd hidle hpc
    | _ => exact ⟨⟨rfl,hs.2⟩,rfl⟩
  · cases hfires with
    | waitTimeout hwait => simp [hwait, Pc.inRound] at hround

theorem flashLeft_busy {events : EventBits} (h : has events m = true) : flashLeft events = 0 :=
  if_neg (events_ne_zero h)

theorem flashLeft_le (events : EventBits) : flashLeft events ≤ ledActivityFlashDelay := by
  unfold flashLeft
  split <;> omega

theorem tick_round (hbusy : Busy s.task) (hblocked : s.Blocked) :
    roundLeft { s with now := s.now + 1, slept := s.slept + 1 } + 1 ≤ roundLeft s := by
  rcases blocked_cases hblocked with ⟨hpc,hnone,_⟩ | ⟨i,hpc,hslept⟩ | ⟨hpc,hslept⟩
  · rcases hbusy with hpending | hround
    · exact absurd (hpending.symm.trans hnone) (by simp)
    · simp [hpc, Pc.inRound] at hround
  · simp only [roundLeft, hpc, ledProfinetFlashDelay_eq] at hslept ⊢
    omega
  · simp only [roundLeft, hpc, ledActivityFlashDelay_eq] at hslept ⊢
    omega

theorem task_round (hs : Orderly s.task) (hnot : ¬ Takes s .task) {task : LedTask}
    (hfires : Fires s.task .task task) :
    roundLeft { s with task := task, slept := 0 } ≤ roundLeft s := by
  have hcaused := hs.caused
  cases hfires with
  | waitBits hpc => exact absurd ⟨hpc,rfl⟩ hnot
  | burstBegin hpc hbit => simp [roundLeft, hpc, hbit]
  | burstSkip hpc hbit => simp [roundLeft, hpc, hbit]
  | toggle i hpc hi =>
    simp only [roundLeft, LedTask.writeLed3, hpc, ledProfinetFlashDelay_eq]
    omega
  | burstDelay i hpc =>
    simp only [roundLeft, hpc, ledProfinetFlashDelay_eq]
    omega
  | burstEnd i hpc hi =>
    simp only [Caused, hpc] at hcaused
    simp [roundLeft, hpc, flashLeft_busy hcaused]
  | enterWrite hpc | exitWrite hpc =>
    simp only [Caused, hpc] at hcaused
    simp [roundLeft, LedTask.writeLed3, hpc, flashLeft_busy hcaused]
  | idleFlash hpc hev => simp [roundLeft, hpc, flashLeft, hev]
  | enterSet hpc | enterSkip hpc | exitSet hpc | exitSkip hpc | idleSkip hpc | flashOn hpc
  | flashDelay hpc | flashOff hpc => simp [roundLeft, LedTask.writeLed3, hpc]

theorem round_step (hs : Orderly s.task) (hbusy : Busy s.task) (hnot : ¬ Takes s a)
    (hprompt : s.Prompt a) (h : timed.step s a = some t) :
    roundLeft t + (if isTick a then 1 else 0) ≤ roundLeft s := by
  rcases timed_step_cases h with ⟨rfl,rfl⟩ | ⟨bits,task,rfl,hfires,rfl⟩ |
    ⟨task,rfl,hdelay,hfires,rfl⟩ | ⟨task,rfl,hwait,hfires,rfl⟩
  · exact tick_round hbusy (hprompt rfl)
  · cases hfires
    exact Nat.le_refl _
  · exact task_round hs hnot hfires
  · cases hfires with
    | waitTimeout hpc =>
      simp only [ledWaitTicks_eq] at hwait
      simp [roundLeft, hpc, flashLeft, hwait, isTick]

theorem roundLeft_le (s : Timed) : roundLeft s ≤ 6 * ledProfinetFlashDelay := by
  have hflash := flashLeft_le s.task.events
  simp only [ledActivityFlashDelay_eq] at hflash
  unfold roundLeft
  simp only [ledProfinetFlashDelay_eq, ledActivityFlashDelay_eq]
  split <;> try split
  all_goals omega

end Rank

-- the round whose wait returned `m`, from the wait at `v` to its last branch at `u`
structure Taken (m : EventBits) (v u : Timed) (round : List TimedAct) : Prop where
  waits : v.task.pc = .wait
  pending : has v.task.ledEvents m = true
  exec : timed.exec v (.task :: round) = some u
  events : u.task.events = v.task.ledEvents &&& ledEvtMask
  handled : Handled m u

section Taken

variable {m : EventBits} {s t : Timed} {bs : List TimedAct} {pre : List TimedAct}

theorem event_taken (hm : ledEvtMask &&& m = m) (hs : Orderly s.task)
    (hpending : has s.task.ledEvents m = true)
    (hprompt : timed.MeetsFrom (fun _ => Timed.Prompt) pre s bs) (ht : timed.exec s bs = some t)
    (hticks : roundLeft s < bs.countP isTick) :
    ∃ before rest v, bs = before ++ .task :: rest ∧ timed.exec s before = some v ∧
      Orderly v.task ∧ v.task.pc = .wait ∧ has v.task.ledEvents m = true ∧
      before.countP isTick ≤ roundLeft s := by
  obtain ⟨before,a,rest,v,_,rfl,hv,⟨horderly,hset⟩,_,⟨hpc,rfl⟩,hcount⟩ :=
    Machine.exec_meets (M := timed) (I := fun s => Orderly s.task ∧ has s.task.ledEvents m = true)
      (Q := fun s a _ => Takes s a) roundLeft isTick
      (by
        rintro pre s a t ⟨hs,hpending⟩ hC hstep
        by_cases htakes : Takes s a
        · exact .inl htakes
        · refine .inr ⟨⟨orderly_timed hs hstep,pending_step_kept hpending htakes hstep⟩,?_⟩
          exact round_step hs (.inl (pending_mask hm hpending)) htakes hC hstep)
      ⟨hs,hpending⟩ hprompt ht hticks
  exact ⟨before,rest,v,rfl,hv,horderly,hpc,hset,by omega⟩

theorem event_carried {events : EventBits} (hs : Orderly s.task) (hcarry : Carrying m s.task)
    (hpc : s.task.pc ≠ .idle) (hevents : s.task.events = events)
    (hprompt : timed.MeetsFrom (fun _ => Timed.Prompt) pre s bs) (ht : timed.exec s bs = some t)
    (hticks : roundLeft s < bs.countP isTick) :
    ∃ round u, round <+: bs ∧ timed.exec s round = some u ∧ Handled m u ∧
      u.task.events = events := by
  obtain ⟨mid,a,rest,v,u,rfl,hv,_,hu,⟨hhandled,hsame⟩,_⟩ :=
    Machine.exec_meets (M := timed)
      (I := fun s => Orderly s.task ∧ (Carrying m s.task ∧ s.task.events = events) ∧
        s.task.pc ≠ .idle)
      (Q := fun _ _ t => Handled m t ∧ t.task.events = events) roundLeft isTick
      (by
        rintro pre s a t ⟨hs,⟨hcarry,hevents⟩,hpc⟩ hC hstep
        obtain ⟨hnext,hsame⟩ := carrying_step hcarry hpc hstep
        have hround := hcarry.1
        have hnot : ¬ Takes s a := fun htakes => by simp [htakes.1, Pc.inRound] at hround
        by_cases hidle : t.task.pc = .idle
        · exact .inl ⟨⟨hidle,hnext.2⟩,hsame.trans hevents⟩
        · refine .inr ⟨⟨orderly_timed hs hstep,⟨hnext,hsame.trans hevents⟩,hidle⟩,?_⟩
          exact round_step hs (.inr hround) hnot hC hstep)
      ⟨hs,⟨hcarry,hevents⟩,hpc⟩ hprompt ht hticks
  refine ⟨mid ++ [a],u,⟨rest,by simp⟩,?_,hhandled,hsame⟩
  exact Machine.exec_append_of hv (Machine.exec_cons_iff.mpr ⟨u,hu,rfl⟩)

theorem wait_returns (hpc : s.task.pc = .wait) (h : timed.step s .task = some t) :
    t.task.pc = .profinet ∧ t.task.events = s.task.ledEvents &&& ledEvtMask ∧
      t.task.ledEvents = s.task.ledEvents &&& ~~~ledEvtMask := by
  have hstep : s.step .task = some t := h
  rcases timed_step_cases hstep with ⟨hact,_⟩ | ⟨_,_,hact,_⟩ | ⟨task,_,_,hfires,rfl⟩ | ⟨_,hact,_⟩
  · cases hact
  · cases hact
  · cases hfires with
    | waitBits => exact ⟨rfl,rfl,rfl⟩
    | toggle i hother | burstEnd i hother | burstDelay i hother => simp [hpc] at hother
    | _ hother => simp [hpc] at hother
  · cases hact

theorem event_handled (hm : ledEvtMask &&& m = m) (hs : Orderly s.task)
    (hpending : has s.task.ledEvents m = true)
    (hprompt : timed.MeetsFrom (fun _ => Timed.Prompt) pre s bs) (ht : timed.exec s bs = some t)
    (hticks : responseTicks < bs.countP isTick) :
    ∃ before round v u, before ++ .task :: round <+: bs ∧ timed.exec s before = some v ∧
      Taken m v u round := by
  have hbound := roundLeft_le s
  simp only [responseTicks] at hticks
  obtain ⟨before,rest,v,rfl,hv,horderly,hpc,hset,hcount⟩ :=
    event_taken hm hs hpending hprompt ht (by omega)
  rw [Machine.exec_append, hv, Option.bind_some] at ht
  obtain ⟨w,hw,hrest⟩ := Machine.exec_cons_iff.mp ht
  have hpromptRest := (Machine.meetsFrom_suffix hprompt hv).2 w hw
  obtain ⟨hprofinet,hevents,_⟩ := wait_returns hpc hw
  have hcarry : Carrying m w.task := by
    refine ⟨by simp [hprofinet, Pc.inRound],?_⟩
    rw [hevents, masked_has hm]
    exact hset
  have hleft : roundLeft w < rest.countP isTick := by
    have hle := roundLeft_le w
    rw [List.countP_append, List.countP_cons] at hticks
    simp only [isTick, Bool.false_eq_true, if_false] at hticks
    omega
  obtain ⟨round,u,⟨rest',rfl⟩,hu,hhandled,hreturned⟩ :=
    event_carried (orderly_timed horderly hw) hcarry (by simp [hprofinet]) hevents hpromptRest
      hrest hleft
  refine ⟨before,round,v,u,⟨rest',by simp⟩,hv,hpc,hset,?_,hreturned,hhandled⟩
  exact Machine.exec_cons_iff.mpr ⟨w,hw,hu⟩

end Taken

structure Answered (m : EventBits) (s : Timed) : Prop where
  handled : Handled m s
  level : s.task.userLed3 = modeLevel s.task.running
  running : m = ledEvtEnterRunningMode ∨ m = ledEvtExitRunningMode →
    s.task.running = !has s.task.events ledEvtExitRunningMode

theorem handled_answered {m : EventBits} {s : Timed} (hs : Orderly s.task)
    (happlied : Applied s.task) (h : Handled m s) : Answered m s := by
  have hlevel := hs.settled
  obtain ⟨hpc,hbit⟩ := h
  simp only [Settled, hpc] at hlevel
  simp only [Applied, hpc] at happlied
  refine ⟨⟨hpc,hbit⟩,hlevel,?_⟩
  intro hmode
  cases hexit : has s.task.events ledEvtExitRunningMode with
  | true => exact happlied.1 hexit
  | false =>
    rcases hmode with rfl | rfl
    · exact happlied.2 hbit hexit
    · exact absurd (hbit.symm.trans hexit) (by simp)

theorem pending_set {as : List TimedAct} {s : Timed} {bits m : EventBits}
    (hbit : has bits m = true) (h : timed.run (as ++ [.setBits bits]) = some s) :
    has s.task.ledEvents m = true := by
  rw [Machine.run, Machine.exec_append] at h
  obtain ⟨r,_,hlast⟩ := Option.bind_eq_some_iff.mp h
  obtain ⟨u,hu,hsame⟩ := Machine.exec_cons_iff.mp hlast
  obtain rfl : u = s := by simpa using hsame
  have hset : r.step (.setBits bits) = some u := hu
  simp only [Timed.step, Led.step, Option.map_some, Option.some.injEq] at hset
  subst hset
  simp [xEventGroupSetBits, hbit]

theorem event_answered {as bs : List TimedAct} {s t : Timed} {bits m : EventBits}
    (hm : ledEvtMask &&& m = m) (hbit : has bits m = true)
    (h : timed.run (as ++ [.setBits bits]) = some s)
    (hprompt : timed.MeetsFrom (fun _ => Timed.Prompt) [] s bs) (ht : timed.exec s bs = some t)
    (hticks : responseTicks < bs.countP isTick) :
    ∃ before round v u, before ++ .task :: round <+: bs ∧ timed.exec s before = some v ∧
      Taken m v u round ∧ Answered m u := by
  obtain ⟨before,round,v,u,hmid,hv,htaken⟩ := event_handled hm
    (orderly_task (timed_follows.run h)) (pending_set hbit h) hprompt ht hticks
  have hrun := timed_follows.run (Machine.exec_append_of h (Machine.exec_append_of hv htaken.exec))
  exact ⟨before,round,v,u,hmid,hv,htaken,
    handled_answered (orderly_task hrun) (applied_task hrun) htaken.handled⟩

section Waiting

structure Resting (s : Timed) : Prop where
  waits : s.task.pc = .wait
  idle : s.task.ledEvents = 0

theorem Resting.blocked {s : Timed} (hs : Resting s) (hslept : s.slept < ledWaitTicks) :
    s.Blocked := by
  have hset : ¬ has s.task.ledEvents ledEvtMask = true := by simp [hs.idle]
  have hshort : ¬ ledWaitTicks ≤ s.slept := by omega
  exact ⟨by simp [Timed.step, Led.step, LedTask.ledTask, hs.waits, hset],
    by simp only [Timed.step, if_neg hshort]⟩

theorem Resting.ticks {s : Timed} (hs : Resting s) (n : Nat) (hn : s.slept + n ≤ ledWaitTicks)
    (pre : List TimedAct) :
    timed.exec s (List.replicate n .tick) =
      some { s with now := s.now + n, slept := s.slept + n } ∧
    timed.MeetsFrom (fun _ => Timed.Prompt) pre s (List.replicate n .tick) := by
  induction n generalizing s pre with
  | zero => exact ⟨rfl,trivial⟩
  | succ n ih =>
    have hnext : Resting { s with now := s.now + 1, slept := s.slept + 1 } := ⟨hs.waits,hs.idle⟩
    obtain ⟨hexec,hmeets⟩ := ih hnext (by dsimp only; omega) (pre ++ [.tick])
    refine ⟨?_,fun _ => hs.blocked (by omega),?_⟩
    · rw [List.replicate_succ]
      refine Machine.exec_cons_iff.mpr ⟨_,rfl,hexec.trans ?_⟩
      simp only [Option.some.injEq, Timed.mk.injEq, true_and]
      omega
    · intro t ht
      obtain rfl := Option.some.inj ht
      exact hmeets

theorem prompt_of_untimed {as : List TimedAct} (h : ∀ a ∈ as, a ≠ .tick) (pre : List TimedAct)
    (s : Timed) : timed.MeetsFrom (fun _ => Timed.Prompt) pre s as := by
  induction as generalizing pre s with
  | nil => trivial
  | cons a as ih =>
    rw [List.forall_mem_cons] at h
    exact ⟨fun htick => absurd htick h.1,fun t _ => ih h.2 _ t⟩

-- while running, a wait that times out only starts the next one
def idleRound : List TimedAct :=
  List.replicate ledWaitTicks .tick ++ (.timeout :: List.replicate 4 .task)

structure Lit (s : Timed) : Prop extends Resting s where
  running : s.task.running = true
  fresh : s.slept = 0

theorem Lit.round {s : Timed} (hs : Lit s) (pre : List TimedAct) :
    ∃ t, timed.exec s idleRound = some t ∧ Lit t ∧
      timed.MeetsFrom (fun _ => Timed.Prompt) pre s idleRound := by
  obtain ⟨hexec,hmeets⟩ := hs.ticks ledWaitTicks (by rw [hs.fresh]; omega) pre
  refine ⟨{ s with task := { s.task with events := 0 }, now := s.now + ledWaitTicks },?_,?_,?_⟩
  · refine Machine.exec_append_of hexec ?_
    simp [Machine.exec, timed, Timed.step, Led.step, LedTask.waitTimeout, LedTask.ledTask,
      hs.waits, hs.running, hs.fresh, Pc.delay]
  · exact ⟨⟨hs.waits,hs.idle⟩,hs.running,hs.fresh⟩
  · exact Machine.meetsFrom_append hmeets hexec (prompt_of_untimed (by simp) _ _)

theorem Lit.rounds {s : Timed} (hs : Lit s) (n : Nat) (pre : List TimedAct) :
    ∃ t, timed.exec s (List.replicate n idleRound).flatten = some t ∧
      timed.MeetsFrom (fun _ => Timed.Prompt) pre s (List.replicate n idleRound).flatten := by
  induction n generalizing s pre with
  | zero => exact ⟨s,rfl,trivial⟩
  | succ n ih =>
    obtain ⟨u,hu,hlit,hmeets⟩ := hs.round pre
    obtain ⟨t,ht,hrest⟩ := ih hlit (pre ++ idleRound)
    rw [List.replicate_succ, List.flatten_cons]
    exact ⟨t,Machine.exec_append_of hu ht,Machine.meetsFrom_append hmeets hu hrest⟩

end Waiting

def entering : Timed := { Timed.boot with task := { LedTask.boot with
  ledEvents := ledEvtEnterRunningMode } }

def enteredTimed : Timed := { Timed.boot with task := LedTask.entered }

theorem entering_rounds (n : Nat) :
    ∃ t, timed.exec entering (List.replicate 6 .task ++ (List.replicate n idleRound).flatten) =
        some t ∧
      timed.MeetsFrom (fun _ => Timed.Prompt) [] entering
        (List.replicate 6 .task ++ (List.replicate n idleRound).flatten) := by
  have hlit : Lit enteredTimed := ⟨⟨rfl,rfl⟩,rfl,rfl⟩
  have henter : timed.exec entering (List.replicate 6 .task) = some enteredTimed := by decide
  obtain ⟨t,ht,hmeets⟩ := hlit.rounds n (List.replicate 6 .task)
  exact ⟨t,Machine.exec_append_of henter ht,
    Machine.meetsFrom_append (prompt_of_untimed (by simp) [] entering) henter hmeets⟩

theorem event_answered_entered :
    ∃ before v u, timed.exec entering before = some v ∧ v.task.pc = .wait ∧
      Answered ledEvtEnterRunningMode u := by
  obtain ⟨t,ht,hprompt⟩ := entering_rounds 4
  have hset : timed.run ([] ++ [.setBits ledEvtEnterRunningMode]) = some entering := by decide
  have hm : ledEvtMask &&& ledEvtEnterRunningMode = ledEvtEnterRunningMode := by decide
  obtain ⟨before,_,v,u,_,hv,htaken,hanswered⟩ := event_answered hm (by decide) hset hprompt ht
    (by decide +kernel)
  exact ⟨before,v,u,hv,htaken.waits,hanswered⟩

end UphyDemo.Led
