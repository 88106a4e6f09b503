import UphyDemo.Led.Blink
import UphyDemo.Led.Response

namespace UphyDemo.Led
open Flags Transition

def Quiet (as : List TimedAct) : Prop := ∀ a ∈ as, isEvent a = false

theorem quiet_step {s t : Timed} {a : TimedAct} (hquiet : isEvent a = false)
    (h : timed.step s a = some t) :
    t.task.ledEvents = s.task.ledEvents ∨
      t.task.ledEvents = s.task.ledEvents &&& ~~~ledEvtMask := by
  rcases timed_step_cases h with ⟨rfl,rfl⟩ | ⟨bits,task,rfl,hfires,rfl⟩ |
    ⟨task,rfl,hdelay,hfires,rfl⟩ | ⟨task,rfl,hwait,hfires,rfl⟩
  · exact .inl rfl
  · cases hquiet
  · cases hfires with
    | waitBits => exact .inr rfl
    | _ => exact .inl rfl
  · cases hfires
    exact .inl rfl

theorem masked_twice (group : EventBits) :
    group &&& ~~~ledEvtMask &&& ~~~ledEvtMask = group &&& ~~~ledEvtMask := by
  rw [BitVec.and_assoc, BitVec.and_self]

theorem quiet_exec {s t : Timed} {as : List TimedAct} (hquiet : Quiet as)
    (h : timed.exec s as = some t) :
    t.task.ledEvents = s.task.ledEvents ∨
      t.task.ledEvents = s.task.ledEvents &&& ~~~ledEvtMask := by
  refine Machine.exec_labels (I := fun u : Timed => u.task.ledEvents = s.task.ledEvents ∨
    u.task.ledEvents = s.task.ledEvents &&& ~~~ledEvtMask) ?_ (.inl rfl) hquiet h
  intro u a v hu hquiet hstep
  rcases quiet_step hquiet hstep with hsame | hcleared
  · rwa [hsame]
  · rw [hcleared]
    rcases hu with hu | hu
    · exact .inr (by rw [hu])
    · exact .inr (by rw [hu, masked_twice])

theorem none_pending (group : EventBits) : has (group &&& ~~~ledEvtMask) ledEvtMask = false :=
  cleared_has (by decide) group

def Pc.branching : Pc → Bool
  | .burst _ | .burstDelay _ | .enterWrite | .exitWrite => true
  | _ => false

-- after the last event: the mode no longer changes and only the activity flash remains
structure Settling (running : Bool) (s : Timed) : Prop where
  orderly : Orderly s.task
  quiet : has s.task.ledEvents ledEvtMask = false
  mode : s.task.running = running
  round : s.task.pc = .wait ∨ s.task.pc = .idle ∨ s.task.events = 0
  lit : s.task.pc = .flashDelay → s.task.userLed3 = ledOn

section Settling

variable {running : Bool} {s t : Timed} {a : TimedAct}

theorem Settling.events_zero (hs : Settling running s) (hwait : s.task.pc ≠ .wait)
    (hidle : s.task.pc ≠ .idle) (m : EventBits) : has s.task.events m = false := by
  rcases hs.round with hpc | hpc | hzero
  · exact absurd hpc hwait
  · exact absurd hpc hidle
  · simp [hzero]

theorem Settling.not_branching (hs : Settling running s) : s.task.pc.branching = false := by
  have hcaused := hs.orderly.caused
  have hzero := hs.events_zero
  cases hpc : s.task.pc with
  | burst i | burstDelay i | enterWrite | exitWrite =>
    simp only [Caused, hpc] at hcaused
    rw [hzero (by simp [hpc]) (by simp [hpc])] at hcaused
    cases hcaused
  | _ => rfl

theorem Settling.moves (hs : Settling running s) {task : LedTask}
    (hfires : Fires s.task .task task) (horderly : Orderly task) :
    Settling running { s with task := task, slept := 0 } := by
  have hzero := hs.events_zero
  have hbranch := hs.not_branching
  cases hfires with
  | waitBits hpc hset => exact absurd (hset.symm.trans hs.quiet) (by simp)
  | burstBegin hpc hbit | enterSet hpc hbit | exitSet hpc hbit =>
    rw [hzero (by simp [hpc]) (by simp [hpc])] at hbit
    cases hbit
  | toggle i hpc | burstEnd i hpc | burstDelay i hpc | enterWrite hpc | exitWrite hpc =>
    simp [hpc, Pc.branching] at hbranch
  | burstSkip hpc | enterSkip hpc =>
    refine ⟨horderly,hs.quiet,hs.mode,?_,by simp⟩
    simpa [hpc] using hs.round
  | exitSkip hpc => exact ⟨horderly,hs.quiet,hs.mode,.inr (.inl rfl),by simp⟩
  | idleSkip hpc => exact ⟨horderly,hs.quiet,hs.mode,.inl rfl,by simp⟩
  | idleFlash hpc hev => exact ⟨horderly,hs.quiet,hs.mode,.inr (.inr hev),by simp⟩
  | flashOn hpc =>
    refine ⟨horderly,hs.quiet,hs.mode,.inr (.inr ?_),fun _ => rfl⟩
    simpa [hpc, LedTask.writeLed3] using hs.round
  | flashDelay hpc =>
    refine ⟨horderly,hs.quiet,hs.mode,.inr (.inr ?_),by simp⟩
    simpa [hpc] using hs.round
  | flashOff hpc => exact ⟨horderly,hs.quiet,hs.mode,.inl rfl,by simp [LedTask.writeLed3]⟩

theorem Settling.step (hs : Settling running s) (hquiet : isEvent a = false)
    (h : timed.step s a = some t) : Settling running t := by
  have horderly := orderly_timed hs.orderly h
  rcases timed_step_cases h with ⟨rfl,rfl⟩ | ⟨bits,task,rfl,hfires,rfl⟩ |
    ⟨task,rfl,hdelay,hfires,rfl⟩ | ⟨task,rfl,hwait,hfires,rfl⟩
  · exact ⟨horderly,hs.quiet,hs.mode,hs.round,hs.lit⟩
  · cases hquiet
  · exact hs.moves hfires horderly
  · cases hfires
    exact ⟨horderly,hs.quiet,hs.mode,.inr (.inr rfl),by simp⟩

theorem Settling.exec {as : List TimedAct} (hs : Settling running s) (hquiet : Quiet as)
    (h : timed.exec s as = some t) : Settling running t :=
  Machine.exec_labels (fun _ _ _ hs hquiet hstep => hs.step hquiet hstep) hs hquiet h

end Settling

structure Steadily (running : Bool) (s : Timed) : Prop where
  mode : s.task.running = running
  none_pending : has s.task.ledEvents ledEvtMask = false
  steady : running = true → s.task.userLed3 = ledOn
  flashing : running = false → s.Blocked → (s.task.userLed3 = ledOn ↔ s.task.pc = .flashDelay)

theorem Settling.steadily {running : Bool} {s : Timed} (hs : Settling running s) :
    Steadily running s := by
  have hlevel := hs.orderly.settled
  have hbranch := hs.not_branching
  refine ⟨hs.mode,hs.quiet,?_,?_⟩
  · rintro rfl
    have hmode := hs.mode
    cases hpc : s.task.pc with
    | burst i | burstDelay i | enterWrite | exitWrite => simp [hpc, Pc.branching] at hbranch
    | _ => simp_all [Settled, modeLevel]
  · rintro rfl hblocked
    have hmode := hs.mode
    rcases blocked_cases hblocked with ⟨hpc,_,_⟩ | ⟨i,hpc,_⟩ | ⟨hpc,_⟩
    · simp only [Settled, hpc, hmode] at hlevel
      simp [hlevel, hpc, modeLevel, ledOn, ledOff]
    · simp [hpc, Pc.branching] at hbranch
    · exact iff_of_true (hs.lit hpc) hpc

theorem mode_mask {m : EventBits}
    (hmode : m = ledEvtEnterRunningMode ∨ m = ledEvtExitRunningMode) : ledEvtMask &&& m = m := by
  rcases hmode with rfl | rfl <;> decide

theorem mode_settles {as bs : List TimedAct} {s t : Timed} {bits m : EventBits}
    (hmode : m = ledEvtEnterRunningMode ∨ m = ledEvtExitRunningMode) (hbit : has bits m = true)
    (h : timed.run (as ++ [.setBits bits]) = some s) (hquiet : Quiet bs)
    (hprompt : timed.MeetsFrom (fun _ => Timed.Prompt) [] s bs) (ht : timed.exec s bs = some t)
    (hticks : responseTicks < bs.countP isTick) :
    Steadily (!has s.task.ledEvents ledEvtExitRunningMode) t := by
  have hmask := mode_mask hmode
  obtain ⟨before,round,v,u,⟨rest,rfl⟩,hv,htaken⟩ := event_handled hmask
    (orderly_task (timed_follows.run h)) (pending_set hbit h) hprompt ht hticks
  have hpart (cs : List TimedAct) (hcs : cs ⊆ before ++ .task :: round ++ rest) : Quiet cs :=
    fun a ha => hquiet a (hcs ha)
  have htakes : timed.exec s (before ++ .task :: round) = some u :=
    Machine.exec_append_of hv htaken.exec
  have hpending : v.task.ledEvents = s.task.ledEvents := by
    rcases quiet_exec (hpart before (by simp)) hv with hsame | hcleared
    · exact hsame
    · have hgone := none_pending s.task.ledEvents
      rw [← hcleared, pending_mask hmask htaken.pending] at hgone
      cases hgone
  have hnone : has u.task.ledEvents ledEvtMask = false := by
    obtain ⟨w,hw,hu⟩ := Machine.exec_cons_iff.mp htaken.exec
    have hcleared := (wait_returns htaken.waits hw).2.2
    rcases quiet_exec (hpart round (by intro a ha; simp [ha])) hu with hsame | hagain
    · rw [hsame, hcleared]
      exact none_pending _
    · rw [hagain]
      exact none_pending _
  have hrun := timed_follows.run (Machine.exec_append_of h htakes)
  have hanswered := handled_answered (orderly_task hrun) (applied_task hrun) htaken.handled
  have hsettling : Settling (!has s.task.ledEvents ledEvtExitRunningMode) u := by
    refine ⟨orderly_task hrun,hnone,?_,.inr (.inl htaken.handled.1),by simp [htaken.handled.1]⟩
    rw [hanswered.running hmode, htaken.events, masked_has (by decide), hpending]
  rw [Machine.exec_append, htakes, Option.bind_some] at ht
  exact (hsettling.exec (hpart rest (List.subset_append_right _ _)) ht).steadily

theorem quiet_idleRound : Quiet idleRound := by
  intro a ha
  rcases List.mem_append.mp ha with htick | hrest
  · rw [List.eq_of_mem_replicate htick]
    rfl
  · rcases List.mem_cons.mp hrest with rfl | htask
    · rfl
    · rw [List.eq_of_mem_replicate htask]
      rfl

theorem mode_settles_entered :
    ∃ t, timed.exec entering (List.replicate 6 .task ++ (List.replicate 4 idleRound).flatten) =
      some t ∧ t.task.running = true ∧ t.task.userLed3 = ledOn := by
  obtain ⟨t,ht,hprompt⟩ := entering_rounds 4
  have hset : timed.run ([] ++ [.setBits ledEvtEnterRunningMode]) = some entering := by decide
  have hquiet : Quiet (List.replicate 6 .task ++ (List.replicate 4 idleRound).flatten) := by
    intro a ha
    rcases List.mem_append.mp ha with htask | hround
    · rw [List.eq_of_mem_replicate htask]
      rfl
    · obtain ⟨round,hmem,ha⟩ := List.mem_flatten.mp hround
      rw [List.eq_of_mem_replicate hmem] at ha
      exact quiet_idleRound a ha
  have hsteadily := mode_settles (.inl rfl) (by decide) hset hquiet hprompt ht (by decide +kernel)
  exact ⟨t,ht,hsteadily.mode,hsteadily.steady rfl⟩

end UphyDemo.Led
