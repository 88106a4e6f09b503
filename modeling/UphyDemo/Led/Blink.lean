import UphyDemo.Led.Timed

namespace UphyDemo.Led
open Flags Transition

def isEvent : TimedAct → Bool
  | .setBits _ => true
  | _ => false

def Undisturbed (s : Timed) (a : TimedAct) : Prop := s.Prompt a ∧ isEvent a = false

instance (s : Timed) (a : TimedAct) : Decidable (Undisturbed s a) := by
  unfold Undisturbed
  infer_instance

def blinkPeriod : Nat := ledWaitTicks + ledActivityFlashDelay

def Phase (s : Timed) : Prop :=
  match s.task.pc with
  | .wait => s.now % blinkPeriod = s.slept ∧ s.slept ≤ ledWaitTicks ∧ s.task.userLed3 = ledOff
  | .profinet | .enter | .exit | .idle | .flashOn =>
      s.now % blinkPeriod = ledWaitTicks ∧ s.task.userLed3 = ledOff ∧ s.task.events = 0
  | .flashDelay => s.now % blinkPeriod = (ledWaitTicks + s.slept) % blinkPeriod ∧
      s.slept ≤ ledActivityFlashDelay ∧ s.task.userLed3 = ledOn
  | .flashOff => s.now % blinkPeriod = 0 ∧ s.task.userLed3 = ledOn
  | _ => False

structure Blinking (s : Timed) : Prop where
  quiet : s.task.ledEvents = 0
  stopped : s.task.running = false
  phase : Phase s

theorem blinkPeriod_eq : blinkPeriod = 2020 := rfl

theorem Blinking.tick {s : Timed} (hs : Blinking s) (hblocked : s.Blocked) :
    Blinking { s with now := s.now + 1, slept := s.slept + 1 } := by
  have hphase := hs.phase
  refine ⟨hs.quiet,hs.stopped,?_⟩
  rcases blocked_cases hblocked with ⟨hpc,_,hslept⟩ | ⟨i,hpc,_⟩ | ⟨hpc,hslept⟩
  · simp only [Phase, hpc, blinkPeriod_eq, ledWaitTicks_eq] at hphase hslept ⊢
    exact ⟨by omega,by omega,hphase.2.2⟩
  · simp [Phase, hpc] at hphase
  · simp only [Phase, hpc, blinkPeriod_eq, ledWaitTicks_eq, ledActivityFlashDelay_eq] at hphase hslept ⊢
    exact ⟨by omega,by omega,hphase.2.2⟩

theorem Blinking.moves {s : Timed} (hs : Blinking s) {task : LedTask}
    (hdelay : s.task.pc.delay ≤ s.slept) (hfires : Fires s.task .task task) :
    Blinking { s with task := task, slept := 0 } := by
  have hphase := hs.phase
  cases hfires with
  | waitBits hpc hset => simp [hs.quiet] at hset
  | burstBegin hpc hbit =>
    simp only [Phase, hpc] at hphase
    simp [hphase.2.2] at hbit
  | enterSet hpc hbit | exitSet hpc hbit =>
    simp only [Phase, hpc] at hphase
    simp [hphase.2.2] at hbit
  | idleSkip hpc hbusy =>
    simp only [Phase, hpc] at hphase
    exact absurd ⟨hphase.2.2,hs.stopped⟩ hbusy
  | burstSkip hpc | enterSkip hpc | exitSkip hpc | idleFlash hpc =>
    refine ⟨hs.quiet,hs.stopped,?_⟩
    simpa only [Phase, hpc] using hphase
  | flashOn hpc =>
    simp only [Phase, hpc] at hphase
    exact ⟨hs.quiet,hs.stopped,hphase.1.trans rfl,Nat.zero_le _,rfl⟩
  | flashDelay hpc =>
    refine ⟨hs.quiet,hs.stopped,?_⟩
    simp only [Pc.delay, hpc] at hdelay
    simp only [Phase, hpc, blinkPeriod_eq, ledWaitTicks_eq, ledActivityFlashDelay_eq] at hphase hdelay ⊢
    exact ⟨by omega,hphase.2.2⟩
  | flashOff hpc =>
    simp only [Phase, hpc] at hphase
    exact ⟨hs.quiet,hs.stopped,hphase.1,Nat.zero_le _,rfl⟩
  | toggle i hpc | burstEnd i hpc | burstDelay i hpc | enterWrite hpc | exitWrite hpc =>
    simp [Phase, hpc] at hphase

theorem Blinking.step {s t : Timed} {a : TimedAct} (hs : Blinking s) (hC : Undisturbed s a)
    (h : timed.step s a = some t) : Blinking t := by
  have hphase := hs.phase
  rcases timed_step_cases h with ⟨rfl,rfl⟩ | ⟨bits,task,rfl,hfires,rfl⟩ |
    ⟨task,rfl,hdelay,hfires,rfl⟩ | ⟨task,rfl,hwait,hfires,rfl⟩
  · exact hs.tick (hC.1 rfl)
  · cases hC.2
  · exact hs.moves hdelay hfires
  · cases hfires with
    | waitTimeout hpc =>
      simp only [Phase, hpc] at hphase
      exact ⟨hs.quiet,hs.stopped,by dsimp only; omega,hphase.2.2,rfl⟩

end UphyDemo.Led
