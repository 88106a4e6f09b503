import UphyDemo.Led.Level
import UphyDemo.Led.Mode

namespace UphyDemo.Led
open Flags Transition

def Pc.togglesDone : Pc → Option Nat
  | .burst i => some i
  | .burstDelay i => some (i + 1)
  | _ => none

def LedTask.bursting (s : LedTask) : Prop := s.pc.togglesDone.isSome = true

def toggles (level : Bool) (k : Nat) : List Bool :=
  (List.range k).map fun i => toggled (i + 1) level

theorem toggles_succ (level : Bool) (k : Nat) :
    toggles level (k + 1) = toggles level k ++ [toggled (k + 1) level] := by
  simp [toggles, List.range_succ]

section Calls

variable (upCoreRunning : BitVec 32)

def ledLevels (s : LedTask) (e : Event) (t : LedTask) : List Bool :=
  levelChange s (e.act upCoreRunning) t

def burstStart (s : LedTask) (_ : Event) (t : LedTask) : List Unit :=
  if s.pc = .profinet ∧ t.pc = .burst 0 then [()] else []

def isSignal : Event → Bool
  | .cbProfinetSignalLedInd => true
  | _ => false

structure Bursting (u : LedTask) (burst : List Event) (k : Nat) (t : LedTask) : Prop where
  reached : (system upCoreRunning).exec u burst = some t
  always : (system upCoreRunning).AlwaysFrom LedTask.bursting u burst
  done : t.pc.togglesDone = some k
  bound : k ≤ 6
  level : t.userLed3 = toggled k u.userLed3
  levels : (system upCoreRunning).outputs (ledLevels upCoreRunning) u burst = toggles u.userLed3 k

structure BurstBegins (c : LedTask) (mid : List Event) (u : LedTask) : Prop where
  decided : ∃ s, (system upCoreRunning).exec c mid = some s ∧ s.pc = .profinet ∧
    (system upCoreRunning).step s .ledTask = some u
  begun : u.pc = .burst 0

def CompleteBurst (c : LedTask) (post : List Event) : Prop :=
  ∃ mid burst rest u v, post = mid ++ .ledTask :: (burst ++ rest) ∧
    BurstBegins upCoreRunning c mid u ∧ Bursting upCoreRunning u burst 6 v ∧ v.pc = .burst 6

def OpenBurst (c : LedTask) (post : List Event) (t : LedTask) : Prop :=
  ∃ mid burst u k, post = mid ++ .ledTask :: burst ∧
    BurstBegins upCoreRunning c mid u ∧ Bursting upCoreRunning u burst k t

def Armed (s : LedTask) : Prop :=
  s.pc = .profinet ∧ has s.events ledEvtProfinetSignal = true

def Answering (c : LedTask) (post : List Event) (t : LedTask) : Prop :=
  has t.ledEvents ledEvtProfinetSignal = true ∨ Armed t ∨
    OpenBurst upCoreRunning c post t ∨ CompleteBurst upCoreRunning c post

variable {upCoreRunning}

theorem completeBurst_concat {c : LedTask} {post : List Event} {e : Event}
    (h : CompleteBurst upCoreRunning c post) : CompleteBurst upCoreRunning c (post ++ [e]) := by
  obtain ⟨mid,burst,rest,u,v,rfl,hbegin,hburst,hv⟩ := h
  exact ⟨mid,burst,rest ++ [e],u,v,by simp,hbegin,hburst,hv⟩

theorem openBurst_begins {c s t : LedTask} {post : List Event}
    (hs : (system upCoreRunning).exec c post = some s) (hpc : s.pc = .profinet)
    (h : (system upCoreRunning).step s .ledTask = some t) (ht : t.pc = .burst 0) :
    OpenBurst upCoreRunning c (post ++ [.ledTask]) t := by
  refine ⟨post,[],t,0,rfl,⟨⟨s,hs,hpc,h⟩,ht⟩,?_⟩
  exact ⟨rfl,by simp [Machine.AlwaysFrom, LedTask.bursting, ht, Pc.togglesDone],
    by simp [ht, Pc.togglesDone],by omega,rfl,rfl⟩

theorem bursting_extends {u s t : LedTask} {burst : List Event} {k n : Nat} {e : Event}
    (hs : Bursting upCoreRunning u burst k s) (h : (system upCoreRunning).step s e = some t)
    (hpc : t.pc.togglesDone = some n) (hn : n ≤ 6) (hlevel : t.userLed3 = toggled n u.userLed3)
    (hout : toggles u.userLed3 k ++ ledLevels upCoreRunning s e t = toggles u.userLed3 n) :
    Bursting upCoreRunning u (burst ++ [e]) n t := by
  refine ⟨?_,?_,hpc,hn,hlevel,?_⟩
  · exact Machine.exec_append_of hs.reached (Machine.exec_cons_iff.mpr ⟨t,h,rfl⟩)
  · exact Machine.alwaysFrom_concat hs.always hs.reached h (by simp [LedTask.bursting, hpc])
  · rw [Machine.outputs_append hs.reached, Machine.outputs_cons h, hs.levels, ← hout]
    simp

theorem bursting_stays {u s t : LedTask} {burst : List Event} {k : Nat} {e : Event}
    (hs : Bursting upCoreRunning u burst k s) (h : (system upCoreRunning).step s e = some t)
    (hpc : t.pc.togglesDone = some k) (hlevel : t.userLed3 = s.userLed3) :
    Bursting upCoreRunning u (burst ++ [e]) k t := by
  have hout : ledLevels upCoreRunning s e t = [] := by simp [ledLevels, levelChange, hlevel]
  exact bursting_extends hs h hpc hs.bound (hlevel.trans hs.level) (by rw [hout, List.append_nil])

theorem bursting_toggles {u s t : LedTask} {burst : List Event} {k : Nat} {e : Event}
    (hs : Bursting upCoreRunning u burst k s) (h : (system upCoreRunning).step s e = some t)
    (hk : k < 6) (hpc : t.pc.togglesDone = some (k + 1)) (hlevel : t.userLed3 = !s.userLed3) :
    Bursting upCoreRunning u (burst ++ [e]) (k + 1) t := by
  have hnext : t.userLed3 = toggled (k + 1) u.userLed3 := by rw [hlevel, hs.level]; rfl
  have hout : ledLevels upCoreRunning s e t = [t.userLed3] := by
    simp [ledLevels, levelChange, hlevel]
  exact bursting_extends hs h hpc hk hnext (by rw [hout, hnext, toggles_succ])

theorem openBurst_stays {c s t : LedTask} {post : List Event} {e : Event}
    (hs : OpenBurst upCoreRunning c post s) (h : (system upCoreRunning).step s e = some t)
    (hpc : t.pc.togglesDone = s.pc.togglesDone) (hlevel : t.userLed3 = s.userLed3) :
    OpenBurst upCoreRunning c (post ++ [e]) t := by
  obtain ⟨mid,burst,u,k,rfl,hbegin,hburst⟩ := hs
  exact ⟨mid,burst ++ [e],u,k,by simp,hbegin,
    bursting_stays hburst h (hpc.trans hburst.done) hlevel⟩

theorem openBurst_toggles {c s t : LedTask} {post : List Event} {e : Event} {i : Nat}
    (hs : OpenBurst upCoreRunning c post s) (h : (system upCoreRunning).step s e = some t)
    (hspc : s.pc = .burst i) (hi : i < 6) (htpc : t.pc = .burstDelay i)
    (hlevel : t.userLed3 = !s.userLed3) : OpenBurst upCoreRunning c (post ++ [e]) t := by
  obtain ⟨mid,burst,u,k,rfl,hbegin,hburst⟩ := hs
  have hk := hburst.done
  simp only [hspc, Pc.togglesDone, Option.some.injEq] at hk
  subst hk
  exact ⟨mid,burst ++ [e],u,i + 1,by simp,hbegin,
    bursting_toggles hburst h hi (by rw [htpc]; rfl) hlevel⟩

theorem openBurst_ends {c s : LedTask} {post : List Event} {e : Event} {i : Nat}
    (hs : OpenBurst upCoreRunning c post s) (hpc : s.pc = .burst i) (hi : ¬ i < 6) :
    CompleteBurst upCoreRunning c (post ++ [e]) := by
  obtain ⟨mid,burst,u,k,rfl,hbegin,hburst⟩ := hs
  have hk := hburst.done
  simp only [hpc, Pc.togglesDone, Option.some.injEq] at hk
  subst hk
  obtain rfl : i = 6 := Nat.le_antisymm hburst.bound (Nat.not_lt.mp hi)
  exact ⟨mid,burst,[e],u,s,by simp,hbegin,hburst,hpc⟩

theorem openBurst_idle {c s : LedTask} {post : List Event} (hpc : s.pc.togglesDone = none) :
    ¬ OpenBurst upCoreRunning c post s := by
  rintro ⟨mid,burst,u,k,rfl,hbegin,hburst⟩
  have hk := hburst.done
  simp [hpc] at hk

theorem eq_ledTask_of_act {e : Event} (h : e.act upCoreRunning = .task) : e = .ledTask := by
  cases e with
  | cbStatusInd status =>
    simp only [Event.act, Led.cbStatusInd, ledSetRunningMode] at h
    split at h <;> simp at h
  | cbProfinetSignalLedInd => simp [Event.act, Led.cbProfinetSignalLedInd, ledProfinetSignal] at h
  | ledTask => rfl
  | waitTimeout => simp [Event.act] at h

theorem openBurst_step {c s t : LedTask} {post : List Event} {e : Event}
    (hs : OpenBurst upCoreRunning c post s) (h : (system upCoreRunning).step s e = some t) :
    OpenBurst upCoreRunning c (post ++ [e]) t ∨ CompleteBurst upCoreRunning c (post ++ [e]) := by
  have hfires : Fires s (e.act upCoreRunning) t := fires_of_step h
  generalize e.act upCoreRunning = a at hfires
  cases hfires with
  | setBits bits => exact .inl (openBurst_stays hs h rfl rfl)
  | toggle i hpc hi => exact .inl (openBurst_toggles hs h hpc hi rfl rfl)
  | burstEnd i hpc hi => exact .inr (openBurst_ends hs hpc hi)
  | burstDelay i hpc => exact .inl (openBurst_stays hs h (by rw [hpc]; rfl) rfl)
  | waitBits hpc | waitTimeout hpc | burstBegin hpc | burstSkip hpc | enterSet hpc
  | enterSkip hpc | enterWrite hpc | exitSet hpc | exitSkip hpc | exitWrite hpc | idleFlash hpc
  | idleSkip hpc | flashOn hpc | flashDelay hpc | flashOff hpc =>
    exact absurd hs (openBurst_idle (by rw [hpc]; rfl))

theorem pending_step {s t : LedTask} {a : Act} (h : Fires s a t)
    (hs : has s.ledEvents ledEvtProfinetSignal = true) :
    has t.ledEvents ledEvtProfinetSignal = true ∨ Armed t := by
  cases h with
  | setBits bits => exact .inl (by simp [hs])
  | waitBits hpc =>
    refine .inr ⟨rfl,?_⟩
    rw [masked_has (by decide)]
    exact hs
  | _ => exact .inl hs

theorem armed_step {c s t : LedTask} {post : List Event} {e : Event}
    (hexec : (system upCoreRunning).exec c post = some s) (hs : Armed s)
    (h : (system upCoreRunning).step s e = some t) :
    Armed t ∨ OpenBurst upCoreRunning c (post ++ [e]) t := by
  have hfires : Fires s (e.act upCoreRunning) t := fires_of_step h
  generalize ha : e.act upCoreRunning = a at hfires
  cases hfires with
  | setBits bits => exact .inl hs
  | burstBegin hpc =>
    obtain rfl := eq_ledTask_of_act ha
    exact .inr (openBurst_begins hexec hpc h rfl)
  | burstSkip hpc hbit => exact absurd (hs.2.symm.trans hbit) (by simp)
  | waitBits hpc | waitTimeout hpc | toggle i hpc | burstEnd i hpc | burstDelay i hpc
  | enterSet hpc | enterSkip hpc | enterWrite hpc | exitSet hpc | exitSkip hpc | exitWrite hpc
  | idleFlash hpc | idleSkip hpc | flashOn hpc | flashDelay hpc | flashOff hpc =>
    exact absurd (hs.1.symm.trans hpc) (by simp)

theorem answering_step {c s t : LedTask} {post : List Event} {e : Event}
    (hexec : (system upCoreRunning).exec c post = some s)
    (hs : Answering upCoreRunning c post s) (h : (system upCoreRunning).step s e = some t) :
    Answering upCoreRunning c (post ++ [e]) t := by
  rcases hs with hpending | harmed | hopen | hdone
  · rcases pending_step (fires_of_step h) hpending with hnext | hnext
    · exact .inl hnext
    · exact .inr (.inl hnext)
  · rcases armed_step hexec harmed h with hnext | hnext
    · exact .inr (.inl hnext)
    · exact .inr (.inr (.inl hnext))
  · exact .inr (.inr (openBurst_step hopen h))
  · exact .inr (.inr (.inr (completeBurst_concat hdone)))

theorem answering_exec {c s : LedTask} {post : List Event}
    (hc : has c.ledEvents ledEvtProfinetSignal = true)
    (h : (system upCoreRunning).exec c post = some s) : Answering upCoreRunning c post s := by
  let Answered (es : List Event) (t : LedTask) :=
    (system upCoreRunning).exec c es = some t ∧ Answering upCoreRunning c es t
  have hstart : Answered [] c := ⟨rfl,.inl hc⟩
  have hall : Answered ([] ++ post) s := by
    refine Machine.exec_history_free ?_ hstart h
    intro es u e v hu huv
    exact ⟨Machine.exec_append_of hu.1 (Machine.exec_cons_iff.mpr ⟨v,huv,rfl⟩),
      answering_step hu.1 hu.2 huv⟩
  exact hall.2

theorem answered_at_wait {c s : LedTask} {post : List Event}
    (hc : has c.ledEvents ledEvtProfinetSignal = true)
    (h : (system upCoreRunning).exec c post = some s) (hpc : s.pc = .wait)
    (hidle : has s.ledEvents ledEvtProfinetSignal = false) :
    CompleteBurst upCoreRunning c post := by
  rcases answering_exec hc h with hpending | harmed | hopen | hdone
  · exact absurd (hpending.symm.trans hidle) (by simp)
  · exact absurd (harmed.1.symm.trans hpc) (by simp)
  · exact absurd hopen (openBurst_idle (by rw [hpc]; rfl))
  · exact hdone

def credit (s : LedTask) : Nat :=
  (has s.ledEvents ledEvtProfinetSignal).toNat +
    if s.pc = .profinet then (has s.events ledEvtProfinetSignal).toNat else 0

theorem credit_setBits {s t : LedTask} {bits : EventBits}
    (h : step s (.setBits bits) = some t) :
    t.pc = s.pc ∧ credit t ≤ credit s + (has bits ledEvtProfinetSignal).toNat := by
  obtain rfl := Option.some.inj h
  refine ⟨rfl,?_⟩
  simp only [credit, xEventGroupSetBits, or_has]
  cases has s.ledEvents ledEvtProfinetSignal <;> cases has bits ledEvtProfinetSignal <;>
    simp only [Bool.or_true, Bool.or_false, Bool.toNat_true, Bool.toNat_false] <;> omega

theorem running_bits (on : Bool) :
    ∃ bits, ledSetRunningMode on = .setBits bits ∧ has bits ledEvtProfinetSignal = false := by
  cases on with
  | true => exact ⟨ledEvtEnterRunningMode,rfl,by decide⟩
  | false => exact ⟨ledEvtExitRunningMode,rfl,by decide⟩

theorem credit_task {s t : LedTask} {a : Act} (h : Fires s a t) (ha : ∀ bits, a ≠ .setBits bits) :
    (if s.pc = .profinet ∧ t.pc = .burst 0 then 1 else 0) + credit t ≤ credit s := by
  cases h with
  | setBits bits => exact absurd rfl (ha bits)
  | waitBits hpc =>
    have hclear : has (s.ledEvents &&& ~~~ledEvtMask) ledEvtProfinetSignal = false :=
      cleared_has (by decide) _
    have htaken : has (s.ledEvents &&& ledEvtMask) ledEvtProfinetSignal =
        has s.ledEvents ledEvtProfinetSignal := masked_has (by decide) _
    simp [credit, hpc, hclear, htaken]
  | burstBegin hpc hbit => simp [credit, hpc, hbit]; omega
  | toggle i hpc | burstEnd i hpc | burstDelay i hpc | waitTimeout hpc | burstSkip hpc
  | enterSet hpc | enterSkip hpc | enterWrite hpc | exitSet hpc | exitSkip hpc | exitWrite hpc
  | idleFlash hpc | idleSkip hpc | flashOn hpc | flashDelay hpc | flashOff hpc =>
    simp [credit, LedTask.writeLed3, hpc]

theorem burstStart_length (s : LedTask) (e : Event) (t : LedTask) :
    (burstStart s e t).length = if s.pc = .profinet ∧ t.pc = .burst 0 then 1 else 0 := by
  unfold burstStart
  split <;> rfl

theorem burstStart_same {s t : LedTask} (e : Event) (hpc : t.pc = s.pc) :
    (burstStart s e t).length = 0 := by
  rw [burstStart_length, hpc, if_neg]
  rintro ⟨h,hburst⟩
  simp [h] at hburst

theorem credit_step (s : LedTask) (e : Event) (t : LedTask)
    (h : (system upCoreRunning).step s e = some t) :
    (burstStart s e t).length + credit t ≤ credit s + if isSignal e then 1 else 0 := by
  cases e with
  | cbStatusInd status =>
    obtain ⟨bits,hbits,hclear⟩ := running_bits (has status upCoreRunning)
    have hset : step s (.setBits bits) = some t := hbits ▸ h
    obtain ⟨hpc,hcredit⟩ := credit_setBits hset
    rw [hclear] at hcredit
    rw [burstStart_same _ hpc]
    simpa [isSignal] using hcredit
  | cbProfinetSignalLedInd =>
    have hset : step s (.setBits ledEvtProfinetSignal) = some t := h
    obtain ⟨hpc,hcredit⟩ := credit_setBits hset
    have hbit : has ledEvtProfinetSignal ledEvtProfinetSignal = true := by decide
    rw [hbit] at hcredit
    rw [burstStart_same _ hpc]
    simpa [isSignal] using hcredit
  | ledTask =>
    have hfires : Fires s .task t := fires_of_step h
    rw [burstStart_length]
    exact credit_task hfires (by simp)
  | waitTimeout =>
    have hfires : Fires s .timeout t := fires_of_step h
    rw [burstStart_length]
    exact credit_task hfires (by simp)

theorem bursts_le_calls {s t : LedTask} {es : List Event}
    (h : (system upCoreRunning).exec s es = some t) :
    ((system upCoreRunning).outputs burstStart s es).length + credit t ≤
      credit s + es.countP isSignal :=
  Machine.outputs_amortised credit_step h

theorem signals_are_answered {es : List Event} {s : LedTask}
    (h : (system upCoreRunning).run es = some s) :
    (s.pc = .wait → has s.ledEvents ledEvtProfinetSignal = false →
      ∀ pre post, es = pre ++ .cbProfinetSignalLedInd :: post →
        ∃ c, (system upCoreRunning).run (pre ++ [.cbProfinetSignalLedInd]) = some c ∧
          CompleteBurst upCoreRunning c post) ∧
    ((system upCoreRunning).outputs burstStart LedTask.boot es).length ≤ es.countP isSignal := by
  refine ⟨?_,?_⟩
  · rintro hpc hidle pre post rfl
    rw [Machine.run, Machine.exec_append] at h
    obtain ⟨p,hp,hrest⟩ := Option.bind_eq_some_iff.mp h
    obtain ⟨c,hc,hpost⟩ := Machine.exec_cons_iff.mp hrest
    have hset : has c.ledEvents ledEvtProfinetSignal = true := by
      obtain rfl := Option.some.inj hc
      simp [xEventGroupSetBits,
        show has ledEvtProfinetSignal ledEvtProfinetSignal = true by decide]
    exact ⟨c,Machine.exec_append_of hp (Machine.exec_cons_iff.mpr ⟨c,hc,rfl⟩),
      answered_at_wait hset hpost hpc hidle⟩
  · have hbound := bursts_le_calls h
    have hboot : credit LedTask.boot = 0 := by decide
    simp only [system, hboot] at hbound
    simp only [system]
    omega

end Calls

def signalRun : List Event := .cbProfinetSignalLedInd :: List.replicate 18 .ledTask

def signalled : LedTask where
  ledEvents := 0
  userLed3 := ledOff
  events := ledEvtProfinetSignal
  running := false
  pc := .wait

theorem signals_are_answered_once :
    (∃ c, (system 1).run ([] ++ [.cbProfinetSignalLedInd]) = some c ∧
      CompleteBurst 1 c (List.replicate 18 .ledTask)) ∧
    ((system 1).outputs burstStart LedTask.boot signalRun).length ≤
      signalRun.countP isSignal := by
  have h := signals_are_answered (by decide : (system 1).run signalRun = some signalled)
  exact ⟨h.1 rfl (by decide) [] (List.replicate 18 .ledTask) rfl,h.2⟩

end UphyDemo.Led
