import UphyDemo.Foundation.Simulation
import UphyDemo.Startup.Boot

namespace UphyDemo.Startup
open CString Transition

def StartPc.creates (created : Bool) : StartPc → Bool
  | .test _ => false
  | .create _ => created

def creates (s : Boot) : Label → Bool
  | .init x =>
      match s.init with
      | .startUphy pc => pc.creates x.created
      | _ => false
  | .shell x =>
      match s.shell with
      | .startUphy pc => pc.creates x.created
      | _ => false
  | _ => false

def TestHolds (s : Boot) (a : Label) : Prop :=
  creates s a = true → s.kernel.uphyTaskHdl = none

def AtMostOnce (s : Boot) : Prop := s.kernel.tasks.length ≤ 1

inductive Party where
  | initTask
  | shell
deriving DecidableEq, Repr

inductive StartEvent where
  | tested (who : Party)
  | created (who : Party)
deriving DecidableEq, Repr

def StartPc.events (who : Party) (created : Bool) : StartPc → List StartEvent
  | .test _ => [.tested who]
  | .create _ => if created then [.created who] else []

def startEvents (s : Boot) : Label → List StartEvent
  | .init x =>
      match s.init with
      | .startUphy pc => pc.events .initTask x.created
      | _ => []
  | .shell x =>
      match s.shell with
      | .startUphy pc => pc.events .shell x.created
      | _ => []
  | _ => []

-- the tests of `uphy_task_hdl` and the successful calls of `xTaskCreate`, in the order of the run
def startLog (f : Supported) (deviceName : Str) (as : List Label) : List StartEvent :=
  (booting f deviceName).outputs (fun s a _ => startEvents s a) (.start deviceName) as

def StartEvent.since (who : Party) (uncreated : Bool) : StartEvent → Bool
  | .tested who' => if who' = who then true else uncreated
  | .created _ => false

-- no task has been created since `who` last tested the handle
def UncreatedSince (who : Party) (log : List StartEvent) : Prop :=
  log.foldl (StartEvent.since who) true = true

def Unraced (f : Supported) (deviceName : Str) (pre : List Label) (s : Boot) (a : Label) : Prop :=
  ∀ who, .created who ∈ startEvents s a → UncreatedSince who (startLog f deviceName pre)

section Step

variable {f : Supported} {s t : Boot}

def ShellTask.startPc : ShellTask → Option StartPc
  | .startUphy pc => some pc
  | _ => none

def Boot.startPc (s : Boot) : Party → Option StartPc
  | .initTask => s.init.startPc
  | .shell => s.shell.startPc

theorem InitTask.startPc_resume (next : Option StartPc) : (InitTask.resume next).startPc = next := by
  cases next <;> rfl

theorem ShellTask.startPc_resume (next : Option StartPc) :
    (ShellTask.resume next).startPc = next := by
  cases next <;> rfl

-- a step of the party `who` inside `start_uphy`
structure StartStep (s t : Boot) (a : Label) (who : Party) (created : Bool) (pc : StartPc) :
    Prop where
  before : s.startPc who = some pc
  after : t.startPc who = (startUphyStep created s.kernel pc).1
  kernel : t.kernel = (startUphyStep created s.kernel pc).2
  other : ∀ who', who' ≠ who → t.startPc who' = s.startPc who'
  events : startEvents s a = pc.events who created
  creates : creates s a = pc.creates created

structure OtherStep (s t : Boot) (a : Label) : Prop where
  kernel : t.kernel = s.kernel
  create : ∀ who b, t.startPc who = some (.create b) → s.startPc who = some (.create b)
  events : startEvents s a = []
  creates : creates s a = false

theorem initStep_start {x : External} (h : s.initStep f x = some t) :
    OtherStep s t (.init x) ∨ ∃ pc, StartStep s t (.init x) .initTask x.created pc := by
  rcases initStep_cases h with ⟨op,rest,hpc,rfl⟩ | ⟨_,hpc,next,_,hnext,rfl⟩ | ⟨pc,hpc,rfl⟩
  · refine .inl ⟨rfl,?_,by simp [startEvents, hpc],by simp [Startup.creates, hpc]⟩
    rintro (_ | _) b hb
    · cases hb
    · exact hb
  · refine .inl ⟨rfl,?_,?_,?_⟩
    · rintro (_ | _) b hb
      · exact absurd hb (hnext b)
      · exact hb
    · cases hinit : s.init <;> simp_all [startEvents, InitTask.startPc]
    · cases hinit : s.init <;> simp_all [Startup.creates, InitTask.startPc]
  · refine .inr ⟨pc,by simp [Boot.startPc, hpc, InitTask.startPc],InitTask.startPc_resume _,rfl,
      ?_,by simp [startEvents, hpc],by simp [Startup.creates, hpc]⟩
    rintro (_ | _) hwho
    · exact absurd rfl hwho
    · rfl

theorem shellStep_start {x : External} (h : s.shellStep x = some t) :
    OtherStep s t (.shell x) ∨ ∃ pc, StartStep s t (.shell x) .shell x.created pc := by
  rcases shellStep_cases h with ⟨next,hnext,rfl⟩ | ⟨pc,hpc,rfl⟩
  · refine .inl ⟨rfl,?_,?_,?_⟩
    · rintro (_ | _) b hb
      · exact hb
      · cases hshell : s.shell <;> simp_all [ShellTask.next, Boot.startPc] <;> subst hnext <;> cases hb
    · cases hshell : s.shell <;> simp_all [startEvents, ShellTask.next]
    · cases hshell : s.shell <;> simp_all [Startup.creates, ShellTask.next]
  · refine .inr ⟨pc,by simp [Boot.startPc, hpc, ShellTask.startPc],ShellTask.startPc_resume _,rfl,
      ?_,by simp [startEvents, hpc],by simp [Startup.creates, hpc]⟩
    rintro (_ | _) hwho
    · rfl
    · exact absurd rfl hwho

theorem step_start {a : Label} (h : s.step f a = some t) :
    OtherStep s t a ∨ ∃ who created pc, StartStep s t a who created pc := by
  cases a with
  | init x =>
    rcases initStep_start h with hother | ⟨pc,hstart⟩
    · exact .inl hother
    · exact .inr ⟨_,_,pc,hstart⟩
  | shell x =>
    rcases shellStep_start h with hother | ⟨pc,hstart⟩
    · exact .inl hother
    · exact .inr ⟨_,_,pc,hstart⟩
  | command c =>
    obtain ⟨_,rfl⟩ := commandStep_cases h
    refine .inl ⟨rfl,?_,rfl,rfl⟩
    rintro (_ | _) b hb
    · exact hb
    · cases hdispatch : Boot.dispatch f c with
      | startUphy pc =>
        obtain ⟨bustype,rfl⟩ := dispatch_startUphy hdispatch
        simp [Boot.startPc, hdispatch, ShellTask.startPc] at hb
      | _ => simp [Boot.startPc, hdispatch, ShellTask.startPc] at hb
  | uphy k =>
    rcases uphyStep_cases h with ⟨pc,next,_,_,rfl⟩ | ⟨bustype,_,_,rfl⟩ <;>
      exact .inl ⟨rfl,fun who b hb => by cases who <;> exact hb,rfl,rfl⟩
  | callback k c =>
    obtain ⟨_,rfl⟩ := callbackStep_cases h
    exact .inl ⟨rfl,fun who b hb => by cases who <;> exact hb,rfl,rfl⟩

theorem startUphyStep_kernel (created : Bool) (k : Kernel) (pc : StartPc) :
    (pc.creates created = false ∧ (startUphyStep created k pc).2 = k) ∨
    (pc.creates created = true ∧ Created k (startUphyStep created k pc).2) := by
  cases pc with
  | test b => exact .inl ⟨rfl,rfl⟩
  | create b =>
    cases created with
    | true => exact .inr ⟨rfl,b,rfl⟩
    | false => exact .inl ⟨rfl,rfl⟩

theorem kernel_step {a : Label} (h : s.step f a = some t) :
    (creates s a = false ∧ t.kernel = s.kernel) ∨
    (creates s a = true ∧ Created s.kernel t.kernel) := by
  rcases step_start h with hother | ⟨who,created,pc,hstart⟩
  · exact .inl ⟨hother.creates,hother.kernel⟩
  · rw [hstart.creates, hstart.kernel]
    exact startUphyStep_kernel created s.kernel pc

theorem creates_enabled {a : Label} (h : s.step f a = none) : creates s a = false := by
  cases a with
  | init x =>
    cases hpc : s.init with
    | startUphy pc => simp [Boot.step, Boot.initStep, hpc] at h
    | _ => simp [creates, hpc]
  | shell x =>
    cases hpc : s.shell with
    | startUphy pc => simp [Boot.step, Boot.shellStep, hpc] at h
    | _ => simp [creates, hpc]
  | _ => rfl

theorem handleSet_step {a : Label} (hs : s.kernel.HandleSet) (h : s.step f a = some t) :
    t.kernel.HandleSet := by
  rcases kernel_step h with ⟨_,hk⟩ | ⟨_,hk⟩
  · rw [hk]
    exact hs
  · exact hk.handleSet

theorem atMostOnce_step {a : Label} (hs : s.kernel.HandleSet) (hone : AtMostOnce s)
    (h : s.step f a = some t) : AtMostOnce t ↔ TestHolds s a := by
  rcases kernel_step h with ⟨hc,hk⟩ | ⟨hc,hk⟩
  · have hpass : TestHolds s a := by simp [TestHolds, hc]
    have hsame : AtMostOnce t := by simpa [AtMostOnce, hk] using hone
    exact ⟨fun _ => hpass,fun _ => hsame⟩
  · have htest : TestHolds s a ↔ s.kernel.uphyTaskHdl = none := by simp [TestHolds, hc]
    rw [htest]
    exact hk.tasks_le_one_iff.trans hs.symm

theorem startUphyStep_next {created : Bool} {k : Kernel} {pc : StartPc} {b : Bustype}
    (h : (startUphyStep created k pc).1 = some (.create b)) :
    pc = .test b ∧ k.uphyTaskHdl = none := by
  cases pc with
  | test c =>
    by_cases hk : k.uphyTaskHdl = none
    · simp [startUphyStep, hk] at h
      exact ⟨by rw [h],hk⟩
    · simp [startUphyStep, hk] at h
  | create c => cases h

theorem StartPc.created_iff {who who' : Party} {created : Bool} {pc : StartPc} :
    .created who ∈ pc.events who' created ↔ who = who' ∧ pc.creates created = true := by
  cases pc with
  | test b => simp [StartPc.events, StartPc.creates]
  | create b => cases created <;> simp [StartPc.events, StartPc.creates]

theorem StartPc.creates_pc {created : Bool} {pc : StartPc} (h : pc.creates created = true) :
    ∃ b, pc = .create b := by
  cases pc with
  | test b => cases h
  | create b => exact ⟨b,rfl⟩

theorem startEvents_cases (s : Boot) (a : Label) :
    (startEvents s a = [] ∧ creates s a = false) ∨
    ∃ who created pc, s.startPc who = some pc ∧ startEvents s a = pc.events who created ∧
      creates s a = pc.creates created := by
  cases a with
  | init x =>
    cases hpc : s.init with
    | startUphy pc =>
      exact .inr ⟨.initTask,x.created,pc,by simp [Boot.startPc, hpc, InitTask.startPc],
        by simp [startEvents, hpc],by simp [creates, hpc]⟩
    | _ => exact .inl ⟨by simp [startEvents, hpc],by simp [creates, hpc]⟩
  | shell x =>
    cases hpc : s.shell with
    | startUphy pc =>
      exact .inr ⟨.shell,x.created,pc,by simp [Boot.startPc, hpc, ShellTask.startPc],
        by simp [startEvents, hpc],by simp [creates, hpc]⟩
    | _ => exact .inl ⟨by simp [startEvents, hpc],by simp [creates, hpc]⟩
  | _ => exact .inl ⟨rfl,rfl⟩

theorem created_mem {a : Label} {who : Party} (h : .created who ∈ startEvents s a) :
    creates s a = true ∧ ∃ b, s.startPc who = some (.create b) := by
  rcases startEvents_cases s a with ⟨hnone,_⟩ | ⟨who',created,pc,hpc,hevents,hcreates⟩
  · rw [hnone] at h
    cases h
  · rw [hevents] at h
    obtain ⟨rfl,hc⟩ := StartPc.created_iff.mp h
    obtain ⟨b,rfl⟩ := StartPc.creates_pc hc
    exact ⟨hcreates.trans hc,b,hpc⟩

theorem exists_created {a : Label} (h : creates s a = true) :
    ∃ who, .created who ∈ startEvents s a := by
  rcases startEvents_cases s a with ⟨_,hnone⟩ | ⟨who,created,pc,_,hevents,hcreates⟩
  · rw [hnone] at h
    cases h
  · refine ⟨who,?_⟩
    rw [hevents]
    exact StartPc.created_iff.mpr ⟨rfl,hcreates.symm.trans h⟩

end Step

section Exclusive

variable {f : Supported} {s t : Boot}

def Overlap (s : Boot) : Prop :=
  (∃ b, s.init = .startUphy (.create b)) ∧ ∃ b, s.shell = .startUphy (.create b)

def Tested (s : Boot) : Prop :=
  ∀ who b, s.startPc who = some (.create b) → s.kernel.uphyTaskHdl = none

theorem overlap_of_creating {who who' : Party} {b c : Bustype} (hne : who' ≠ who)
    (h : s.startPc who = some (.create b)) (h' : s.startPc who' = some (.create c)) :
    Overlap s := by
  have hinit (d : Bustype) (hd : s.init.startPc = some (.create d)) :
      s.init = .startUphy (.create d) := by
    cases hpc : s.init <;> simp_all [InitTask.startPc]
  have hshell (d : Bustype) (hd : s.shell.startPc = some (.create d)) :
      s.shell = .startUphy (.create d) := by
    cases hpc : s.shell <;> simp_all [ShellTask.startPc]
  cases who with
  | initTask =>
    cases who' with
    | initTask => exact absurd rfl hne
    | shell => exact ⟨⟨b,hinit b h⟩,c,hshell c h'⟩
  | shell =>
    cases who' with
    | initTask => exact ⟨⟨c,hinit c h'⟩,b,hshell b h⟩
    | shell => exact absurd rfl hne

theorem Tested.testHolds (hs : Tested s) (a : Label) : TestHolds s a := by
  intro hc
  obtain ⟨who,hmem⟩ := exists_created hc
  obtain ⟨_,b,hb⟩ := created_mem hmem
  exact hs who b hb

theorem Tested.step {a : Label} (hs : Tested s) (hexcl : ¬ Overlap s)
    (h : s.step f a = some t) : Tested t := by
  intro who b hb
  rcases step_start h with hother | ⟨mover,created,pc,hstart⟩
  · rw [hother.kernel]
    exact hs who b (hother.create who b hb)
  · rw [hstart.kernel]
    by_cases hwho : who = mover
    · subst hwho
      rw [hstart.after] at hb
      obtain ⟨rfl,hnone⟩ := startUphyStep_next hb
      exact hnone
    · rw [hstart.other who hwho] at hb
      cases pc with
      | test c => exact hs who b hb
      | create c => exact absurd (overlap_of_creating hwho hstart.before hb) hexcl

theorem tested_of_exclusive {deviceName : Str} {as : List Label}
    (h : (booting f deviceName).Meets (fun _ s _ => ¬ Overlap s) as) :
    (booting f deviceName).Meets (fun _ => TestHolds) as := by
  refine Machine.meetsFrom_of_invariant (I := Tested) ?_ ?_ ?_ h
  · intro pre s a t hs hexcl hstep
    exact hs.step hexcl hstep
  · intro pre s a hs _
    exact hs.testHolds a
  · rintro (_ | _) b hb <;> cases hb

end Exclusive

section Raced

variable {f : Supported} {deviceName : Str}

theorem startLog_concat {pre : List Label} {a : Label} {s t : Boot}
    (h : (booting f deviceName).run pre = some s) (hstep : s.step f a = some t) :
    startLog f deviceName (pre ++ [a]) = startLog f deviceName pre ++ startEvents s a := by
  have hone : (booting f deviceName).step s a = some t := hstep
  have happend : (booting f deviceName).outputs (fun s a _ => startEvents s a) _ (pre ++ [a]) = _ :=
    Machine.outputs_append h
  rw [Machine.outputs_cons hone] at happend
  simpa [startLog, booting] using happend

theorem uncreatedSince_concat {who : Party} {log : List StartEvent} {e : StartEvent} :
    UncreatedSince who (log ++ [e]) ↔ e = .tested who ∨
      (UncreatedSince who log ∧ ∀ other, e ≠ .created other) := by
  cases e with
  | created other => simp [UncreatedSince, StartEvent.since]
  | tested other =>
    by_cases hother : other = who <;> simp [UncreatedSince, StartEvent.since, hother]

structure Recorded (f : Supported) (deviceName : Str) (pre : List Label) (s : Boot) : Prop where
  run : (booting f deviceName).run pre = some s
  uncreated : ∀ who b, s.startPc who = some (.create b) →
    (UncreatedSince who (startLog f deviceName pre) ↔ s.kernel.uphyTaskHdl = none)

theorem Recorded.step {pre : List Label} {a : Label} {s t : Boot}
    (hs : Recorded f deviceName pre s) (h : s.step f a = some t) :
    Recorded f deviceName (pre ++ [a]) t := by
  refine ⟨Machine.run_concat hs.run h,?_⟩
  intro who b hb
  rw [startLog_concat hs.run h]
  rcases step_start h with hother | ⟨mover,created,pc,hstart⟩
  · rw [hother.events, List.append_nil, hother.kernel]
    exact hs.uncreated who b (hother.create who b hb)
  · rw [hstart.events, hstart.kernel]
    by_cases hwho : who = mover
    · subst hwho
      rw [hstart.after] at hb
      -- the guard: a party comes to `xTaskCreate` by a test that found no handle
      obtain ⟨rfl,hnone⟩ := startUphyStep_next hb
      exact iff_of_true (uncreatedSince_concat.mpr (.inl rfl)) hnone
    · have hold := hs.uncreated who b ((hstart.other who hwho).symm.trans hb)
      cases pc with
      | test c =>
        have hkept : UncreatedSince who (startLog f deviceName pre ++ [.tested mover]) ↔
            UncreatedSince who (startLog f deviceName pre) := by
          simp [uncreatedSince_concat, Ne.symm hwho]
        exact hkept.trans hold
      | create c =>
        cases created with
        | true =>
          exact iff_of_false (by simp [StartPc.events, uncreatedSince_concat])
            (by simp [startUphyStep, xTaskCreate])
        | false => simpa [StartPc.events, startUphyStep, xTaskCreate] using hold

theorem Recorded.testHolds_iff {pre : List Label} {s : Boot} (hs : Recorded f deviceName pre s)
    (a : Label) : TestHolds s a ↔ Unraced f deviceName pre s a := by
  constructor
  · intro htest who hmem
    obtain ⟨hc,b,hb⟩ := created_mem hmem
    exact (hs.uncreated who b hb).mpr (htest hc)
  · intro hfree hc
    obtain ⟨who,hmem⟩ := exists_created hc
    obtain ⟨_,b,hb⟩ := created_mem hmem
    exact (hs.uncreated who b hb).mp (hfree who hmem)

theorem testHolds_iff_unraced (f : Supported) (deviceName : Str) (as : List Label) :
    (booting f deviceName).Meets (fun _ => TestHolds) as ↔
      (booting f deviceName).Meets (Unraced f deviceName) as := by
  refine Machine.meets_congr (I := Recorded f deviceName) ?_ ?_ ?_ as
  · refine ⟨rfl,?_⟩
    rintro (_ | _) b hb <;> cases hb
  · intro pre s a t hs h
    exact hs.step h
  · intro pre s a hs
    exact hs.testHolds_iff a

end Raced

theorem atMostOnce_iff_testHolds (f : Supported) (deviceName : Str) (as : List Label) :
    (∀ pre, pre <+: as → ∀ s, (booting f deviceName).run pre = some s → AtMostOnce s) ↔
      (booting f deviceName).Meets (fun _ => TestHolds) as := by
  rw [← Machine.always_iff]
  refine Machine.alwaysFrom_iff_meetsFrom (I := fun s : Boot => s.kernel.HandleSet) ?_ ?_ ?_ [] ?_ ?_
  · intro s a t hs h
    exact handleSet_step hs h
  · intro pre s a t hs hone h
    exact atMostOnce_step hs hone h
  · intro pre s a h
    simp [TestHolds, creates_enabled h]
  · exact Kernel.once_boot.handle
  · exact Kernel.once_boot.single

theorem started_at_most_once_iff (f : Supported) (deviceName : Str) (as : List Label) :
    (∀ pre, pre <+: as → ∀ s, (booting f deviceName).run pre = some s → AtMostOnce s) ↔
      (booting f deviceName).Meets (Unraced f deviceName) as :=
  (atMostOnce_iff_testHolds f deviceName as).trans (testHolds_iff_unraced f deviceName as)

def External.quiet : External where
  handle := true
  buf := fun _ => 0
  created := true

def autostartMock : External := { External.quiet with buf := Bustype.mock.argument.memory }

def doubleStart : List Label :=
  List.replicate 10 (.init .quiet) ++ [.init .quiet,.init autostartMock,.init .quiet,.init .quiet] ++
  [.command (.upStart [cmdStartName,Bustype.profinet.argument]),.shell .quiet,.shell .quiet,.init .quiet]

theorem started_twice : ¬ ∀ (f : Supported) (deviceName : Str) (as : List Label) (s : Boot),
    (booting f deviceName).run as = some s → AtMostOnce s := by
  intro h
  have hrun : ((booting generatedSupport digioSample).run doubleStart).map
      (fun s => s.kernel.tasks) = some [.profinet,.mock] := by rfl
  obtain ⟨s,hs,htasks⟩ := Option.map_eq_some_iff.mp hrun
  have hone := h _ _ _ s hs
  simp [AtMostOnce, htasks] at hone

end UphyDemo.Startup
