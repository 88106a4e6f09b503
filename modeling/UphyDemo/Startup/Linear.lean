import UphyDemo.Foundation.Simulation
import UphyDemo.Startup.Once

namespace UphyDemo.Startup
open CString Transition

-- a call of `start_uphy` with what `xTaskCreate` answers if the call comes to it
structure StartCall where
  bustype : Bustype
  created : Bool
deriving DecidableEq, Repr

def startAtomic (k : Kernel) (c : StartCall) : Kernel := startUphy c.created c.bustype k

def StartPc.bustype : StartPc → Bustype
  | .test bustype | .create bustype => bustype

def returned (created : Bool) (k : Kernel) (pc : StartPc) : List StartCall :=
  match (startUphyStep created k pc).1 with
  | some _ => []
  | none => [⟨pc.bustype,created⟩]

-- the calls of `start_uphy` that return in a step
def startReturns (s : Boot) (a : Label) (_ : Boot) : List StartCall :=
  match a with
  | .init x =>
      match s.init with
      | .startUphy pc => returned x.created s.kernel pc
      | _ => []
  | .shell x =>
      match s.shell with
      | .startUphy pc => returned x.created s.kernel pc
      | _ => []
  | _ => []

def startsOf (f : Supported) (deviceName : Str) (as : List Label) : List StartCall :=
  (booting f deviceName).outputs startReturns (.start deviceName) as

structure Linearised (calls : List StartCall) (k : Kernel) : Prop where
  atomic : k = calls.foldl startAtomic .boot
  first : k.tasks = ((calls.find? StartCall.created).map StartCall.bustype).toList

section Atomic

theorem once_foldl {k : Kernel} (hk : k.Once) (calls : List StartCall) :
    (calls.foldl startAtomic k).Once := by
  induction calls generalizing k with
  | nil => exact hk
  | cons c calls ih => exact ih (hk.startUphy c.created c.bustype)

theorem head_foldl {k : Kernel} (hk : k.Once) (calls : List StartCall) :
    (calls.foldl startAtomic k).tasks.head? =
      k.tasks.head?.or ((calls.find? StartCall.created).map StartCall.bustype) := by
  induction calls generalizing k with
  | nil => simp
  | cons c calls ih =>
    have hnext : (startAtomic k c).Once := hk.startUphy c.created c.bustype
    have hhead : (startAtomic k c).tasks.head? = _ := startUphy_head hk c.created c.bustype
    rw [List.foldl_cons, ih hnext, hhead]
    cases hc : c.created <;> simp [hc]

theorem linearised_foldl (calls : List StartCall) :
    Linearised calls (calls.foldl startAtomic .boot) := by
  refine ⟨rfl,?_⟩
  have hhead := head_foldl Kernel.once_boot calls
  rw [← (once_foldl Kernel.once_boot calls).tasks_eq, hhead]
  simp [Kernel.boot]

end Atomic

section Step

variable {f : Supported} {s t : Boot}

theorem returned_atomic {created : Bool} {k : Kernel} {pc : StartPc}
    (h : pc.creates created = true → k.uphyTaskHdl = none) :
    (returned created k pc).foldl startAtomic k = (startUphyStep created k pc).2 := by
  cases pc with
  | test b =>
    by_cases hk : k.uphyTaskHdl = none
    · simp [returned, startUphyStep, hk]
    · simp [returned, startUphyStep, startAtomic, startUphy, hk]
  | create b =>
    cases created with
    | true =>
      have hk := h rfl
      simp [returned, startUphyStep, startAtomic, startUphy, StartPc.bustype, hk]
    | false => simp [returned, startUphyStep, startAtomic, startUphy, xTaskCreate]

theorem startReturns_atomic {a : Label} (htest : TestHolds s a) (h : s.step f a = some t) :
    (startReturns s a t).foldl startAtomic s.kernel = t.kernel := by
  cases a with
  | init x =>
    rcases initStep_cases h with ⟨op,rest,hpc,rfl⟩ | ⟨_,hpc,next,_,_,rfl⟩ | ⟨pc,hpc,rfl⟩
    · simp [startReturns, hpc]
    · cases hinit : s.init <;> simp_all [startReturns, InitTask.startPc]
    · simp only [TestHolds, creates, hpc] at htest
      simpa [startReturns, hpc, Boot.withKernel] using returned_atomic htest
  | shell x =>
    rcases shellStep_cases h with ⟨next,hnext,rfl⟩ | ⟨pc,hpc,rfl⟩
    · cases hshell : s.shell <;> simp_all [startReturns, ShellTask.next]
    · simp only [TestHolds, creates, hpc] at htest
      simpa [startReturns, hpc, Boot.withKernel] using returned_atomic htest
  | command c =>
    obtain ⟨_,rfl⟩ := commandStep_cases h
    rfl
  | uphy k =>
    rcases uphyStep_cases h with ⟨pc,next,_,_,rfl⟩ | ⟨bustype,_,_,rfl⟩ <;> rfl
  | callback k c =>
    obtain ⟨_,rfl⟩ := callbackStep_cases h
    rfl

theorem testHolds_of_once {a : Label} (hs : s.kernel.HandleSet) (h : s.step f a = some t)
    (ht : t.kernel.Once) : TestHolds s a := by
  rcases kernel_step h with ⟨hc,_⟩ | ⟨_,hcreated⟩
  · simp [TestHolds, hc]
  · exact fun _ => hs.mpr (hcreated.tasks_le_one_iff.mp ht.single)

end Step

variable {f : Supported} {deviceName : Str}

theorem startsOf_concat {as : List Label} {a : Label} {s t : Boot}
    (h : (booting f deviceName).run as = some s) (hstep : s.step f a = some t) :
    startsOf f deviceName (as ++ [a]) = startsOf f deviceName as ++ startReturns s a t := by
  have hone : (booting f deviceName).step s a = some t := hstep
  have happend : (booting f deviceName).outputs startReturns _ (as ++ [a]) = _ :=
    Machine.outputs_append h
  rw [Machine.outputs_cons hone] at happend
  simpa [startsOf, booting] using happend

theorem atomic_run {as : List Label} {s : Boot}
    (hC : (booting f deviceName).Meets (fun _ => TestHolds) as)
    (h : (booting f deviceName).run as = some s) :
    s.kernel = (startsOf f deviceName as).foldl startAtomic .boot := by
  have hboth : (booting f deviceName).run as = some s ∧
      s.kernel = (startsOf f deviceName as).foldl startAtomic .boot := by
    refine Machine.run_history (I := fun (as : List Label) (s : Boot) =>
      (booting f deviceName).run as = some s ∧
        s.kernel = (startsOf f deviceName as).foldl startAtomic .boot) ?_ ?_ hC h
    · exact ⟨rfl,rfl⟩
    · rintro pre s a t ⟨hrun,hkernel⟩ htest hstep
      refine ⟨Machine.run_concat hrun hstep,?_⟩
      rw [startsOf_concat hrun hstep, List.foldl_append, ← hkernel,
        startReturns_atomic htest hstep]
  exact hboth.2

theorem start_linearised_iff (f : Supported) (deviceName : Str) (as : List Label) :
    ((∀ pre, pre <+: as → ∀ s, (booting f deviceName).run pre = some s →
        Linearised (startsOf f deviceName pre) s.kernel) ↔
      (booting f deviceName).Meets (fun _ => TestHolds) as) ∧
    ((booting f deviceName).Meets (fun _ s _ => ¬ Overlap s) as →
      (booting f deviceName).Meets (fun _ => TestHolds) as) := by
  refine ⟨⟨?_,?_⟩,tested_of_exclusive⟩
  · intro hlin
    apply Machine.meetsFrom_iff.mpr
    intro mid a hmid s hs
    have hhandle : s.kernel.HandleSet := by
      refine Machine.run_invariant (I := fun s : Boot => s.kernel.HandleSet)
        Kernel.once_boot.handle (fun _ _ _ hk hstep => handleSet_step hk hstep) hs
    cases hstep : s.step f a with
    | none => simp [TestHolds, creates_enabled hstep]
    | some t =>
      have hrun := Machine.run_concat hs hstep
      have honce := once_foldl Kernel.once_boot (startsOf f deviceName (mid ++ [a]))
      rw [← (hlin _ hmid t hrun).atomic] at honce
      exact testHolds_of_once hhandle hstep honce
  · intro hC pre hpre s hs
    have hpreC : (booting f deviceName).Meets (fun _ => TestHolds) pre := by
      apply Machine.meetsFrom_iff.mpr
      intro mid a hmid
      exact Machine.meetsFrom_iff.mp hC mid a (hmid.trans hpre)
    rw [atomic_run hpreC hs]
    exact linearised_foldl _

end UphyDemo.Startup
