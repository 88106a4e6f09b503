import UphyDemo.Startup.Once

namespace UphyDemo.Startup
open CString Transition

inductive Use where
  | fileSystem
  | ledEvents
  | pin (pin : Pin)
deriving DecidableEq, Repr

def Ready (r : Resources) : Use → Prop
  | .fileSystem => r.fsReady = true
  | .ledEvents => r.ledEvents = true
  | .pin pin => pin ∈ r.pins

instance (r : Resources) : (u : Use) → Decidable (Ready r u)
  | .fileSystem => inferInstanceAs (Decidable (r.fsReady = true))
  | .ledEvents => inferInstanceAs (Decidable (r.ledEvents = true))
  | .pin pin => inferInstanceAs (Decidable (pin ∈ r.pins))

def UphyPc.uses : UphyPc → List Use
  | .writeLed1 => [.pin .userLed1]
  | .writeLed2 => [.pin .userLed2]
  | .readBtn1 => [.pin .userBtn1]
  | .readBtn2 => [.pin .userBtn2]
  | .setBits => [.ledEvents]
  | .connect | .appInit | .library => []

def InitTask.uses : InitTask → List Use
  | .autostartOpen | .autostartRead | .autostartClose _ => [.fileSystem]
  | _ => []

def ShellTask.uses : ShellTask → List Use
  | .autostartOpen | .autostartWrite | .autostartClose | .autostartRemove => [.fileSystem]
  | _ => []

def uses (s : Boot) : Label → List Use
  | .init _ => s.init.uses
  | .shell _ => s.shell.uses
  | .uphy k => match s.uphy[k]? with
      | some pc => pc.uses
      | none => []
  | _ => []

def UsesReady (s : Boot) (a : Label) : Prop := ∀ u ∈ uses s a, Ready s.resources u

def startNeeds (deviceName : Str) : List Use :=
  .ledEvents :: if deviceName.bytes = digioSampleName then
    [.pin .userLed1,.pin .userLed2,.pin .userBtn1,.pin .userBtn2] else []

def ShellTask.needs (deviceName : Str) : ShellTask → List Use
  | .autostartOpen | .autostartWrite | .autostartClose | .autostartRemove => [.fileSystem]
  | .startUphy _ => startNeeds deviceName
  | .prompt => []

def commandNeeds (f : Supported) (s : Boot) : Label → List Use
  | .command c => match s.shell with
      | .prompt => (Boot.dispatch f c).needs s.app.deviceName
      | _ => []
  | _ => []

def Timely (f : Supported) (s : Boot) (a : Label) : Prop :=
  ∀ u ∈ commandNeeds f s a, Ready s.resources u

instance (s : Boot) (a : Label) : Decidable (UsesReady s a) :=
  inferInstanceAs (Decidable (∀ u ∈ uses s a, Ready s.resources u))

instance (f : Supported) (s : Boot) (a : Label) : Decidable (Timely f s a) :=
  inferInstanceAs (Decidable (∀ u ∈ commandNeeds f s a, Ready s.resources u))

def initialised (ops : List InitOp) : Resources :=
  ops.foldl (fun r op => op.apply r) .none

def UphyPc.inApp : UphyPc → Bool
  | .connect | .appInit => false
  | _ => true

structure Prepared (s : Boot) : Prop where
  booted : ∃ done, done ++ s.init.remaining = initOps ∧ s.resources = initialised done
  shell : ∀ u ∈ s.shell.needs s.app.deviceName, Ready s.resources u
  tasks : s.uphy ≠ [] → ∀ u ∈ startNeeds s.app.deviceName, Ready s.resources u
  pending : ∀ pc ∈ s.uphy, ∀ u ∈ pc.uses, u ∈ startNeeds s.app.deviceName
  sample : ∀ pc ∈ s.uphy, pc.inApp = true → s.app.isDigioSampleDevice = true →
    s.app.deviceName.bytes = digioSampleName

section Resources

theorem ready_apply {r : Resources} {u : Use} (h : Ready r u) (op : InitOp) :
    Ready (op.apply r) u := by
  cases op with
  | gpioInit pin =>
    cases u with
    | pin p => exact List.mem_cons_of_mem pin h
    | _ => exact h
  | _ => cases u <;> first | exact h | rfl

theorem ready_initialised (u : Use) : Ready (initialised initOps) u := by
  cases u with
  | pin p => cases p <;> decide
  | _ => decide

theorem Prepared.all_ready {s : Boot} (hs : Prepared s) (hinit : s.init.remaining = [])
    (u : Use) : Ready s.resources u := by
  obtain ⟨done,hdone,hres⟩ := hs.booted
  rw [hinit, List.append_nil] at hdone
  rw [hres, hdone]
  exact ready_initialised u

end Resources

theorem Prepared.usesReady {s : Boot} (hs : Prepared s) (a : Label) : UsesReady s a := by
  intro u hu
  cases a with
  | init x =>
    refine hs.all_ready ?_ u
    cases hpc : s.init with
    | initialise rest => simp [uses, hpc, InitTask.uses] at hu
    | _ => rfl
  | shell x =>
    apply hs.shell u
    cases hpc : s.shell with
    | prompt | startUphy pc => simp [uses, hpc, ShellTask.uses] at hu
    | _ => simpa [uses, hpc, ShellTask.uses, ShellTask.needs] using hu
  | uphy k =>
    simp only [uses] at hu
    split at hu
    case h_1 pc hpc =>
      have hmem := List.mem_of_getElem? hpc
      exact hs.tasks (List.ne_nil_of_mem hmem) u (hs.pending pc hmem u hu)
    case h_2 => cases hu
  | command c => cases hu
  | callback k c => cases hu

section Needs

theorem ledEvents_needed (deviceName : Str) : .ledEvents ∈ startNeeds deviceName :=
  List.mem_cons_self

theorem pin_needed_iff {deviceName : Str} {pin : Pin} :
    .pin pin ∈ startNeeds deviceName ↔
      deviceName.bytes = digioSampleName ∧ pin ≠ .userLed3 := by
  by_cases h : deviceName.bytes = digioSampleName
  · cases pin <;> simp [startNeeds, h]
  · simp [startNeeds, h]

theorem enter_uses {isDigio : Bool} {c : Callback} {u : Use}
    (hu : u ∈ (Boot.enter isDigio c).uses) :
    u = .ledEvents ∨ (isDigio = true ∧ ∃ pin, pin ≠ .userLed3 ∧ u = .pin pin) := by
  cases c with
  | statusInd status => exact .inl (List.mem_singleton.mp hu)
  | profinetSignalLedInd => exact .inl (List.mem_singleton.mp hu)
  | avail =>
    cases isDigio with
    | true => exact .inr ⟨rfl,.userLed1,by decide,List.mem_singleton.mp hu⟩
    | false => cases hu
  | sync =>
    cases isDigio with
    | true => exact .inr ⟨rfl,.userBtn1,by decide,List.mem_singleton.mp hu⟩
    | false => cases hu

end Needs

section Step

variable {f : Supported} {s t : Boot}

theorem prepared_start (deviceName : Str) : Prepared (Boot.start deviceName) where
  booted := ⟨[],rfl,rfl⟩
  shell := by simp [Boot.start, ShellTask.needs]
  tasks := by simp [Boot.start]
  pending := by simp [Boot.start]
  sample := by simp [Boot.start]

theorem Prepared.initialise {op : InitOp} {rest : List InitOp} (hs : Prepared s)
    (hpc : s.init = .initialise (op :: rest)) :
    Prepared { s with resources := op.apply s.resources, init := .initialise rest } where
  booted := by
    obtain ⟨done,hdone,hres⟩ := hs.booted
    refine ⟨done ++ [op],?_,?_⟩
    · simpa [InitTask.remaining, hpc] using hdone
    · simp [initialised, hres]
  shell := fun u hu => ready_apply (hs.shell u hu) op
  tasks := fun h u hu => ready_apply (hs.tasks h u hu) op
  pending := hs.pending
  sample := hs.sample

theorem Prepared.withInit {next : InitTask} (hs : Prepared s) (hpc : s.init.remaining = [])
    (hnext : next.remaining = []) : Prepared { s with init := next } where
  booted := by
    obtain ⟨done,hdone,hres⟩ := hs.booted
    exact ⟨done,by rw [← hdone, hpc]; simp [hnext],hres⟩
  shell := hs.shell
  tasks := hs.tasks
  pending := hs.pending
  sample := hs.sample

theorem Prepared.withShell {next : ShellTask} (hs : Prepared s)
    (hnext : ∀ u ∈ next.needs s.app.deviceName, Ready s.resources u) :
    Prepared { s with shell := next } where
  booted := hs.booted
  shell := hnext
  tasks := hs.tasks
  pending := hs.pending
  sample := hs.sample

theorem Prepared.withKernel (hs : Prepared s) (k : Kernel)
    (hneeds : ∀ u ∈ startNeeds s.app.deviceName, Ready s.resources u) :
    Prepared (s.withKernel k) where
  booted := hs.booted
  shell := hs.shell
  tasks := fun _ => hneeds
  pending := by
    intro pc hpc u hu
    rcases List.mem_append.mp hpc with hold | hnew
    · exact hs.pending pc hold u hu
    · obtain rfl := List.eq_of_mem_replicate hnew
      cases hu
  sample := by
    intro pc hpc happ
    rcases List.mem_append.mp hpc with hold | hnew
    · exact hs.sample pc hold happ
    · obtain rfl := List.eq_of_mem_replicate hnew
      cases happ

theorem Prepared.withTask {k : Nat} {next : UphyPc} (hs : Prepared s)
    (huses : ∀ u ∈ next.uses, u ∈ startNeeds s.app.deviceName)
    (hsample : next.inApp = true → s.app.isDigioSampleDevice = true →
      s.app.deviceName.bytes = digioSampleName) :
    Prepared { s with uphy := s.uphy.set k next } where
  booted := hs.booted
  shell := hs.shell
  tasks := by
    intro h
    exact hs.tasks (fun hnil => h (by simp [hnil]))
  pending := by
    intro pc hpc
    rcases List.mem_or_eq_of_mem_set hpc with hold | rfl
    · exact hs.pending pc hold
    · exact huses
  sample := by
    intro pc hpc
    rcases List.mem_or_eq_of_mem_set hpc with hold | rfl
    · exact hs.sample pc hold
    · exact hsample

theorem Prepared.withApp {bustype : Bustype} (hs : Prepared s) :
    Prepared { s with app := (upAppInit bustype s.app).1 } where
  booted := hs.booted
  shell := hs.shell
  tasks := hs.tasks
  pending := hs.pending
  sample := fun _ _ _ => upAppInit_sample

theorem Prepared.initStep {x : External} (hs : Prepared s) (h : s.initStep f x = some t) :
    Prepared t := by
  rcases initStep_cases h with ⟨op,rest,hpc,rfl⟩ | ⟨hdone,_,next,hnext,_,rfl⟩ | ⟨pc,hpc,rfl⟩
  · exact hs.initialise hpc
  · exact hs.withInit hdone hnext
  · have hdone : s.init.remaining = [] := by
      rw [hpc]
      rfl
    refine (hs.withInit hdone ?_).withKernel _ fun u _ => hs.all_ready hdone u
    cases (startUphyStep x.created s.kernel pc).1 <;> rfl

theorem Prepared.commandStep {c : Command} (hs : Prepared s) (hc : Timely f s (.command c))
    (h : s.commandStep f c = some t) : Prepared t := by
  obtain ⟨hpc,rfl⟩ := commandStep_cases h
  apply hs.withShell
  simpa [Timely, commandNeeds, hpc] using hc

theorem Prepared.shellStep {x : External} (hs : Prepared s) (h : s.shellStep x = some t) :
    Prepared t := by
  have hneeds := hs.shell
  rcases shellStep_cases h with ⟨next,hnext,rfl⟩ | ⟨pc,hpc,rfl⟩
  · apply hs.withShell
    intro u hu
    apply hneeds u
    cases hshell : s.shell <;> rw [hshell] at hnext <;> cases hnext <;>
      first | exact hu | cases hu
  · rw [hpc] at hneeds
    refine (hs.withShell ?_).withKernel _ hneeds
    cases (startUphyStep x.created s.kernel pc).1 with
    | none => exact fun _ => List.not_mem_nil.elim
    | some pc => exact hneeds

theorem Prepared.pending_pc {k : Nat} {pc : UphyPc} (hs : Prepared s) (hpc : s.uphy[k]? = some pc) :
    (∀ u ∈ pc.uses, u ∈ startNeeds s.app.deviceName) ∧
    (pc.inApp = true → s.app.isDigioSampleDevice = true →
      s.app.deviceName.bytes = digioSampleName) :=
  ⟨hs.pending pc (List.mem_of_getElem? hpc),hs.sample pc (List.mem_of_getElem? hpc)⟩

-- a pin that is still to be accessed was already reached through one the device needs
theorem next_uses {deviceName : Str} {pc next : UphyPc} (hnext : pc.next = some next)
    (h : ∀ u ∈ pc.uses, u ∈ startNeeds deviceName) : ∀ u ∈ next.uses, u ∈ startNeeds deviceName := by
  intro u hu
  cases pc <;> cases hnext
  case writeLed1 | readBtn1 =>
    have hname := (pin_needed_iff.mp (h _ List.mem_cons_self)).1
    obtain rfl := List.mem_singleton.mp hu
    exact pin_needed_iff.mpr ⟨hname,by decide⟩
  all_goals cases hu

theorem next_inApp {pc next : UphyPc} (hnext : pc.next = some next) (h : next.inApp = true) :
    pc.inApp = true := by
  cases pc <;> cases hnext <;> first | rfl | cases h

theorem Prepared.uphyStep {k : Nat} (hs : Prepared s) (h : s.uphyStep k = some t) :
    Prepared t := by
  rcases uphyStep_cases h with ⟨pc,next,hpc,hnext,rfl⟩ | ⟨bustype,_,_,rfl⟩
  · obtain ⟨huses,hsample⟩ := hs.pending_pc hpc
    exact hs.withTask (next_uses hnext huses) fun happ => hsample (next_inApp hnext happ)
  · exact hs.withApp.withTask (fun _ => List.not_mem_nil.elim) fun _ => upAppInit_sample

theorem Prepared.callbackStep {k : Nat} {c : Callback} (hs : Prepared s)
    (h : s.callbackStep k c = some t) : Prepared t := by
  obtain ⟨hpc,rfl⟩ := callbackStep_cases h
  obtain ⟨_,hsample⟩ := hs.pending_pc hpc
  refine hs.withTask ?_ fun _ => hsample rfl
  intro u hu
  rcases enter_uses hu with rfl | ⟨hdigio,pin,hpin,rfl⟩
  · exact ledEvents_needed _
  · exact pin_needed_iff.mpr ⟨hsample rfl hdigio,hpin⟩

theorem Prepared.step {a : Label} (hs : Prepared s) (hc : Timely f s a)
    (h : s.step f a = some t) : Prepared t := by
  cases a with
  | init x => exact hs.initStep h
  | command c => exact hs.commandStep hc h
  | shell x => exact hs.shellStep h
  | uphy k => exact hs.uphyStep h
  | callback k c => exact hs.callbackStep h

end Step

theorem used_after_initialised (f : Supported) (deviceName : Str) (as : List Label)
    (h : (booting f deviceName).Meets (fun _ => Timely f) as) :
    (booting f deviceName).Meets (fun _ => UsesReady) as := by
  refine Machine.meetsFrom_of_invariant (I := Prepared) ?_ ?_ (prepared_start deviceName) h
  · intro pre s a t hs hc hstep
    exact hs.step hc hstep
  · intro pre s a hs hc
    exact hs.usesReady a

def idle : External where
  handle := false
  buf := fun _ => 0
  created := true

def startThenStatus : List Label :=
  [.command (.upStart [cmdStartName,Bustype.profinet.argument]),.shell idle,.shell idle,.uphy 0,.uphy 0,
    .callback 0 (.statusInd 1),.uphy 0]

def startAfterInit : List Label := List.replicate 11 (.init idle) ++ startThenStatus

theorem used_after_initialised_status :
    ((booting generatedSupport digioSample).run startAfterInit).isSome = true ∧
    (booting generatedSupport digioSample).Meets (fun _ => UsesReady)
      startAfterInit := by
  refine ⟨by decide,?_⟩
  apply used_after_initialised generatedSupport digioSample startAfterInit
  decide

theorem used_before_initialised :
    ¬ ∀ (f : Supported) (deviceName : Str) (as : List Label),
      (booting f deviceName).Meets (fun _ => UsesReady) as := by
  intro h
  have hearly := h generatedSupport digioSample startThenStatus
  revert hearly
  decide

section Early

variable {f : Supported} {s t : Boot}

structure Accounted (s : Boot) : Prop where
  handle : s.kernel.HandleSet
  tasks : s.uphy.length = s.kernel.tasks.length
  flag : s.app.deviceName.bytes = digioSampleName → s.app.isDigioSampleDevice = true

theorem accounted_start (deviceName : Str) : Accounted (Boot.start deviceName) where
  handle := Kernel.once_boot.handle
  tasks := rfl
  flag := fun _ => rfl

theorem startUphyStep_grows (created : Bool) (k : Kernel) (pc : StartPc) :
    k.tasks.length ≤ (startUphyStep created k pc).2.tasks.length := by
  rcases startUphyStep_kernel created k pc with ⟨_,hk⟩ | ⟨_,b,hk⟩ <;>
    simp [hk]

theorem withKernel_tasks {k : Kernel} (hs : s.uphy.length = s.kernel.tasks.length)
    (hk : s.kernel.tasks.length ≤ k.tasks.length) :
    (s.withKernel k).uphy.length = (s.withKernel k).kernel.tasks.length := by
  simp [Boot.withKernel, hs]
  omega

theorem tasks_step {a : Label} (hs : s.uphy.length = s.kernel.tasks.length)
    (h : s.step f a = some t) : t.uphy.length = t.kernel.tasks.length := by
  cases a with
  | init x =>
    rcases initStep_cases h with ⟨op,rest,_,rfl⟩ | ⟨_,_,next,_,_,rfl⟩ | ⟨pc,_,rfl⟩
    · exact hs
    · exact hs
    · exact withKernel_tasks hs (startUphyStep_grows x.created s.kernel pc)
  | shell x =>
    rcases shellStep_cases h with ⟨next,_,rfl⟩ | ⟨pc,_,rfl⟩
    · exact hs
    · exact withKernel_tasks hs (startUphyStep_grows x.created s.kernel pc)
  | command c =>
    obtain ⟨_,rfl⟩ := commandStep_cases h
    exact hs
  | uphy k =>
    rcases uphyStep_cases h with ⟨pc,next,_,_,rfl⟩ | ⟨bustype,_,_,rfl⟩ <;> simpa using hs
  | callback k c =>
    obtain ⟨_,rfl⟩ := callbackStep_cases h
    simpa using hs

theorem app_step {a : Label} (h : s.step f a = some t) :
    t.app = s.app ∨ ∃ bustype, t.app = (upAppInit bustype s.app).1 := by
  cases a with
  | init x =>
    rcases initStep_cases h with ⟨op,rest,_,rfl⟩ | ⟨_,_,next,_,_,rfl⟩ | ⟨pc,_,rfl⟩ <;>
      exact .inl rfl
  | shell x =>
    rcases shellStep_cases h with ⟨next,_,rfl⟩ | ⟨pc,_,rfl⟩ <;> exact .inl rfl
  | command c =>
    obtain ⟨_,rfl⟩ := commandStep_cases h
    exact .inl rfl
  | uphy k =>
    rcases uphyStep_cases h with ⟨pc,next,_,_,rfl⟩ | ⟨bustype,_,_,rfl⟩
    · exact .inl rfl
    · exact .inr ⟨bustype,rfl⟩
  | callback k c =>
    obtain ⟨_,rfl⟩ := callbackStep_cases h
    exact .inl rfl

theorem Accounted.step {a : Label} (hs : Accounted s) (h : s.step f a = some t) :
    Accounted t where
  handle := handleSet_step hs.handle h
  tasks := tasks_step hs.tasks h
  flag := by
    rcases app_step h with happ | ⟨bustype,happ⟩
    · rw [happ]
      exact hs.flag
    · intro hname
      have hold : s.app.deviceName.bytes = digioSampleName := by simpa [happ, upAppInit] using hname
      rw [happ, upAppInit_keeps hold]
      exact hs.flag hold

theorem Accounted.idle (hs : Accounted s) (hnone : s.uphy = []) :
    s.kernel = .boot := by
  have htasks : s.kernel.tasks = [] := by
    have hlen := hs.tasks
    rw [hnone] at hlen
    exact List.length_eq_zero_iff.mp hlen.symm
  have hhdl := hs.handle.mpr htasks
  cases hk : s.kernel
  simp_all [Kernel.boot]

theorem exec_start (deviceName : Str) {bustype : Bustype}
    (hshell : s.shell = .startUphy (.test bustype)) (hkernel : s.kernel = .boot)
    (hnone : s.uphy = []) :
    ∃ t, (booting f deviceName).exec s [.shell idle,.shell idle,.uphy 0,.uphy 0] = some t ∧
      t.resources = s.resources ∧ t.uphy = [.library] ∧ t.app = (upAppInit bustype s.app).1 := by
  refine ⟨{ s with
    kernel := { uphyTaskHdl := some 0, tasks := [bustype] }
    app := (upAppInit bustype s.app).1
    shell := .prompt
    uphy := [.library] },?_,rfl,rfl,rfl⟩
  simp [Machine.exec, booting, Boot.step, Boot.shellStep, Boot.uphyStep, hshell, hkernel, hnone,
    Boot.withKernel, startUphyStep, xTaskCreate, idle, Kernel.boot]

theorem exec_callback (deviceName : Str) {u : Use} (hlib : s.uphy = [.library])
    (hflag : s.app.deviceName.bytes = digioSampleName → s.app.isDigioSampleDevice = true)
    (hu : u ∈ startNeeds s.app.deviceName) :
    ∃ cs t, (booting f deviceName).exec s cs = some t ∧ t.resources = s.resources ∧
      uses t (.uphy 0) = [u] := by
  cases u with
  | fileSystem => simp [startNeeds] at hu
  | ledEvents =>
    refine ⟨[.callback 0 (.statusInd 0)],{ s with uphy := [.setBits] },?_,rfl,rfl⟩
    simp [Machine.exec, booting, Boot.step, Boot.callbackStep, hlib, Boot.enter]
  | pin pin =>
    obtain ⟨hname,hpin⟩ := pin_needed_iff.mp hu
    have hdigio := hflag hname
    cases pin with
    | userLed1 =>
      refine ⟨[.callback 0 .avail],{ s with uphy := [.writeLed1] },?_,rfl,rfl⟩
      simp [Machine.exec, booting, Boot.step, Boot.callbackStep, hlib, hdigio, Boot.enter]
    | userLed2 =>
      refine ⟨[.callback 0 .avail,.uphy 0],{ s with uphy := [.writeLed2] },?_,rfl,rfl⟩
      simp [Machine.exec, booting, Boot.step, Boot.callbackStep, Boot.uphyStep, hlib, hdigio,
        Boot.enter]
    | userLed3 => exact absurd rfl hpin
    | userBtn1 =>
      refine ⟨[.callback 0 .sync],{ s with uphy := [.readBtn1] },?_,rfl,rfl⟩
      simp [Machine.exec, booting, Boot.step, Boot.callbackStep, hlib, hdigio, Boot.enter]
    | userBtn2 =>
      refine ⟨[.callback 0 .sync,.uphy 0],{ s with uphy := [.readBtn2] },?_,rfl,rfl⟩
      simp [Machine.exec, booting, Boot.step, Boot.callbackStep, Boot.uphyStep, hlib, hdigio,
        Boot.enter]

theorem exec_late (deviceName : Str) {c : Command} (hs : Prepared s) (hacc : Accounted s)
    (hlate : ¬ Timely f s (.command c)) :
    ∃ cs t a, (booting f deviceName).exec s (.command c :: cs) = some t ∧ ¬ UsesReady t a := by
  obtain ⟨u,hu,hnot⟩ : ∃ u, u ∈ commandNeeds f s (.command c) ∧ ¬ Ready s.resources u := by
    simpa [Timely] using hlate
  have hprompt : s.shell = .prompt := by
    cases hpc : s.shell with
    | prompt => rfl
    | _ => simp [commandNeeds, hpc] at hu
  simp only [commandNeeds, hprompt] at hu
  have hcommand : (booting f deviceName).step s (.command c) =
      some { s with shell := Boot.dispatch f c } := by
    simp [booting, Boot.step, Boot.commandStep, hprompt]
  cases hpc : Boot.dispatch f c with
  | prompt => simp [hpc, ShellTask.needs] at hu
  | startUphy pc =>
    obtain ⟨bustype,rfl⟩ := dispatch_startUphy hpc
    rw [hpc] at hu hcommand
    have hnone : s.uphy = [] := by
      by_contra hne
      exact hnot (hs.tasks hne u hu)
    obtain ⟨r,hr,hres,hlib,happ⟩ := exec_start (f := f) deviceName
      (s := { s with shell := .startUphy (.test bustype) }) rfl (hacc.idle hnone) hnone
    have hflag : r.app.deviceName.bytes = digioSampleName → r.app.isDigioSampleDevice = true := by
      rw [happ]
      intro hname
      exact (upAppInit_keeps (show s.app.deviceName.bytes = _ from hname)).trans (hacc.flag hname)
    have hneeds : u ∈ startNeeds r.app.deviceName := by
      rw [happ]
      exact hu
    obtain ⟨cs,t,ht,hrest,huse⟩ := exec_callback deviceName hlib hflag hneeds
    refine ⟨[.shell idle,.shell idle,.uphy 0,.uphy 0] ++ cs,t,.uphy 0,?_,?_⟩
    · exact Machine.exec_cons_iff.mpr ⟨_,hcommand,Machine.exec_append_of hr ht⟩
    · intro h
      have hready := h u (by rw [huse]; exact List.mem_cons_self)
      rw [hrest, hres] at hready
      exact hnot hready
  | _ =>
    rw [hpc] at hu hcommand
    obtain rfl := List.mem_singleton.mp hu
    refine ⟨[],_,.shell idle,Machine.exec_cons_iff.mpr ⟨_,hcommand,rfl⟩,?_⟩
    exact fun h => hnot (h _ List.mem_cons_self)

end Early

theorem early_command_harms {f : Supported} {deviceName : Str} {as : List Label} {s : Boot}
    {c : Command} (htimely : (booting f deviceName).Meets (fun _ => Timely f) as)
    (h : (booting f deviceName).run as = some s) (hlate : ¬ Timely f s (.command c)) :
    ∃ cs t a, (booting f deviceName).run (as ++ .command c :: cs) = some t ∧
      ¬ UsesReady t a := by
  have hprep : Prepared s := Machine.run_history (I := fun _ => Prepared)
    (prepared_start deviceName) (fun _ _ _ _ hs hc hstep => hs.step hc hstep) htimely h
  have hacc : Accounted s := Machine.run_invariant (I := Accounted)
    (accounted_start deviceName) (fun _ _ _ hs hstep => hs.step hstep) h
  obtain ⟨cs,t,a,ht,hbad⟩ := exec_late deviceName hprep hacc hlate
  exact ⟨cs,t,a,Machine.exec_append_of h ht,hbad⟩

end UphyDemo.Startup
