import UphyDemo.Foundation.Transition
import UphyDemo.Startup.AppInit
import UphyDemo.Startup.Start

namespace UphyDemo.Startup
open CString Transition

inductive Pin where
  | userLed1
  | userLed2
  | userLed3
  | userBtn1
  | userBtn2
deriving DecidableEq, Repr

inductive InitOp where
  | fsInit
  | dbLoad
  | gpioInit (pin : Pin)
  | eventGroupCreate
  | ledTaskCreate
deriving DecidableEq, Repr

def initLeds : List InitOp :=
  [.gpioInit .userLed1,.gpioInit .userLed2,.gpioInit .userLed3,.eventGroupCreate,.ledTaskCreate]

def initButtons : List InitOp := [.gpioInit .userBtn1,.gpioInit .userBtn2]

-- `init_task` from the return of `shell_console_init` to `start_demo`
def initOps : List InitOp := [.fsInit,.dbLoad] ++ initLeds ++ initButtons

structure Resources where
  fsReady : Bool
  ledEvents : Bool
  pins : List Pin
deriving DecidableEq, Repr

def Resources.none : Resources where
  fsReady := false
  ledEvents := false
  pins := []

def InitOp.apply : InitOp → Resources → Resources
  | .fsInit, r => { r with fsReady := true }
  | .eventGroupCreate, r => { r with ledEvents := true }
  | .gpioInit pin, r => { r with pins := pin :: r.pins }
  | .dbLoad, r | .ledTaskCreate, r => r

inductive InitTask where
  | initialise (rest : List InitOp)
  | autostartOpen
  | autostartRead
  | autostartClose (buf : Memory)
  | startUphy (pc : StartPc)
  | deleted

inductive ShellTask where
  | prompt
  | autostartOpen
  | autostartWrite
  | autostartClose
  | autostartRemove
  | startUphy (pc : StartPc)

inductive UphyPc where
  | connect
  | appInit
  | library
  | writeLed1
  | writeLed2
  | readBtn1
  | readBtn2
  | setBits
deriving DecidableEq, Repr

structure Boot where
  resources : Resources
  kernel : Kernel
  app : App
  init : InitTask
  shell : ShellTask
  uphy : List UphyPc

def Boot.start (deviceName : Str) : Boot where
  resources := .none
  kernel := .boot
  app := .static deviceName
  init := .initialise initOps
  shell := .prompt
  uphy := []

inductive Command where
  | upStart (argv : List Str)
  | upAutostart (argv : List Str)

inductive Callback where
  | avail
  | sync
  | statusInd (status : BitVec 32)
  | profinetSignalLedInd

-- what the calls of a step that are outside the repository deliver
structure External where
  handle : Bool
  buf : Memory
  created : Bool

inductive Label where
  | init (x : External)
  | command (c : Command)
  | shell (x : External)
  | uphy (k : Nat)
  | callback (k : Nat) (c : Callback)

namespace Boot

variable (f : Supported)

-- a task created by the step starts at `connect_to_ethernet`
def withKernel (s : Boot) (k : Kernel) : Boot :=
  { s with
    kernel := k
    uphy := s.uphy ++ List.replicate (k.tasks.length - s.kernel.tasks.length) .connect }

def initStep (x : External) (s : Boot) : Option Boot :=
  match s.init with
  | .initialise [] => some { s with init := .autostartOpen }
  | .initialise (op :: rest) =>
      some { s with resources := op.apply s.resources, init := .initialise rest }
  | .autostartOpen => some { s with init := if x.handle then .autostartRead else .deleted }
  | .autostartRead => some { s with init := .autostartClose x.buf }
  | .autostartClose buf =>
      some { s with init :=
        match strToBusConfig f (some buf) with
        | .ok bustype => .startUphy (.test bustype)
        | .error _ => .deleted }
  | .startUphy pc =>
      let (next,k) := startUphyStep x.created s.kernel pc
      some ({ s with init := match next with
        | some pc => .startUphy pc
        | none => .deleted }.withKernel k)
  | .deleted => none

def dispatch : Command → ShellTask
  | .upStart [_,fieldbus] =>
      match strToBusConfig f (some fieldbus.memory) with
      | .ok bustype => .startUphy (.test bustype)
      | .error _ => .prompt
  | .upAutostart [_,fieldbus] =>
      match strToBusConfig f (some fieldbus.memory) with
      | .ok _ => .autostartOpen
      | .error _ => .autostartRemove
  | _ => .prompt

def commandStep (c : Command) (s : Boot) : Option Boot :=
  match s.shell with
  | .prompt => some { s with shell := dispatch f c }
  | _ => none

def shellStep (x : External) (s : Boot) : Option Boot :=
  match s.shell with
  | .prompt => none
  | .autostartOpen => some { s with shell := .autostartWrite }
  | .autostartWrite => some { s with shell := .autostartClose }
  | .autostartClose | .autostartRemove => some { s with shell := .prompt }
  | .startUphy pc =>
      let (next,k) := startUphyStep x.created s.kernel pc
      some ({ s with shell := match next with
        | some pc => .startUphy pc
        | none => .prompt }.withKernel k)

def uphyStep (k : Nat) (s : Boot) : Option Boot :=
  match s.uphy[k]?, s.kernel.tasks[k]? with
  | some .connect, _ => some { s with uphy := s.uphy.set k .appInit }
  | some .appInit, some bustype =>
      some { s with app := (upAppInit bustype s.app).1, uphy := s.uphy.set k .library }
  | some .writeLed1, _ => some { s with uphy := s.uphy.set k .writeLed2 }
  | some .readBtn1, _ => some { s with uphy := s.uphy.set k .readBtn2 }
  | some .writeLed2, _ | some .readBtn2, _ | some .setBits, _ =>
      some { s with uphy := s.uphy.set k .library }
  | _, _ => none

def enter (isDigio : Bool) : Callback → UphyPc
  | .avail => if isDigio then .writeLed1 else .library
  | .sync => if isDigio then .readBtn1 else .library
  | .statusInd _ | .profinetSignalLedInd => .setBits

def callbackStep (k : Nat) (c : Callback) (s : Boot) : Option Boot :=
  match s.uphy[k]? with
  | some .library => some { s with uphy := s.uphy.set k (enter s.app.isDigioSampleDevice c) }
  | _ => none

def step (s : Boot) : Label → Option Boot
  | .init x => s.initStep f x
  | .command c => s.commandStep f c
  | .shell x => s.shellStep x
  | .uphy k => s.uphyStep k
  | .callback k c => s.callbackStep k c

end Boot

def booting (f : Supported) (deviceName : Str) : Machine Boot Label where
  start := .start deviceName
  step := Boot.step f

section Cases

variable {f : Supported} {s t : Boot}

def InitTask.remaining : InitTask → List InitOp
  | .initialise rest => rest
  | _ => []

def InitTask.startPc : InitTask → Option StartPc
  | .startUphy pc => some pc
  | _ => none

def InitTask.resume : Option StartPc → InitTask
  | some pc => .startUphy pc
  | none => .deleted

def ShellTask.resume : Option StartPc → ShellTask
  | some pc => .startUphy pc
  | none => .prompt

def ShellTask.next : ShellTask → Option ShellTask
  | .autostartOpen => some .autostartWrite
  | .autostartWrite => some .autostartClose
  | .autostartClose | .autostartRemove => some .prompt
  | .prompt | .startUphy _ => none

def UphyPc.next : UphyPc → Option UphyPc
  | .connect => some .appInit
  | .writeLed1 => some .writeLed2
  | .readBtn1 => some .readBtn2
  | .writeLed2 | .readBtn2 | .setBits => some .library
  | .appInit | .library => none

theorem initStep_cases {x : External} (h : s.initStep f x = some t) :
    (∃ op rest, s.init = .initialise (op :: rest) ∧
      t = { s with resources := op.apply s.resources, init := .initialise rest }) ∨
    (s.init.remaining = [] ∧ s.init.startPc = none ∧
      ∃ next, next.remaining = [] ∧ (∀ b, next.startPc ≠ some (.create b)) ∧
        t = { s with init := next }) ∨
    (∃ pc, s.init = .startUphy pc ∧
      t = { s with init := .resume (startUphyStep x.created s.kernel pc).1 }.withKernel
        (startUphyStep x.created s.kernel pc).2) := by
  unfold Boot.initStep at h
  split at h
  case h_1 hpc =>
    rw [hpc]
    exact .inr (.inl ⟨rfl,rfl,_,rfl,by simp [InitTask.startPc],(Option.some.inj h).symm⟩)
  case h_2 op rest hpc => exact .inl ⟨op,rest,hpc,(Option.some.inj h).symm⟩
  case h_3 hpc =>
    rw [hpc]
    refine .inr (.inl ⟨rfl,rfl,_,?_,?_,(Option.some.inj h).symm⟩)
    · split <;> rfl
    · intro b
      split <;> simp [InitTask.startPc]
  case h_4 hpc =>
    rw [hpc]
    exact .inr (.inl ⟨rfl,rfl,_,rfl,by simp [InitTask.startPc],(Option.some.inj h).symm⟩)
  case h_5 buf hpc =>
    rw [hpc]
    refine .inr (.inl ⟨rfl,rfl,_,?_,?_,(Option.some.inj h).symm⟩)
    · split <;> rfl
    · intro b
      split <;> simp [InitTask.startPc]
  case h_6 pc hpc =>
    refine .inr (.inr ⟨pc,hpc,?_⟩)
    generalize startUphyStep x.created s.kernel pc = result at h ⊢
    obtain ⟨next,k⟩ := result
    obtain rfl := Option.some.inj h
    cases next <;> rfl
  case h_7 => cases h

theorem shellStep_cases {x : External} (h : s.shellStep x = some t) :
    (∃ next, s.shell.next = some next ∧ t = { s with shell := next }) ∨
    (∃ pc, s.shell = .startUphy pc ∧
      t = { s with shell := .resume (startUphyStep x.created s.kernel pc).1 }.withKernel
        (startUphyStep x.created s.kernel pc).2) := by
  unfold Boot.shellStep at h
  split at h
  case h_1 => cases h
  case h_6 pc hpc =>
    refine .inr ⟨pc,hpc,?_⟩
    generalize startUphyStep x.created s.kernel pc = result at h ⊢
    obtain ⟨next,k⟩ := result
    obtain rfl := Option.some.inj h
    cases next <;> rfl
  all_goals
    rename_i hpc
    rw [hpc]
    exact .inl ⟨_,rfl,(Option.some.inj h).symm⟩

theorem commandStep_cases {c : Command} (h : s.commandStep f c = some t) :
    s.shell = .prompt ∧ t = { s with shell := Boot.dispatch f c } := by
  unfold Boot.commandStep at h
  split at h
  case h_1 hpc => exact ⟨hpc,(Option.some.inj h).symm⟩
  case h_2 => cases h

theorem uphyStep_cases {k : Nat} (h : s.uphyStep k = some t) :
    (∃ pc next, s.uphy[k]? = some pc ∧ pc.next = some next ∧
      t = { s with uphy := s.uphy.set k next }) ∨
    (∃ bustype, s.uphy[k]? = some .appInit ∧ s.kernel.tasks[k]? = some bustype ∧
      t = { s with app := (upAppInit bustype s.app).1, uphy := s.uphy.set k .library }) := by
  unfold Boot.uphyStep at h
  split at h
  case h_2 bustype hpc htask => exact .inr ⟨bustype,hpc,htask,(Option.some.inj h).symm⟩
  case h_8 => cases h
  all_goals
    rename_i hpc
    exact .inl ⟨_,_,hpc,rfl,(Option.some.inj h).symm⟩

theorem callbackStep_cases {k : Nat} {c : Callback} (h : s.callbackStep k c = some t) :
    s.uphy[k]? = some .library ∧
      t = { s with uphy := s.uphy.set k (Boot.enter s.app.isDigioSampleDevice c) } := by
  unfold Boot.callbackStep at h
  split at h
  case h_1 hpc => exact ⟨hpc,(Option.some.inj h).symm⟩
  case h_2 => cases h

theorem dispatch_startUphy {c : Command} {pc : StartPc} (h : Boot.dispatch f c = .startUphy pc) :
    ∃ bustype, pc = .test bustype := by
  unfold Boot.dispatch at h
  split at h
  case h_1 =>
    split at h
    · cases h
      exact ⟨_,rfl⟩
    · cases h
  case h_2 => split at h <;> cases h
  case h_3 => cases h

end Cases

end UphyDemo.Startup
