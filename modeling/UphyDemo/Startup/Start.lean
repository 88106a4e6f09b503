import UphyDemo.Startup.Autostart

namespace UphyDemo.Startup
open CString

-- `tasks` lists the argument of each `uphy_task` created since boot
structure Kernel where
  uphyTaskHdl : Option Nat
  tasks : List Bustype
deriving DecidableEq, Repr

def Kernel.boot : Kernel where
  uphyTaskHdl := none
  tasks := []

def xTaskCreate (created : Bool) (bustype : Bustype) (k : Kernel) : Kernel :=
  if created then
    { uphyTaskHdl := some k.tasks.length, tasks := k.tasks ++ [bustype] }
  else k

def startUphy (created : Bool) (bustype : Bustype) (k : Kernel) : Kernel :=
  if k.uphyTaskHdl = none then xTaskCreate created bustype k else k

def startDemo (f : Supported) (fs : RteFs) (created : Bool) (autostart : File) (buf : Memory)
    (k : Kernel) : Kernel :=
  match (autoStart f fs autostart buf).bustype with
  | some bustype => startUphy created bustype k
  | none => k

def cmdStartName : Str := word "up_start"

structure CmdStart where
  ret : Int
  kernel : Kernel
  printed : List Line

def cmdStart (f : Supported) (created : Bool) (argv : List Str) (k : Kernel) : CmdStart :=
  match argv with
  | [_,fieldbus] =>
      match strToBusConfig f (some fieldbus.memory) with
      | .ok bustype => ⟨0,startUphy created bustype k,[]⟩
      | .error e => ⟨0,k,e.printed⟩
  | _ => ⟨-1,k,[.commandHelp]⟩

section Command

variable {f : Supported} {created : Bool} {cmd x : Str} {k : Kernel}

theorem cmdStart_ok {b : Bustype} (hx : strToBusConfig f (some x.memory) = .ok b) :
    cmdStart f created [cmd,x] k = ⟨0,startUphy created b k,[]⟩ := by
  simp [cmdStart, hx]

theorem cmdStart_error {e : Refused} (hx : strToBusConfig f (some x.memory) = .error e) :
    cmdStart f created [cmd,x] k = ⟨0,k,e.printed⟩ := by
  simp [cmdStart, hx]

end Command

-- `start_uphy` cut between its test of `uphy_task_hdl` and its `xTaskCreate`
inductive StartPc where
  | test (bustype : Bustype)
  | create (bustype : Bustype)
deriving DecidableEq, Repr

def startUphyStep (created : Bool) (k : Kernel) : StartPc → Option StartPc × Kernel
  | .test bustype => (if k.uphyTaskHdl = none then some (.create bustype) else none,k)
  | .create bustype => (none,xTaskCreate created bustype k)

theorem startUphy_steps (created : Bool) (bustype : Bustype) (k : Kernel) :
    startUphy created bustype k =
      match startUphyStep created k (.test bustype) with
      | (some pc,k') => (startUphyStep created k' pc).2
      | (none,k') => k' := by
  by_cases hk : k.uphyTaskHdl = none <;> simp [startUphy, startUphyStep, hk]

def Kernel.HandleSet (k : Kernel) : Prop := k.uphyTaskHdl = none ↔ k.tasks = []

def Created (k k' : Kernel) : Prop :=
  ∃ b, k' = { uphyTaskHdl := some k.tasks.length, tasks := k.tasks ++ [b] }

theorem Created.handleSet {k k' : Kernel} (h : Created k k') : k'.HandleSet := by
  obtain ⟨b,rfl⟩ := h
  simp [Kernel.HandleSet]

theorem Created.tasks_le_one_iff {k k' : Kernel} (h : Created k k') :
    k'.tasks.length ≤ 1 ↔ k.tasks = [] := by
  obtain ⟨b,rfl⟩ := h
  simp

structure Kernel.Once (k : Kernel) : Prop where
  single : k.tasks.length ≤ 1
  handle : k.HandleSet

theorem Kernel.once_boot : Kernel.boot.Once := ⟨Nat.zero_le 1,fun _ => rfl,fun _ => rfl⟩

theorem startUphy_cases (created : Bool) (bustype : Bustype) (k : Kernel) :
    startUphy created bustype k = k ∨
    (k.uphyTaskHdl = none ∧ startUphy created bustype k =
      { uphyTaskHdl := some k.tasks.length, tasks := k.tasks ++ [bustype] }) := by
  by_cases hk : k.uphyTaskHdl = none
  · cases created with
    | true => exact .inr ⟨hk,by simp [startUphy, xTaskCreate, hk]⟩
    | false => exact .inl (by simp [startUphy, xTaskCreate])
  · exact .inl (by simp [startUphy, hk])

theorem Kernel.Once.startUphy {k : Kernel} (hk : k.Once) (created : Bool) (bustype : Bustype) :
    (startUphy created bustype k).Once := by
  rcases startUphy_cases created bustype k with heq | ⟨hnone,heq⟩
  · rw [heq]
    exact hk
  · have hcreated : Created k (Startup.startUphy created bustype k) := ⟨bustype,heq⟩
    have hempty := hk.handle.mp hnone
    exact ⟨hcreated.tasks_le_one_iff.mpr hempty,hcreated.handleSet⟩

theorem Kernel.Once.cmdStart {f : Supported} {k : Kernel} (hk : k.Once) (created : Bool)
    (argv : List Str) : (cmdStart f created argv k).kernel.Once := by
  match argv with
  | [] | [_] | _ :: _ :: _ :: _ => exact hk
  | [cmd,x] =>
    cases hx : strToBusConfig f (some x.memory) with
    | ok b =>
      rw [cmdStart_ok hx]
      exact hk.startUphy created b
    | error e =>
      rw [cmdStart_error hx]
      exact hk

theorem Kernel.Once.tasks_eq {k : Kernel} (hk : k.Once) : k.tasks.head?.toList = k.tasks := by
  have hsingle := hk.single
  match htasks : k.tasks with
  | [] | [_] => rfl
  | _ :: _ :: _ => simp [htasks] at hsingle

theorem startUphy_head {k : Kernel} (hk : k.Once) (created : Bool) (b : Bustype) :
    (startUphy created b k).tasks.head? =
      if created then k.tasks.head?.or (some b) else k.tasks.head? := by
  have hhandle := hk.handle
  cases htasks : k.tasks with
  | nil =>
    have hnone := hhandle.mpr htasks
    cases created <;> simp [startUphy, xTaskCreate, hnone, htasks]
  | cons c cs =>
    have hset : k.uphyTaskHdl ≠ none := fun hnone => by simp [hhandle.mp hnone] at htasks
    cases created <;> simp [startUphy, hset, htasks]

theorem startUphy_grows (created : Bool) (b : Bustype) (k : Kernel) :
    k.tasks.length ≤ (startUphy created b k).tasks.length := by
  rcases startUphy_cases created b k with heq | ⟨_,heq⟩
  · exact Nat.le_of_eq (by rw [heq])
  · simp [heq]

end UphyDemo.Startup
