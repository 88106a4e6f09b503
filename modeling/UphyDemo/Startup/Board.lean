import UphyDemo.Foundation.Transition
import UphyDemo.Startup.AppInit
import UphyDemo.Startup.Start

namespace UphyDemo.Startup
open CString Transition

inductive Event where
  | upAutostart (argv : List Str)
  | upStart (argv : List Str) (created : Bool)
  | reboot (buf : Memory) (created : Bool)
  | upAppInit

-- `causes` and `inits` are history: the string behind each task and behind each `up_init` call
structure Board where
  autostart : File
  kernel : Kernel
  app : App
  causes : List Memory
  inits : List (Memory × UpInitCall)

namespace Board

def powered (deviceName : Str) (autostart : File) : Board where
  autostart := autostart
  kernel := .boot
  app := .static deviceName
  causes := []
  inits := []

def withKernel (s : Board) (k : Kernel) (cause : Memory) : Board :=
  { s with
    kernel := k
    causes := if k.tasks.length = s.kernel.tasks.length then s.causes else s.causes ++ [cause] }

def uphyTask (s : Board) : Option Board :=
  match s.kernel.tasks[s.inits.length]?, s.causes[s.inits.length]? with
  | some bustype, some cause =>
      let (app,call) := Startup.upAppInit bustype s.app
      some { s with app := app, inits := s.inits ++ [(cause,call)] }
  | _, _ => none

end Board

variable (f : Supported) (fs : RteFs)

def argument (argv : List Str) : Memory := (argv[1]?.map Str.memory).getD fun _ => 0

def Board.step (s : Board) : Event → Option Board
  | .upAutostart argv =>
      some { s with autostart := (cmdAutostart f fs argv s.autostart).autostart }
  | .upStart argv created =>
      some (s.withKernel (cmdStart f created argv s.kernel).kernel (argument argv))
  | .reboot buf created =>
      let s := powered s.app.deviceName s.autostart
      some (s.withKernel (startDemo f fs created s.autostart buf s.kernel)
        (autoStart f fs s.autostart buf).buf)
  | .upAppInit => s.uphyTask

def board (deviceName : Str) (autostart : File) : Machine Board Event where
  start := .powered deviceName autostart
  step := Board.step f fs

section Once

variable {f fs}

theorem once_step {s t : Board} {e : Event} (hs : s.kernel.Once) (h : s.step f fs e = some t) :
    t.kernel.Once := by
  cases e with
  | upAutostart argv =>
    obtain rfl := Option.some.inj h
    exact hs
  | upStart argv created =>
    obtain rfl := Option.some.inj h
    exact hs.cmdStart created argv
  | reboot buf created =>
    obtain rfl := Option.some.inj h
    simp only [Board.withKernel, startDemo]
    split
    · exact Kernel.once_boot.startUphy created _
    · exact Kernel.once_boot
  | upAppInit =>
    simp only [Board.step, Board.uphyTask] at h
    split at h
    · obtain rfl := Option.some.inj h
      exact hs
    · cases h

end Once

section RoundTrip

variable {f}

def latestAutostart (f : Supported) (last : Option Bustype) : Event → Option Bustype
  | .upAutostart [_,fieldbus] => (strToBusConfig f (some fieldbus.memory)).toOption
  | _ => last

def configured (f : Supported) (es : List Event) : Option Bustype :=
  es.foldl (latestAutostart f) none

theorem configured_concat (es : List Event) (e : Event) :
    configured f (es ++ [e]) = latestAutostart f (configured f es) e := by
  simp [configured]

def Stored (f : Supported) (last : Option Bustype) (autostart : File) : Prop :=
  match last with
  | none => autostart = none
  | some b => ∃ x : Str, strToBusConfig f (some x.memory) = .ok b ∧
      autostart = some (x.bytes ++ [0])

theorem stored_cmdAutostart {last : Option Bustype} {autostart : File} (argv : List Str)
    (hs : Stored f last autostart) :
    Stored f (latestAutostart f last (.upAutostart argv))
      (cmdAutostart f .reliable argv autostart).autostart := by
  match argv with
  | [] | [_] | _ :: _ :: _ :: _ => exact hs
  | [cmd,x] =>
    cases hx : strToBusConfig f (some x.memory) with
    | ok b =>
      simp only [cmdAutostart_ok hx, leftBehind_reliable, latestAutostart, hx, Except.toOption]
      exact ⟨x,hx,rfl⟩
    | error e =>
      simp only [cmdAutostart_error hx, latestAutostart, hx, Except.toOption]
      rfl

theorem stored_step {last : Option Bustype} {s t : Board} {e : Event}
    (hs : Stored f last s.autostart) (h : s.step f .reliable e = some t) :
    Stored f (latestAutostart f last e) t.autostart := by
  cases e with
  | upAutostart argv =>
    obtain rfl := Option.some.inj h
    exact stored_cmdAutostart argv hs
  | upStart argv created =>
    obtain rfl := Option.some.inj h
    exact hs
  | reboot buf created =>
    obtain rfl := Option.some.inj h
    exact hs
  | upAppInit =>
    simp only [Board.step, Board.uphyTask] at h
    split at h
    · obtain rfl := Option.some.inj h
      exact hs
    · simp at h

theorem stored_run {deviceName : Str} {es : List Event} {s : Board}
    (h : (board f .reliable deviceName none).run es = some s) :
    Stored f (configured f es) s.autostart := by
  refine Machine.run_history_free
    (I := fun (es : List Event) (s : Board) => Stored f (configured f es) s.autostart) ?_ ?_ h
  · rfl
  · intro pre s e t hs hstep
    rw [configured_concat]
    exact stored_step hs hstep

theorem autoStart_of_stored {last : Option Bustype} {autostart : File}
    (hs : Stored f last autostart) (buf : Memory) :
    (autoStart f .reliable autostart buf).bustype = last ∧
      ((autoStart f .reliable autostart buf).ret = if last.isSome then 0 else -1) := by
  cases last with
  | none =>
    obtain rfl : autostart = none := hs
    exact (autoStart_missing f .reliable buf).symm
  | some b =>
    obtain ⟨x,hx,rfl⟩ := hs
    exact (autoStart_stored hx buf).symm

theorem autostart_round_trip {deviceName : Str} {es : List Event} {s : Board}
    (h : (board f .reliable deviceName none).run es = some s) (buf : Memory) :
    (∀ b, (autoStart f .reliable s.autostart buf).ret = 0 ∧
        (autoStart f .reliable s.autostart buf).bustype = some b ↔ configured f es = some b) ∧
    (∀ b, configured f es = some b → ∀ created k,
      startDemo f .reliable created s.autostart buf k = startUphy created b k) ∧
    (configured f es = none → (autoStart f .reliable s.autostart buf).ret = -1 ∧
      ∀ created k, startDemo f .reliable created s.autostart buf k = k) := by
  obtain ⟨hbus,hret⟩ := autoStart_of_stored (stored_run h) buf
  refine ⟨?_,?_,?_⟩
  · intro b
    rw [hbus, hret]
    constructor
    · exact And.right
    · intro hb
      simp [hb]
  · intro b hb created k
    simp [startDemo, hbus, hb]
  · intro hnone
    refine ⟨by simp [hret, hnone],?_⟩
    intro created k
    simp [startDemo, hbus, hnone]

def addProfinet : List Event := [.upAutostart [cmdAutostartName,Bustype.profinet.argument]]

theorem autostart_round_trip_profinet :
    (autoStart generatedSupport .reliable (some (ascii "profinet" ++ [0])) fun _ => 255).bustype =
      some .profinet := by
  have hrun : (board generatedSupport .reliable digioSample none).run addProfinet =
      some (.powered digioSample (some (ascii "profinet" ++ [0]))) := rfl
  exact (((autostart_round_trip hrun fun _ => 255).1 .profinet).mpr rfl).2

end RoundTrip

end UphyDemo.Startup
