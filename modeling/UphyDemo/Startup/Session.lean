import UphyDemo.Foundation.Simulation
import UphyDemo.Startup.Configured

namespace UphyDemo.Startup
open CString Transition

-- what the start-up is for: one bus is remembered over resets and at most one is running
structure Session where
  stored : Option Bustype
  running : Option Bustype
  initialised : Bool
deriving DecidableEq, Repr

namespace Session

inductive Request where
  | configure (bustype : Option Bustype)
  | start (bustype : Bustype) (created : Bool)
  | reset (created : Bool)
  | initialise
deriving DecidableEq, Repr

def off : Session where
  stored := none
  running := none
  initialised := false

def step (s : Session) : Request → Option Session
  | .configure bustype => some { s with stored := bustype }
  | .start bustype created =>
      some { s with running := if created then s.running.or (some bustype) else s.running }
  | .reset created =>
      some { s with running := if created then s.stored else none, initialised := false }
  | .initialise =>
      if s.running.isSome ∧ s.initialised = false then some { s with initialised := true } else none

def machine : Machine Session Request where
  start := off
  step := step

def upInit (bustype : Bustype) : UpInitCall where
  bustype := bustype
  upBusconf := busconfOf bustype
  assigned := busconfOf bustype

def upInits (s : Session) : Request → Session → List UpInitCall
  | .initialise, _ => s.running.toList.map upInit
  | _, _ => []

end Session

variable {f : Supported}

def requests (f : Supported) : Event → List Session.Request
  | .upAutostart [_,fieldbus] => [.configure (strToBusConfig f (some fieldbus.memory)).toOption]
  | .upStart [_,fieldbus] created =>
      match strToBusConfig f (some fieldbus.memory) with
      | .ok bustype => [.start bustype created]
      | .error _ => []
  | .reboot _ created => [.reset created]
  | .upAppInit => [.initialise]
  | _ => []

def upInitCalls (s : Board) (_ : Event) (t : Board) : List UpInitCall :=
  (t.inits.drop s.inits.length).map Prod.snd

def Board.session (f : Supported) (s : Board) : Session where
  stored := (autoStart f .reliable s.autostart fun _ => 0).bustype
  running := s.kernel.tasks.head?
  initialised := !s.inits.isEmpty

structure Consistent (f : Supported) (s : Board) : Prop where
  stored : ∃ last, Stored f last s.autostart
  once : s.kernel.Once
  explained : Explained f s
  inits : s.inits.length ≤ s.kernel.tasks.length
  fresh : s.inits = [] → s.app.upBusconf = none

theorem startDemo_boot (created : Bool) (autostart : File) (buf : Memory) :
    (startDemo f .reliable created autostart buf .boot).tasks.head? =
      if created then (autoStart f .reliable autostart buf).bustype else none := by
  cases hb : (autoStart f .reliable autostart buf).bustype with
  | some b =>
    simp only [startDemo, hb]
    rw [startUphy_head Kernel.once_boot]
    simp [Kernel.boot]
  | none => cases created <;> simp [startDemo, hb, Kernel.boot]

theorem session_stored {last : Option Bustype} {s : Board} (hs : Stored f last s.autostart)
    (buf : Memory) : (autoStart f .reliable s.autostart buf).bustype = (s.session f).stored :=
  (autoStart_of_stored hs buf).1.trans (autoStart_of_stored hs fun _ => 0).1.symm

theorem consistent_powered (deviceName : Str) : Consistent f (.powered deviceName none) where
  stored := ⟨none,rfl⟩
  once := Kernel.once_boot
  explained := explained_powered deviceName none
  inits := Nat.le_refl 0
  fresh := fun _ => rfl

theorem uphyTask_cases {s t : Board} (hs : Consistent f s) (h : s.uphyTask = some t) :
    ∃ b cause, s.kernel.tasks = [b] ∧ s.inits = [] ∧
      t = { s with
        app := (upAppInit b s.app).1
        inits := [(cause,Session.upInit b)] } := by
  simp only [Board.uphyTask] at h
  split at h
  · rename_i b cause hb hcause
    obtain ⟨hlt,hget⟩ := List.getElem?_eq_some_iff.mp hb
    have hsingle := hs.once.single
    have hnil : s.inits = [] := List.eq_nil_of_length_eq_zero (by omega)
    obtain ⟨c,hc⟩ := List.length_eq_one_iff.mp (show s.kernel.tasks.length = 1 by omega)
    obtain rfl : c = b := by simpa [hc, hnil] using hb
    obtain rfl := Option.some.inj h
    refine ⟨c,cause,hc,hnil,?_⟩
    have hcall : (upAppInit c s.app).2 = Session.upInit c := by
      simp [upAppInit, Session.upInit, hs.fresh hnil]
    simp [hnil, hcall]
  · cases h

theorem Consistent.step {s t : Board} {e : Event} (hs : Consistent f s)
    (h : s.step f .reliable e = some t) : Consistent f t := by
  obtain ⟨last,hlast⟩ := hs.stored
  have hstored := stored_step hlast h
  have honce := once_step hs.once h
  have hexplained := explained_step hs.explained h
  refine ⟨⟨_,hstored⟩,honce,hexplained,?_,?_⟩
  · cases e with
    | upAutostart argv =>
      obtain rfl := Option.some.inj h
      exact hs.inits
    | upStart argv created =>
      obtain rfl := Option.some.inj h
      refine Nat.le_trans hs.inits ?_
      match argv with
      | [] | [_] | _ :: _ :: _ :: _ => exact Nat.le_refl _
      | [cmd,x] =>
        cases hx : strToBusConfig f (some x.memory) with
        | ok b => simpa [Board.withKernel, cmdStart_ok hx] using startUphy_grows created b s.kernel
        | error e => simp [Board.withKernel, cmdStart_error hx]
    | reboot buf created =>
      obtain rfl := Option.some.inj h
      exact Nat.zero_le _
    | upAppInit =>
      obtain ⟨b,cause,htasks,_,rfl⟩ := uphyTask_cases hs h
      simp [htasks]
  · cases e with
    | upAutostart argv | upStart argv created =>
      obtain rfl := Option.some.inj h
      exact hs.fresh
    | reboot buf created =>
      obtain rfl := Option.some.inj h
      exact fun _ => rfl
    | upAppInit =>
      obtain ⟨b,cause,_,_,rfl⟩ := uphyTask_cases hs h
      exact fun hnil => absurd hnil (by simp)

theorem session_upAutostart {last : Option Bustype} {s : Board} (argv : List Str)
    (hlast : Stored f last s.autostart) :
    Session.machine.exec (s.session f) (requests f (.upAutostart argv)) =
      some ({ s with autostart := (cmdAutostart f .reliable argv s.autostart).autostart }.session f) := by
  have hstored := (autoStart_of_stored (stored_cmdAutostart argv hlast) fun _ => 0).1
  match argv with
  | [] | [_] | _ :: _ :: _ :: _ => rfl
  | [cmd,x] =>
    simp only [latestAutostart] at hstored
    simp [requests, Machine.exec, Session.machine, Session.step, Board.session, hstored]

theorem session_upStart {s : Board} (hs : s.kernel.Once) (argv : List Str) (created : Bool) :
    Session.machine.exec (s.session f) (requests f (.upStart argv created)) =
      some ((s.withKernel (cmdStart f created argv s.kernel).kernel (argument argv)).session f) := by
  match argv with
  | [] | [_] | _ :: _ :: _ :: _ => rfl
  | [cmd,x] =>
    cases hx : strToBusConfig f (some x.memory) with
    | ok b =>
      have hhead := startUphy_head hs created b
      simp [requests, hx, Machine.exec, Session.machine, Session.step, Board.session,
        Board.withKernel, cmdStart_ok hx, hhead]
    | error e => simp [requests, hx, Board.session, Board.withKernel, cmdStart_error hx]

theorem session_step {s t : Board} {e : Event} (hs : Consistent f s)
    (h : s.step f .reliable e = some t) :
    Session.machine.exec (s.session f) (requests f e) = some (t.session f) := by
  obtain ⟨last,hlast⟩ := hs.stored
  cases e with
  | upAutostart argv =>
    obtain rfl := Option.some.inj h
    exact session_upAutostart argv hlast
  | upStart argv created =>
    obtain rfl := Option.some.inj h
    exact session_upStart hs.once argv created
  | reboot buf created =>
    have hstored := session_stored hlast buf
    obtain rfl := Option.some.inj h
    have hhead := startDemo_boot (f := f) created s.autostart buf
    rw [hstored] at hhead
    simp [requests, Machine.exec, Session.machine, Session.step, Board.session, Board.withKernel,
      Board.powered, hhead]
  | upAppInit =>
    obtain ⟨b,cause,htasks,hnil,rfl⟩ := uphyTask_cases hs h
    simp [requests, Machine.exec, Session.machine, Session.step, Board.session, htasks, hnil]

theorem request_silent {r : Session.Request} {u : Session} (hr : r ≠ .initialise) :
    Session.upInits u r = fun _ => [] := by
  cases r with
  | initialise => exact absurd rfl hr
  | configure | start | reset => rfl

theorem upInits_silent {rs : List Session.Request} (h : .initialise ∉ rs) (u : Session) :
    Session.machine.outputs Session.upInits u rs = [] := by
  induction rs generalizing u with
  | nil => rfl
  | cons r rs ih =>
    rw [List.mem_cons, not_or] at h
    cases hr : Session.machine.step u r with
    | none => simp [Machine.outputs, hr]
    | some v => simp [Machine.outputs_cons hr, request_silent (Ne.symm h.1), ih h.2]

theorem upInits_step {s t : Board} {e : Event} (hs : Consistent f s)
    (h : s.step f .reliable e = some t) :
    upInitCalls s e t = Session.machine.outputs Session.upInits (s.session f) (requests f e) := by
  cases e with
  | upAutostart argv =>
    obtain rfl := Option.some.inj h
    have hsilent : .initialise ∉ requests f (.upAutostart argv) := by
      unfold requests
      split <;> simp_all
    simp [upInits_silent hsilent, upInitCalls]
  | upStart argv created =>
    obtain rfl := Option.some.inj h
    have hsilent : .initialise ∉ requests f (.upStart argv created) := by
      unfold requests
      split <;> try split
      all_goals simp_all
    simp [upInits_silent hsilent, upInitCalls, Board.withKernel]
  | reboot buf created =>
    obtain rfl := Option.some.inj h
    have hsilent : .initialise ∉ requests f (.reboot buf created) := by simp [requests]
    simp [upInits_silent hsilent, upInitCalls, Board.withKernel, Board.powered]
  | upAppInit =>
    obtain ⟨b,cause,htasks,hnil,rfl⟩ := uphyTask_cases hs h
    simp [upInitCalls, requests, Machine.outputs, Session.machine, Session.step, Session.upInits,
      Board.session, htasks, hnil]

theorem realises_session (deviceName : Str) :
    (board f .reliable deviceName none).Realises Session.machine (Consistent f) (Board.session f)
      (fun _ e _ => requests f e) upInitCalls Session.upInits fun _ => [] where
  start := rfl
  inv_start := consistent_powered deviceName
  owed_start := rfl
  keeps := fun _ _ _ hs => hs.step
  reacts := fun _ _ _ => session_step
  gives := by
    intro s e t hs h
    rw [List.append_nil, List.nil_append]
    exact upInits_step hs h

theorem board_realises_session {deviceName : Str} {es : List Event} {s : Board}
    (h : (board f .reliable deviceName none).run es = some s) :
    ∃ u, Session.machine.run (es.flatMap (requests f)) = some u ∧
      (∀ buf, (autoStart f .reliable s.autostart buf).bustype = u.stored) ∧
      s.kernel.tasks = u.running.toList ∧ (s.inits ≠ [] ↔ u.initialised = true) ∧
      (board f .reliable deviceName none).outputs upInitCalls (.powered deviceName none) es =
        Session.machine.outputs Session.upInits .off (es.flatMap (requests f)) := by
  have hcons : Consistent f s :=
    Machine.run_invariant (consistent_powered deviceName) (fun _ _ _ hs => hs.step) h
  obtain ⟨hrun,hinits⟩ := (realises_session deviceName).run h
  rw [Machine.outputs_label h] at hrun hinits
  rw [List.append_nil] at hinits
  obtain ⟨last,hlast⟩ := hcons.stored
  refine ⟨s.session f,hrun,session_stored hlast,hcons.once.tasks_eq.symm,?_,hinits⟩
  simp [Board.session]

def profinetSession : List Event :=
  [.upAutostart [cmdAutostartName,Bustype.profinet.argument],.reboot (fun _ => 255) true,.upAppInit,
    .upStart [cmdStartName,Bustype.mock.argument] true]

theorem board_realises_session_profinet :
    (board generatedSupport .reliable digioSample none).outputs upInitCalls
        (.powered digioSample none) profinetSession =
      [⟨.profinet,some .upProfinetConfig,some .upProfinetConfig⟩] := by
  have hrun : ((board generatedSupport .reliable digioSample none).run profinetSession).isSome =
      true := rfl
  obtain ⟨s,hs⟩ := Option.isSome_iff_exists.mp hrun
  obtain ⟨u,_,_,_,_,hinits⟩ := board_realises_session hs
  exact hinits.trans (by decide)

end UphyDemo.Startup
