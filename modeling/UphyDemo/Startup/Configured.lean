import UphyDemo.Startup.Board
import Mathlib.Data.List.Forall2

namespace UphyDemo.Startup
open CString Transition

def Busconf.bus : Busconf → Bustype
  | .upMockConfig => .mock
  | .upProfinetConfig => .profinet
  | .upEthernetipConfig => .ethernetip
  | .upModbusConfig => .modbus
  | .upCclinkConfig => .cclink

theorem busconfOf_bus {b : Bustype} {c : Busconf} (h : busconfOf b = some c) : c.bus = b := by
  cases b <;> cases h <;> rfl

theorem busconfOf_isSome_iff {b : Bustype} : (∃ c, busconfOf b = some c) ↔ b ≠ .ecat := by
  cases b <;> simp [busconfOf]

theorem accepted_ecat_iff {f : Supported} {s : Memory} {b : Bustype}
    (h : strToBusConfig f (some s) = .ok b) : b = .ecat ↔ strcmp s (ascii "ethercat") = 0 := by
  have hname := (strToBusConfig_ok_iff.mp h).2
  constructor
  · rintro rfl
    exact hname
  · intro hecat
    exact Bustype.name_injective
      (strcmp_unique b.name_unterminated Bustype.ecat.name_unterminated hname hecat)

variable {f : Supported} {fs : RteFs}

def Accepts (f : Supported) (cause : Memory) (b : Bustype) : Prop :=
  strToBusConfig f (some cause) = .ok b

structure Initialised (f : Supported) (cause : Memory) (call : UpInitCall) : Prop where
  accepted : Accepts f cause call.bustype
  assigned : call.assigned = busconfOf call.bustype
  upBusconf : ∀ c, busconfOf call.bustype = some c → call.upBusconf = some c

structure Explained (f : Supported) (s : Board) : Prop where
  tasks : List.Forall₂ (Accepts f) s.causes s.kernel.tasks
  inits : ∀ entry ∈ s.inits, Initialised f entry.1 entry.2

theorem explained_powered (deviceName : Str) (autostart : File) :
    Explained f (.powered deviceName autostart) :=
  ⟨.nil,fun _ h => absurd h List.not_mem_nil⟩

theorem explained_same {s : Board} (hs : Explained f s) (cause : Memory) :
    Explained f (s.withKernel s.kernel cause) := by
  refine ⟨?_,hs.inits⟩
  simpa [Board.withKernel] using hs.tasks

theorem explained_startUphy {s : Board} (hs : Explained f s) (created : Bool) {cause : Memory}
    {b : Bustype} (hb : Accepts f cause b) :
    Explained f (s.withKernel (startUphy created b s.kernel) cause) := by
  rcases startUphy_cases created b s.kernel with heq | ⟨_,heq⟩
  · rw [heq]
    exact explained_same hs cause
  · rw [heq]
    refine ⟨?_,hs.inits⟩
    have hlen : (s.kernel.tasks ++ [b]).length ≠ s.kernel.tasks.length := by simp
    simpa [Board.withKernel, hlen] using List.rel_append hs.tasks (.cons hb .nil)

theorem explained_cmdStart {s : Board} (hs : Explained f s) (created : Bool) (argv : List Str) :
    Explained f (s.withKernel (cmdStart f created argv s.kernel).kernel (argument argv)) := by
  match argv with
  | [] | [_] | _ :: _ :: _ :: _ => exact explained_same hs _
  | [cmd,x] =>
    cases hx : strToBusConfig f (some x.memory) with
    | ok b =>
      rw [cmdStart_ok hx]
      exact explained_startUphy hs created hx
    | error e =>
      rw [cmdStart_error hx]
      exact explained_same hs _

theorem autoStart_accepts {autostart : File} {buf : Memory} {b : Bustype}
    (h : (autoStart f fs autostart buf).bustype = some b) :
    Accepts f (autoStart f fs autostart buf).buf b := by
  simp only [autoStart] at h ⊢
  split at h
  · split at h
    · rename_i hok
      obtain rfl := Option.some.inj h
      simpa [Accepts, hok] using hok
    · simp at h
  · simp at h

theorem explained_startDemo {s : Board} (hs : Explained f s) (created : Bool) (buf : Memory) :
    Explained f (s.withKernel (startDemo f fs created s.autostart buf s.kernel)
      (autoStart f fs s.autostart buf).buf) := by
  cases hb : (autoStart f fs s.autostart buf).bustype with
  | some b =>
    have hkernel : startDemo f fs created s.autostart buf s.kernel = startUphy created b s.kernel := by
      simp [startDemo, hb]
    rw [hkernel]
    exact explained_startUphy hs created (autoStart_accepts hb)
  | none =>
    have hkernel : startDemo f fs created s.autostart buf s.kernel = s.kernel := by
      simp [startDemo, hb]
    rw [hkernel]
    exact explained_same hs _

theorem initialised_upAppInit {cause : Memory} {b : Bustype} (hb : Accepts f cause b) (app : App) :
    Initialised f cause (upAppInit b app).2 :=
  ⟨hb,rfl,fun c hc => by simp only [upAppInit] at hc ⊢; simp [hc]⟩

theorem explained_uphyTask {s t : Board} (hs : Explained f s) (h : s.uphyTask = some t) :
    Explained f t := by
  simp only [Board.uphyTask] at h
  split at h
  · rename_i b cause hb hcause
    obtain rfl := Option.some.inj h
    obtain ⟨htask,rfl⟩ := List.getElem?_eq_some_iff.mp hb
    obtain ⟨_,rfl⟩ := List.getElem?_eq_some_iff.mp hcause
    have haccept : Accepts f s.causes[s.inits.length] s.kernel.tasks[s.inits.length] :=
      List.Forall₂.get hs.tasks _ htask
    refine ⟨hs.tasks,?_⟩
    intro entry hentry
    rcases List.mem_append.mp hentry with hold | hnew
    · exact hs.inits entry hold
    · obtain rfl := List.mem_singleton.mp hnew
      exact initialised_upAppInit haccept s.app
  · simp at h

theorem explained_step {s t : Board} {e : Event} (hs : Explained f s)
    (h : s.step f fs e = some t) : Explained f t := by
  cases e with
  | upAutostart argv =>
    obtain rfl := Option.some.inj h
    exact ⟨hs.tasks,hs.inits⟩
  | upStart argv created =>
    obtain rfl := Option.some.inj h
    exact explained_cmdStart hs created argv
  | reboot buf created =>
    obtain rfl := Option.some.inj h
    exact explained_startDemo (explained_powered _ _) created buf
  | upAppInit => exact explained_uphyTask hs h

theorem explained_run {deviceName : Str} {autostart : File} {es : List Event} {s : Board}
    (h : (board f fs deviceName autostart).run es = some s) : Explained f s :=
  Machine.run_invariant (explained_powered deviceName autostart) (fun _ _ _ => explained_step) h

def ConfiguredFor (f : Supported) (cause : Memory) (call : UpInitCall) : Prop :=
  ∃ b c, strToBusConfig f (some cause) = .ok b ∧ call.bustype = b ∧
    call.assigned = some c ∧ call.upBusconf = some c ∧ c.bus = b

theorem configuredFor_iff {cause : Memory} {call : UpInitCall} (h : Initialised f cause call) :
    ConfiguredFor f cause call ↔ strcmp cause (ascii "ethercat") ≠ 0 := by
  rw [ne_eq, ← accepted_ecat_iff h.accepted, ← ne_eq, ← busconfOf_isSome_iff]
  constructor
  · rintro ⟨b,c,_,_,hassigned,_,_⟩
    exact ⟨c,h.assigned.symm.trans hassigned⟩
  · rintro ⟨c,hc⟩
    exact ⟨call.bustype,c,h.accepted,rfl,h.assigned.trans hc,h.upBusconf c hc,busconfOf_bus hc⟩

theorem up_init_configured_iff (f : Supported) (fs : RteFs) (deviceName : Str)
    (autostart : File) :
    (∀ es s, (board f fs deviceName autostart).run es = some s → ∀ entry ∈ s.inits,
      (ConfiguredFor f entry.1 entry.2 ↔ strcmp entry.1 (ascii "ethercat") ≠ 0)) ∧
    (∀ str b, strToBusConfig f (some str) = .ok b →
      ((∃ c, busconfOf b = some c) ↔ strcmp str (ascii "ethercat") ≠ 0)) := by
  constructor
  · intro es s h entry hentry
    exact configuredFor_iff ((explained_run h).inits entry hentry)
  · intro str b hb
    rw [busconfOf_isSome_iff, ne_eq, accepted_ecat_iff hb]

def startEthercat : List Event := [.upStart [cmdStartName,Bustype.ecat.argument] true,.upAppInit]

def ethercatBoard : Board where
  autostart := none
  kernel := ⟨some 0,[.ecat]⟩
  app := ⟨digioSample,true,.ecat,none⟩
  causes := [Bustype.ecat.argument.memory]
  inits := [(Bustype.ecat.argument.memory,⟨.ecat,none,none⟩)]

theorem ethercat_starts_unconfigured :
    ¬ ∀ (f : Supported) (fs : RteFs) (deviceName : Str) (autostart : File) (es : List Event)
      (s : Board), (board f fs deviceName autostart).run es = some s →
      ∀ entry ∈ s.inits, ConfiguredFor f entry.1 entry.2 := by
  intro h
  obtain ⟨b,c,_,_,hassigned,_⟩ := h generatedSupport .reliable digioSample none
    startEthercat ethercatBoard rfl _ (List.mem_singleton_self _)
  cases hassigned

end UphyDemo.Startup
