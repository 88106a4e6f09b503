import Mathlib.Data.Nat.Bitwise
import UphyDemo.Device.ParamWrite
import UphyDemo.Foundation.Noninterference
import UphyDemo.Led.Mode
import UphyDemo.Startup.AppInit

namespace UphyDemo.Device
open Bytes CString Transition Led Startup

inductive UpError where
  | none
  | coreCommunication
  | parameterWrite
  | parameterRead
  | invalidProfinetModuleId
  | invalidProfinetSubmoduleId
  | invalidProfinetParameterIndex
  | other (code : Int)
deriving DecidableEq, Repr

def errorCodeToStr : UpError → String
  | .none => "UP_ERROR_NONE"
  | .coreCommunication => "UP_ERROR_CORE_COMMUNICATION"
  | .parameterWrite => "UP_ERROR_PARAMETER_WRITE"
  | .parameterRead => "UP_ERROR_PARAMETER_READ"
  | .invalidProfinetModuleId => "UP_ERROR_INVALID_PROFINET_MODULE_ID"
  | .invalidProfinetSubmoduleId => "UP_ERROR_INVALID_PROFINET_SUBMODULE_ID"
  | .invalidProfinetParameterIndex => "UP_ERROR_INVALID_PROFINET_PARAMETER_INDEX"
  | .other _ => "UNKNOWN"

structure Layout where
  base : Nat
  statusSize : Nat
  status_pos : 0 < statusSize

namespace Layout

variable (l : Layout)

def model : DeviceModel := Digio.model l.base l.statusSize
def i8Input : Nat := Digio.i8Input l.base
def o8Output : Nat := Digio.o8Output l.base l.statusSize

theorem params_apart : l.model.ParamsApart := Digio.params_apart l.base l.statusSize

theorem signals_apart : l.model.SignalsApart :=
  Digio.signals_apart l.base l.statusSize l.status_pos

end Layout

namespace DeviceModel

variable (d : DeviceModel)

def inputs : List Signal := d.slots.flatMap Slot.inputs

def outputs : List Signal := d.slots.flatMap Slot.outputs

def outputStorage : List Region := d.outputs.flatMap (signalRegions d.upVars d.statusSize)

def signalValue (m : Store) (s : Signal) : List UInt8 :=
  match d.upVars[s.ix]? with
  | some info => (List.range (bytesHolding s.bitlength)).map fun k => m (info.value + k)
  | none => []

end DeviceModel

def upReadOutputs (d : DeviceModel) (image m : Store) : Store :=
  fun a => if ∃ r ∈ d.outputStorage, a ∈ r then image a else m a

def upWriteInputs (d : DeviceModel) (m : Store) : List (List UInt8) :=
  d.inputs.map (d.signalValue m)

structure Demo where
  app : App
  upData : Store
  userLed1 : Bool
  userLed2 : Bool
  led : LedTask
  printed : List (UpError × String)

def digioSetOutput (data : UInt8) (s : Demo) : Demo :=
  { s with
    userLed1 := if data &&& 0x01 ≠ 0 then ledOn else ledOff
    userLed2 := if data &&& 0x02 ≠ 0 then ledOn else ledOff }

def buttionPressed : Bool := false

def digioGetInput (userBtn1 userBtn2 : Bool) : UInt8 :=
  let data := 0
  let data := if userBtn1 = buttionPressed then data ||| 0x01 else data
  if userBtn2 = buttionPressed then data ||| 0x02 else data

inductive Callback where
  | avail (image : Store)
  | sync (userBtn1 userBtn2 : Bool)
  | paramWriteInd (queue : List WriteReq)
  | statusInd (status : BitVec 32)
  | errorInd (errorCode : UpError)
  | profinetSignalLedInd
  | loopInd

def Callback.requests : Callback → List WriteReq
  | .paramWriteInd queue => queue
  | _ => []

def Callback.Fitting (d : DeviceModel) (c : Callback) : Prop := ∀ req ∈ c.requests, Fits d req

section Callbacks

variable (l : Layout) (upCoreRunning : BitVec 32)

def cbAvail (image : Store) (s : Demo) : Demo :=
  let s := { s with upData := upReadOutputs l.model image s.upData }
  if s.app.isDigioSampleDevice then digioSetOutput (s.upData l.o8Output) s else s

def cbSync (userBtn1 userBtn2 : Bool) (s : Demo) : List (List UInt8) × Demo :=
  let s := if s.app.isDigioSampleDevice then
    { s with upData := write s.upData l.i8Input [digioGetInput userBtn1 userBtn2] } else s
  (upWriteInputs l.model s.upData,s)

def cbErrorInd (errorCode : UpError) (s : Demo) : Demo :=
  { s with printed := s.printed ++ [(errorCode,errorCodeToStr errorCode)] }

-- built with APPLICATION_MODE_SYNCHRONOUS
def cbLoopInd (s : Demo) : Demo := s

def Demo.step (s : Demo) : Callback → Option Demo
  | .avail image => some (cbAvail l image s)
  | .sync userBtn1 userBtn2 => some (cbSync l userBtn1 userBtn2 s).2
  | .paramWriteInd queue =>
      (cbParamWriteInd l.model queue s.upData).map fun (_,m) => { s with upData := m }
  | .statusInd status =>
      (Led.step s.led (cbStatusInd upCoreRunning status)).map fun led => { s with led := led }
  | .errorInd errorCode => some (cbErrorInd errorCode s)
  | .profinetSignalLedInd =>
      (Led.step s.led cbProfinetSignalLedInd).map fun led => { s with led := led }
  | .loopInd => some (cbLoopInd s)

def exchanging (start : Demo) : Machine Demo Callback where
  start := start
  step := Demo.step l upCoreRunning

def afterAppInit (bustype : Bustype) (deviceName : Str) (led : LedTask) (upData : Store) : Demo where
  app := (upAppInit bustype (App.static deviceName)).1
  upData := upData
  userLed1 := ledOff
  userLed2 := ledOff
  led := led
  printed := []

def demo (bustype : Bustype) (deviceName : Str) (led : LedTask) (upData : Store) :
    Machine Demo Callback :=
  exchanging l upCoreRunning (afterAppInit bustype deviceName led upData)

end Callbacks

section Storage

variable (l : Layout)

theorem i8_signal : (⟨l.i8Input,1⟩ : Region) ∈ l.model.signalStorage := List.mem_cons_self

theorem outputStorage_eq : l.model.outputStorage =
    [⟨l.o8Output,1⟩,⟨l.o8Output + l.statusSize,l.statusSize⟩,
     ⟨Digio.i8o8Output l.base l.statusSize,1⟩,
     ⟨Digio.i8o8Output l.base l.statusSize + l.statusSize,l.statusSize⟩] := rfl

theorem o8_output : (⟨l.o8Output,1⟩ : Region) ∈ l.model.outputStorage := List.mem_cons_self

theorem outputs_above {r : Region} (hr : r ∈ l.model.outputStorage) : l.i8Input ∉ r := by
  have hpos := l.status_pos
  simp only [outputStorage_eq, List.mem_cons, List.not_mem_nil, or_false] at hr
  rcases hr with rfl | rfl | rfl | rfl <;>
    simp only [mem_region, Layout.i8Input, Layout.o8Output, Digio.i8Input, Digio.o8Output,
      Digio.i8o8Output] <;> omega

theorem upReadOutputs_o8 (image m : Store) :
    upReadOutputs l.model image m l.o8Output = image l.o8Output := by
  have hin : ∃ r ∈ l.model.outputStorage, l.o8Output ∈ r :=
    ⟨_,o8_output l,by rw [mem_region]; dsimp only; omega⟩
  simp [upReadOutputs, hin]

theorem upReadOutputs_i8 (image m : Store) :
    upReadOutputs l.model image m l.i8Input = m l.i8Input := by
  have hout : ¬ ∃ r ∈ l.model.outputStorage, l.i8Input ∈ r := by
    rintro ⟨r,hr,hmem⟩
    exact outputs_above l hr hmem
  simp only [upReadOutputs, hout, if_false]

theorem upWriteInputs_i8 (m : Store) : (upWriteInputs l.model m)[0]? = some [m l.i8Input] := rfl

end Storage

section Bits

theorem and_two_pow_ne_zero {n i : Nat} : n &&& 2 ^ i ≠ 0 ↔ n.testBit i = true := by
  rw [Nat.and_two_pow]
  cases n.testBit i <;> simp

theorem and_01_ne_zero (data : UInt8) : data &&& 0x01 ≠ 0 ↔ data.toNat.testBit 0 = true := by
  rw [← and_two_pow_ne_zero, Ne, ← UInt8.toNat_inj, UInt8.toNat_and]
  rfl

theorem and_02_ne_zero (data : UInt8) : data &&& 0x02 ≠ 0 ↔ data.toNat.testBit 1 = true := by
  rw [← and_two_pow_ne_zero, Ne, ← UInt8.toNat_inj, UInt8.toNat_and]
  rfl

theorem level_eq_ledOn {p : Prop} [Decidable p] : (if p then ledOn else ledOff) = ledOn ↔ p := by
  by_cases h : p <;> simp [h, ledOn, ledOff]

structure CarriesButtons (data : UInt8) (userBtn1 userBtn2 : Bool) : Prop where
  bit0 : data.toNat.testBit 0 = true ↔ userBtn1 = buttionPressed
  bit1 : data.toNat.testBit 1 = true ↔ userBtn2 = buttionPressed
  rest : ∀ i, 2 ≤ i → data.toNat.testBit i = false

theorem digioGetInput_carries (userBtn1 userBtn2 : Bool) :
    CarriesButtons (digioGetInput userBtn1 userBtn2) userBtn1 userBtn2 := by
  refine ⟨?_,?_,?_⟩
  · cases userBtn1 <;> cases userBtn2 <;> decide
  · cases userBtn1 <;> cases userBtn2 <;> decide
  · intro i hi
    have hlt : (digioGetInput userBtn1 userBtn2).toNat < 2 ^ 2 := by
      cases userBtn1 <;> cases userBtn2 <;> decide
    exact Nat.testBit_lt_two_pow (Nat.lt_of_lt_of_le hlt (Nat.pow_le_pow_right (by decide) hi))

end Bits

structure Panel where
  digio : Bool
  userLed1 : Bool
  userLed2 : Bool
  i8 : UInt8
deriving DecidableEq, Repr

inductive Seen where
  | output (bit0 bit1 : Bool)
  | buttons (userBtn1 userBtn2 : Bool)
deriving DecidableEq, Repr

def Panel.react (p : Panel) : Option Seen → Panel
  | some (.output bit0 bit1) =>
      if p.digio then
        { p with
          userLed1 := if bit0 then ledOn else ledOff
          userLed2 := if bit1 then ledOn else ledOff }
      else p
  | some (.buttons userBtn1 userBtn2) =>
      if p.digio then { p with i8 := digioGetInput userBtn1 userBtn2 } else p
  | none => p

section Runs

variable (l : Layout) {upCoreRunning : BitVec 32}

def Demo.panel (s : Demo) : Panel where
  digio := s.app.isDigioSampleDevice
  userLed1 := s.userLed1
  userLed2 := s.userLed2
  i8 := s.upData l.i8Input

def view : Callback → Option Seen
  | .avail image =>
      some (.output ((image l.o8Output).toNat.testBit 0) ((image l.o8Output).toNat.testBit 1))
  | .sync userBtn1 userBtn2 => some (.buttons userBtn1 userBtn2)
  | _ => none

def ledHistory : Demo → Callback → Demo → List (Bool × Bool)
  | _, .avail _, t => [(t.userLed1,t.userLed2)]
  | _, _, _ => []

def inputImages : Demo → Callback → Demo → List (List (List UInt8))
  | s, .sync userBtn1 userBtn2, _ => [(cbSync l userBtn1 userBtn2 s).1]
  | _, _, _ => []

def i8History (s : Demo) (c : Callback) (t : Demo) : List (Option (List UInt8)) :=
  (inputImages l s c t).map fun image => image[0]?

variable {l} {s t : Demo}

theorem panel_avail (image : Store) (s : Demo) :
    (cbAvail l image s).panel l = (s.panel l).react (view l (.avail image)) := by
  cases hdigio : s.app.isDigioSampleDevice <;>
    simp [cbAvail, Demo.panel, Panel.react, view, digioSetOutput, hdigio, upReadOutputs_i8,
      upReadOutputs_o8, and_01_ne_zero, and_02_ne_zero]

theorem panel_sync (userBtn1 userBtn2 : Bool) (s : Demo) :
    (cbSync l userBtn1 userBtn2 s).2.panel l =
      (s.panel l).react (view l (.sync userBtn1 userBtn2)) := by
  cases hdigio : s.app.isDigioSampleDevice <;>
    simp [cbSync, Demo.panel, Panel.react, view, hdigio, write]

theorem panel_paramWriteInd {queue : List WriteReq} {cs : List Copy} {m : Store}
    (hfit : ∀ req ∈ queue, Fits l.model req)
    (hrun : cbParamWriteInd l.model queue s.upData = some (cs,m)) :
    ({ s with upData := m } : Demo).panel l = s.panel l := by
  have hsame := cbParamWriteInd_signals l.signals_apart hfit hrun (i8_signal l)
  have hi8 : m l.i8Input = s.upData l.i8Input :=
    hsame _ (by rw [mem_region]; dsimp only; omega)
  simp [Demo.panel, hi8]

theorem panel_step {c : Callback} (hfit : c.Fitting l.model)
    (h : s.step l upCoreRunning c = some t) : t.panel l = (s.panel l).react (view l c) := by
  cases c with
  | avail image =>
    obtain rfl := Option.some.inj h
    exact panel_avail image s
  | sync userBtn1 userBtn2 =>
    obtain rfl := Option.some.inj h
    exact panel_sync userBtn1 userBtn2 s
  | paramWriteInd queue =>
    obtain ⟨⟨cs,m⟩,hrun,rfl⟩ := Option.map_eq_some_iff.mp h
    exact panel_paramWriteInd hfit hrun
  | statusInd status =>
    obtain ⟨led,_,rfl⟩ := Option.map_eq_some_iff.mp h
    rfl
  | profinetSignalLedInd =>
    obtain rfl := Option.some.inj h
    rfl
  | errorInd errorCode =>
    obtain rfl := Option.some.inj h
    rfl
  | loopInd =>
    obtain rfl := Option.some.inj h
    rfl

theorem panel_unwinding {O : Type} {f : Demo → Callback → Demo → List O}
    {g : Option Seen → Panel → List O} (start : Demo) (hnone : ∀ p, g none p = [])
    (hg : ∀ s c t, s.step l upCoreRunning c = some t → f s c t = g (view l c) (t.panel l)) :
    (exchanging l upCoreRunning start).Unwinding (Callback.Fitting l.model) (view l) f
      (fun s t => s.panel l = t.panel l) where
  symm := fun _ _ h => h.symm
  silent := by
    intro s t c s' hR hfit hview h
    refine ⟨?_,?_⟩
    · rw [panel_step hfit h, hview]
      exact hR
    · rw [hg s c s' h, hview, hnone]
  seen := by
    intro s t c c' v s' t' hR hfit hfit' hc hc' hs ht
    have hpanel : s'.panel l = t'.panel l := by
      rw [panel_step hfit hs, panel_step hfit' ht, hR, hc, hc']
    refine ⟨hpanel,?_⟩
    rw [hg s c s' hs, hg t c' t' ht, hc, hc', hpanel]

def Panel.leds : Option Seen → Panel → List (Bool × Bool)
  | some (.output _ _), p => [(p.userLed1,p.userLed2)]
  | _, _ => []

def Panel.i8Image : Option Seen → Panel → List (Option (List UInt8))
  | some (.buttons _ _), p => [some [p.i8]]
  | _, _ => []

theorem ledHistory_panel (s : Demo) (c : Callback) (t : Demo) :
    ledHistory s c t = Panel.leds (view l c) (t.panel l) := by
  cases c <;> rfl

theorem i8History_panel {c : Callback} (h : s.step l upCoreRunning c = some t) :
    i8History l s c t = Panel.i8Image (view l c) (t.panel l) := by
  cases c with
  | sync userBtn1 userBtn2 =>
    obtain rfl := Option.some.inj h
    rfl
  | _ => rfl

theorem alike_runs {start : Demo} {cs cs' : List Callback} {s s' : Demo}
    (hfit : ∀ c ∈ cs, c.Fitting l.model) (hfit' : ∀ c ∈ cs', c.Fitting l.model)
    (hs : (exchanging l upCoreRunning start).run cs = some s)
    (hs' : (exchanging l upCoreRunning start).run cs' = some s')
    (hview : cs.filterMap (view l) = cs'.filterMap (view l)) :
    s.panel l = s'.panel l ∧
    (exchanging l upCoreRunning start).outputs ledHistory start cs =
      (exchanging l upCoreRunning start).outputs ledHistory start cs' ∧
    (exchanging l upCoreRunning start).outputs (i8History l) start cs =
      (exchanging l upCoreRunning start).outputs (i8History l) start cs' := by
  have hleds : (exchanging l upCoreRunning start).Unwinding (Callback.Fitting l.model) (view l)
      ledHistory (fun s t => s.panel l = t.panel l) :=
    panel_unwinding start (fun _ => rfl) fun s c t _ => ledHistory_panel s c t
  have hi8 : (exchanging l upCoreRunning start).Unwinding (Callback.Fitting l.model) (view l)
      (i8History l) (fun s t => s.panel l = t.panel l) :=
    panel_unwinding start (fun _ => rfl) fun s c t h => i8History_panel h
  have hpanel := hleds.exec_alike rfl hfit hfit' hs hs' hview
  exact ⟨hpanel.1,hpanel.2,(hi8.exec_alike rfl hfit hfit' hs hs' hview).2⟩

theorem callback_enabled (s : Demo) {c : Callback} (hfit : c.Fitting l.model) :
    ∃ t, s.step l upCoreRunning c = some t := by
  cases c with
  | paramWriteInd queue =>
    obtain ⟨cs,m,hrun,_⟩ := (cbParamWriteInd_inside_iff queue s.upData).mpr hfit
    exact ⟨{ s with upData := m },by simp [Demo.step, hrun]⟩
  | statusInd status =>
    simp only [Demo.step, cbStatusInd, ledSetRunningMode]
    split <;> exact ⟨_,rfl⟩
  | _ => exact ⟨_,rfl⟩

theorem app_step {c : Callback} (h : s.step l upCoreRunning c = some t) : t.app = s.app := by
  cases c with
  | avail image =>
    obtain rfl := Option.some.inj h
    unfold cbAvail
    dsimp only
    split <;> rfl
  | sync userBtn1 userBtn2 =>
    obtain rfl := Option.some.inj h
    unfold cbSync
    dsimp only
    split <;> rfl
  | paramWriteInd queue =>
    obtain ⟨_,_,rfl⟩ := Option.map_eq_some_iff.mp h
    rfl
  | statusInd status =>
    obtain ⟨_,_,rfl⟩ := Option.map_eq_some_iff.mp h
    rfl
  | profinetSignalLedInd | errorInd errorCode | loopInd =>
    obtain rfl := Option.some.inj h
    rfl

theorem panel_frozen {c : Callback} (hs : (s.panel l).digio = false) (hfit : c.Fitting l.model)
    (h : s.step l upCoreRunning c = some t) : t.panel l = s.panel l := by
  rw [panel_step hfit h]
  cases hview : view l c with
  | none => rfl
  | some v => cases v <;> simp [Panel.react, hs]

def o8Read (l : Layout) : Callback → Option UInt8
  | .avail image => some (image l.o8Output)
  | _ => none

def sampled : Callback → Option (Bool × Bool)
  | .sync userBtn1 userBtn2 => some (userBtn1,userBtn2)
  | _ => none

structure ShowsOutput (data : UInt8) (s : Demo) : Prop where
  led1 : s.userLed1 = ledOn ↔ data.toNat.testBit 0 = true
  led2 : s.userLed2 = ledOn ↔ data.toNat.testBit 1 = true

theorem showsOutput_avail {image : Store} (hs : s.app.isDigioSampleDevice = true) :
    ShowsOutput (image l.o8Output) (cbAvail l image s) := by
  have hpanel := panel_avail (l := l) image s
  simp only [Demo.panel, Panel.react, view, hs, if_true, Panel.mk.injEq] at hpanel
  obtain ⟨_,hled1,hled2,_⟩ := hpanel
  refine ⟨?_,?_⟩
  · rw [hled1, level_eq_ledOn]
  · rw [hled2, level_eq_ledOn]

theorem leds_kept {c : Callback} (hc : o8Read l c = none)
    (h : s.step l upCoreRunning c = some t) :
    t.userLed1 = s.userLed1 ∧ t.userLed2 = s.userLed2 := by
  cases c with
  | avail image => cases hc
  | sync userBtn1 userBtn2 =>
    obtain rfl := Option.some.inj h
    unfold cbSync
    dsimp only
    split <;> exact ⟨rfl,rfl⟩
  | paramWriteInd queue =>
    obtain ⟨_,_,rfl⟩ := Option.map_eq_some_iff.mp h
    exact ⟨rfl,rfl⟩
  | statusInd status =>
    obtain ⟨_,_,rfl⟩ := Option.map_eq_some_iff.mp h
    exact ⟨rfl,rfl⟩
  | profinetSignalLedInd | errorInd errorCode | loopInd =>
    obtain rfl := Option.some.inj h
    exact ⟨rfl,rfl⟩

structure Shown (l : Layout) (cs : List Callback) (s : Demo) : Prop where
  digio : s.app.isDigioSampleDevice = true
  latest : ∀ data, (cs.filterMap (o8Read l)).getLast? = some data → ShowsOutput data s

theorem Shown.step {cs : List Callback} {c : Callback} (hs : Shown l cs s)
    (h : s.step l upCoreRunning c = some t) : Shown l (cs ++ [c]) t := by
  refine ⟨(congrArg App.isDigioSampleDevice (app_step h)).trans hs.digio,?_⟩
  intro data hdata
  cases hc : o8Read l c with
  | none =>
    obtain ⟨hled1,hled2⟩ := leds_kept hc h
    have hold := hs.latest data (by simpa [hc] using hdata)
    exact ⟨by rw [hled1]; exact hold.led1,by rw [hled2]; exact hold.led2⟩
  | some read =>
    obtain rfl : read = data := by simpa [hc] using hdata
    cases c with
    | avail image =>
      obtain rfl := Option.some.inj hc
      obtain rfl := Option.some.inj h
      exact showsOutput_avail hs.digio
    | _ => cases hc

theorem images_carry {start : Demo} {cs : List Callback}
    (hs : s.app.isDigioSampleDevice = true)
    (h : (exchanging l upCoreRunning start).exec s cs = some t) :
    List.Forall₂ (fun image btn => ∃ data, image[0]? = some [data] ∧
        CarriesButtons data btn.1 btn.2)
      ((exchanging l upCoreRunning start).outputs (inputImages l) s cs) (cs.filterMap sampled) := by
  induction cs generalizing s with
  | nil => exact .nil
  | cons c cs ih =>
    obtain ⟨u,hu,ht⟩ := Machine.exec_cons_iff.mp h
    have hrest := ih ((congrArg App.isDigioSampleDevice (app_step hu)).trans hs) ht
    rw [Machine.outputs_cons hu]
    cases c with
    | sync userBtn1 userBtn2 =>
      refine .cons ⟨_,?_,digioGetInput_carries userBtn1 userBtn2⟩ hrest
      simp [cbSync, hs, upWriteInputs_i8, write]
    | _ => exact hrest

theorem shown_run {start : Demo} {cs : List Callback}
    (hstart : start.app.isDigioSampleDevice = true)
    (h : (exchanging l upCoreRunning start).run cs = some s) : Shown l cs s := by
  refine Machine.run_history_free (I := Shown l) ⟨hstart,?_⟩ ?_ h
  · intro data hdata
    cases hdata
  · intro pre s c t hs hstep
    exact hs.step hstep

theorem frozen_run {start : Demo} {cs : List Callback}
    (hstart : start.app.isDigioSampleDevice = false) (hfit : ∀ c ∈ cs, c.Fitting l.model)
    (h : (exchanging l upCoreRunning start).run cs = some s) : s.panel l = start.panel l := by
  refine Machine.exec_labels (I := fun s : Demo => s.panel l = start.panel l) ?_ rfl hfit h
  intro s c t hs hc hstep
  rw [← hs]
  refine panel_frozen ?_ hc hstep
  rw [hs]
  exact hstart

end Runs

theorem process_data_isolated (l : Layout) (upCoreRunning : BitVec 32) (bustype : Bustype)
    (deviceName : Str) (led : LedTask) (upData : Store) :
    (∀ cs : List Callback, (∀ c ∈ cs, c.Fitting l.model) →
      ∃ s, (demo l upCoreRunning bustype deviceName led upData).run cs = some s) ∧
    (deviceName.bytes = digioSampleName → ∀ cs s, (∀ c ∈ cs, c.Fitting l.model) →
      (demo l upCoreRunning bustype deviceName led upData).run cs = some s →
      (∀ data, (cs.filterMap (o8Read l)).getLast? = some data → ShowsOutput data s) ∧
      List.Forall₂ (fun image btn => ∃ data, image[0]? = some [data] ∧
          CarriesButtons data btn.1 btn.2)
        ((demo l upCoreRunning bustype deviceName led upData).outputs (inputImages l)
          (afterAppInit bustype deviceName led upData) cs) (cs.filterMap sampled)) ∧
    (∀ cs cs' s s', (∀ c ∈ cs, c.Fitting l.model) → (∀ c ∈ cs', c.Fitting l.model) →
      (demo l upCoreRunning bustype deviceName led upData).run cs = some s →
      (demo l upCoreRunning bustype deviceName led upData).run cs' = some s' →
      cs.filterMap (view l) = cs'.filterMap (view l) →
      s.panel l = s'.panel l ∧
      (demo l upCoreRunning bustype deviceName led upData).outputs ledHistory
          (afterAppInit bustype deviceName led upData) cs =
        (demo l upCoreRunning bustype deviceName led upData).outputs ledHistory
          (afterAppInit bustype deviceName led upData) cs' ∧
      (demo l upCoreRunning bustype deviceName led upData).outputs (i8History l)
          (afterAppInit bustype deviceName led upData) cs =
        (demo l upCoreRunning bustype deviceName led upData).outputs (i8History l)
          (afterAppInit bustype deviceName led upData) cs') ∧
    (deviceName.bytes ≠ digioSampleName → ∀ cs s, (∀ c ∈ cs, c.Fitting l.model) →
      (demo l upCoreRunning bustype deviceName led upData).run cs = some s →
      s.panel l = (afterAppInit bustype deviceName led upData).panel l) := by
  have hdigio := upAppInit_isDigio bustype deviceName
  refine ⟨?_,?_,?_,?_⟩
  · intro cs hfit
    exact Machine.exec_total (fun s c hc => callback_enabled s hc) hfit _
  · intro hname cs s _ h
    have hstart := hdigio.mpr hname
    exact ⟨(shown_run hstart h).latest,images_carry hstart h⟩
  · intro cs cs' s s' hfit hfit' hs hs' hview
    exact alike_runs hfit hfit' hs hs' hview
  · intro hname cs s hfit h
    refine frozen_run ?_ hfit h
    exact Bool.eq_false_iff.mpr fun hflag => hname (hdigio.mp hflag)

end UphyDemo.Device
