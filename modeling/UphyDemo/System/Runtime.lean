import UphyDemo.Device.Contents
import UphyDemo.Led.Controller

namespace UphyDemo.System
open Bytes CString Transition Led Startup Device

-- the callbacks come from `up_worker`, the other two labels are `led_task`; any of them may be next
inductive Label where
  | callback (c : Device.Callback)
  | ledTask
  | waitTimeout

section Machine

variable (l : Layout) (upCoreRunning : BitVec 32)

def withLed (s : Demo) (led : LedTask) : Demo := { s with led := led }

def step (s : Demo) : Label → Option Demo
  | .callback c => s.step l upCoreRunning c
  | .ledTask => (Led.step s.led .task).map (withLed s)
  | .waitTimeout => (Led.step s.led .timeout).map (withLed s)

def runtime (bustype : Bustype) (deviceName : Str) (upData : Store) : Machine Demo Label where
  start := afterAppInit bustype deviceName .boot upData
  step := step l upCoreRunning

def ledView : Label → Option Led.Event
  | .callback (.statusInd status) => some (.cbStatusInd status)
  | .callback .profinetSignalLedInd => some .cbProfinetSignalLedInd
  | .callback _ => none
  | .ledTask => some .ledTask
  | .waitTimeout => some .waitTimeout

def ioView : Label → Option Device.Callback
  | .callback (.statusInd _) | .callback .profinetSignalLedInd => none
  | .callback c => some c
  | .ledTask | .waitTimeout => none

-- everything but the state of `led_task`
def exchange (s : Demo) : Demo := withLed s .boot

end Machine

section Parties

variable {l : Layout} {upCoreRunning : BitVec 32} {bustype : Bustype} {deviceName : Str}
  {upData : Store} {s t : Demo}

theorem cbAvail_withLed (image : Store) (s : Demo) (led : LedTask) :
    cbAvail l image (withLed s led) = withLed (cbAvail l image s) led := by
  cases hdigio : s.app.isDigioSampleDevice <;>
    simp only [cbAvail, withLed, digioSetOutput, hdigio] <;> rfl

theorem cbSync_withLed (userBtn1 userBtn2 : Bool) (s : Demo) (led : LedTask) :
    (cbSync l userBtn1 userBtn2 (withLed s led)).2 =
      withLed (cbSync l userBtn1 userBtn2 s).2 led := by
  cases hdigio : s.app.isDigioSampleDevice <;> simp [cbSync, withLed, hdigio]

theorem exchange_callback {c : Device.Callback} (hview : ledView (.callback c) = none)
    (h : s.step l upCoreRunning c = some t) (led : LedTask) :
    (withLed s led).step l upCoreRunning c = some (withLed t led) := by
  cases c with
  | avail image =>
    obtain rfl := Option.some.inj h
    exact congrArg some (cbAvail_withLed image s led)
  | sync userBtn1 userBtn2 =>
    obtain rfl := Option.some.inj h
    exact congrArg some (cbSync_withLed userBtn1 userBtn2 s led)
  | paramWriteInd queue =>
    obtain ⟨result,hrun,rfl⟩ := Option.map_eq_some_iff.mp h
    exact Option.map_eq_some_iff.mpr ⟨result,hrun,rfl⟩
  | errorInd errorCode | loopInd =>
    obtain rfl := Option.some.inj h
    rfl
  | statusInd status => cases hview
  | profinetSignalLedInd => cases hview

theorem withLed_led (s : Demo) : withLed s s.led = s := rfl

theorem led_kept {c : Device.Callback} (hview : ledView (.callback c) = none)
    (h : s.step l upCoreRunning c = some t) : t.led = s.led := by
  have hself := exchange_callback hview h s.led
  rw [withLed_led, h] at hself
  have hsame : t = withLed t s.led := Option.some.inj hself
  rw [hsame]
  rfl

theorem ioView_callback {a : Label} {c : Device.Callback} (hview : ioView a = some c) :
    ledView a = none ∧ a = .callback c := by
  cases a with
  | ledTask | waitTimeout => cases hview
  | callback c' =>
    cases c' with
    | statusInd status | profinetSignalLedInd => cases hview
    | avail image | sync userBtn1 userBtn2 | paramWriteInd queue | errorInd errorCode
    | loopInd =>
      obtain rfl := Option.some.inj hview
      exact ⟨rfl,rfl⟩

theorem view_apart (a : Label) : (∃ e, ledView a = some e ∧ ioView a = none) ∨
    ∃ c, ioView a = some c ∧ ledView a = none := by
  cases a with
  | ledTask | waitTimeout => exact .inl ⟨_,rfl,rfl⟩
  | callback c =>
    cases c with
    | statusInd status | profinetSignalLedInd => exact .inl ⟨_,rfl,rfl⟩
    | avail image | sync userBtn1 userBtn2 | paramWriteInd queue | errorInd errorCode
    | loopInd => exact .inr ⟨_,rfl,rfl⟩

theorem step_ledView {a : Label} {e : Led.Event} (hview : ledView a = some e) (s : Demo) :
    step l upCoreRunning s a = ((Led.system upCoreRunning).step s.led e).map (withLed s) := by
  cases a with
  | ledTask | waitTimeout =>
    obtain rfl := Option.some.inj hview
    rfl
  | callback c =>
    cases c with
    | statusInd status | profinetSignalLedInd =>
      obtain rfl := Option.some.inj hview
      rfl
    | avail image | sync userBtn1 userBtn2 | paramWriteInd queue | errorInd errorCode
    | loopInd => cases hview

theorem runtime_led : (runtime l upCoreRunning bustype deviceName upData).Follows
    (Led.system upCoreRunning) Demo.led ledView where
  start := rfl
  silent := by
    intro s a t hview h
    rcases view_apart a with ⟨e,hsome,_⟩ | ⟨c,hsome,_⟩
    · rw [hview] at hsome
      cases hsome
    · obtain ⟨hnone,rfl⟩ := ioView_callback hsome
      exact led_kept hnone h
  seen := by
    intro s a t e hview h
    obtain ⟨led,hled,rfl⟩ := Option.map_eq_some_iff.mp ((step_ledView hview s).symm.trans h)
    exact hled

theorem runtime_io : (runtime l upCoreRunning bustype deviceName upData).Follows
    (exchanging l upCoreRunning (afterAppInit bustype deviceName .boot upData)) exchange ioView where
  start := rfl
  silent := by
    intro s a t hview h
    rcases view_apart a with ⟨e,hsome,_⟩ | ⟨c,hsome,_⟩
    · obtain ⟨led,_,rfl⟩ := Option.map_eq_some_iff.mp ((step_ledView hsome s).symm.trans h)
      rfl
    · rw [hview] at hsome
      cases hsome
  seen := by
    intro s a t c hview h
    obtain ⟨hnone,rfl⟩ := ioView_callback hview
    exact exchange_callback hnone h .boot

end Parties

structure Sound (l : Layout) (digio : Bool) (before : Store) (as : List Label) (s : Demo) :
    Prop where
  mode : s.led.pc = .wait → (s.led.userLed3 = ledOn ↔ s.led.running = true)
  shown : digio = true → ∀ data, ((as.filterMap ioView).filterMap (o8Read l)).getLast? = some data →
    ShowsOutput data s
  contents : Holds l digio before s.upData (as.filterMap ioView)

def unpadded : Layout := ⟨0,1,by decide⟩

theorem runtime_sound {l : Layout} {upCoreRunning : BitVec 32} {bustype : Bustype}
    {deviceName : Str} {upData : Store} {as : List Label} {s : Demo}
    (hfit : ∀ req ∈ allRequests (as.filterMap ioView), Fits l.model req)
    (h : (runtime l upCoreRunning bustype deviceName upData).run as = some s) :
    Sound l (decide (deviceName.bytes = digioSampleName)) upData as s := by
  have hled := runtime_led.run h
  have hio := runtime_io.run h
  have hflag : (afterAppInit bustype deviceName .boot upData).app.isDigioSampleDevice =
      decide (deviceName.bytes = digioSampleName) := by
    rw [Bool.eq_iff_iff, decide_eq_true_iff]
    exact upAppInit_isDigio bustype deviceName
  refine ⟨?_,?_,?_⟩
  · intro hpc
    rw [Machine.run, system_exec] at hled
    have hlevel := level_at_wait hled hpc
    cases hrun : s.led.running <;> simp [hlevel, hrun, modeLevel, ledOn, ledOff]
  · intro hdigio data hdata
    have hshown := (shown_run (hflag.trans hdigio) hio).latest data hdata
    exact ⟨hshown.led1,hshown.led2⟩
  · have hholds := holds_run (fitting_of_allRequests hfit) hio
    rw [hflag] at hholds
    exact hholds

def parameterised : List Label :=
  [.callback (.statusInd 1),.ledTask,
    .callback (.paramWriteInd [⟨2,0,[1,2,3,4]⟩]),.ledTask,
    .ledTask,.callback (.avail fun _ => 255),.ledTask,.callback (.sync false true),.ledTask,
    .ledTask,.callback (.paramWriteInd [⟨2,0,[5]⟩])]

theorem runtime_sound_parameterised :
    ∃ s, (runtime unpadded 1 .mock digioSample fun _ => 0).run parameterised = some s ∧
      (s.led.userLed3 = ledOn ↔ s.led.running = true) ∧ ShowsOutput 255 s ∧
      s.upData unpadded.i8Input = 1 ∧ s.upData 8 = 5 ∧ s.upData 9 = 2 := by
  have hrun : ((runtime unpadded 1 .mock digioSample fun _ => 0).run parameterised).isSome =
      true := rfl
  obtain ⟨s,hs⟩ := Option.isSome_iff_exists.mp hrun
  have hfit : ∀ req ∈ allRequests (parameterised.filterMap ioView), Fits unpadded.model req := by
    decide
  have hsound := runtime_sound hfit hs
  have hpc : s.led.pc = .wait := by
    obtain rfl := Option.some.inj hs
    rfl
  exact ⟨s,hs,hsound.mode hpc,hsound.shown rfl 255 rfl,hsound.contents.input,
    hsound.contents.params 2 0 ⟨4,32⟩ ⟨8,4⟩ rfl rfl 0 (by decide),
    hsound.contents.params 2 0 ⟨4,32⟩ ⟨8,4⟩ rfl rfl 1 (by decide)⟩

end UphyDemo.System
