import UphyDemo.Device.LastWriter
import UphyDemo.Device.ProcessData
import UphyDemo.Foundation.Simulation

namespace UphyDemo.Device
open Bytes CString Transition Led Startup

section Contents

variable (l : Layout)

def imageOf : Callback → Option Store
  | .avail image => some image
  | _ => none

def allRequests (cs : List Callback) : List WriteReq := cs.flatMap Callback.requests

def lastImage (cs : List Callback) : Option Store := (cs.filterMap imageOf).getLast?

def lastSample (cs : List Callback) : Option (Bool × Bool) :=
  (cs.filterMap sampled).getLast?

-- what the callbacks of a run leave in `up_data`, told from the run alone
structure Holds (digio : Bool) (before after : Store) (cs : List Callback) : Prop where
  outputs : ∀ r ∈ l.model.outputStorage, ∀ a ∈ r,
    after a = ((lastImage cs).map fun image => image a).getD (before a)
  input : after l.i8Input =
    if digio then ((lastSample cs).map fun btn => digioGetInput btn.1 btn.2).getD
      (before l.i8Input)
    else before l.i8Input
  params : ∀ i j p r, l.model.param i j = some p → l.model.storage p = some r → ∀ k, k < r.size →
    after (r.start + k) = (lastData (allRequests cs) (i,j) k).getD (before (r.start + k))
  untouched : ∀ a, a ≠ l.i8Input → (∀ r ∈ l.model.outputStorage, a ∉ r) →
    (∀ i j p r, l.model.param i j = some p → l.model.storage p = some r → a ∉ r) →
    after a = before a

def writtenAt (digio : Bool) (a : Nat) : Callback → Option UInt8
  | .avail image => if ∃ r ∈ l.model.outputStorage, a ∈ r then some (image a) else none
  | .sync userBtn1 userBtn2 =>
      if digio ∧ a = l.i8Input then some (digioGetInput userBtn1 userBtn2) else none
  | .paramWriteInd queue => lastByte (queue.map (requestWrite l.model)) a
  | _ => none

end Contents

section Apart

variable (l : Layout)

theorem output_signal {r : Region} (hr : r ∈ l.model.outputStorage) : r ∈ l.model.signalStorage := by
  simp only [DeviceModel.outputStorage, DeviceModel.outputs, List.mem_flatMap] at hr
  obtain ⟨s,⟨slot,hslot,hs⟩,hr⟩ := hr
  simp only [DeviceModel.signalStorage, DeviceModel.signals, List.mem_flatMap]
  exact ⟨s,⟨slot,hslot,List.mem_append_right slot.inputs hs⟩,hr⟩

theorem param_not_signal {i j : Nat} {p : Param} {r r' : Region} {a : Nat}
    (hp : l.model.param i j = some p) (hr : l.model.storage p = some r) (ha : a ∈ r)
    (hr' : r' ∈ l.model.signalStorage) : a ∉ r' :=
  l.signals_apart _ _ _ _ hp hr r' hr' a ha

theorem signal_untouched {queue : List WriteReq} (hfit : ∀ req ∈ queue, Fits l.model req)
    {r : Region} {a : Nat} (hr : r ∈ l.model.signalStorage) (ha : a ∈ r) :
    lastByte (queue.map (requestWrite l.model)) a = none :=
  lastByte_elsewhere hfit fun _ _ _ _ hp hr' hmem => param_not_signal l hp hr' hmem hr ha

theorem i8_mem : l.i8Input ∈ (⟨l.i8Input,1⟩ : Region) := by
  rw [mem_region]
  dsimp only
  omega

end Apart

section Step

variable {l : Layout} {upCoreRunning : BitVec 32} {s t : Demo} {c : Callback}

theorem upData_avail (image : Store) (s : Demo) :
    (cbAvail l image s).upData = upReadOutputs l.model image s.upData := by
  unfold cbAvail
  dsimp only
  split <;> rfl

theorem upData_step (hfit : c.Fitting l.model) (h : s.step l upCoreRunning c = some t) (a : Nat) :
    t.upData a = (writtenAt l s.app.isDigioSampleDevice a c).getD (s.upData a) := by
  cases c with
  | avail image =>
    obtain rfl := Option.some.inj h
    rw [upData_avail, upReadOutputs, writtenAt]
    split <;> rfl
  | sync userBtn1 userBtn2 =>
    obtain rfl := Option.some.inj h
    unfold cbSync
    cases hdigio : s.app.isDigioSampleDevice with
    | false => simp [writtenAt]
    | true =>
      by_cases ha : a = l.i8Input
      · simp [writtenAt, ha, write]
      · have hout : a ∉ (⟨l.i8Input,[digioGetInput userBtn1 userBtn2].length⟩ : Region) := by
          rw [mem_region]
          simp only [List.length_singleton]
          omega
        simp [writtenAt, ha, write_outside hout]
  | paramWriteInd queue =>
    obtain ⟨⟨cs,m⟩,hrun,rfl⟩ := Option.map_eq_some_iff.mp h
    have hqueue : ∀ req ∈ queue, Fits l.model req := hfit
    obtain ⟨cs',_,hrun'⟩ := cbParamWriteInd_fits hqueue s.upData
    rw [hrun'] at hrun
    obtain ⟨_,rfl⟩ := Prod.mk.inj (Option.some.inj hrun)
    exact writeAll_apply _ _ a
  | statusInd status =>
    obtain ⟨led,_,rfl⟩ := Option.map_eq_some_iff.mp h
    rfl
  | profinetSignalLedInd | errorInd errorCode | loopInd =>
    obtain rfl := Option.some.inj h
    rfl

end Step

section Run

variable {l : Layout} {upCoreRunning : BitVec 32} {start s : Demo} {cs : List Callback}

theorem upData_run (hfit : ∀ c ∈ cs, c.Fitting l.model)
    (h : (exchanging l upCoreRunning start).run cs = some s) (a : Nat) :
    s.upData a = (cs.filterMap (writtenAt l start.app.isDigioSampleDevice a)).getLast?.getD
      (start.upData a) := by
  refine Machine.exec_last_writer (I := fun s : Demo => s.app = start.app)
    (f := fun s : Demo => s.upData a) ?_ ?_ rfl hfit h
  · intro s c t hs hstep
    exact (app_step hstep).trans hs
  · intro s c t hs hc hstep
    rw [← hs]
    exact upData_step hc hstep a

variable (digio : Bool)

theorem written_output (hfit : ∀ c ∈ cs, c.Fitting l.model) {r : Region} {a : Nat}
    (hr : r ∈ l.model.outputStorage) (ha : a ∈ r) :
    cs.filterMap (writtenAt l digio a) = (cs.filterMap imageOf).map fun image => image a := by
  rw [List.map_filterMap]
  apply List.filterMap_congr
  intro c hc
  cases c with
  | avail image =>
    have hout : ∃ r ∈ l.model.outputStorage, a ∈ r := ⟨r,hr,ha⟩
    simp [writtenAt, imageOf, hout]
  | sync userBtn1 userBtn2 =>
    have hne : a ≠ l.i8Input := by
      rintro rfl
      exact outputs_above l hr ha
    simp [writtenAt, imageOf, hne]
  | paramWriteInd queue => exact signal_untouched l (hfit _ hc) (output_signal l hr) ha
  | _ => rfl

theorem written_input (hfit : ∀ c ∈ cs, c.Fitting l.model) :
    cs.filterMap (writtenAt l digio l.i8Input) =
      if digio then (cs.filterMap sampled).map fun btn => digioGetInput btn.1 btn.2 else [] := by
  have hout : ¬ ∃ r ∈ l.model.outputStorage, l.i8Input ∈ r := by
    rintro ⟨r,hr,hmem⟩
    exact outputs_above l hr hmem
  have hparam {queue : List WriteReq} (hc : .paramWriteInd queue ∈ cs) :
      lastByte (queue.map (requestWrite l.model)) l.i8Input = none := by
    have hqueue : ∀ req ∈ queue, Fits l.model req := hfit _ hc
    exact signal_untouched l hqueue (i8_signal l) (i8_mem l)
  cases digio with
  | false =>
    rw [if_neg (by simp), List.filterMap_eq_nil_iff]
    intro c hc
    cases c with
    | avail image => simp [writtenAt, hout]
    | paramWriteInd queue => exact hparam hc
    | _ => simp [writtenAt]
  | true =>
    rw [if_pos rfl, List.map_filterMap]
    apply List.filterMap_congr
    intro c hc
    cases c with
    | avail image => simp [writtenAt, hout, sampled]
    | paramWriteInd queue => exact hparam hc
    | _ => simp [writtenAt, sampled]

theorem allRequests_fit (hfit : ∀ c ∈ cs, c.Fitting l.model) :
    ∀ req ∈ allRequests cs, Fits l.model req := by
  intro req hreq
  obtain ⟨c,hc,hmem⟩ := List.mem_flatMap.mp hreq
  exact hfit c hc req hmem

theorem fitting_of_allRequests (h : ∀ req ∈ allRequests cs, Fits l.model req) :
    ∀ c ∈ cs, c.Fitting l.model :=
  fun c hc req hreq => h req (List.mem_flatMap.mpr ⟨c,hc,hreq⟩)

theorem written_elsewhere {a : Nat} (hin : a ≠ l.i8Input)
    (hout : ∀ r ∈ l.model.outputStorage, a ∉ r) :
    (cs.filterMap (writtenAt l digio a)).getLast? =
      lastByte ((allRequests cs).map (requestWrite l.model)) a := by
  rw [allRequests, List.map_flatMap, lastByte_flatMap]
  refine congrArg List.getLast? (List.filterMap_congr ?_)
  intro c _
  cases c with
  | avail image =>
    have hnone : ¬ ∃ r ∈ l.model.outputStorage, a ∈ r := by
      rintro ⟨r,hr,hmem⟩
      exact hout r hr hmem
    simp [writtenAt, Callback.requests, hnone, lastByte]
  | sync userBtn1 userBtn2 => simp [writtenAt, Callback.requests, hin, lastByte]
  | _ => rfl

end Run

theorem holds_run {l : Layout} {upCoreRunning : BitVec 32} {start s : Demo}
    {cs : List Callback} (hfit : ∀ c ∈ cs, c.Fitting l.model)
    (h : (exchanging l upCoreRunning start).run cs = some s) :
    Holds l start.app.isDigioSampleDevice start.upData s.upData cs := by
  refine ⟨?_,?_,?_,?_⟩
  · intro r hr a ha
    rw [upData_run hfit h, written_output _ hfit hr ha, List.getLast?_map]
    rfl
  · rw [upData_run hfit h, written_input _ hfit]
    cases start.app.isDigioSampleDevice with
    | false => rfl
    | true =>
      simp only [if_true, List.getLast?_map]
      rfl
  · intro i j p r hp hr k hk
    have hmem : r.start + k ∈ r := by
      rw [mem_region]
      omega
    have hin : r.start + k ≠ l.i8Input := by
      intro heq
      have hnot := param_not_signal l hp hr hmem (i8_signal l)
      rw [heq] at hnot
      exact hnot (i8_mem l)
    have hout : ∀ r' ∈ l.model.outputStorage, r.start + k ∉ r' := fun r' hr' =>
      param_not_signal l hp hr hmem (output_signal l hr')
    rw [upData_run hfit h, written_elsewhere _ hin hout,
      lastByte_requests l.params_apart (allRequests_fit hfit) hp hr hk]
  · intro a hin hout hparam
    rw [upData_run hfit h, written_elsewhere _ hin hout,
      lastByte_elsewhere (allRequests_fit hfit) hparam, Option.getD_none]

end UphyDemo.Device
