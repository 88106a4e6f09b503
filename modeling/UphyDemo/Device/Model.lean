import UphyDemo.Foundation.Bytes

namespace UphyDemo.Device
open Bytes

structure SignalInfo where
  value : Nat
  status : Option Nat
deriving DecidableEq, Repr

structure Signal where
  ix : Nat
  bitlength : Nat
deriving DecidableEq, Repr

structure Param where
  ix : Nat
  bitlength : Nat
deriving DecidableEq, Repr

structure Slot where
  inputs : List Signal
  outputs : List Signal
  params : List Param
deriving DecidableEq, Repr

def bytesOf (bitlength : Nat) : Nat := bitlength / 8

-- a signal takes the whole of a last byte that its bits do not fill
def bytesHolding (bitlength : Nat) : Nat := (bitlength + 7) / 8

def statusRegion (statusSize : Nat) (info : SignalInfo) : List Region :=
  info.status.toList.map fun a => ⟨a,statusSize⟩

def signalRegions (upVars : List SignalInfo) (statusSize : Nat) (s : Signal) : List Region :=
  (upVars[s.ix]?.toList).flatMap fun info =>
    ⟨info.value,bytesHolding s.bitlength⟩ :: statusRegion statusSize info

def paramRegion (upVars : List SignalInfo) (p : Param) : Option Region :=
  upVars[p.ix]?.map fun info => ⟨info.value,bytesOf p.bitlength⟩

def paramAt (slots : List Slot) (slotIx paramIx : Nat) : Option Param :=
  slots[slotIx]?.bind fun slot => slot.params[paramIx]?

structure DeviceModel where
  slots : List Slot
  upVars : List SignalInfo
  statusSize : Nat
  param_ix : ∀ i j p, paramAt slots i j = some p → p.ix < upVars.length

namespace DeviceModel

variable (d : DeviceModel)

def param (slotIx paramIx : Nat) : Option Param := paramAt d.slots slotIx paramIx

def storage (p : Param) : Option Region := paramRegion d.upVars p

def signals : List Signal := d.slots.flatMap fun slot => slot.inputs ++ slot.outputs

def signalStorage : List Region := d.signals.flatMap (signalRegions d.upVars d.statusSize)

def ParamsApart : Prop := ∀ i j p r i' j' p' r', d.param i j = some p →
  d.param i' j' = some p' → d.storage p = some r → d.storage p' = some r' →
  (i,j) ≠ (i',j') → r.Disjoint r'

def SignalsApart : Prop := ∀ i j p r, d.param i j = some p → d.storage p = some r →
  ∀ r' ∈ d.signalStorage, r.Disjoint r'

theorem storage_of_param {d : DeviceModel} {i j : Nat} {p : Param} (h : d.param i j = some p) :
    ∃ info, d.upVars[p.ix]? = some info ∧
      d.storage p = some ⟨info.value,bytesOf p.bitlength⟩ := by
  have hix : p.ix < d.upVars.length := d.param_ix i j p h
  have hinfo : d.upVars[p.ix]? = some d.upVars[p.ix] := List.getElem?_eq_getElem hix
  exact ⟨_,hinfo,by simp [storage, paramRegion, hinfo]⟩

end DeviceModel

end UphyDemo.Device
