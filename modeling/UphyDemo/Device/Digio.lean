import UphyDemo.Device.Model

namespace UphyDemo.Device
open Bytes

namespace Digio

def inputsI8 : List Signal := [⟨0,8⟩]
def outputsO8 : List Signal := [⟨1,8⟩]
def inputsI8O8 : List Signal := [⟨2,8⟩]
def outputsI8O8 : List Signal := [⟨3,8⟩]
def parametersI8O8 : List Param := [⟨4,32⟩]

def slots : List Slot :=
  [⟨inputsI8,[],[]⟩,⟨[],outputsO8,[]⟩,⟨inputsI8O8,outputsI8O8,parametersI8O8⟩]

section Layout

-- `up_data` lies at `base`; a value byte is followed by its status at the status type's alignment
variable (base statusSize : Nat)

def i8Input : Nat := base
def o8Output : Nat := base + 2 * statusSize
def i8o8Input : Nat := base + 4 * statusSize
def i8o8Output : Nat := base + 6 * statusSize
def i8o8Parameter1 : Nat := base + 8 * statusSize

def upVars : List SignalInfo :=
  [⟨i8Input base,some (i8Input base + statusSize)⟩,
   ⟨o8Output base statusSize,some (o8Output base statusSize + statusSize)⟩,
   ⟨i8o8Input base statusSize,some (i8o8Input base statusSize + statusSize)⟩,
   ⟨i8o8Output base statusSize,some (i8o8Output base statusSize + statusSize)⟩,
   ⟨i8o8Parameter1 base statusSize,none⟩]

theorem paramAt_eq_some_iff {i j : Nat} {p : Param} :
    paramAt slots i j = some p ↔ i = 2 ∧ j = 0 ∧ p = ⟨4,32⟩ := by
  rcases i with _ | _ | _ | i <;> rcases j with _ | j <;>
    simp [paramAt, slots, parametersI8O8, eq_comm]

theorem signals_below (hsize : 0 < statusSize) {slot : Slot} (hslot : slot ∈ slots) {s : Signal}
    (hs : s ∈ slot.inputs ++ slot.outputs) {r : Region}
    (hr : r ∈ signalRegions (upVars base statusSize) statusSize s) :
    r.start + r.size ≤ i8o8Parameter1 base statusSize := by
  have hix : s = ⟨0,8⟩ ∨ s = ⟨1,8⟩ ∨ s = ⟨2,8⟩ ∨ s = ⟨3,8⟩ := by
    simp only [slots, List.mem_cons, List.not_mem_nil, or_false] at hslot
    rcases hslot with rfl | rfl | rfl <;>
      simp [inputsI8, outputsO8, inputsI8O8, outputsI8O8] at hs <;> tauto
  rcases hix with rfl | rfl | rfl | rfl <;>
    simp only [signalRegions, upVars, statusRegion, bytesHolding, List.getElem?_cons_zero,
      List.getElem?_cons_succ, Option.toList_some, List.flatMap_cons, List.flatMap_nil,
      List.map_cons, List.map_nil, List.append_nil, List.mem_cons, List.not_mem_nil, or_false] at hr <;>
    rcases hr with rfl | rfl <;>
    simp only [i8Input, o8Output, i8o8Input, i8o8Output, i8o8Parameter1] <;> omega

end Layout

def model (base statusSize : Nat) : DeviceModel where
  slots := slots
  upVars := upVars base statusSize
  statusSize := statusSize
  param_ix := by
    intro i j p hp
    obtain ⟨_,_,rfl⟩ := paramAt_eq_some_iff.mp hp
    simp [upVars]

section Apart

variable (base statusSize : Nat)

theorem params_apart : (model base statusSize).ParamsApart := by
  intro i j p r i' j' p' r' hp hp' _ _ hne
  obtain ⟨rfl,rfl,_⟩ := paramAt_eq_some_iff.mp hp
  obtain ⟨rfl,rfl,_⟩ := paramAt_eq_some_iff.mp hp'
  exact absurd rfl hne

theorem signals_apart (hsize : 0 < statusSize) : (model base statusSize).SignalsApart := by
  intro i j p r hp hr r' hr'
  obtain ⟨_,_,rfl⟩ := paramAt_eq_some_iff.mp hp
  obtain rfl := Option.some.inj hr
  simp only [DeviceModel.signalStorage, DeviceModel.signals, List.mem_flatMap] at hr'
  obtain ⟨s,⟨slot,hslot,hs⟩,hr'⟩ := hr'
  exact (Region.disjoint_of_le (signals_below base statusSize hsize hslot hs hr')).symm

end Apart

end Digio

end UphyDemo.Device
