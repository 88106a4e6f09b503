import UphyDemo.Foundation.CString

namespace UphyDemo.Startup
open CString

inductive Bustype where
  | mock
  | profinet
  | ecat
  | ethernetip
  | modbus
  | cclink
deriving DecidableEq, Repr

structure Supported where
  profinet : Bool
  ethercat : Bool
  ethernetip : Bool
  modbus : Bool
  cclink : Bool
deriving DecidableEq, Repr

def generatedSupport : Supported := ⟨true,true,true,true,true⟩

inductive Refused where
  | nullPointer
  | unsupportedFieldbus
deriving DecidableEq, Repr

-- every caller passes the address of a local as `bustype`, so only `str` can be NULL
def strToBusConfig (f : Supported) : Option Memory → Except Refused Bustype
  | none => .error .nullPointer
  | some str =>
      if f.profinet = true ∧ strcmp str (ascii "profinet") = 0 then .ok .profinet
      else if f.ethercat = true ∧ strcmp str (ascii "ethercat") = 0 then .ok .ecat
      else if f.ethernetip = true ∧ strcmp str (ascii "ethernetip") = 0 then .ok .ethernetip
      else if f.modbus = true ∧ strcmp str (ascii "modbus") = 0 then .ok .modbus
      else if f.cclink = true ∧ strcmp str (ascii "cclink") = 0 then .ok .cclink
      else if strcmp str (ascii "mock") = 0 then .ok .mock
      else .error .unsupportedFieldbus

namespace Bustype

def name : Bustype → List UInt8
  | .mock => ascii "mock"
  | .profinet => ascii "profinet"
  | .ecat => ascii "ethercat"
  | .ethernetip => ascii "ethernetip"
  | .modbus => ascii "modbus"
  | .cclink => ascii "cclink"

theorem name_unterminated (b : Bustype) : 0 ∉ b.name := by
  cases b <;> decide

def argument (b : Bustype) : Str := ⟨b.name,b.name_unterminated⟩

theorem name_injective {b b' : Bustype} (h : b.name = b'.name) : b = b' := by
  revert h
  cases b <;> cases b' <;> decide

theorem name_length (b : Bustype) : b.name.length ≤ 10 := by
  cases b <;> decide

def supportedBy (f : Supported) : Bustype → Bool
  | .mock => true
  | .profinet => f.profinet
  | .ecat => f.ethercat
  | .ethernetip => f.ethernetip
  | .modbus => f.modbus
  | .cclink => f.cclink

end Bustype

theorem strToBusConfig_ok_iff {f : Supported} {s : Memory} {b : Bustype} :
    strToBusConfig f (some s) = .ok b ↔ b.supportedBy f = true ∧ strcmp s b.name = 0 := by
  constructor
  · intro h
    simp only [strToBusConfig] at h
    split_ifs at h <;> cases h <;> simp_all [Bustype.supportedBy, Bustype.name]
  · rintro ⟨hsupp,hname⟩
    have hother (b' : Bustype) (hne : b' ≠ b) : strcmp s b'.name ≠ 0 := by
      intro h
      exact hne (Bustype.name_injective
        (strcmp_unique b'.name_unterminated b.name_unterminated h hname))
    have hmock := hother .mock
    have hprofinet := hother .profinet
    have hecat := hother .ecat
    have hethernetip := hother .ethernetip
    have hmodbus := hother .modbus
    have hcclink := hother .cclink
    cases b <;> simp_all [strToBusConfig, Bustype.name, Bustype.supportedBy]

theorem strToBusConfig_str {f : Supported} {x : Str} {b : Bustype} :
    strToBusConfig f (some x.memory) = .ok b ↔ b.supportedBy f = true ∧ x.bytes = b.name := by
  rw [strToBusConfig_ok_iff, strcmp_str b.name_unterminated]

end UphyDemo.Startup
