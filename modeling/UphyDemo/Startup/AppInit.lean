import UphyDemo.Startup.Bustype

namespace UphyDemo.Startup
open CString

-- the generated configuration last assigned to a member of `up_busconf`
inductive Busconf where
  | upMockConfig
  | upProfinetConfig
  | upEthernetipConfig
  | upModbusConfig
  | upCclinkConfig
deriving DecidableEq, Repr

structure App where
  deviceName : Str
  isDigioSampleDevice : Bool
  bustype : Bustype
  upBusconf : Option Busconf

def App.static (deviceName : Str) : App where
  deviceName := deviceName
  isDigioSampleDevice := true
  bustype := .mock
  upBusconf := none

structure UpInitCall where
  bustype : Bustype
  upBusconf : Option Busconf
  assigned : Option Busconf
deriving DecidableEq, Repr

def digioSampleName : List UInt8 := ascii "U-Phy DIGIO Sample"

def digioSample : Str := ⟨digioSampleName,by decide⟩

-- the switch of `up_app_init`; `none` is its unsupported branch, which only prints
def busconfOf : Bustype → Option Busconf
  | .mock => some .upMockConfig
  | .profinet => some .upProfinetConfig
  | .ethernetip => some .upEthernetipConfig
  | .modbus => some .upModbusConfig
  | .cclink => some .upCclinkConfig
  | .ecat => none

def upAppInit (bustype : Bustype) (app : App) : App × UpInitCall :=
  let digio := if strcmp app.deviceName.memory digioSampleName ≠ 0 then false
    else app.isDigioSampleDevice
  let busconf := (busconfOf bustype).or app.upBusconf
  ({ app with isDigioSampleDevice := digio, bustype := bustype, upBusconf := busconf },
   { bustype := bustype, upBusconf := busconf, assigned := busconfOf bustype })

theorem upAppInit_keeps {bustype : Bustype} {app : App}
    (h : app.deviceName.bytes = digioSampleName) :
    (upAppInit bustype app).1.isDigioSampleDevice = app.isDigioSampleDevice := by
  have hname := (strcmp_str (show 0 ∉ digioSampleName by decide)).mpr h
  simp [upAppInit, hname]

theorem upAppInit_isDigio (bustype : Bustype) (deviceName : Str) :
    (upAppInit bustype (App.static deviceName)).1.isDigioSampleDevice = true ↔
      deviceName.bytes = digioSampleName := by
  have hname := strcmp_str (x := deviceName) (show 0 ∉ digioSampleName by decide)
  rw [← hname]
  by_cases h : strcmp deviceName.memory digioSampleName = 0 <;> simp [upAppInit, App.static, h]

theorem upAppInit_sample {bustype : Bustype} {app : App}
    (h : (upAppInit bustype app).1.isDigioSampleDevice = true) :
    app.deviceName.bytes = digioSampleName := by
  apply (strcmp_str (show 0 ∉ digioSampleName by decide)).mp
  by_contra hne
  simp [upAppInit, hne] at h

end UphyDemo.Startup
