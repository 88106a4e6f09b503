import UphyDemo.Foundation.Script
import UphyDemo.Startup.Configured

namespace UphyDemo.Startup.BringUp

abbrev Handle := Option Nat

-- `CY_ASSERT` halts or is compiled out; the rest is what each external call returns
structure Outcomes where
  assertHalts : Bool
  applicationModeSynchronous : Bool
  connectToEthernet : UInt32
  upInit : Handle
  upInitDevice : Int
  upUtilInit : Int
  upStartDevice : Int
  upWriteEventMask : Int
  upWorkerRounds : Nat
deriving DecidableEq, Repr

def cyRsltSuccess : UInt32 := 0

inductive Message where
  | initNetwork
  | waitForCable
  | connectFailed (result : UInt32)
  | connected
  | starting
  | activeModel
  | initDevice
  | bustypeUnsupported (bustype : Bustype)
  | runDevice
  | configureFailed
  | utilsFailed
  | startFailed
  | eventMaskFailed
  | runEventLoop
  | unexpectedError
  | restart
  | unexpectedReturn
  | exitCalled
deriving DecidableEq, Repr

def Message.text : Message → String
  | .initNetwork => "Init network\n"
  | .waitForCable => "Application will hang until ethernet cable is inserted\n"
  -- `PRIx32` stands for "lx"
  | .connectFailed _ => "\n Failed to connect to the ethernet network! Error code: 0x%08lx\n"
  | .connected => "Ethernet connected.\n"
  | .starting => "Starting U-Phy Demo\n"
  | .activeModel => "Active device model: \"%s\"\n"
  | .initDevice => "Init U-Phy Device \n"
  | .bustypeUnsupported _ => "Bustype %d unsupported\n"
  | .runDevice => "Run U-Phy Device \n"
  | .configureFailed => "Failed to configure device\n"
  | .utilsFailed => "Failed to init up utils\n"
  | .startFailed => "Failed to start device\n"
  | .eventMaskFailed => "Failed to write eventmask mode\n"
  | .runEventLoop => "Run event loop\n"
  | .unexpectedError => "Unexpected error in U-Phy library.\n"
  | .restart => "Restart device\n"
  | .unexpectedReturn => "Error - unexpected return from up_app_main()\n"
  | .exitCalled => "exit called\n"

inductive Event where
  | printf (message : Message)
  | ledError
  | connectToEthernet (result : UInt32)
  | upBusconf (config : Busconf)
  | upCoreInit
  | upCoreSetStatus
  | upInit (up : Handle)
  | upInitDevice (up : Handle) (ret : Int)
  | upUtilInit (up : Handle) (ret : Int)
  | upStartDevice (up : Handle) (ret : Int)
  | upWriteEventMask (up : Handle) (ret : Int)
  | upWriteInputs (up : Handle)
  | upWorker (up : Handle) (ret : Bool)
deriving DecidableEq, Repr

inductive Stopped where
  | cyAssert
  | exit
deriving DecidableEq, Repr

abbrev Task := Script Event Stopped

def printf (message : Message) : Task Unit := Script.emit (.printf message)

-- `exit` halts or delays forever, it never returns
def exit : Task Unit := do
  printf .exitCalled
  Script.emit .ledError
  Script.stop .exit

def orExit (ret : Int) (message : Message) : Task Unit :=
  Script.when (ret ≠ 0) do
    printf message
    exit

def checked (call : Int → Event) (ret : Int) (message : Message) : Task Unit := do
  Script.emit (call ret)
  orExit ret message

variable (o : Outcomes)

def cyAssert : Task Unit := Script.when o.assertHalts (Script.stop .cyAssert)

def upWorkerLoop (up : Handle) : Nat → Task Unit
  | 0 => Script.emit (.upWorker up false)
  | rounds + 1 => do
      Script.emit (.upWorker up true)
      upWorkerLoop up rounds

def upAppMain (up : Handle) : Task Unit := do
  checked (.upInitDevice up) o.upInitDevice .configureFailed
  checked (.upUtilInit up) o.upUtilInit .utilsFailed
  checked (.upStartDevice up) o.upStartDevice .startFailed
  Script.when o.applicationModeSynchronous
    (checked (.upWriteEventMask up) o.upWriteEventMask .eventMaskFailed)
  Script.emit (.upWriteInputs up)
  printf .runEventLoop
  upWorkerLoop up o.upWorkerRounds
  printf .unexpectedError
  printf .restart

-- `up_app_init` seen from its calls; what it stores is in `Startup.upAppInit`
def setBusconf (bustype : Bustype) : Task Unit :=
  match busconfOf bustype with
  | some config => Script.emit (.upBusconf config)
  | none => printf (.bustypeUnsupported bustype)

def upAppInit (bustype : Bustype) : Task Handle := do
  setBusconf bustype
  Script.emit .upCoreInit
  Script.emit .upCoreSetStatus
  Script.emit (.upInit o.upInit)
  pure o.upInit

def uphyTask (bustype : Bustype) : Task Unit := do
  printf .initNetwork
  printf .waitForCable
  Script.emit (.connectToEthernet o.connectToEthernet)
  Script.when (o.connectToEthernet ≠ cyRsltSuccess) do
    printf (.connectFailed o.connectToEthernet)
    cyAssert o
  printf .connected
  printf .starting
  printf .activeModel
  printf .initDevice
  let up ← upAppInit o bustype
  printf .runDevice
  upAppMain o up
  printf .unexpectedReturn
  cyAssert o

namespace Event

def handle : Event → Option Handle
  | .upInitDevice up _ | .upUtilInit up _ | .upStartDevice up _ | .upWriteEventMask up _
  | .upWriteInputs up | .upWorker up _ => some up
  | _ => none

def failed : Event → Prop
  | .printf (.bustypeUnsupported _) => True
  | .connectToEthernet result => result ≠ cyRsltSuccess
  | .upInit up => up = none
  | .upInitDevice _ ret | .upUtilInit _ ret | .upStartDevice _ ret | .upWriteEventMask _ ret =>
      ret ≠ 0
  | _ => False

def bringUp : Event → Prop
  | .printf _ | .ledError | .upBusconf _ => False
  | _ => True

end Event

structure StopsAtFailure (bustype : Bustype) : Prop where
  handles : ∀ e ∈ (uphyTask o bustype).trace, e.handle ≠ some none
  stops : (uphyTask o bustype).trace.Pairwise fun e e' => e.failed → ¬ e'.bringUp
  stays : ∀ a, (uphyTask o bustype).result ≠ .ok a

def AllStarted : Prop :=
  o.upInitDevice = 0 ∧ o.upUtilInit = 0 ∧ o.upStartDevice = 0 ∧
    (o.applicationModeSynchronous = true → o.upWriteEventMask = 0)

def Contained (bustype : Bustype) : Prop :=
  if o.assertHalts then
    o.connectToEthernet = cyRsltSuccess → bustype ≠ .ecat ∧ o.upInit ≠ none
  else
    o.connectToEthernet = cyRsltSuccess ∧ bustype ≠ .ecat ∧ o.upInit ≠ none ∧ ¬ AllStarted o

section Orderly

variable {o} {up : Handle} {α : Type}

abbrev Orderly (p : Task α) : Prop :=
  Script.Orderly (fun e => e.handle ≠ some none) Event.failed Event.bringUp p

theorem orderly_printf {message : Message} (h : ∀ b, message ≠ .bustypeUnsupported b) :
    Orderly (printf message) := by
  apply Script.Orderly.emit
  · simp [Event.handle]
  · cases message with
    | bustypeUnsupported b => exact absurd rfl (h b)
    | _ => exact id

theorem orderly_cyAssert : Orderly (cyAssert o) := .when fun _ => .stop _

theorem orExit_zero (message : Message) : orExit 0 message = pure () := rfl

theorem orExit_error {ret : Int} (h : ret ≠ 0) (message : Message) :
    orExit ret message = ⟨[.printf message,.printf .exitCalled,.ledError],.error .exit⟩ := by
  simp [orExit, Script.when, h, printf, exit]

theorem orExit_result {ret : Int} {message : Message} {a : Unit} :
    (orExit ret message).result = .ok a ↔ ret = 0 := by
  by_cases hret : ret = 0
  · simp [hret, orExit_zero]
  · simp [hret, orExit_error hret]

theorem checked_result {call : Int → Event} {ret : Int} {message : Message} {a : Unit} :
    (checked call ret message).result = .ok a ↔ ret = 0 := by
  unfold checked
  rw [Script.emit_bind]
  exact orExit_result

theorem orderly_checked {call : Int → Event} {ret : Int} {message : Message}
    (hgood : (call ret).handle ≠ some none) (hfail : (call ret).failed ↔ ret ≠ 0) :
    Orderly (checked call ret message) := by
  by_cases hret : ret = 0
  · subst hret
    have hok : ¬ (call 0).failed := fun h => hfail.mp h rfl
    unfold checked
    rw [orExit_zero]
    exact .bind (.emit hgood hok) fun _ _ => .pure ()
  · refine Script.Orderly.emit_then hgood ?_ ?_
    · rw [orExit_error hret]
      refine ⟨⟨by simp [Event.handle],by simp [Event.bringUp]⟩,by simp⟩
    · rw [orExit_error hret]
      simp [Event.bringUp]

theorem orderly_upWorkerLoop (up : Nat) (rounds : Nat) : Orderly (upWorkerLoop (some up) rounds) := by
  induction rounds with
  | zero => exact .emit (by simp [Event.handle]) id
  | succ rounds ih => exact .bind (.emit (by simp [Event.handle]) id) fun _ _ => ih

theorem orderly_upAppMain (o : Outcomes) (up : Nat) : Orderly (upAppMain o (some up)) := by
  refine .bind (orderly_checked (by simp [Event.handle]) .rfl) fun _ _ => ?_
  refine .bind (orderly_checked (by simp [Event.handle]) .rfl) fun _ _ => ?_
  refine .bind (orderly_checked (by simp [Event.handle]) .rfl) fun _ _ => ?_
  refine .bind (.when fun _ => orderly_checked (by simp [Event.handle]) .rfl) fun _ _ => ?_
  refine .bind (.emit (by simp [Event.handle]) id) fun _ _ => ?_
  refine .bind (orderly_printf (by simp)) fun _ _ => ?_
  refine .bind (orderly_upWorkerLoop up _) fun _ _ => ?_
  exact .bind (orderly_printf (by simp)) fun _ _ => orderly_printf (by simp)

theorem orderly_upAppInit {bustype : Bustype} (hbus : bustype ≠ .ecat) (hup : o.upInit ≠ none) :
    Orderly (upAppInit o bustype) := by
  obtain ⟨config,hconfig⟩ := busconfOf_isSome_iff.mpr hbus
  have hset : setBusconf bustype = Script.emit (.upBusconf config) := by simp [setBusconf, hconfig]
  unfold upAppInit
  rw [hset]
  refine .bind (.emit (by simp [Event.handle]) id) fun _ _ => ?_
  refine .bind (.emit (by simp [Event.handle]) id) fun _ _ => ?_
  refine .bind (.emit (by simp [Event.handle]) id) fun _ _ => ?_
  exact .bind (.emit (by simp [Event.handle]) hup) fun _ _ => .pure _

end Orderly

section Phases

variable {o} {bustype : Bustype}

-- `uphy_task` from the test of the result of `connect_to_ethernet` on
def afterConnect (o : Outcomes) (bustype : Bustype) : Task Unit := do
  Script.when (o.connectToEthernet ≠ cyRsltSuccess) do
    printf (.connectFailed o.connectToEthernet)
    cyAssert o
  printf .connected
  printf .starting
  printf .activeModel
  printf .initDevice
  let up ← upAppInit o bustype
  printf .runDevice
  upAppMain o up
  printf .unexpectedReturn
  cyAssert o

theorem uphyTask_eq (o : Outcomes) (bustype : Bustype) :
    uphyTask o bustype = ⟨.printf .initNetwork :: .printf .waitForCable ::
      .connectToEthernet o.connectToEthernet :: (afterConnect o bustype).trace,
      (afterConnect o bustype).result⟩ := rfl

def setEvent (bustype : Bustype) : Event :=
  match busconfOf bustype with
  | some config => .upBusconf config
  | none => .printf (.bustypeUnsupported bustype)

theorem upAppInit_eq (o : Outcomes) (bustype : Bustype) :
    upAppInit o bustype =
      ⟨[setEvent bustype,.upCoreInit,.upCoreSetStatus,.upInit o.upInit],.ok o.upInit⟩ := by
  cases bustype <;> rfl

theorem upAppInit_assigned (o : Outcomes) (bustype : Bustype) (app : App) (config : Busconf) :
    .upBusconf config ∈ (upAppInit o bustype).trace ↔
      (Startup.upAppInit bustype app).2.assigned = some config := by
  rw [upAppInit_eq]
  cases bustype <;> simp [setEvent, busconfOf, Startup.upAppInit, eq_comm]

def deviceTrace (o : Outcomes) (bustype : Bustype) : List Event :=
  .printf .connected :: .printf .starting :: .printf .activeModel :: .printf .initDevice ::
  setEvent bustype :: .upCoreInit :: .upCoreSetStatus :: .upInit o.upInit :: .printf .runDevice ::
  (upAppMain o o.upInit >>= fun _ => (printf .unexpectedReturn >>= fun _ => cyAssert o)).trace

theorem upInitDevice_mem (o : Outcomes) (bustype : Bustype) :
    .upInitDevice o.upInit o.upInitDevice ∈ deviceTrace o bustype := by
  have hmain : .upInitDevice o.upInit o.upInitDevice ∈ (upAppMain o o.upInit).trace :=
    Script.mem_bind_left (Script.mem_bind_left (by simp))
  have hrest := Script.mem_bind_left (k := fun _ => (printf .unexpectedReturn >>= fun _ => cyAssert o))
    hmain
  simp only [deviceTrace, List.mem_cons, hrest, or_true]

theorem afterConnect_ok (h : o.connectToEthernet = cyRsltSuccess) :
    (afterConnect o bustype).trace = deviceTrace o bustype := by
  simp only [afterConnect, Script.when, h, ne_eq, not_true_eq_false, decide_false, upAppInit_eq]
  rfl

theorem afterConnect_halts (h : o.connectToEthernet ≠ cyRsltSuccess) (hhalts : o.assertHalts = true) :
    afterConnect o bustype =
      ⟨[.printf (.connectFailed o.connectToEthernet)],.error .cyAssert⟩ := by
  simp only [afterConnect, Script.when, cyAssert, hhalts, h, ne_eq, not_false_eq_true, decide_true]
  rfl

theorem afterConnect_continues (h : o.connectToEthernet ≠ cyRsltSuccess)
    (hhalts : o.assertHalts = false) :
    (afterConnect o bustype).trace =
      .printf (.connectFailed o.connectToEthernet) :: deviceTrace o bustype := by
  simp only [afterConnect, Script.when, cyAssert, hhalts, h, ne_eq, not_false_eq_true, decide_true,
    upAppInit_eq, deviceTrace]
  rfl

theorem upWorkerLoop_result (up : Handle) (rounds : Nat) :
    (upWorkerLoop up rounds).result = .ok () := by
  induction rounds with
  | zero => rfl
  | succ rounds ih =>
    rw [upWorkerLoop, Script.emit_bind]
    exact ih

theorem upAppMain_result {up : Handle} {a : Unit} :
    (upAppMain o up).result = .ok a ↔ AllStarted o := by
  cases hmode : o.applicationModeSynchronous <;>
    simp [upAppMain, AllStarted, Script.when, hmode, printf, Script.bind_result_ok_iff, checked_result,
      upWorkerLoop_result]

theorem cyAssert_result {a : Unit} : (cyAssert o).result = .ok a ↔ o.assertHalts = false := by
  cases hhalts : o.assertHalts <;> simp [cyAssert, Script.when, hhalts]

theorem afterConnect_result (h : o.connectToEthernet = cyRsltSuccess) {a : Unit} :
    (afterConnect o bustype).result = .ok a ↔ AllStarted o ∧ o.assertHalts = false := by
  simp [afterConnect, Script.when, h, printf, upAppInit_eq, Script.bind_result_ok_iff,
    upAppMain_result, cyAssert_result]

theorem orderly_afterConnect (h : o.connectToEthernet = cyRsltSuccess) (hbus : bustype ≠ .ecat)
    (hup : o.upInit ≠ none) : Orderly (afterConnect o bustype) := by
  obtain ⟨handle,hhandle⟩ := Option.ne_none_iff_exists'.mp hup
  refine .bind (.when fun hfail => absurd h (by simpa using hfail)) fun _ _ => ?_
  refine .bind (orderly_printf (by simp)) fun _ _ => ?_
  refine .bind (orderly_printf (by simp)) fun _ _ => ?_
  refine .bind (orderly_printf (by simp)) fun _ _ => ?_
  refine .bind (orderly_printf (by simp)) fun _ _ => ?_
  refine .bind (orderly_upAppInit hbus hup) fun up hresult => ?_
  obtain rfl : some handle = up := by simpa [upAppInit_eq, hhandle] using hresult
  refine .bind (orderly_printf (by simp)) fun _ _ => ?_
  refine .bind (orderly_upAppMain o handle) fun _ _ => ?_
  exact .bind (orderly_printf (by simp)) fun _ _ => orderly_cyAssert

theorem stopsAtFailure_parts : StopsAtFailure o bustype ↔
    (∀ e ∈ (afterConnect o bustype).trace, e.handle ≠ some none) ∧
    ((afterConnect o bustype).trace.Pairwise fun e e' => e.failed → ¬ e'.bringUp) ∧
    (o.connectToEthernet ≠ cyRsltSuccess → ∀ e ∈ (afterConnect o bustype).trace, ¬ e.bringUp) ∧
    ∀ a, (afterConnect o bustype).result ≠ .ok a := by
  have htrace := congrArg Script.trace (uphyTask_eq o bustype)
  have hresult := congrArg Script.result (uphyTask_eq o bustype)
  dsimp only at htrace hresult
  constructor
  · intro h
    have hhandles := h.handles
    have hstops := h.stops
    have hstays := h.stays
    simp only [htrace, List.forall_mem_cons, List.pairwise_cons] at hhandles hstops
    rw [hresult] at hstays
    exact ⟨hhandles.2.2.2,hstops.2.2.2,fun hfail e he => hstops.2.2.1 e he hfail,hstays⟩
  · rintro ⟨hhandles,hstops,hconnect,hstays⟩
    refine ⟨?_,?_,by rwa [hresult]⟩
    · simp only [htrace, List.forall_mem_cons]
      exact ⟨by simp [Event.handle],by simp [Event.handle],by simp [Event.handle],hhandles⟩
    · simp only [htrace, List.pairwise_cons]
      exact ⟨fun _ _ h => absurd h id,fun _ _ h => absurd h id,
        fun e he hfail => hconnect hfail e he,hstops⟩

theorem connected_contained (h : o.connectToEthernet = cyRsltSuccess)
    (hhandles : ∀ e ∈ (afterConnect o bustype).trace, e.handle ≠ some none)
    (hstops : (afterConnect o bustype).trace.Pairwise fun e e' => e.failed → ¬ e'.bringUp) :
    bustype ≠ .ecat ∧ o.upInit ≠ none := by
  rw [afterConnect_ok h] at hhandles hstops
  constructor
  · rintro rfl
    simp only [deviceTrace, List.pairwise_cons] at hstops
    exact hstops.2.2.2.2.1 .upCoreInit (by simp) trivial trivial
  · intro hnone
    have hnull := hhandles _ (upInitDevice_mem o bustype)
    simp [Event.handle, hnone] at hnull

end Phases

theorem uphy_task_contained_iff (o : Outcomes) (bustype : Bustype) :
    StopsAtFailure o bustype ↔ Contained o bustype := by
  rw [stopsAtFailure_parts]
  by_cases hconnect : o.connectToEthernet = cyRsltSuccess
  · have hgood (h : bustype ≠ .ecat ∧ o.upInit ≠ none) := orderly_afterConnect hconnect h.1 h.2
    have hresult : (afterConnect o bustype).result = .ok () ↔
        AllStarted o ∧ o.assertHalts = false := afterConnect_result hconnect
    cases hhalts : o.assertHalts with
    | true =>
      constructor
      · rintro ⟨hhandles,hstops,_,_⟩
        simp only [Contained, hhalts, if_true]
        exact fun _ => connected_contained hconnect hhandles hstops
      · intro h
        simp only [Contained, hhalts, if_true] at h
        refine ⟨(hgood (h hconnect)).good,(hgood (h hconnect)).stops,absurd hconnect,?_⟩
        intro a ha
        have hfalse := (hresult.mp ha).2
        simp [hhalts] at hfalse
    | false =>
      simp only [Contained, hhalts, Bool.false_eq_true, if_false]
      constructor
      · rintro ⟨hhandles,hstops,_,hstays⟩
        obtain ⟨hbus,hup⟩ := connected_contained hconnect hhandles hstops
        exact ⟨hconnect,hbus,hup,fun hall => hstays () (hresult.mpr ⟨hall,hhalts⟩)⟩
      · rintro ⟨_,hbus,hup,hfails⟩
        exact ⟨(hgood ⟨hbus,hup⟩).good,(hgood ⟨hbus,hup⟩).stops,absurd hconnect,
          fun a ha => hfails (hresult.mp ha).1⟩
  · cases hhalts : o.assertHalts with
    | true =>
      rw [afterConnect_halts hconnect hhalts]
      simp [Contained, hhalts, hconnect, Event.handle, Event.bringUp]
    | false =>
      simp only [Contained, hhalts, hconnect, Bool.false_eq_true, if_false, false_and, iff_false]
      rintro ⟨_,_,hquiet,_⟩
      rw [afterConnect_continues hconnect hhalts] at hquiet
      exact hquiet hconnect .upCoreInit (by simp [deviceTrace]) trivial

def upInitFails : Outcomes where
  assertHalts := true
  applicationModeSynchronous := true
  connectToEthernet := 0
  upInit := none
  upInitDevice := 0
  upUtilInit := 0
  upStartDevice := 0
  upWriteEventMask := 0
  upWorkerRounds := 0

theorem uphy_task_continues :
    ¬ ∀ (o : Outcomes) (bustype : Bustype), StopsAtFailure o bustype := by
  intro h
  have hnull := (h upInitFails .mock).handles (.upInitDevice none 0) (by decide)
  exact hnull rfl

end UphyDemo.Startup.BringUp
