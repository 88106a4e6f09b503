import UphyDemo.Ethernet.RxFrame
import UphyDemo.Foundation.Simulation

namespace UphyDemo.Ethernet
open Transition

-- what the local variable `tmpBufAddr` holds while an iteration is under way
inductive Stage (F : Type) where
  | idle
  | replaced (tmpBufAddr : Addr)
  | exchanged (r : Addr × F)
deriving DecidableEq, Repr

structure Handler (F : Type) where
  driver : Driver F
  stage : Stage F
deriving DecidableEq, Repr

-- an iteration is `rxgetbuff`, `readRxBuf`, `rxframecb`; the other two may come at any moment of it
inductive Call (F : Type) where
  | rxgetbuff (buf : Addr)
  | readRxBuf
  | rxframecb
  | dmaWrite (frame : F)
  | release (buf : Addr)
deriving DecidableEq, Repr

namespace Handler

variable {F : Type} (S : Setup)

def rxgetbuff (buf : Addr) (s : Handler F) : Option (Handler F) :=
  match s.stage, s.driver.received with
  | .idle, _ :: _ =>
      (s.driver.rxgetbuff buf).map fun d => ⟨d,.replaced (Driver.replacement S buf)⟩
  | _, _ => none

def readRxBuf (s : Handler F) : Option (Handler F) :=
  match s.stage with
  | .replaced tmpBufAddr =>
      (s.driver.readRxBuf tmpBufAddr).map fun (r,d) => ⟨d,.exchanged r⟩
  | _ => none

def rxframecb (s : Handler F) : Option (Handler F) :=
  match s.stage with
  | .exchanged r =>
      some ⟨if r.1 ≠ S.dmaScratchBuf then s.driver.rxframecb r else s.driver,.idle⟩
  | _ => none

def withDriver (s : Handler F) (d : Driver F) : Handler F := { s with driver := d }

def step (s : Handler F) : Call F → Option (Handler F)
  | .rxgetbuff buf => s.rxgetbuff S buf
  | .readRxBuf => s.readRxBuf
  | .rxframecb => s.rxframecb S
  | .dmaWrite frame => (s.driver.dmaWrite frame).map s.withDriver
  | .release buf => (s.driver.release buf).map s.withDriver

end Handler

def handling (F : Type) (S : Setup) : Machine (Handler F) (Call F) where
  start := ⟨.start S,.idle⟩
  step := Handler.step S

section Cases

variable {F : Type} {S : Setup} {s t : Handler F}

theorem handler_rxgetbuff_cases {buf : Addr} (h : s.rxgetbuff S buf = some t) :
    s.stage = .idle ∧ t.stage = .replaced (Driver.replacement S buf) ∧
      s.driver.rxgetbuff buf = some t.driver := by
  unfold Handler.rxgetbuff at h
  split at h
  case h_1 hstage _ =>
    obtain ⟨d,hd,rfl⟩ := Option.map_eq_some_iff.mp h
    exact ⟨hstage,rfl,hd⟩
  case h_2 => cases h

theorem handler_readRxBuf_cases (h : s.readRxBuf = some t) :
    ∃ tmpBufAddr r, s.stage = .replaced tmpBufAddr ∧ t.stage = .exchanged r ∧
      s.driver.readRxBuf tmpBufAddr = some (r,t.driver) := by
  unfold Handler.readRxBuf at h
  split at h
  case h_1 tmpBufAddr hstage =>
    obtain ⟨⟨r,d⟩,hd,rfl⟩ := Option.map_eq_some_iff.mp h
    exact ⟨tmpBufAddr,r,hstage,rfl,hd⟩
  case h_2 => cases h

theorem handler_rxframecb_cases (h : s.rxframecb S = some t) :
    ∃ r, s.stage = .exchanged r ∧
      t = ⟨if r.1 ≠ S.dmaScratchBuf then s.driver.rxframecb r else s.driver,.idle⟩ := by
  unfold Handler.rxframecb at h
  split at h
  case h_1 r hstage => exact ⟨r,hstage,(Option.some.inj h).symm⟩
  case h_2 => cases h

end Cases

section Iteration

variable {F : Type} {S : Setup} {d e : Driver F}

def callsOf : Label F → List (Call F)
  | .dmaWrite frame => [.dmaWrite frame]
  | .eventRxFrame getbuff => [.rxgetbuff getbuff,.readRxBuf,.rxframecb]
  | .release buf => [.release buf]

theorem eventRxFrame_calls {getbuff : Addr} (h : d.eventRxFrame S getbuff = some e) :
    (handling F S).exec ⟨d,.idle⟩ (callsOf (.eventRxFrame getbuff)) = some ⟨e,.idle⟩ := by
  unfold Driver.eventRxFrame at h
  obtain ⟨got,hgot,h⟩ := Option.bind_eq_some_iff.mp h
  obtain ⟨⟨r,next⟩,hread,h⟩ := Option.bind_eq_some_iff.mp h
  obtain rfl := Option.some.inj h
  have hreceived : got.received = d.received := by
    rcases rxgetbuff_cases hgot with ⟨_,rfl⟩ | ⟨_,_,rfl⟩ <;> rfl
  obtain ⟨rest,hrest,_⟩ := readRxBuf_cases hread
  have hfirst : (⟨d,.idle⟩ : Handler F).rxgetbuff S getbuff =
      some ⟨got,.replaced (Driver.replacement S getbuff)⟩ := by
    simp [Handler.rxgetbuff, ← hreceived, hrest, hgot]
  have hsecond : (⟨got,.replaced (Driver.replacement S getbuff)⟩ : Handler F).readRxBuf =
      some ⟨next,.exchanged r⟩ := by
    simp [Handler.readRxBuf, hread]
  exact Machine.exec_cons_iff.mpr ⟨_,hfirst,Machine.exec_cons_iff.mpr ⟨_,hsecond,rfl⟩⟩

theorem step_calls {a : Label F} (h : d.step S a = some e) :
    (handling F S).exec ⟨d,.idle⟩ (callsOf a) = some ⟨e,.idle⟩ := by
  cases a with
  | eventRxFrame getbuff => exact eventRxFrame_calls h
  | dmaWrite frame =>
    have hstep : d.dmaWrite frame = some e := h
    simp [callsOf, Machine.exec, handling, Handler.step, hstep, Handler.withDriver]
  | release buf =>
    have hstep : d.release buf = some e := h
    simp [callsOf, Machine.exec, handling, Handler.step, hstep, Handler.withDriver]

end Iteration

end UphyDemo.Ethernet
