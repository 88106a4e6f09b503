import Mathlib.Data.List.Perm.Basic
import UphyDemo.Foundation.Transition

namespace UphyDemo.Ethernet
open Transition

abbrev Addr := Nat

def null : Addr := 0

-- `ring` holds the pool buffers the driver posts when the interface is initialised
structure Setup where
  dmaScratchBuf : Addr
  ring : List Addr
  free : List Addr
  scratch_ne_null : dmaScratchBuf ≠ null
  scratch_notMem : dmaScratchBuf ∉ ring ++ free
  null_notMem : null ∉ ring ++ free
  nodup : (ring ++ free).Nodup

def Setup.pool (S : Setup) : List Addr := S.ring ++ S.free

-- `written`, `readRxBufArgs` and `delivered` log the DMA writes and the driver's calls
structure Driver (F : Type) where
  posted : List Addr
  received : List (Addr × F)
  free : List Addr
  held : List Addr
  written : List (Addr × F)
  readRxBufArgs : List Addr
  delivered : List (Addr × F)
deriving DecidableEq, Repr

inductive Label (F : Type) where
  | dmaWrite (frame : F)
  | eventRxFrame (getbuff : Addr)
  | release (buf : Addr)
deriving DecidableEq, Repr

namespace Driver

variable {F : Type} (S : Setup)

def start : Driver F where
  posted := S.ring
  received := []
  free := S.free
  held := []
  written := []
  readRxBufArgs := []
  delivered := []

def dmaWrite (frame : F) (d : Driver F) : Option (Driver F) :=
  match d.posted with
  | [] => none
  | buf :: rest => some { d with
      posted := rest
      received := d.received ++ [(buf,frame)]
      written := d.written ++ [(buf,frame)] }

def rxgetbuff (buf : Addr) (d : Driver F) : Option (Driver F) :=
  if buf = null then some d
  else if buf ∈ d.free then some { d with free := d.free.erase buf }
  else none

def readRxBuf (tmpBufAddr : Addr) (d : Driver F) : Option ((Addr × F) × Driver F) :=
  match d.received with
  | [] => none
  | r :: rest => some (r,{ d with
      posted := d.posted ++ [tmpBufAddr]
      received := rest
      readRxBufArgs := d.readRxBufArgs ++ [tmpBufAddr] })

def rxframecb (r : Addr × F) (d : Driver F) : Driver F :=
  { d with held := r.1 :: d.held, delivered := d.delivered ++ [r] }

def replacement (buf : Addr) : Addr := if buf = null then S.dmaScratchBuf else buf

-- one iteration of the patched `Cy_ETHIF_EventRxFrame`
def eventRxFrame (getbuff : Addr) (d : Driver F) : Option (Driver F) := do
  let d ← d.rxgetbuff getbuff
  let tmpBufAddr := replacement S getbuff
  let (r,d) ← d.readRxBuf tmpBufAddr
  return if r.1 ≠ S.dmaScratchBuf then d.rxframecb r else d

def release (buf : Addr) (d : Driver F) : Option (Driver F) :=
  if buf ∈ d.held then some { d with held := d.held.erase buf, free := buf :: d.free }
  else none

def step (d : Driver F) : Label F → Option (Driver F)
  | .dmaWrite frame => d.dmaWrite frame
  | .eventRxFrame getbuff => d.eventRxFrame S getbuff
  | .release buf => d.release buf

end Driver

def receiving (F : Type) (S : Setup) : Machine (Driver F) (Label F) where
  start := .start S
  step := Driver.step S

def frames {F : Type} (as : List (Label F)) : List F :=
  as.filterMap fun
    | .dmaWrite frame => some frame
    | _ => none

def getbuffs {F : Type} (as : List (Label F)) : List Addr :=
  as.filterMap fun
    | .eventRxFrame getbuff => some getbuff
    | _ => none

def twoBuffers : Setup where
  dmaScratchBuf := 0x20000000
  ring := [0x28000000]
  free := [0x28000600]
  scratch_ne_null := by decide
  scratch_notMem := by decide
  null_notMem := by decide
  nodup := by decide

def exhausted : List (Label Nat) :=
  [.dmaWrite 0,.eventRxFrame null,.dmaWrite 1,.eventRxFrame 0x28000600,.release 0x28000000,
    .dmaWrite 2,.eventRxFrame null]

section Step

variable {F : Type} {S : Setup} {d e : Driver F}

theorem getbuffs_append (as bs : List (Label F)) :
    getbuffs (as ++ bs) = getbuffs as ++ getbuffs bs := List.filterMap_append

theorem frames_concat (as : List (Label F)) (a : Label F) :
    frames (as ++ [a]) = frames as ++ frames [a] := List.filterMap_append

theorem replacement_ne_null (S : Setup) (buf : Addr) : Driver.replacement S buf ≠ null := by
  unfold Driver.replacement
  split
  · exact S.scratch_ne_null
  · assumption

theorem dmaWrite_cases {frame : F} (h : d.dmaWrite frame = some e) :
    ∃ buf rest, d.posted = buf :: rest ∧ e = { d with
      posted := rest
      received := d.received ++ [(buf,frame)]
      written := d.written ++ [(buf,frame)] } := by
  unfold Driver.dmaWrite at h
  split at h
  case h_1 => cases h
  case h_2 buf rest hposted => exact ⟨buf,rest,hposted,(Option.some.inj h).symm⟩

theorem rxgetbuff_cases {buf : Addr} (h : d.rxgetbuff buf = some e) :
    (buf = null ∧ e = d) ∨
    (buf ≠ null ∧ buf ∈ d.free ∧ e = { d with free := d.free.erase buf }) := by
  unfold Driver.rxgetbuff at h
  split at h
  case isTrue hnull => exact .inl ⟨hnull,(Option.some.inj h).symm⟩
  case isFalse hnull =>
    split at h
    case isTrue hmem => exact .inr ⟨hnull,hmem,(Option.some.inj h).symm⟩
    case isFalse => cases h

theorem readRxBuf_cases {buf : Addr} {r : Addr × F} (h : d.readRxBuf buf = some (r,e)) :
    ∃ rest, d.received = r :: rest ∧ e = { d with
      posted := d.posted ++ [buf]
      received := rest
      readRxBufArgs := d.readRxBufArgs ++ [buf] } := by
  unfold Driver.readRxBuf at h
  split at h
  case h_1 => cases h
  case h_2 rest hreceived =>
    obtain ⟨rfl,rfl⟩ := Prod.mk.inj (Option.some.inj h)
    exact ⟨rest,hreceived,rfl⟩

theorem eventRxFrame_cases {getbuff : Addr} (h : d.eventRxFrame S getbuff = some e) :
    ∃ r rest free, d.received = r :: rest ∧
      ((getbuff = null ∧ free = d.free) ∨
        (getbuff ≠ null ∧ getbuff ∈ d.free ∧ free = d.free.erase getbuff)) ∧
      e = { d with
        posted := d.posted ++ [Driver.replacement S getbuff]
        received := rest
        free := free
        held := if r.1 = S.dmaScratchBuf then d.held else r.1 :: d.held
        readRxBufArgs := d.readRxBufArgs ++ [Driver.replacement S getbuff]
        delivered := if r.1 = S.dmaScratchBuf then d.delivered else d.delivered ++ [r] } := by
  unfold Driver.eventRxFrame at h
  obtain ⟨got,hgot,h⟩ := Option.bind_eq_some_iff.mp h
  obtain ⟨⟨r,next⟩,hread,h⟩ := Option.bind_eq_some_iff.mp h
  obtain rfl := Option.some.inj h
  have hfree := rxgetbuff_cases hgot
  obtain ⟨rest,hreceived,rfl⟩ := readRxBuf_cases hread
  rcases hfree with ⟨hnull,rfl⟩ | ⟨hnull,hmem,rfl⟩
  · refine ⟨r,rest,_,hreceived,.inl ⟨hnull,rfl⟩,?_⟩
    by_cases hscratch : r.1 = S.dmaScratchBuf <;> simp [Driver.rxframecb, hscratch]
  · refine ⟨r,rest,_,hreceived,.inr ⟨hnull,hmem,rfl⟩,?_⟩
    by_cases hscratch : r.1 = S.dmaScratchBuf <;> simp [Driver.rxframecb, hscratch]

theorem release_cases {buf : Addr} (h : d.release buf = some e) :
    buf ∈ d.held ∧ e = { d with held := d.held.erase buf, free := buf :: d.free } := by
  unfold Driver.release at h
  split at h
  case isTrue hmem => exact ⟨hmem,(Option.some.inj h).symm⟩
  case isFalse => cases h

end Step

end UphyDemo.Ethernet
