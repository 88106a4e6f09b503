import UphyDemo.Ethernet.Conservation

namespace UphyDemo.Ethernet
open Transition

def mtu : Nat := 1500
def ethPadSize : Nat := 0
def pbufLinkHlen : Nat := 14 + ethPadSize
def vlanHlen : Nat := 4
def dmaScratchBufMaxLen : Nat := 1500

structure Frame where
  payload : Nat
  vlanTagged : Bool
  accepted : payload ≤ mtu
deriving DecidableEq, Repr

def Frame.length (f : Frame) : Nat :=
  pbufLinkHlen + (if f.vlanTagged then vlanHlen else 0) + f.payload

def maxFrameLength : Nat := pbufLinkHlen + vlanHlen + mtu

structure Buffers extends Setup where
  poolBufLen : Nat
  pool_fits : maxFrameLength ≤ poolBufLen

def Buffers.capacity (B : Buffers) (buf : Addr) : Nat :=
  if buf = B.dmaScratchBuf then dmaScratchBufMaxLen else B.poolBufLen

theorem Frame.length_le (f : Frame) : f.length ≤ maxFrameLength := by
  have haccepted := f.accepted
  unfold Frame.length maxFrameLength
  split <;> omega

section Placed

variable {F : Type} {S : Setup} {d e : Driver F}

structure Placed (S : Setup) (as : List (Label F)) (d : Driver F) : Prop where
  conserved : Conserved S (getbuffs as).length ⟨d,.idle⟩
  contents : d.written.map Prod.snd = frames as
  addresses : d.written.map Prod.fst ++ d.posted =
    S.ring ++ (getbuffs as).map (Driver.replacement S)
  given : ∀ buf ∈ getbuffs as, buf ≠ S.dmaScratchBuf

theorem Placed.conserved_step {as : List (Label F)} {a : Label F} (hd : Placed S as d)
    (h : d.step S a = some e) : Conserved S (getbuffs (as ++ [a])).length ⟨e,.idle⟩ := by
  have hnext := hd.conserved.exec (step_calls h)
  rw [iterations_calls] at hnext
  rwa [getbuffs_append, List.length_append]

theorem Placed.step {as : List (Label F)} {a : Label F} (hd : Placed S as d)
    (h : d.step S a = some e) : Placed S (as ++ [a]) e := by
  have hnext := hd.conserved_step h
  cases a with
  | dmaWrite frame =>
    obtain ⟨buf,rest,hposted,rfl⟩ := dmaWrite_cases h
    refine ⟨hnext,?_,?_,?_⟩
    · rw [frames_concat, ← hd.contents]
      simp [frames]
    · have hold := hd.addresses
      rw [hposted] at hold
      rw [getbuffs_append]
      simpa [getbuffs] using hold
    · rw [getbuffs_append]
      simpa [getbuffs] using hd.given
  | eventRxFrame getbuff =>
    obtain ⟨r,rest,free,_,hfree,rfl⟩ := eventRxFrame_cases h
    refine ⟨hnext,?_,?_,?_⟩
    · rw [frames_concat, ← hd.contents]
      simp [frames]
    · rw [getbuffs_append, List.map_append, ← List.append_assoc S.ring, ← hd.addresses,
        List.append_assoc]
      rfl
    · intro buf hbuf
      rw [getbuffs_append] at hbuf
      rcases List.mem_append.mp hbuf with hold | hlast
      · exact hd.given buf hold
      · obtain rfl : buf = getbuff := by simpa [getbuffs] using hlast
        rcases hfree with ⟨rfl,_⟩ | ⟨_,hmem,_⟩
        · exact S.scratch_ne_null.symm
        · exact hd.conserved.kept buf (List.mem_append_left d.held hmem)
  | release buf =>
    obtain ⟨_,rfl⟩ := release_cases h
    refine ⟨hnext,?_,?_,?_⟩
    · rw [frames_concat]
      simpa [frames] using hd.contents
    · rw [getbuffs_append]
      simpa [getbuffs] using hd.addresses
    · rw [getbuffs_append]
      simpa [getbuffs] using hd.given

theorem placed_run {as : List (Label F)} (h : (receiving F S).run as = some d) :
    Placed S as d := by
  refine Machine.run_history_free (I := Placed S) ?_ ?_ h
  · exact ⟨conserved_start S,rfl,by simp [receiving, Driver.start, getbuffs],
      fun _ => List.not_mem_nil.elim⟩
  · intro pre s a t hs hstep
    exact hs.step hstep

theorem Placed.frame_at {as : List (Label F)} (hd : Placed S as d) (i : Nat) :
    (frames as)[i]? = d.written[i]?.map Prod.snd := by
  rw [← hd.contents, List.getElem?_map]

theorem Placed.buffer_at {as : List (Label F)} (hd : Placed S as d) {i : Nat} {w : Addr × F}
    (hw : d.written[i]? = some w) :
    (S.ring ++ (getbuffs as).map (Driver.replacement S))[i]? = some w.1 := by
  have hlt : i < (d.written.map Prod.fst).length := by
    simpa using (List.getElem?_eq_some_iff.mp hw).1
  rw [← hd.addresses, List.getElem?_append_left hlt, List.getElem?_map, hw]
  rfl

theorem replacement_scratch {buf : Addr} (hbuf : buf ≠ S.dmaScratchBuf) :
    Driver.replacement S buf = S.dmaScratchBuf ↔ buf = null := by
  by_cases hnull : buf = null <;> simp [Driver.replacement, hnull, hbuf]

theorem Placed.scratch_iff {as : List (Label F)} (hd : Placed S as d) {i : Nat} {w : Addr × F}
    (hw : d.written[i]? = some w) :
    w.1 = S.dmaScratchBuf ↔ ∃ k, i = S.ring.length + k ∧ (getbuffs as)[k]? = some null := by
  have hbuf := hd.buffer_at hw
  rcases Nat.lt_or_ge i S.ring.length with hlt | hge
  · rw [List.getElem?_append_left hlt] at hbuf
    have hpool := List.mem_append_left S.free (List.mem_of_getElem? hbuf)
    constructor
    · intro hscratch
      rw [hscratch] at hpool
      exact absurd hpool S.scratch_notMem
    · rintro ⟨k,rfl,_⟩
      omega
  · obtain ⟨k,rfl⟩ := Nat.exists_eq_add_of_le hge
    rw [List.getElem?_append_right hge, Nat.add_sub_cancel_left, List.getElem?_map] at hbuf
    obtain ⟨buf,hget,hrepl⟩ := Option.map_eq_some_iff.mp hbuf
    have hgiven := hd.given buf (List.mem_of_getElem? hget)
    rw [← hrepl, replacement_scratch hgiven]
    constructor
    · rintro rfl
      exact ⟨k,rfl,hget⟩
    · rintro ⟨j,hj,hnull⟩
      obtain rfl : k = j := by omega
      exact Option.some.inj (hget.symm.trans hnull)

end Placed

theorem dma_writes_fit_iff {B : Buffers} {as : List (Label Frame)} {d : Driver Frame}
    (h : (receiving Frame B.toSetup).run as = some d) :
    (∀ w ∈ d.written, w.2.length ≤ B.capacity w.1) ↔
      ∀ k f, (frames as)[B.ring.length + k]? = some f → (getbuffs as)[k]? = some null →
        f.length ≤ dmaScratchBufMaxLen := by
  have hd := placed_run h
  constructor
  · intro hfit k f hf hnull
    rw [hd.frame_at] at hf
    obtain ⟨w,hw,rfl⟩ := Option.map_eq_some_iff.mp hf
    have hscratch := (hd.scratch_iff hw).mpr ⟨k,rfl,hnull⟩
    have hle := hfit w (List.mem_of_getElem? hw)
    simpa [Buffers.capacity, hscratch] using hle
  · intro hfit w hmem
    obtain ⟨i,hw⟩ := List.getElem?_of_mem hmem
    by_cases hscratch : w.1 = B.dmaScratchBuf
    · obtain ⟨k,rfl,hnull⟩ := (hd.scratch_iff hw).mp hscratch
      have hf : (frames as)[B.ring.length + k]? = some w.2 := by
        rw [hd.frame_at, hw]
        rfl
      simpa [Buffers.capacity, hscratch] using hfit k w.2 hf hnull
    · have hpool := Nat.le_trans w.2.length_le B.pool_fits
      simpa [Buffers.capacity, hscratch] using hpool

def fullSize : Frame where
  payload := mtu
  vlanTagged := false
  accepted := Nat.le_refl mtu

def tagged : Frame where
  payload := 46
  vlanTagged := true
  accepted := by decide

def pooled : Buffers where
  toSetup := twoBuffers
  poolBufLen := 1536
  pool_fits := by decide

theorem dma_writes_fit_tagged :
    ∃ d, (receiving Frame twoBuffers).run
        [.dmaWrite fullSize,.eventRxFrame null,.dmaWrite tagged] = some d ∧
      ∀ w ∈ d.written, w.2.length ≤ pooled.capacity w.1 := by
  have hrun : (receiving Frame pooled.toSetup).run
      [.dmaWrite fullSize,.eventRxFrame null,.dmaWrite tagged] = some {
        posted := []
        received := [(0x20000000,tagged)]
        free := [0x28000600]
        held := [0x28000000]
        written := [(0x28000000,fullSize),(0x20000000,tagged)]
        readRxBufArgs := [0x20000000]
        delivered := [(0x28000000,fullSize)] } := by decide
  refine ⟨_,hrun,(dma_writes_fit_iff hrun).mpr ?_⟩
  rintro (_ | k) f hf hnull
  · obtain rfl := Option.some.inj hf
    decide
  · cases hnull

theorem dma_write_escapes : ¬ ∀ (B : Buffers) (as : List (Label Frame)) (d : Driver Frame),
    (receiving Frame B.toSetup).run as = some d →
      ∀ w ∈ d.written, w.2.length ≤ B.capacity w.1 := by
  intro h
  have hrun : (receiving Frame pooled.toSetup).run
      [.dmaWrite fullSize,.eventRxFrame null,.dmaWrite fullSize] = some {
        posted := []
        received := [(0x20000000,fullSize)]
        free := [0x28000600]
        held := [0x28000000]
        written := [(0x28000000,fullSize),(0x20000000,fullSize)]
        readRxBufArgs := [0x20000000]
        delivered := [(0x28000000,fullSize)] } := by decide
  have hfit := h pooled _ _ hrun (0x20000000,fullSize) (by decide)
  revert hfit
  decide

end UphyDemo.Ethernet
