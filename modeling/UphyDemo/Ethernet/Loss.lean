import UphyDemo.Ethernet.Capacity

namespace UphyDemo.Ethernet
open Transition

variable {F : Type} {S : Setup} {d e : Driver F}

-- what `rxgetbuff` returned travels round the ring once before a frame arrives in it
def delayLine (S : Setup) (as : List (Label F)) : List (Addr × F) :=
  ((S.ring ++ getbuffs as).zip (frames as)).take (getbuffs as).length

section DelayLine

variable {as : List (Label F)}

theorem zip_unzipped {α β : Type} (w : List (α × β)) (more : List α) :
    (w.map Prod.fst ++ more).zip (w.map Prod.snd) = w := by
  induction w with
  | nil => simp
  | cons r w ih => simp [ih]

theorem ring_replacement (S : Setup) : S.ring.map (Driver.replacement S) = S.ring := by
  have hsame : S.ring.map (Driver.replacement S) = S.ring.map id := by
    apply List.map_congr_left
    intro buf hbuf
    have hnull : buf ≠ null := by
      rintro rfl
      exact S.null_notMem (List.mem_append_left S.free hbuf)
    simp [Driver.replacement, hnull]
  rw [hsame, List.map_id]

theorem Placed.written_zip (hd : Placed S as d) :
    d.written = ((S.ring ++ getbuffs as).map (Driver.replacement S)).zip (frames as) := by
  rw [List.map_append, ring_replacement, ← hd.addresses, ← hd.contents, zip_unzipped]

theorem poolFrames_replacement {rs : List (Addr × F)} (h : ∀ r ∈ rs, r.1 ≠ S.dmaScratchBuf) :
    poolFrames S (rs.map (Prod.map (Driver.replacement S) id)) =
      rs.filter fun r => r.1 ≠ null := by
  induction rs with
  | nil => rfl
  | cons r rs ih =>
    rw [List.forall_mem_cons] at h
    have hrest := ih h.2
    by_cases hnull : r.1 = null
    · simpa [poolFrames, Driver.replacement, hnull] using hrest
    · have hsame : Prod.map (Driver.replacement S) id r = r :=
        Prod.ext (by simp [Driver.replacement, hnull]) rfl
      rw [List.map_cons, hsame]
      simpa [poolFrames, hnull, h.1] using hrest

theorem Placed.given_pool (hd : Placed S as d) {buf : Addr} (h : buf ∈ S.ring ++ getbuffs as) :
    buf ≠ S.dmaScratchBuf := by
  rcases List.mem_append.mp h with hring | hget
  · rintro rfl
    exact S.scratch_notMem (List.mem_append_left S.free hring)
  · exact hd.given buf hget

theorem Placed.delivered_eq (hd : Placed S as d) :
    d.delivered = (delayLine S as).filter fun r => r.1 ≠ null := by
  have hpassed : d.delivered = poolFrames S (d.written.take (getbuffs as).length) :=
    hd.conserved.passed
  rw [hpassed, hd.written_zip, List.zip_map_left, ← List.map_take]
  apply poolFrames_replacement
  intro r hr
  exact hd.given_pool (List.of_mem_zip (List.mem_of_mem_take hr)).1

theorem delayLine_addresses (hd : Placed S as d) :
    (delayLine S as).map Prod.fst = (S.ring ++ getbuffs as).take (getbuffs as).length := by
  have hwritten := congrArg List.length hd.contents
  have henough : (getbuffs as).length ≤ d.written.length := hd.conserved.enough
  simp only [List.length_map] at hwritten
  rw [delayLine, List.zip, List.take_zipWith]
  apply List.map_fst_zip
  simp only [List.length_take, List.length_append]
  omega

theorem delayLine_nulls (hd : Placed S as d) :
    ((delayLine S as).map Prod.fst).count null =
      ((getbuffs as).take ((getbuffs as).length - S.ring.length)).count null := by
  have hring : (S.ring.take (getbuffs as).length).count null = 0 := by
    rw [List.count_eq_zero]
    intro hmem
    exact S.null_notMem (List.mem_append_left S.free (List.mem_of_mem_take hmem))
  rw [delayLine_addresses hd, List.take_append, List.count_append, hring, Nat.zero_add]

theorem length_filter_null (rs : List (Addr × F)) :
    (rs.filter fun r => r.1 ≠ null).length + (rs.map Prod.fst).count null = rs.length := by
  induction rs with
  | nil => rfl
  | cons r rs ih =>
    by_cases hnull : r.1 = null
    · simp [hnull, ← ih]
      omega
    · simp [hnull, ← ih]
      omega

theorem Placed.lost (hd : Placed S as d) :
    d.delivered.length +
        ((getbuffs as).take ((getbuffs as).length - S.ring.length)).count null =
      (getbuffs as).length := by
  have haddresses := congrArg List.length (delayLine_addresses hd)
  have hlength : (delayLine S as).length = (getbuffs as).length := by simpa using haddresses
  rw [hd.delivered_eq, ← delayLine_nulls hd, length_filter_null, hlength]

end DelayLine

theorem loss_is_delayed_exhaustion {as : List (Label F)} (h : (receiving F S).run as = some d) :
    d.delivered = ((delayLine S as).filter fun r => r.1 ≠ null) ∧
    d.delivered.length +
        ((getbuffs as).take ((getbuffs as).length - S.ring.length)).count null =
      (getbuffs as).length :=
  ⟨(placed_run h).delivered_eq,(placed_run h).lost⟩

theorem loss_is_delayed_exhaustion_exhausted :
    ∃ d : Driver Nat, (receiving Nat twoBuffers).run exhausted = some d ∧
      d.delivered = [(0x28000000,0),(0x28000600,2)] := by
  have hrun : ((receiving Nat twoBuffers).run exhausted).isSome = true := by decide
  obtain ⟨d,hd⟩ := Option.isSome_iff_exists.mp hrun
  exact ⟨d,hd,(loss_is_delayed_exhaustion hd).1.trans (by decide)⟩

def poolRing (S : Setup) (d : Driver F) : Prop := ∀ buf ∈ d.ringBuffers, buf ≠ S.dmaScratchBuf

theorem Placed.ringBuffers_eq {as : List (Label F)} (hd : Placed S as d) :
    d.ringBuffers =
      ((S.ring ++ getbuffs as).map (Driver.replacement S)).drop (getbuffs as).length := by
  have hlength : (getbuffs as).length ≤ (d.written.map Prod.fst).length := by
    simpa using hd.conserved.enough
  have hrest : d.received = d.written.drop (getbuffs as).length := hd.conserved.rest
  rw [Driver.ringBuffers, hrest, List.map_drop, ← List.drop_append_of_le_length hlength,
    hd.addresses, List.map_append, ring_replacement]

theorem losses_before {n : Nat} {older newer : List Addr} (hlap : n ≤ newer.length)
    (hpool : ∀ buf ∈ newer, buf ≠ null) :
    ((older ++ newer).take ((older ++ newer).length - n)).count null = older.count null := by
  have hlong : older.length ≤ (older ++ newer).length - n := by
    rw [List.length_append]
    omega
  have hnone (k : Nat) : (newer.take k).count null = 0 := by
    rw [List.count_eq_zero]
    intro hmem
    exact hpool null (List.mem_of_mem_take hmem) rfl
  rw [List.take_append, List.take_of_length_le hlong, List.count_append, hnone, Nat.add_zero]

theorem lap_heals {as : List (Label F)} {older newer : List Addr}
    (h : (receiving F S).run as = some d) (hgets : getbuffs as = older ++ newer)
    (hlap : S.ring.length ≤ newer.length) (hpool : ∀ buf ∈ newer, buf ≠ null) :
    poolRing S d ∧ d.delivered.length + older.count null = older.length + newer.length := by
  have hd := placed_run h
  refine ⟨?_,?_⟩
  · intro buf hbuf
    rw [hd.ringBuffers_eq, hgets, ← List.append_assoc, List.map_append, List.drop_append] at hbuf
    have hold : ((S.ring ++ older).map (Driver.replacement S)).drop (older ++ newer).length = [] := by
      apply List.drop_eq_nil_of_le
      simp only [List.length_map, List.length_append]
      omega
    rw [hold, List.nil_append] at hbuf
    obtain ⟨got,hgot,rfl⟩ := List.mem_map.mp (List.mem_of_mem_drop hbuf)
    have hgiven : got ∈ getbuffs as := by
      rw [hgets]
      exact List.mem_append_right older hgot
    simpa [Driver.replacement, hpool got hgot] using hd.given got hgiven
  · have hcount := hd.lost
    rw [hgets, losses_before hlap hpool, List.length_append] at hcount
    exact hcount

theorem ring_recovers {as bs : List (Label F)} (h : (receiving F S).run (as ++ bs) = some d)
    (hlap : S.ring.length ≤ (getbuffs bs).length) (hpool : ∀ buf ∈ getbuffs bs, buf ≠ null) :
    poolRing S d ∧
    ∀ cs e, (receiving F S).exec d cs = some e → (∀ buf ∈ getbuffs cs, buf ≠ null) →
      poolRing S e ∧ e.delivered.length = d.delivered.length + (getbuffs cs).length := by
  obtain ⟨hring,hcount⟩ := lap_heals h (getbuffs_append as bs) hlap hpool
  refine ⟨hring,?_⟩
  intro cs e he hmore
  have hgets : getbuffs (as ++ bs ++ cs) = getbuffs as ++ (getbuffs bs ++ getbuffs cs) := by
    rw [getbuffs_append, getbuffs_append, List.append_assoc]
  have hnewer : ∀ buf ∈ getbuffs bs ++ getbuffs cs, buf ≠ null := by
    intro buf hbuf
    rcases List.mem_append.mp hbuf with hbuf | hbuf
    · exact hpool buf hbuf
    · exact hmore buf hbuf
  have hlonger : S.ring.length ≤ (getbuffs bs ++ getbuffs cs).length := by
    rw [List.length_append]
    omega
  obtain ⟨hring',hcount'⟩ := lap_heals (Machine.exec_append_of h he) hgets hlonger hnewer
  rw [List.length_append] at hcount'
  exact ⟨hring',by omega⟩

def starved : List (Label Nat) := [.dmaWrite 0,.eventRxFrame null]

def refilled : List (Label Nat) := [.dmaWrite 1,.eventRxFrame 0x28000600]

theorem ring_recovers_refilled :
    ∃ d : Driver Nat, (receiving Nat twoBuffers).run (starved ++ refilled) = some d ∧
      poolRing twoBuffers d := by
  have hrun : ((receiving Nat twoBuffers).run (starved ++ refilled)).isSome = true := by decide
  obtain ⟨d,hd⟩ := Option.isSome_iff_exists.mp hrun
  exact ⟨d,hd,(ring_recovers hd (by decide) (by decide)).1⟩

end UphyDemo.Ethernet
