import UphyDemo.Ethernet.Capacity
import UphyDemo.Foundation.Simulation

namespace UphyDemo.Ethernet
open Transition

variable {F : Type} {S : Setup} {d e : Driver F} {buf : Addr}

def lastIn (buf : Addr) (rs : List (Addr × F)) : Option F :=
  ((rs.filter fun r => r.1 = buf).getLast?).map Prod.snd

-- the frame last written to a buffer; one slot of the ring after another may be the scratch buffer
def Driver.contents (d : Driver F) (buf : Addr) : Option F := lastIn buf d.written

theorem lastIn_append_other {rs rs' : List (Addr × F)} (h : buf ∉ rs'.map Prod.fst) :
    lastIn buf (rs ++ rs') = lastIn buf rs := by
  have hnone : rs'.filter (fun r => r.1 = buf) = [] := by
    apply List.filter_eq_nil_iff.mpr
    intro r hr
    simp only [decide_eq_true_eq]
    rintro rfl
    exact h (List.mem_map_of_mem hr)
  rw [lastIn, List.filter_append, hnone, List.append_nil, lastIn]

theorem lastIn_append_mem {rs rs' : List (Addr × F)} {r : Addr × F} (hmem : r ∈ rs')
    (hone : (rs'.map Prod.fst).count r.1 ≤ 1) : lastIn r.1 (rs ++ rs') = some r.2 := by
  have hlength : (rs'.filter fun q => q.1 = r.1).length = (rs'.map Prod.fst).count r.1 := by
    rw [List.count, List.countP_map, List.countP_eq_length_filter]
    rfl
  have hfound : r ∈ rs'.filter fun q => q.1 = r.1 := by simp [hmem]
  obtain ⟨q,hq⟩ := List.length_eq_one_iff.mp
    (Nat.le_antisymm (hlength ▸ hone) (List.length_pos_of_mem hfound))
  rw [hq] at hfound
  obtain rfl := List.mem_singleton.mp hfound
  rw [lastIn, List.filter_append, hq]
  simp

theorem lastIn_isSome {rs : List (Addr × F)} (h : buf ∈ rs.map Prod.fst) :
    ∃ frame, lastIn buf rs = some frame := by
  obtain ⟨r,hr,rfl⟩ := List.mem_map.mp h
  have hfound : r ∈ rs.filter fun q => q.1 = r.1 := by simp [hr]
  have hne := List.ne_nil_of_mem hfound
  exact ⟨_,by rw [lastIn, List.getLast?_eq_some_getLast hne]; rfl⟩

def Settled (S : Setup) (d : Driver F) : Prop := ∃ n, Conserved S n ⟨d,.idle⟩

namespace Settled

theorem step {a : Label F} (hd : Settled S d) (h : d.step S a = some e) : Settled S e := by
  obtain ⟨n,hn⟩ := hd
  exact ⟨_,hn.exec (step_calls h)⟩

theorem owners_eq (hd : Settled S d) (hbuf : buf ≠ S.dmaScratchBuf) :
    d.owners buf = S.pool.count buf := by
  obtain ⟨n,hn⟩ := hd
  exact hn.owned buf hbuf

theorem order (hd : Settled S d) :
    d.delivered ++ poolFrames S d.received = poolFrames S d.written := by
  obtain ⟨n,hn⟩ := hd
  have hpassed : d.delivered = poolFrames S (d.written.take n) := hn.passed
  have hrest : d.received = d.written.drop n := hn.rest
  rw [hpassed, hrest, ← poolFrames_append, List.take_append_drop]

theorem owners_le_one (hd : Settled S d) (hbuf : buf ≠ S.dmaScratchBuf) : d.owners buf ≤ 1 := by
  rw [hd.owners_eq hbuf]
  exact List.nodup_iff_count_le_one.mp S.nodup buf

theorem held_pool (hd : Settled S d) (hbuf : buf ∈ d.held) : buf ≠ S.dmaScratchBuf := by
  obtain ⟨n,hn⟩ := hd
  exact hn.kept buf (List.mem_append_right d.free hbuf)

theorem held_apart (hd : Settled S d) (hbuf : buf ∈ d.held) : buf ∉ d.ringBuffers := by
  intro hring
  have hone := hd.owners_le_one (hd.held_pool hbuf)
  have hcount := List.count_pos_iff.mpr hring
  have hheld := List.count_pos_iff.mpr hbuf
  unfold Driver.owners at hone
  omega

theorem contents_eq (hd : Settled S d) (hbuf : buf ≠ S.dmaScratchBuf) :
    d.contents buf = lastIn buf (d.delivered ++ d.received) := by
  have hpool (rs : List (Addr × F)) :
      (poolFrames S rs).filter (fun r => r.1 = buf) = rs.filter fun r => r.1 = buf := by
    rw [poolFrames, List.filter_filter]
    apply List.filter_congr
    intro r _
    by_cases hr : r.1 = buf <;> simp [hr, hbuf]
  have horder := congrArg (List.filter fun r => r.1 = buf) hd.order
  rw [List.filter_append, hpool, hpool, ← List.filter_append] at horder
  rw [Driver.contents, lastIn, lastIn, horder]

theorem held_step {a : Label F} (hd : Settled S d) (hbuf : buf ∈ d.held)
    (hrelease : a ≠ .release buf) (h : d.step S a = some e) :
    buf ∈ e.held ∧ e.contents buf = d.contents buf := by
  cases a with
  | dmaWrite frame =>
    obtain ⟨first,rest,hposted,rfl⟩ := dmaWrite_cases h
    have hfirst : first ∈ d.ringBuffers := by simp [Driver.ringBuffers, hposted]
    refine ⟨hbuf,lastIn_append_other ?_⟩
    rw [List.map_singleton, List.mem_singleton]
    rintro rfl
    exact hd.held_apart hbuf hfirst
  | eventRxFrame getbuff =>
    obtain ⟨r,rest,free,_,_,rfl⟩ := eventRxFrame_cases h
    refine ⟨?_,rfl⟩
    dsimp only
    split
    · exact hbuf
    · exact List.mem_cons_of_mem _ hbuf
  | release other =>
    obtain ⟨_,rfl⟩ := release_cases h
    have hother : buf ≠ other := by
      rintro rfl
      exact hrelease rfl
    exact ⟨(List.mem_erase_of_ne hother).mpr hbuf,rfl⟩

theorem held_exec {as : List (Label F)} (hd : Settled S d) (hbuf : buf ∈ d.held)
    (hrelease : .release buf ∉ as) (h : (receiving F S).exec d as = some e) :
    buf ∈ e.held ∧ e.contents buf = d.contents buf := by
  have hother : ∀ a ∈ as, a ≠ .release buf := by
    rintro _ ha rfl
    exact hrelease ha
  have hall : Settled S e ∧ buf ∈ e.held ∧ e.contents buf = d.contents buf := by
    refine Machine.exec_labels
      (I := fun u : Driver F => Settled S u ∧ buf ∈ u.held ∧ u.contents buf = d.contents buf)
      ?_ ⟨hd,hbuf,rfl⟩ hother h
    rintro u a v ⟨hu,hheld,hsame⟩ hother hstep
    obtain ⟨hheld',hsame'⟩ := hu.held_step hheld hother hstep
    exact ⟨hu.step hstep,hheld',hsame'.trans hsame⟩
  exact hall.2

end Settled

def Driver.Handed (d : Driver F) : Prop := ∀ buf ∈ d.held, buf ∈ d.delivered.map Prod.fst

theorem handed_step {a : Label F} (hd : d.Handed) (h : d.step S a = some e) : e.Handed := by
  cases a with
  | dmaWrite frame =>
    obtain ⟨first,rest,_,rfl⟩ := dmaWrite_cases h
    exact hd
  | eventRxFrame getbuff =>
    obtain ⟨r,rest,free,_,_,rfl⟩ := eventRxFrame_cases h
    intro b hb
    dsimp only at hb ⊢
    split at hb
    · rename_i hscratch
      rw [if_pos hscratch]
      exact hd b hb
    · rename_i hscratch
      rw [if_neg hscratch, List.map_append]
      rcases List.mem_cons.mp hb with rfl | hold
      · exact List.mem_append_right _ (by simp)
      · exact List.mem_append_left _ (hd b hold)
  | release other =>
    obtain ⟨_,rfl⟩ := release_cases h
    exact fun b hb => hd b (List.mem_of_mem_erase hb)

structure Intact (S : Setup) (d : Driver F) : Prop where
  waiting : ∀ r ∈ d.received, r.1 ≠ S.dmaScratchBuf → d.contents r.1 = some r.2
  held : ∀ buf ∈ d.held, ∃ frame, lastIn buf d.delivered = some frame ∧
    d.contents buf = some frame

theorem Settled.intact (hd : Settled S d) (hhanded : d.Handed) : Intact S d := by
  refine ⟨?_,?_⟩
  · intro r hr hpool
    rw [hd.contents_eq hpool]
    apply lastIn_append_mem hr
    have hone := hd.owners_le_one hpool
    simp only [Driver.owners, Driver.ringBuffers, List.count_append] at hone
    omega
  · intro buf hbuf
    obtain ⟨frame,hframe⟩ := lastIn_isSome (hhanded buf hbuf)
    have hapart : buf ∉ d.received.map Prod.fst := by
      intro hreceived
      exact hd.held_apart hbuf (List.mem_append_left _ hreceived)
    refine ⟨frame,hframe,?_⟩
    rw [hd.contents_eq (hd.held_pool hbuf), lastIn_append_other hapart, hframe]

theorem received_frames_intact {as : List (Label F)} (h : (receiving F S).run as = some d) :
    Intact S d ∧
    ∀ buf ∈ d.held, ∀ cs e, (receiving F S).exec d cs = some e → .release buf ∉ cs →
      buf ∈ e.held ∧ e.contents buf = d.contents buf := by
  have hd : Settled S d := ⟨_,(placed_run h).conserved⟩
  have hhanded : d.Handed := Machine.run_invariant (I := Driver.Handed)
    (fun _ hb => absurd hb List.not_mem_nil) (fun _ _ _ hs hstep => handed_step hs hstep) h
  refine ⟨hd.intact hhanded,?_⟩
  intro buf hbuf cs e he hrelease
  exact hd.held_exec hbuf hrelease he

theorem received_frames_intact_exhausted :
    ∃ d : Driver Nat, (receiving Nat twoBuffers).run exhausted = some d ∧ Intact twoBuffers d ∧
      ∀ frame e, (receiving Nat twoBuffers).exec d [.dmaWrite frame] = some e →
        e.contents 0x28000600 = d.contents 0x28000600 := by
  have hrun : ((receiving Nat twoBuffers).run exhausted).map Driver.held = some [0x28000600] := by
    decide
  obtain ⟨d,hd,hheld⟩ := Option.map_eq_some_iff.mp hrun
  obtain ⟨hintact,hkept⟩ := received_frames_intact hd
  refine ⟨d,hd,hintact,?_⟩
  intro frame e he
  exact (hkept _ (by simp [hheld]) _ e he (by simp)).2

end UphyDemo.Ethernet
