import Mathlib.Data.List.Nodup
import UphyDemo.Ethernet.Handler

namespace UphyDemo.Ethernet
open Transition

variable {F : Type} {S : Setup}

def Driver.ringBuffers (d : Driver F) : List Addr := d.received.map Prod.fst ++ d.posted

def Driver.owners (d : Driver F) (buf : Addr) : Nat :=
  d.free.count buf + d.ringBuffers.count buf + d.held.count buf

def Stage.hand : Stage F → List Addr
  | .idle => []
  | .replaced tmpBufAddr => [tmpBufAddr]
  | .exchanged r => [r.1]

def Stage.pending : Stage F → List (Addr × F)
  | .exchanged r => [r]
  | _ => []

-- the free pool, the ring, the frame callback and the handler's local variable
def Handler.owners (s : Handler F) (buf : Addr) : Nat :=
  s.driver.owners buf + s.stage.hand.count buf

def poolFrames (S : Setup) (rs : List (Addr × F)) : List (Addr × F) :=
  rs.filter fun r => r.1 ≠ S.dmaScratchBuf

def endsIteration : Call F → Bool
  | .rxframecb => true
  | _ => false

def iterations (as : List (Call F)) : Nat := as.countP endsIteration

theorem poolFrames_append (S : Setup) (rs rs' : List (Addr × F)) :
    poolFrames S (rs ++ rs') = poolFrames S rs ++ poolFrames S rs' := List.filter_append rs rs'

-- `n` frames have been handed on or dropped
structure Conserved (S : Setup) (n : Nat) (s : Handler F) : Prop where
  args : ∀ buf ∈ s.driver.readRxBufArgs, buf ≠ null
  given : ∀ buf, s.stage = .replaced buf → buf ≠ null
  enough : n ≤ s.driver.written.length
  passed : s.driver.delivered = poolFrames S (s.driver.written.take n)
  rest : s.stage.pending ++ s.driver.received = s.driver.written.drop n
  kept : ∀ buf ∈ s.driver.free ++ s.driver.held, buf ≠ S.dmaScratchBuf
  owned : ∀ buf, buf ≠ S.dmaScratchBuf → s.owners buf = S.pool.count buf

theorem conserved_start (S : Setup) : Conserved S 0 (⟨.start S,.idle⟩ : Handler F) where
  args := fun _ => List.not_mem_nil.elim
  given := nofun
  enough := Nat.le_refl 0
  passed := rfl
  rest := rfl
  kept := by
    rintro buf hbuf rfl
    apply S.scratch_notMem
    simp only [Driver.start, List.append_nil] at hbuf
    exact List.mem_append_right S.ring hbuf
  owned := by
    intro buf _
    simp [Handler.owners, Driver.owners, Driver.ringBuffers, Driver.start, Stage.hand, Setup.pool,
      Nat.add_comm]

theorem count_taken (buf : Addr) {a : Addr} {l : List Addr} (h : a ∈ l) :
    (l.erase a).count buf + [a].count buf = l.count buf := by
  have hpos := List.count_pos_iff.mpr h
  by_cases heq : a = buf
  · subst heq
    simp
    omega
  · simp [List.count_erase_of_ne (Ne.symm heq), heq]

theorem drop_head {α : Type} {l rest : List α} {r : α} {n : Nat} (h : r :: rest = l.drop n) :
    n + 1 ≤ l.length ∧ l.take (n + 1) = l.take n ++ [r] ∧ rest = l.drop (n + 1) := by
  have hget : l[n]? = some r := by
    rw [← Nat.add_zero n, ← List.getElem?_drop, ← h]
    rfl
  refine ⟨(List.getElem?_eq_some_iff.mp hget).1,?_,?_⟩
  · rw [List.take_add_one, hget]
    rfl
  · rw [← List.drop_drop, ← h]
    rfl

namespace Conserved

variable {n : Nat} {s t : Handler F}

theorem rxgetbuff {buf : Addr} (hs : Conserved S n s) (h : s.rxgetbuff S buf = some t) :
    Conserved S n t := by
  obtain ⟨hstage,hnext,hget⟩ := handler_rxgetbuff_cases h
  obtain ⟨d,stage⟩ := t
  obtain rfl : stage = .replaced (Driver.replacement S buf) := hnext
  have hgiven (b : Addr) (hb : Stage.replaced (Driver.replacement S buf) = (.replaced b : Stage F)) :
      b ≠ null := by
    obtain rfl := Stage.replaced.inj hb
    exact replacement_ne_null S buf
  have hrest := hs.rest
  rw [hstage] at hrest
  have howned := hs.owned
  simp only [Handler.owners, hstage, Stage.hand, List.count_nil, Nat.add_zero] at howned
  rcases rxgetbuff_cases hget with ⟨hnull,rfl⟩ | ⟨hnull,hmem,rfl⟩
  · refine ⟨hs.args,hgiven,hs.enough,hs.passed,hrest,hs.kept,?_⟩
    intro b hb
    have hother : [S.dmaScratchBuf].count b = 0 := by simp [Ne.symm hb]
    simp only [Handler.owners, Stage.hand, Driver.replacement, hnull, if_true, hother, howned b hb]
    rfl
  · refine ⟨hs.args,hgiven,hs.enough,hs.passed,hrest,?_,?_⟩
    · intro b hb
      apply hs.kept b
      rcases List.mem_append.mp hb with hfree | hheld
      · exact List.mem_append_left _ (List.mem_of_mem_erase hfree)
      · exact List.mem_append_right _ hheld
    · intro b hb
      have hold := howned b hb
      have htaken := count_taken b hmem
      simp only [Driver.owners] at hold
      simp only [Handler.owners, Driver.owners, Driver.ringBuffers, Stage.hand, Driver.replacement,
        hnull, if_false] at hold ⊢
      omega

theorem readRxBuf (hs : Conserved S n s) (h : s.readRxBuf = some t) : Conserved S n t := by
  obtain ⟨buf,r,hstage,hnext,hread⟩ := handler_readRxBuf_cases h
  obtain ⟨rest,hreceived,hdriver⟩ := readRxBuf_cases hread
  obtain ⟨d,stage⟩ := t
  obtain rfl : stage = .exchanged r := hnext
  obtain rfl := hdriver
  refine ⟨?_,nofun,hs.enough,hs.passed,?_,hs.kept,?_⟩
  · intro b hb
    rcases List.mem_append.mp hb with hold | hlast
    · exact hs.args b hold
    · obtain rfl := List.mem_singleton.mp hlast
      exact hs.given _ hstage
  · have hrest := hs.rest
    rw [hstage, hreceived] at hrest
    exact hrest
  · intro b hb
    have hold := hs.owned b hb
    simp only [Handler.owners, Driver.owners, Driver.ringBuffers, Stage.hand, hstage, hreceived,
      List.map_cons, List.count_append, List.count_cons, List.count_nil] at hold ⊢
    omega

theorem rxframecb (hs : Conserved S n s) (h : s.rxframecb S = some t) :
    Conserved S (n + 1) t := by
  obtain ⟨r,hstage,rfl⟩ := handler_rxframecb_cases h
  have hrest := hs.rest
  rw [hstage] at hrest
  obtain ⟨henough,htake,hdrop⟩ := drop_head hrest
  have howned := hs.owned
  simp only [Handler.owners, hstage, Stage.hand] at howned
  by_cases hscratch : r.1 = S.dmaScratchBuf
  · simp only [hscratch, ne_eq, not_true_eq_false, if_false]
    refine ⟨hs.args,nofun,henough,?_,hdrop,hs.kept,?_⟩
    · rw [htake, poolFrames_append, ← hs.passed]
      simp [poolFrames, hscratch]
    · intro b hb
      have hold := howned b hb
      have hother : [S.dmaScratchBuf].count b = 0 := by simp [Ne.symm hb]
      rw [hscratch, hother] at hold
      exact hold
  · simp only [hscratch, ne_eq, not_false_eq_true, if_true]
    refine ⟨hs.args,nofun,henough,?_,hdrop,?_,?_⟩
    · simp only [Driver.rxframecb]
      rw [htake, poolFrames_append, ← hs.passed]
      simp [poolFrames, hscratch]
    · intro b hb
      rcases List.mem_append.mp hb with hfree | hheld
      · exact hs.kept b (List.mem_append_left _ hfree)
      · rcases List.mem_cons.mp hheld with rfl | hold
        · exact hscratch
        · exact hs.kept b (List.mem_append_right _ hold)
    · intro b hb
      have hold := howned b hb
      simp only [Handler.owners, Driver.owners, Driver.ringBuffers, Driver.rxframecb, Stage.hand,
        List.count_cons, List.count_nil] at hold ⊢
      omega

theorem dmaWrite {frame : F} {d : Driver F} (hs : Conserved S n s)
    (h : s.driver.dmaWrite frame = some d) : Conserved S n (s.withDriver d) := by
  obtain ⟨buf,rest,hposted,rfl⟩ := dmaWrite_cases h
  refine ⟨hs.args,hs.given,?_,?_,?_,hs.kept,?_⟩
  · exact Nat.le_trans hs.enough (by simp [Handler.withDriver])
  · simp only [Handler.withDriver, List.take_append_of_le_length hs.enough]
    exact hs.passed
  · simp only [Handler.withDriver, List.drop_append_of_le_length hs.enough, ← hs.rest,
      List.append_assoc]
  · intro b hb
    have hold := hs.owned b hb
    simp only [Handler.owners, Driver.owners, Driver.ringBuffers, hposted] at hold
    simp only [Handler.owners, Handler.withDriver, Driver.owners, Driver.ringBuffers,
      List.map_append, List.map_cons, List.map_nil, List.append_assoc, List.singleton_append]
    exact hold

theorem release {buf : Addr} {d : Driver F} (hs : Conserved S n s)
    (h : s.driver.release buf = some d) : Conserved S n (s.withDriver d) := by
  obtain ⟨hmem,rfl⟩ := release_cases h
  refine ⟨hs.args,hs.given,hs.enough,hs.passed,hs.rest,?_,?_⟩
  · intro b hb
    apply hs.kept b
    rcases List.mem_append.mp hb with hfree | hheld
    · rcases List.mem_cons.mp hfree with rfl | hold
      · exact List.mem_append_right _ hmem
      · exact List.mem_append_left _ hold
    · exact List.mem_append_right _ (List.mem_of_mem_erase hheld)
  · intro b hb
    have hold := hs.owned b hb
    have hmoved := count_taken b hmem
    simp only [Handler.owners, Handler.withDriver, Driver.owners, Driver.ringBuffers,
      List.count_cons, List.count_nil] at hold hmoved ⊢
    omega

theorem step {a : Call F} (hs : Conserved S n s) (h : s.step S a = some t) :
    Conserved S (n + if endsIteration a then 1 else 0) t := by
  cases a with
  | rxgetbuff buf => exact hs.rxgetbuff h
  | readRxBuf => exact hs.readRxBuf h
  | rxframecb => exact hs.rxframecb h
  | dmaWrite frame =>
    obtain ⟨d,hd,rfl⟩ := Option.map_eq_some_iff.mp h
    exact hs.dmaWrite hd
  | release buf =>
    obtain ⟨d,hd,rfl⟩ := Option.map_eq_some_iff.mp h
    exact hs.release hd

end Conserved

theorem iterations_concat (as : List (Call F)) (a : Call F) :
    iterations (as ++ [a]) = iterations as + if endsIteration a then 1 else 0 := by
  rw [iterations, iterations, List.countP_append, List.countP_singleton]

theorem Conserved.exec {n : Nat} {s t : Handler F} {as : List (Call F)} (hs : Conserved S n s)
    (h : (handling F S).exec s as = some t) : Conserved S (n + iterations as) t := by
  refine @Machine.exec_history_free _ _ (handling F S)
    (fun as s => Conserved S (n + iterations as) s) ?_ [] as s t hs h
  intro pre s a t hs hstep
  rw [iterations_concat, ← Nat.add_assoc]
  exact hs.step hstep

theorem iterations_calls (a : Label F) : iterations (callsOf a) = (getbuffs [a]).length := by
  cases a <;> rfl

end UphyDemo.Ethernet
