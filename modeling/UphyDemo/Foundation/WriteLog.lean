import UphyDemo.Foundation.Bytes

namespace Bytes

structure Write where
  start : Nat
  bytes : List UInt8
deriving DecidableEq, Repr

namespace Write

def byteAt (w : Write) (a : Nat) : Option UInt8 :=
  if w.start ≤ a then w.bytes[a - w.start]? else none

def region (w : Write) : Region := ⟨w.start,w.bytes.length⟩

theorem byteAt_inside (w : Write) (k : Nat) : w.byteAt (w.start + k) = w.bytes[k]? := by
  simp [byteAt]

theorem byteAt_outside {w : Write} {a : Nat} (h : a ∉ w.region) : w.byteAt a = none := by
  simp only [region, mem_region, not_and, Nat.not_lt] at h
  simp only [byteAt, ite_eq_right_iff, List.getElem?_eq_none_iff]
  intro hle
  have hpast := h hle
  omega

end Write

theorem write_apply (m : Store) (w : Write) (a : Nat) :
    write m w.start w.bytes a = (w.byteAt a).getD (m a) := by
  unfold write Write.byteAt
  split <;> rfl

def writeAll (ws : List Write) (m : Store) : Store :=
  ws.foldl (fun m w => write m w.start w.bytes) m

def lastByte (ws : List Write) (a : Nat) : Option UInt8 := (ws.filterMap (·.byteAt a)).getLast?

theorem lastByte_cons (w : Write) (ws : List Write) (a : Nat) :
    lastByte (w :: ws) a = (lastByte ws a).or (w.byteAt a) := by
  simp only [lastByte, List.filterMap_cons]
  cases w.byteAt a with
  | none => rw [Option.or_none]
  | some b =>
    rw [List.getLast?_cons]
    cases (ws.filterMap (·.byteAt a)).getLast? <;> rfl

theorem writeAll_apply (ws : List Write) (m : Store) (a : Nat) :
    writeAll ws m a = (lastByte ws a).getD (m a) := by
  induction ws generalizing m with
  | nil => rfl
  | cons w ws ih =>
    have hrest : writeAll (w :: ws) m a = writeAll ws (write m w.start w.bytes) a := rfl
    rw [hrest, ih, lastByte_cons, write_apply]
    cases lastByte ws a <;> rfl

theorem lastByte_map {α : Type} {f : α → Write} {g : α → Option UInt8} {xs : List α} {a : Nat}
    (h : ∀ x ∈ xs, (f x).byteAt a = g x) : lastByte (xs.map f) a = (xs.filterMap g).getLast? := by
  unfold lastByte
  rw [List.filterMap_map]
  exact congrArg List.getLast? (List.filterMap_congr h)

theorem lastByte_append (ws ws' : List Write) (a : Nat) :
    lastByte (ws ++ ws') a = (lastByte ws' a).or (lastByte ws a) := by
  simp only [lastByte, List.filterMap_append, List.getLast?_append]

theorem lastByte_flatMap {α : Type} (f : α → List Write) (xs : List α) (a : Nat) :
    lastByte (xs.flatMap f) a = (xs.filterMap fun x => lastByte (f x) a).getLast? := by
  induction xs with
  | nil => rfl
  | cons x xs ih =>
    rw [List.flatMap_cons, lastByte_append, ih, List.filterMap_cons]
    cases lastByte (f x) a with
    | none => simp
    | some b =>
      rw [List.getLast?_cons]
      cases (xs.filterMap fun x => lastByte (f x) a).getLast? <;> rfl

theorem lastByte_untouched {ws : List Write} {a : Nat} (h : ∀ w ∈ ws, a ∉ w.region) :
    lastByte ws a = none := by
  have hnone : ws.filterMap (·.byteAt a) = [] := by
    rw [List.filterMap_eq_nil_iff]
    intro w hw
    exact Write.byteAt_outside (h w hw)
  rw [lastByte, hnone]
  rfl

end Bytes
