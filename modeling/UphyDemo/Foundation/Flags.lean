import Mathlib.Data.BitVec

namespace Flags

variable {w : Nat}

def has (e m : BitVec w) : Bool := e &&& m != 0#w

@[simp] theorem zero_has (m : BitVec w) : has 0#w m = false := by simp [has]

@[simp] theorem or_has (e f m : BitVec w) : has (e ||| f) m = (has e m || has f m) := by
  rw [Bool.eq_iff_iff]
  simp only [has, BitVec.and_or_distrib_right, bne_iff_ne, ne_eq,
    BitVec.or_eq_zero_iff, Bool.or_eq_true, not_and_or]

theorem has_or (e m n : BitVec w) : has e (m ||| n) = (has e m || has e n) := by
  rw [Bool.eq_iff_iff]
  simp only [has, BitVec.and_or_distrib_left, bne_iff_ne, ne_eq,
    BitVec.or_eq_zero_iff, Bool.or_eq_true, not_and_or]

theorem and_has (e k m : BitVec w) : has (e &&& k) m = has e (k &&& m) := by
  simp only [has, BitVec.and_assoc]

theorem masked_has {m k : BitVec w} (h : k &&& m = m) (e : BitVec w) :
    has (e &&& k) m = has e m := by
  rw [and_has, h]

theorem cleared_has {m k : BitVec w} (h : ~~~k &&& m = 0#w) (e : BitVec w) :
    has (e &&& ~~~k) m = false := by
  rw [and_has, h]
  simp [has]

end Flags
