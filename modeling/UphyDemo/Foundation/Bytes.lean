import Mathlib.Data.List.Basic

namespace Bytes

abbrev Store := Nat → UInt8

structure Region where
  start : Nat
  size : Nat
deriving DecidableEq, Repr

instance : Membership Nat Region where
  mem r a := r.start ≤ a ∧ a < r.start + r.size

theorem mem_region {a : Nat} {r : Region} : a ∈ r ↔ r.start ≤ a ∧ a < r.start + r.size :=
  Iff.rfl

instance (a : Nat) (r : Region) : Decidable (a ∈ r) := decidable_of_iff _ mem_region.symm

def Region.Disjoint (r s : Region) : Prop := ∀ a, a ∈ r → a ∉ s

theorem Region.disjoint_of_le {r s : Region} (h : r.start + r.size ≤ s.start) : r.Disjoint s := by
  intro a hr hs
  rw [mem_region] at hr hs
  omega

theorem Region.Disjoint.symm {r s : Region} (h : r.Disjoint s) : s.Disjoint r :=
  fun a hs hr => h a hr hs

theorem Region.Disjoint.shorten {r s : Region} {n : Nat} (h : r.Disjoint s) (hn : n ≤ r.size) :
    Region.Disjoint ⟨r.start,n⟩ s := by
  intro a ha
  rw [mem_region] at ha
  apply h a
  rw [mem_region]
  dsimp only at ha
  omega

def write (m : Store) (start : Nat) (bs : List UInt8) : Store :=
  fun a => if start ≤ a then bs[a - start]?.getD (m a) else m a

theorem write_inside (m : Store) (start : Nat) {bs : List UInt8} {i : Nat} (hi : i < bs.length) :
    write m start bs (start + i) = bs[i] := by
  simp [write, hi]

theorem write_outside {m : Store} {start a : Nat} {bs : List UInt8}
    (h : a ∉ (⟨start,bs.length⟩ : Region)) : write m start bs a = m a := by
  simp only [mem_region, not_and, Nat.not_lt] at h
  by_cases ha : start ≤ a
  · have hlen : bs.length ≤ a - start := by have := h ha; omega
    simp [write, ha, List.getElem?_eq_none hlen]
  · simp [write, ha]

def SameOn (r : Region) (m m' : Store) : Prop := ∀ a ∈ r, m' a = m a

theorem SameOn.refl (r : Region) (m : Store) : SameOn r m m := fun _ _ => rfl

theorem SameOn.trans {r : Region} {m m' m'' : Store} (h : SameOn r m m') (h' : SameOn r m' m'') :
    SameOn r m m'' := fun a ha => (h' a ha).trans (h a ha)

theorem sameOn_write {r : Region} {m : Store} {start : Nat} {bs : List UInt8}
    (h : Region.Disjoint ⟨start,bs.length⟩ r) : SameOn r m (write m start bs) :=
  fun a ha => write_outside fun hw => h a hw ha

end Bytes
