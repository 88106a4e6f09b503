import Mathlib.Data.List.Basic

namespace CString

def ascii (s : String) : List UInt8 := s.toList.map fun c => c.toNat.toUInt8

abbrev Memory := Nat → UInt8

structure Str where
  bytes : List UInt8
  unterminated : 0 ∉ bytes
deriving DecidableEq

def word (s : String) (h : 0 ∉ ascii s := by decide) : Str := ⟨ascii s,h⟩

def Str.memory (x : Str) : Memory := fun i => x.bytes.getD i 0

def strcmp (s : Memory) : List UInt8 → Int
  | [] => (s 0).toNat
  | c :: cs => if s 0 = c then strcmp (fun i => s (i + 1)) cs else (s 0).toNat - c.toNat

theorem toNat_eq_iff {x y : UInt8} : ((x.toNat : Int) - y.toNat = 0) ↔ x = y := by
  rw [UInt8.ext_iff]
  omega

theorem strcmp_eq_zero_iff {s : Memory} {lit : List UInt8} :
    strcmp s lit = 0 ↔ ∀ i, i ≤ lit.length → s i = lit.getD i 0 := by
  induction lit generalizing s with
  | nil =>
    constructor
    · intro h i hi
      obtain rfl : i = 0 := by simpa using hi
      rw [UInt8.ext_iff]
      simpa [strcmp] using h
    · intro h
      simp [strcmp, h 0 (Nat.le_refl 0)]
  | cons c cs ih =>
    by_cases hc : s 0 = c
    · simp only [strcmp, hc, if_true, ih]
      constructor
      · intro h i hi
        cases i with
        | zero => simpa using hc
        | succ i => simpa using h i (by simpa using hi)
      · intro h i hi
        simpa using h (i + 1) (by simpa using hi)
    · have hne : strcmp s (c :: cs) ≠ 0 := by
        simp only [strcmp, hc, if_false]
        exact fun h => hc (toNat_eq_iff.mp h)
      refine ⟨fun h => absurd h hne,fun h => absurd ?_ hc⟩
      simpa using h 0 (Nat.zero_le _)

theorem getD_ne_zero {xs : List UInt8} (hxs : 0 ∉ xs) {i : Nat} (hi : i < xs.length) :
    xs.getD i 0 ≠ 0 := by
  rw [List.getD_eq_getElem?_getD, List.getElem?_eq_getElem hi, Option.getD_some]
  intro hzero
  exact hxs (hzero ▸ List.getElem_mem hi)

theorem getD_length (xs : List UInt8) : xs.getD xs.length 0 = 0 := by simp

theorem strcmp_str {x : Str} {lit : List UInt8} (hlit : 0 ∉ lit) :
    strcmp x.memory lit = 0 ↔ x.bytes = lit := by
  rw [strcmp_eq_zero_iff]
  constructor
  · intro h
    have hlen : x.bytes.length = lit.length := by
      rcases Nat.lt_trichotomy x.bytes.length lit.length with hlt | heq | hgt
      · have hend := h x.bytes.length (Nat.le_of_lt hlt)
        exact absurd (hend.symm.trans (getD_length x.bytes)) (getD_ne_zero hlit hlt)
      · exact heq
      · have hend := h lit.length (Nat.le_refl _)
        exact absurd (hend.trans (getD_length lit)) (getD_ne_zero x.unterminated hgt)
    apply List.ext_getElem hlen
    intro i hx hl
    simpa [Str.memory, hx, hl] using h i (Nat.le_of_lt hl)
  · rintro rfl i _
    rfl

theorem strcmp_unique {s : Memory} {x y : List UInt8} (hx : 0 ∉ x) (hy : 0 ∉ y)
    (h : strcmp s x = 0) (h' : strcmp s y = 0) : x = y := by
  have hsame : strcmp (Str.memory ⟨x,hx⟩) y = 0 := by
    rw [strcmp_eq_zero_iff] at h h' ⊢
    intro i hi
    rcases Nat.lt_or_ge x.length i with hlt | hle
    · have hend : s x.length = y.getD x.length 0 := h' _ (by omega)
      rw [h _ (Nat.le_refl _), getD_length] at hend
      exact absurd hend.symm (getD_ne_zero hy (by omega))
    · exact (h i hle).symm.trans (h' i hi)
  exact (strcmp_str hy).mp hsame

theorem strcmp_terminated {s : Memory} {x : Str} {lit : List UInt8} (hlit : 0 ∉ lit)
    (hs : ∀ i, i ≤ x.bytes.length → s i = x.memory i) : strcmp s lit = 0 ↔ x.bytes = lit := by
  have hself : strcmp s x.bytes = 0 := strcmp_eq_zero_iff.mpr hs
  constructor
  · intro h
    exact strcmp_unique x.unterminated hlit hself h
  · rintro rfl
    exact hself

def strcmpReads (s : Memory) (lit : List UInt8) (i : Nat) : Prop :=
  i ≤ lit.length ∧ ∀ j, j < i → s j = lit.getD j 0

def printfReads (s : Memory) (i : Nat) : Prop := ∀ j, j < i → s j ≠ 0

theorem strcmp_agree {s t : Memory} {lit : List UInt8}
    (h : ∀ i, strcmpReads s lit i → s i = t i) : strcmp s lit = strcmp t lit := by
  induction lit generalizing s t with
  | nil => simp [strcmp, h 0 ⟨Nat.le_refl 0,by simp⟩]
  | cons c cs ih =>
    have hzero : s 0 = t 0 := h 0 ⟨Nat.zero_le _,by simp⟩
    by_cases hc : s 0 = c
    · have hrest : strcmp (fun i => s (i + 1)) cs = strcmp (fun i => t (i + 1)) cs := by
        apply ih
        rintro i ⟨hi,hsame⟩
        refine h (i + 1) ⟨by simpa using hi,?_⟩
        intro j hj
        cases j with
        | zero => simpa using hc
        | succ j => simpa using hsame j (by omega)
      simp only [strcmp, ← hzero, hc, if_true, hrest]
    · simp only [strcmp, ← hzero, hc, if_false]

theorem strcmpReads_unterminated {s : Memory} {lit : List UInt8} {i : Nat} (hlit : 0 ∉ lit)
    (h : strcmpReads s lit i) : printfReads s i := by
  intro j hj
  rw [h.2 j hj]
  exact getD_ne_zero hlit (Nat.lt_of_lt_of_le hj h.1)

theorem printfReads_le {s : Memory} {i p : Nat} (hp : s p = 0) (h : printfReads s i) : i ≤ p :=
  Nat.le_of_not_lt fun hlt => h p hlt hp

theorem exists_terminated {bs : List UInt8} (h : 0 ∈ bs) : ∃ x : Str, x.bytes ++ [0] <+: bs := by
  obtain ⟨xs,ys,rfl,hxs⟩ := List.eq_append_cons_of_mem h
  exact ⟨⟨xs,hxs⟩,ys,by simp⟩

end CString
