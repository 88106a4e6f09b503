import Mathlib.Algebra.Group.Nat.Defs
import Mathlib.Data.List.Nodup
import Mathlib.Data.List.Range

namespace Layout

def alignUp (dot align : Nat) : Nat := dot + (align - dot % align) % align

theorem alignUp_mod {align : Nat} (dot : Nat) (h : 0 < align) : alignUp dot align % align = 0 := by
  have hlt := Nat.mod_lt dot h
  unfold alignUp
  by_cases hzero : dot % align = 0
  · simp [hzero]
  · have hpad : (align - dot % align) % align = align - dot % align :=
      Nat.mod_eq_of_lt (by omega)
    rw [Nat.add_mod, Nat.mod_mod, hpad, Nat.add_sub_cancel' (Nat.le_of_lt hlt), Nat.mod_self]

theorem alignUp_of_mod {dot align : Nat} (h : dot % align = 0) : alignUp dot align = dot := by
  simp [alignUp, h]

theorem alignUp_eq_iff {dot align : Nat} (h : 0 < align) :
    alignUp dot align = dot ↔ dot % align = 0 := by
  constructor
  · intro heq
    rw [← heq]
    exact alignUp_mod dot h
  · exact alignUp_of_mod

structure InputSection where
  size : Nat
  alignmentPower : Nat
deriving DecidableEq, Repr

namespace InputSection

def align (s : InputSection) : Nat := 2 ^ s.alignmentPower

theorem align_pos (s : InputSection) : 0 < s.align := Nat.two_pow_pos _

def finish (s : InputSection) (dot : Nat) : Nat := alignUp dot s.align + s.size

end InputSection

def endOf (dot : Nat) (ss : List InputSection) : Nat := ss.foldl (fun dot s => s.finish dot) dot

variable {A Sym : Type}

def place : Nat → List (A × InputSection) → List (A × Nat)
  | _, [] => []
  | dot, (a,s) :: ss => (a,alignUp dot s.align) :: place (s.finish dot) ss

-- `. = ALIGN(n)`, `sym = .` and an input section description
inductive Statement (Sym A : Type) where
  | alignDot (n : Nat)
  | assign (sym : Sym)
  | input (sections : List (A × InputSection))

structure Placement (Sym A : Type) where
  dot : Nat
  symbols : List (Sym × Nat)
  placed : List (A × Nat)

def Statement.exec : Statement Sym A → Placement Sym A → Placement Sym A
  | .alignDot n, p => { p with dot := alignUp p.dot n }
  | .assign sym, p => { p with symbols := p.symbols ++ [(sym,p.dot)] }
  | .input sections, p => { p with
      dot := endOf p.dot (sections.map Prod.snd)
      placed := p.placed ++ place p.dot sections }

def link (origin : Nat) (script : List (Statement Sym A)) : Placement Sym A :=
  script.foldl (fun p statement => statement.exec p) ⟨origin,[],[]⟩

section Residue

def padResidue (r : Nat) : Nat → Nat
  | 0 => r
  | 1 => r + r % 2
  | _ => 0

def residueOf (ss : List InputSection) (r : Nat) : Nat :=
  ss.foldl (fun r s => (padResidue r s.alignmentPower + s.size) % 4) r

theorem alignUp_residue (dot k : Nat) : alignUp dot (2 ^ k) % 4 = padResidue (dot % 4) k % 4 := by
  match k with
  | 0 => simp [alignUp, padResidue, Nat.mod_one]
  | 1 =>
    simp only [alignUp, padResidue]
    omega
  | k + 2 =>
    have hmod := alignUp_mod dot (Nat.two_pow_pos (k + 2))
    have hdvd : 4 ∣ 2 ^ (k + 2) := ⟨2 ^ k,by rw [Nat.pow_add, Nat.mul_comm]⟩
    have hfour := Nat.dvd_trans hdvd (Nat.dvd_of_mod_eq_zero hmod)
    rw [Nat.mod_eq_zero_of_dvd hfour]
    rfl

theorem endOf_residue (ss : List InputSection) (dot : Nat) :
    endOf dot ss % 4 = residueOf ss (dot % 4) := by
  induction ss generalizing dot with
  | nil => rfl
  | cons s ss ih =>
    have hfinish : s.finish dot % 4 = (padResidue (dot % 4) s.alignmentPower + s.size) % 4 := by
      rw [InputSection.finish, Nat.add_mod, InputSection.align, alignUp_residue, ← Nat.add_mod]
    have hstep := ih (s.finish dot)
    rw [hfinish] at hstep
    exact hstep

end Residue

section Uniform

variable {s : InputSection}

theorem place_aligned (dot : Nat) (xs : List A) (hmod : dot % s.align = 0)
    (hsize : s.size % s.align = 0) :
    place dot (xs.map fun x => (x,s)) = xs.zip (List.range' dot xs.length s.size) := by
  induction xs generalizing dot with
  | nil => rfl
  | cons x xs ih =>
    have hfinish : s.finish dot = dot + s.size := by rw [InputSection.finish, alignUp_of_mod hmod]
    have hnext : (dot + s.size) % s.align = 0 := by rw [Nat.add_mod, hmod, hsize]; simp
    simp only [List.map_cons, place, hfinish, alignUp_of_mod hmod, ih _ hnext, List.length_cons,
      List.range'_succ, List.zip_cons_cons]

theorem place_uniform (dot : Nat) (xs : List A) (hsize : s.size % s.align = 0) :
    place dot (xs.map fun x => (x,s)) =
      xs.zip (List.range' (alignUp dot s.align) xs.length s.size) := by
  have hmod := alignUp_mod dot s.align_pos
  rw [← place_aligned _ xs hmod hsize]
  cases xs with
  | nil => rfl
  | cons x xs => simp only [List.map_cons, place, InputSection.finish, alignUp_of_mod hmod]

theorem endOf_aligned (dot n : Nat) (hmod : dot % s.align = 0) (hsize : s.size % s.align = 0) :
    endOf dot (List.replicate n s) = dot + n * s.size := by
  induction n generalizing dot with
  | zero => simp [endOf]
  | succ n ih =>
    have hfinish : s.finish dot = dot + s.size := by rw [InputSection.finish, alignUp_of_mod hmod]
    have hnext : (dot + s.size) % s.align = 0 := by rw [Nat.add_mod, hmod, hsize]; simp
    have hrest := ih _ hnext
    rw [List.replicate_succ, endOf, List.foldl_cons, hfinish]
    rw [endOf] at hrest
    rw [hrest, Nat.succ_mul]
    omega

end Uniform

-- a pointer stepping by `stride` while it is below `stop`
def walk (stride stop : Nat) : Nat → Nat → List Nat
  | 0, _ => []
  | fuel + 1, p => if p < stop then p :: walk stride stop fuel (p + stride) else []

theorem walk_range {stride : Nat} (hstride : 0 < stride) (n start fuel : Nat) (hfuel : n ≤ fuel) :
    walk stride (start + n * stride) fuel start = List.range' start n stride := by
  induction n generalizing start fuel with
  | zero => cases fuel <;> simp [walk]
  | succ n ih =>
    obtain ⟨fuel,rfl⟩ := Nat.exists_eq_add_of_le' (Nat.le_trans (Nat.le_add_left 1 n) hfuel)
    have hlt : start < start + (n + 1) * stride := by
      have hpos : 0 < (n + 1) * stride := Nat.mul_pos (Nat.succ_pos n) hstride
      omega
    have hshift : start + (n + 1) * stride = start + stride + n * stride := by
      rw [Nat.succ_mul]
      omega
    rw [walk, if_pos hlt, List.range'_succ, hshift, ih (start + stride) fuel (by omega)]

def entryAt (entries : List (A × Nat)) (p : Nat) : Option A :=
  (entries[(entries.map Prod.snd).idxOf p]?).map Prod.fst

theorem entryAt_placed {entries : List (A × Nat)} (h : (entries.map Prod.snd).Nodup) :
    (entries.map Prod.snd).map (entryAt entries) = entries.map fun e => some e.1 := by
  apply List.ext_getElem (by simp)
  intro i hi _
  have hi' : i < (entries.map Prod.snd).length := by simpa using hi
  have hidx := h.idxOf_getElem i hi'
  simp only [List.getElem_map] at hidx ⊢
  have hlen : i < entries.length := by simpa using hi
  simp [entryAt, hidx, hlen]

end Layout
