import Mathlib.Data.List.Basic

namespace Transition

structure Machine (S L : Type) where
  start : S
  step : S → L → Option S

namespace Machine

variable {S L : Type} (M : Machine S L)

def exec : S → List L → Option S
  | s, [] => some s
  | s, a :: as => (M.step s a).bind fun t => exec t as

def run (as : List L) : Option S := M.exec M.start as

def MeetsFrom (C : List L → S → L → Prop) : List L → S → List L → Prop
  | _, _, [] => True
  | pre, s, a :: as => C pre s a ∧ ∀ t, M.step s a = some t → MeetsFrom C (pre ++ [a]) t as

def Meets (C : List L → S → L → Prop) (as : List L) : Prop := M.MeetsFrom C [] M.start as

def AlwaysFrom (P : S → Prop) : S → List L → Prop
  | s, [] => P s
  | s, a :: as => P s ∧ ∀ t, M.step s a = some t → AlwaysFrom P t as

def Always (P : S → Prop) (as : List L) : Prop := M.AlwaysFrom P M.start as

def outputs {O : Type} (f : S → L → S → List O) : S → List L → List O
  | _, [] => []
  | s, a :: as =>
      match M.step s a with
      | none => []
      | some t => f s a t ++ outputs f t as

variable {M}

@[simp] theorem exec_nil (s : S) : M.exec s [] = some s := rfl

theorem exec_cons_iff {s u : S} {a : L} {as : List L} :
    M.exec s (a :: as) = some u ↔ ∃ t, M.step s a = some t ∧ M.exec t as = some u := by
  simp [exec, Option.bind_eq_some_iff]

theorem exec_append {s : S} (as bs : List L) :
    M.exec s (as ++ bs) = (M.exec s as).bind fun t => M.exec t bs := by
  induction as generalizing s with
  | nil => rfl
  | cons a as ih =>
    cases h : M.step s a with
    | none => simp [exec, h]
    | some t => simpa [exec, h] using ih

theorem exec_append_of {s t u : S} {as bs : List L} (h : M.exec s as = some t)
    (h' : M.exec t bs = some u) : M.exec s (as ++ bs) = some u := by
  simp [exec_append, h, h']

theorem exec_history {C : List L → S → L → Prop} {I : List L → S → Prop}
    (hstep : ∀ pre s a t, I pre s → C pre s a → M.step s a = some t → I (pre ++ [a]) t)
    {pre as : List L} {s t : S} (hs : I pre s) (hC : M.MeetsFrom C pre s as)
    (h : M.exec s as = some t) : I (pre ++ as) t := by
  induction as generalizing pre s with
  | nil =>
    obtain rfl : s = t := by simpa using h
    simpa using hs
  | cons a as ih =>
    obtain ⟨u,hu,ht⟩ := exec_cons_iff.mp h
    have hu' := hstep pre s a u hs hC.1 hu
    simpa using ih hu' (hC.2 u hu) ht

theorem run_history {C : List L → S → L → Prop} {I : List L → S → Prop}
    (hstart : I [] M.start)
    (hstep : ∀ pre s a t, I pre s → C pre s a → M.step s a = some t → I (pre ++ [a]) t)
    {as : List L} {t : S} (hC : M.Meets C as) (h : M.run as = some t) : I as t := by
  simpa using exec_history hstep hstart hC h

theorem meetsFrom_of_forall {C : List L → S → L → Prop} (h : ∀ pre s a, C pre s a)
    (pre : List L) (s : S) (as : List L) : M.MeetsFrom C pre s as := by
  induction as generalizing pre s with
  | nil => trivial
  | cons a as ih => exact ⟨h pre s a, fun t _ => ih _ t⟩

theorem meetsFrom_of_labels {P : L → Prop} {as : List L} (h : ∀ a ∈ as, P a) (pre : List L)
    (s : S) : M.MeetsFrom (fun _ _ a => P a) pre s as := by
  induction as generalizing pre s with
  | nil => trivial
  | cons a as ih =>
    rw [List.forall_mem_cons] at h
    exact ⟨h.1,fun t _ => ih h.2 _ t⟩

theorem meetsFrom_of_history {C D : List L → S → L → Prop} {I : List L → S → Prop}
    (hstep : ∀ pre s a t, I pre s → C pre s a → M.step s a = some t → I (pre ++ [a]) t)
    (hD : ∀ pre s a, I pre s → C pre s a → D pre s a)
    {pre : List L} {s : S} {as : List L} (hs : I pre s) (h : M.MeetsFrom C pre s as) :
    M.MeetsFrom D pre s as := by
  induction as generalizing pre s with
  | nil => trivial
  | cons a as ih =>
    refine ⟨hD pre s a hs h.1,?_⟩
    intro t ht
    have hnext := hstep pre s a t hs h.1 ht
    exact ih hnext (h.2 t ht)

theorem meetsFrom_of_invariant {C D : List L → S → L → Prop} {I : S → Prop}
    (hstep : ∀ pre s a t, I s → C pre s a → M.step s a = some t → I t)
    (hD : ∀ pre s a, I s → C pre s a → D pre s a)
    {pre : List L} {s : S} {as : List L} (hs : I s) (h : M.MeetsFrom C pre s as) :
    M.MeetsFrom D pre s as :=
  meetsFrom_of_history (I := fun _ => I) hstep hD hs h

theorem meets_congr {C D : List L → S → L → Prop} {I : List L → S → Prop}
    (hstart : I [] M.start)
    (hstep : ∀ pre s a t, I pre s → M.step s a = some t → I (pre ++ [a]) t)
    (hsame : ∀ pre s a, I pre s → (C pre s a ↔ D pre s a)) (as : List L) :
    M.Meets C as ↔ M.Meets D as := by
  constructor
  · exact meetsFrom_of_history (fun pre s a t hI _ => hstep pre s a t hI)
      (fun pre s a hI => (hsame pre s a hI).mp) hstart
  · exact meetsFrom_of_history (fun pre s a t hI _ => hstep pre s a t hI)
      (fun pre s a hI => (hsame pre s a hI).mpr) hstart

instance decidableMeetsFrom {C : List L → S → L → Prop} [∀ pre s a, Decidable (C pre s a)] :
    (pre : List L) → (s : S) → (as : List L) → Decidable (M.MeetsFrom C pre s as)
  | _, _, [] => isTrue trivial
  | pre, s, a :: as =>
      match h : M.step s a with
      | none => decidable_of_iff (C pre s a) (by simp [MeetsFrom, h])
      | some t =>
          have := decidableMeetsFrom (C := C) (pre ++ [a]) t as
          decidable_of_iff (C pre s a ∧ M.MeetsFrom C (pre ++ [a]) t as) (by simp [MeetsFrom, h])

instance decidableMeets {C : List L → S → L → Prop} [∀ pre s a, Decidable (C pre s a)]
    (as : List L) : Decidable (M.Meets C as) :=
  inferInstanceAs (Decidable (M.MeetsFrom C [] M.start as))

theorem exec_history_free {I : List L → S → Prop}
    (hstep : ∀ pre s a t, I pre s → M.step s a = some t → I (pre ++ [a]) t)
    {pre as : List L} {s t : S} (hs : I pre s) (h : M.exec s as = some t) : I (pre ++ as) t :=
  exec_history (C := fun _ _ _ => True) (fun pre s a t hI _ => hstep pre s a t hI) hs
    (meetsFrom_of_forall (fun _ _ _ => trivial) pre s as) h

theorem run_history_free {I : List L → S → Prop} (hstart : I [] M.start)
    (hstep : ∀ pre s a t, I pre s → M.step s a = some t → I (pre ++ [a]) t)
    {as : List L} {t : S} (h : M.run as = some t) : I as t := by
  simpa using exec_history_free hstep hstart h

theorem exec_invariant {I : S → Prop} (hstep : ∀ s a t, I s → M.step s a = some t → I t)
    {as : List L} {s t : S} (hs : I s) (h : M.exec s as = some t) : I t :=
  @exec_history_free S L M (fun _ => I) (fun _ => hstep) [] as s t hs h

theorem exec_labels {I : S → Prop} {P : L → Prop}
    (hstep : ∀ s a t, I s → P a → M.step s a = some t → I t)
    {s t : S} {as : List L} (hs : I s) (hP : ∀ a ∈ as, P a) (h : M.exec s as = some t) : I t :=
  exec_history (I := fun _ => I) (fun _ s a t => hstep s a t) hs (meetsFrom_of_labels hP [] s) h

theorem exec_total {P : L → Prop} (hstep : ∀ s a, P a → ∃ t, M.step s a = some t) {as : List L}
    (hP : ∀ a ∈ as, P a) (s : S) : ∃ t, M.exec s as = some t := by
  induction as generalizing s with
  | nil => exact ⟨s,rfl⟩
  | cons a as ih =>
    rw [List.forall_mem_cons] at hP
    obtain ⟨u,hu⟩ := hstep s a hP.1
    obtain ⟨t,ht⟩ := ih hP.2 u
    exact ⟨t,exec_cons_iff.mpr ⟨u,hu,ht⟩⟩

theorem run_invariant {I : S → Prop} (hstart : I M.start)
    (hstep : ∀ s a t, I s → M.step s a = some t → I t)
    {as : List L} {t : S} (h : M.run as = some t) : I t :=
  exec_invariant hstep hstart h

theorem alwaysFrom_iff {P : S → Prop} {s : S} {as : List L} :
    M.AlwaysFrom P s as ↔ ∀ pre, pre <+: as → ∀ t, M.exec s pre = some t → P t := by
  induction as generalizing s with
  | nil =>
    constructor
    · intro h pre hp t ht
      obtain rfl := List.prefix_nil.mp hp
      obtain rfl : s = t := by simpa using ht
      exact h
    · intro h
      exact h [] List.prefix_rfl s rfl
  | cons a as ih =>
    constructor
    · rintro ⟨hs,ha⟩ pre hp t ht
      rcases List.prefix_cons_iff.mp hp with rfl | ⟨pre',rfl,hp'⟩
      · obtain rfl : s = t := by simpa using ht
        exact hs
      · obtain ⟨u,hu,ht'⟩ := exec_cons_iff.mp ht
        exact ih.mp (ha u hu) pre' hp' t ht'
    · intro h
      refine ⟨h [] (List.nil_prefix) s rfl,?_⟩
      intro u hu
      apply ih.mpr
      intro pre hp t ht
      exact h (a :: pre) ((List.prefix_cons_inj a).mpr hp) t (exec_cons_iff.mpr ⟨u,hu,ht⟩)

theorem always_iff {P : S → Prop} {as : List L} :
    M.Always P as ↔ ∀ pre, pre <+: as → ∀ t, M.run pre = some t → P t :=
  alwaysFrom_iff

theorem alwaysFrom_start {P : S → Prop} {s : S} {as : List L} (h : M.AlwaysFrom P s as) : P s := by
  cases as with
  | nil => exact h
  | cons a as => exact h.1

theorem alwaysFrom_concat {P : S → Prop} {s t u : S} {as : List L} {a : L}
    (h : M.AlwaysFrom P s as) (ht : M.exec s as = some t) (hu : M.step t a = some u) (hP : P u) :
    M.AlwaysFrom P s (as ++ [a]) := by
  induction as generalizing s with
  | nil =>
    obtain rfl : s = t := by simpa using ht
    refine ⟨h,?_⟩
    intro v hv
    obtain rfl : u = v := Option.some.inj (hu.symm.trans hv)
    exact hP
  | cons b bs ih =>
    obtain ⟨v,hv,hrest⟩ := exec_cons_iff.mp ht
    refine ⟨h.1,?_⟩
    intro w hw
    obtain rfl : v = w := Option.some.inj (hv.symm.trans hw)
    exact ih (h.2 v hv) hrest

theorem alwaysFrom_strengthen {P J : S → Prop}
    (hstep : ∀ s a t, J s → M.step s a = some t → P t → J t)
    {s : S} {as : List L} (hs : J s) (h : M.AlwaysFrom P s as) : M.AlwaysFrom J s as := by
  induction as generalizing s with
  | nil => exact hs
  | cons a as ih =>
    refine ⟨hs,?_⟩
    intro t ht
    exact ih (hstep s a t hs ht (alwaysFrom_start (h.2 t ht))) (h.2 t ht)

theorem alwaysFrom_iff_meetsFrom {P I : S → Prop} {C : List L → S → L → Prop}
    (hinv : ∀ s a t, I s → M.step s a = some t → I t)
    (hstep : ∀ pre s a t, I s → P s → M.step s a = some t → (P t ↔ C pre s a))
    (hblocked : ∀ pre s a, M.step s a = none → C pre s a)
    (pre : List L) {s : S} {as : List L} (hI : I s) (hP : P s) :
    M.AlwaysFrom P s as ↔ M.MeetsFrom C pre s as := by
  induction as generalizing pre s with
  | nil => exact ⟨fun _ => trivial,fun _ => hP⟩
  | cons a as ih =>
    cases ht : M.step s a with
    | none => simp [AlwaysFrom, MeetsFrom, ht, hP, hblocked pre s a ht]
    | some t =>
      have hone := hstep pre s a t hI hP ht
      have hrest (hPt : P t) := ih (pre ++ [a]) (hinv s a t hI ht) hPt
      simp only [AlwaysFrom, MeetsFrom, ht, Option.some.injEq, forall_eq', hP, true_and]
      constructor
      · intro h
        have hPt := alwaysFrom_start h
        exact ⟨hone.mp hPt,(hrest hPt).mp h⟩
      · rintro ⟨hC,h⟩
        exact (hrest (hone.mpr hC)).mpr h

section Outputs

variable {O : Type} {f g : S → L → S → List O}

@[simp] theorem outputs_nil (s : S) : M.outputs f s [] = [] := rfl

theorem outputs_cons {s t : S} {a : L} (h : M.step s a = some t) (as : List L) :
    M.outputs f s (a :: as) = f s a t ++ M.outputs f t as := by
  simp [outputs, h]

theorem outputs_append {s t : S} {as bs : List L} (h : M.exec s as = some t) :
    M.outputs f s (as ++ bs) = M.outputs f s as ++ M.outputs f t bs := by
  induction as generalizing s with
  | nil =>
    obtain rfl : s = t := by simpa using h
    rfl
  | cons a as ih =>
    obtain ⟨u,hu,ht⟩ := exec_cons_iff.mp h
    rw [List.cons_append, outputs_cons hu, outputs_cons hu, ih ht, List.append_assoc]

theorem outputs_amortised {credit : S → Nat} {pays : L → Bool}
    (hstep : ∀ s a t, M.step s a = some t →
      (f s a t).length + credit t ≤ credit s + if pays a then 1 else 0)
    {s t : S} {as : List L} (h : M.exec s as = some t) :
    (M.outputs f s as).length + credit t ≤ credit s + as.countP pays := by
  induction as generalizing s with
  | nil =>
    obtain rfl : s = t := by simpa using h
    simp
  | cons a as ih =>
    obtain ⟨u,hu,ht⟩ := exec_cons_iff.mp h
    have hone := hstep s a u hu
    have hrest := ih ht
    rw [outputs_cons hu, List.length_append, List.countP_cons]
    omega

-- what a state still owes of the promised outputs telescopes along a run
theorem outputs_balance {J : S → Prop} {owed : S → List O}
    (hstep : ∀ s a t, J s → J t → M.step s a = some t → f s a t ++ owed t = owed s ++ g s a t)
    {s t : S} {as : List L} (hJ : M.AlwaysFrom J s as) (h : M.exec s as = some t) :
    M.outputs f s as ++ owed t = owed s ++ M.outputs g s as := by
  induction as generalizing s with
  | nil =>
    obtain rfl : s = t := by simpa using h
    simp
  | cons a as ih =>
    obtain ⟨u,hu,ht⟩ := exec_cons_iff.mp h
    have hnext := ih (hJ.2 u hu) ht
    have hone := hstep s a u hJ.1 (alwaysFrom_start (hJ.2 u hu)) hu
    calc M.outputs f s (a :: as) ++ owed t
        = f s a u ++ (M.outputs f u as ++ owed t) := by rw [outputs_cons hu, List.append_assoc]
      _ = (f s a u ++ owed u) ++ M.outputs g u as := by rw [hnext, List.append_assoc]
      _ = owed s ++ M.outputs g s (a :: as) := by rw [hone, outputs_cons hu, List.append_assoc]

end Outputs

end Machine

end Transition
