import UphyDemo.Foundation.Transition

namespace Transition
namespace Machine

variable {S L V O : Type} {M : Machine S L} {view : L → Option V} {f : S → L → S → List O}

-- `P` is what is asked of the labels of the two runs
structure Unwinding (M : Machine S L) (P : L → Prop) (view : L → Option V)
    (f : S → L → S → List O) (R : S → S → Prop) : Prop where
  symm : ∀ s t, R s t → R t s
  silent : ∀ s t a s', R s t → P a → view a = none → M.step s a = some s' →
    R s' t ∧ f s a s' = []
  seen : ∀ s t a b v s' t', R s t → P a → P b → view a = some v → view b = some v →
    M.step s a = some s' → M.step t b = some t' → R s' t' ∧ f s a s' = f t b t'

namespace Unwinding

variable {R : S → S → Prop} {P : L → Prop}

theorem silent_exec (h : M.Unwinding P view f R) {s t t' : S} {bs : List L} (hR : R s t)
    (hP : ∀ b ∈ bs, P b) (hsilent : ∀ b ∈ bs, view b = none) (ht : M.exec t bs = some t') :
    R s t' ∧ M.outputs f t bs = [] := by
  induction bs generalizing t with
  | nil =>
    obtain rfl : t = t' := by simpa using ht
    exact ⟨hR,rfl⟩
  | cons b bs ih =>
    obtain ⟨u,hu,ht'⟩ := exec_cons_iff.mp ht
    rw [List.forall_mem_cons] at hP hsilent
    have hone := h.silent t s b u (h.symm s t hR) hP.1 hsilent.1 hu
    have hrest := ih (h.symm u s hone.1) hP.2 hsilent.2 ht'
    refine ⟨hrest.1,?_⟩
    rw [outputs_cons hu, hone.2, hrest.2, List.append_nil]

theorem exec_alike (h : M.Unwinding P view f R) {s t s' t' : S} {as bs : List L} (hR : R s t)
    (hP : ∀ a ∈ as, P a) (hP' : ∀ b ∈ bs, P b) (hs : M.exec s as = some s')
    (ht : M.exec t bs = some t') (hview : as.filterMap view = bs.filterMap view) :
    R s' t' ∧ M.outputs f s as = M.outputs f t bs := by
  induction as generalizing s t bs with
  | nil =>
    obtain rfl : s = s' := by simpa using hs
    have hsilent := List.filterMap_eq_nil_iff.mp hview.symm
    have hrest := h.silent_exec hR hP' hsilent ht
    exact ⟨hrest.1,hrest.2.symm⟩
  | cons a as ih =>
    obtain ⟨u,hu,hs'⟩ := exec_cons_iff.mp hs
    rw [List.forall_mem_cons] at hP
    cases ha : view a with
    | none =>
      rw [List.filterMap_cons_none ha] at hview
      have hone := h.silent s t a u hR hP.1 ha hu
      have hrest := ih hone.1 hP.2 hP' hs' ht hview
      refine ⟨hrest.1,?_⟩
      rw [outputs_cons hu, hone.2, hrest.2, List.nil_append]
    | some v =>
      rw [List.filterMap_cons_some ha] at hview
      obtain ⟨pre,b,post,rfl,hpre,hb,hpost⟩ := List.filterMap_eq_cons_iff.mp hview.symm
      rw [List.forall_mem_append, List.forall_mem_cons] at hP'
      rw [exec_append] at ht
      obtain ⟨r,hr,ht'⟩ := Option.bind_eq_some_iff.mp ht
      obtain ⟨w,hw,ht''⟩ := exec_cons_iff.mp ht'
      have hskip := h.silent_exec hR hP'.1 hpre hr
      have hone := h.seen s r a b v u w hskip.1 hP.1 hP'.2.1 ha hb hu hw
      have hrest := ih hone.1 hP.2 hP'.2.2 hs' ht'' hpost.symm
      refine ⟨hrest.1,?_⟩
      rw [outputs_cons hu, outputs_append hr, outputs_cons hw, hskip.2, hone.2, hrest.2]
      rfl

end Unwinding

end Machine
end Transition
