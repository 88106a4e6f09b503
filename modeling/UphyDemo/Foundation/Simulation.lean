import Mathlib.Data.List.Chain
import UphyDemo.Foundation.Transition

namespace Transition
namespace Machine

variable {S T L K : Type} {M : Machine S L} {N : Machine T K} {abs : S → T} {view : L → Option K}

-- `M` seen through `abs` is a run of `N`; the labels without a view leave `abs` alone
structure Follows (M : Machine S L) (N : Machine T K) (abs : S → T) (view : L → Option K) :
    Prop where
  start : abs M.start = N.start
  silent : ∀ s a t, view a = none → M.step s a = some t → abs t = abs s
  seen : ∀ s a t k, view a = some k → M.step s a = some t → N.step (abs s) k = some (abs t)

namespace Follows

theorem exec (h : M.Follows N abs view) {s t : S} {as : List L} (hs : M.exec s as = some t) :
    N.exec (abs s) (as.filterMap view) = some (abs t) := by
  induction as generalizing s with
  | nil =>
    obtain rfl : s = t := by simpa using hs
    rfl
  | cons a as ih =>
    obtain ⟨u,hu,ht⟩ := exec_cons_iff.mp hs
    have hrest := ih ht
    cases ha : view a with
    | none =>
      rw [List.filterMap_cons_none ha, ← h.silent s a u ha hu]
      exact hrest
    | some k =>
      rw [List.filterMap_cons_some ha]
      exact exec_cons_iff.mpr ⟨abs u,h.seen s a u k ha hu,hrest⟩

theorem run (h : M.Follows N abs view) {t : S} {as : List L} (hs : M.run as = some t) :
    N.run (as.filterMap view) = some (abs t) := by
  have hrun := h.exec hs
  rwa [h.start] at hrun

end Follows

section Splits

variable {T' K' : Type} {N' : Machine T' K'} {abs' : S → T'} {view' : L → Option K'}

-- two parties that share nothing: each label belongs to one of them
structure Splits (M : Machine S L) (N : Machine T K) (N' : Machine T' K') (abs : S → T)
    (abs' : S → T') (view : L → Option K) (view' : L → Option K') : Prop where
  one : M.Follows N abs view
  other : M.Follows N' abs' view'
  joint : ∀ s t, abs s = abs t → abs' s = abs' t → s = t
  apart : ∀ a, (∃ k, view a = some k ∧ view' a = none) ∨ ∃ k, view' a = some k ∧ view a = none
  lift : ∀ s a k u, view a = some k → N.step (abs s) k = some u → ∃ t, M.step s a = some t ∧ abs t = u
  lift' : ∀ s a k u, view' a = some k → N'.step (abs' s) k = some u →
    ∃ t, M.step s a = some t ∧ abs' t = u

namespace Splits

theorem exec (h : M.Splits N N' abs abs' view view') {s : S} {u : T} {u' : T'} {as : List L}
    (hu : N.exec (abs s) (as.filterMap view) = some u)
    (hu' : N'.exec (abs' s) (as.filterMap view') = some u') :
    ∃ t, M.exec s as = some t ∧ abs t = u ∧ abs' t = u' := by
  induction as generalizing s with
  | nil => exact ⟨s,rfl,by simpa using hu,by simpa using hu'⟩
  | cons a as ih =>
    rcases h.apart a with ⟨k,hk,hnone⟩ | ⟨k,hk,hnone⟩
    · rw [List.filterMap_cons_some hk] at hu
      rw [List.filterMap_cons_none hnone] at hu'
      obtain ⟨v,hv,hrest⟩ := exec_cons_iff.mp hu
      obtain ⟨t,ht,rfl⟩ := h.lift s a k v hk hv
      rw [← h.other.silent s a t hnone ht] at hu'
      obtain ⟨w,hw,hend⟩ := ih hrest hu'
      exact ⟨w,exec_cons_iff.mpr ⟨t,ht,hw⟩,hend⟩
    · rw [List.filterMap_cons_none hnone] at hu
      rw [List.filterMap_cons_some hk] at hu'
      obtain ⟨v,hv,hrest⟩ := exec_cons_iff.mp hu'
      obtain ⟨t,ht,rfl⟩ := h.lift' s a k v hk hv
      rw [← h.one.silent s a t hnone ht] at hu
      obtain ⟨w,hw,hend⟩ := ih hu hrest
      exact ⟨w,exec_cons_iff.mpr ⟨t,ht,hw⟩,hend⟩

end Splits

end Splits

section Realises

variable {O : Type}

-- one step of `N` may take many of `M`: `fed` is what a step of `M` hands to `N`, `owed` what of
-- `N`'s output `M` has still to give
structure Realises (M : Machine S L) (N : Machine T K) (inv : S → Prop) (abs : S → T)
    (fed : S → L → S → List K) (f : S → L → S → List O) (g : T → K → T → List O)
    (owed : S → List O) : Prop where
  start : abs M.start = N.start
  inv_start : inv M.start
  owed_start : owed M.start = []
  keeps : ∀ s a t, inv s → M.step s a = some t → inv t
  reacts : ∀ s a t, inv s → M.step s a = some t → N.exec (abs s) (fed s a t) = some (abs t)
  gives : ∀ s a t, inv s → M.step s a = some t →
    f s a t ++ owed t = owed s ++ N.outputs g (abs s) (fed s a t)

variable {inv : S → Prop} {fed : S → L → S → List K} {f : S → L → S → List O}
  {g : T → K → T → List O} {owed : S → List O}

theorem Realises.exec (h : M.Realises N inv abs fed f g owed) {s t : S} {as : List L}
    (hs : inv s) (ht : M.exec s as = some t) :
    N.exec (abs s) (M.outputs fed s as) = some (abs t) ∧
    M.outputs f s as ++ owed t = owed s ++ N.outputs g (abs s) (M.outputs fed s as) := by
  induction as generalizing s with
  | nil =>
    obtain rfl : s = t := by simpa using ht
    simp
  | cons a as ih =>
    obtain ⟨u,hu,ht'⟩ := exec_cons_iff.mp ht
    have hreact := h.reacts s a u hs hu
    have hgive := h.gives s a u hs hu
    obtain ⟨hrest,hout⟩ := ih (h.keeps s a u hs hu) ht'
    rw [outputs_cons hu, outputs_cons hu]
    refine ⟨exec_append_of hreact hrest,?_⟩
    rw [outputs_append hreact, List.append_assoc, hout, ← List.append_assoc, hgive,
      List.append_assoc]

theorem Realises.run (h : M.Realises N inv abs fed f g owed) {t : S} {as : List L}
    (ht : M.run as = some t) :
    N.run (M.outputs fed M.start as) = some (abs t) ∧
    M.outputs f M.start as ++ owed t = N.outputs g N.start (M.outputs fed M.start as) := by
  have hexec := h.exec h.inv_start ht
  rw [h.start, h.owed_start, List.nil_append] at hexec
  exact hexec

end Realises

theorem meetsFrom_append {C : List L → S → L → Prop} {pre as bs : List L} {s t : S}
    (hs : M.MeetsFrom C pre s as) (h : M.exec s as = some t) (ht : M.MeetsFrom C (pre ++ as) t bs) :
    M.MeetsFrom C pre s (as ++ bs) := by
  induction as generalizing pre s with
  | nil =>
    obtain rfl : s = t := by simpa using h
    simpa using ht
  | cons a as ih =>
    refine ⟨hs.1,?_⟩
    intro u hu
    obtain ⟨v,hv,hrest⟩ := exec_cons_iff.mp h
    obtain rfl : v = u := Option.some.inj (hv.symm.trans hu)
    exact ih (hs.2 v hv) hrest (by simpa using ht)

theorem run_concat {s t : S} {as : List L} {a : L} (h : M.run as = some s)
    (ht : M.step s a = some t) : M.run (as ++ [a]) = some t :=
  exec_append_of h (exec_cons_iff.mpr ⟨t,ht,rfl⟩)

theorem meetsFrom_iff {C : List L → S → L → Prop} {pre as : List L} {s : S} :
    M.MeetsFrom C pre s as ↔
      ∀ mid a, mid ++ [a] <+: as → ∀ t, M.exec s mid = some t → C (pre ++ mid) t a := by
  induction as generalizing pre s with
  | nil =>
    refine ⟨fun _ mid a hmid => ?_,fun _ => trivial⟩
    cases mid <;> simp at hmid
  | cons b bs ih =>
    constructor
    · rintro ⟨hb,hrest⟩ mid a hmid t ht
      match mid with
      | [] =>
        obtain rfl : s = t := by simpa using ht
        obtain rfl : a = b := by simpa using hmid
        simpa using hb
      | c :: mid =>
        obtain ⟨rfl,hmid'⟩ := List.cons_prefix_cons.mp hmid
        obtain ⟨u,hu,ht'⟩ := exec_cons_iff.mp ht
        simpa using ih.mp (hrest u hu) mid a hmid' t ht'
    · intro h
      refine ⟨?_,?_⟩
      · simpa using h [] b (by simp) s rfl
      · intro u hu
        apply ih.mpr
        intro mid a hmid t ht
        simpa using h (b :: mid) a (List.cons_prefix_cons.mpr ⟨rfl,hmid⟩) t
          (exec_cons_iff.mpr ⟨u,hu,ht⟩)

theorem outputs_label {O : Type} {g : L → List O} {s t : S} {as : List L}
    (h : M.exec s as = some t) : M.outputs (fun _ a _ => g a) s as = as.flatMap g := by
  induction as generalizing s with
  | nil => rfl
  | cons a as ih =>
    obtain ⟨u,hu,ht⟩ := exec_cons_iff.mp h
    rw [outputs_cons hu, ih ht, List.flatMap_cons]

theorem meetsFrom_suffix {C : List L → S → L → Prop} {pre as bs : List L} {s t : S}
    (h : M.MeetsFrom C pre s (as ++ bs)) (ht : M.exec s as = some t) :
    M.MeetsFrom C (pre ++ as) t bs := by
  induction as generalizing pre s with
  | nil =>
    obtain rfl : s = t := by simpa using ht
    simpa using h
  | cons a as ih =>
    obtain ⟨u,hu,ht'⟩ := exec_cons_iff.mp ht
    simpa using ih (h.2 u hu) ht'

section Ranking

variable {C : List L → S → L → Prop} {I : S → Prop} {Q : S → L → S → Prop}

-- until a step of the kind `Q` every label that pays lowers the rank, so one cannot fail to come
theorem exec_meets (rank : S → Nat) (pays : L → Bool)
    (hstep : ∀ pre s a t, I s → C pre s a → M.step s a = some t →
      Q s a t ∨ (I t ∧ rank t + (if pays a then 1 else 0) ≤ rank s))
    {pre as : List L} {s t : S} (hs : I s) (hC : M.MeetsFrom C pre s as)
    (h : M.exec s as = some t) (hmany : rank s < as.countP pays) :
    ∃ mid a rest u v, as = mid ++ a :: rest ∧ M.exec s mid = some u ∧ I u ∧
      M.step u a = some v ∧ Q u a v ∧ mid.countP pays + rank u ≤ rank s := by
  induction as generalizing pre s with
  | nil => simp at hmany
  | cons a as ih =>
    obtain ⟨v,hv,ht⟩ := exec_cons_iff.mp h
    rcases hstep pre s a v hs hC.1 hv with hQ | ⟨hIv,hrank⟩
    · exact ⟨[],a,as,s,v,rfl,rfl,hs,hv,hQ,by simp⟩
    · have hleft : rank v < as.countP pays := by
        rw [List.countP_cons] at hmany
        omega
      obtain ⟨mid,b,rest,u,w,rfl,hu,hIu,hw,hQ,hcount⟩ := ih hIv (hC.2 v hv) ht hleft
      refine ⟨a :: mid,b,rest,u,w,rfl,exec_cons_iff.mpr ⟨v,hv,hu⟩,hIu,hw,hQ,?_⟩
      rw [List.countP_cons]
      omega

end Ranking

section LastWriter

variable {I : S → Prop} {V : Type} {f : S → V} {writes : L → Option V}

theorem exec_last_writer {P : L → Prop} (hinv : ∀ s a t, I s → M.step s a = some t → I t)
    (hstep : ∀ s a t, I s → P a → M.step s a = some t → f t = (writes a).getD (f s))
    {s t : S} {as : List L} (hs : I s) (hP : ∀ a ∈ as, P a) (h : M.exec s as = some t) :
    f t = (as.filterMap writes).getLast?.getD (f s) := by
  induction as generalizing s with
  | nil =>
    obtain rfl : s = t := by simpa using h
    rfl
  | cons a as ih =>
    obtain ⟨u,hu,ht⟩ := exec_cons_iff.mp h
    rw [List.forall_mem_cons] at hP
    rw [ih (hinv s a u hs hu) hP.2 ht, hstep s a u hs hP.1 hu]
    cases hw : writes a with
    | none => rw [List.filterMap_cons_none hw, Option.getD_none]
    | some v =>
      rw [List.filterMap_cons_some hw, List.getLast?_cons, Option.getD_some, Option.getD_some]

end LastWriter

section Spacing

variable {I : S → Prop} {f : S → L → S → List Nat} {clock debt : S → Nat} {gap : Nat}

-- `debt` is the time that must still pass before the next output
theorem outputs_spaced (hinv : ∀ s a t, I s → M.step s a = some t → I t)
    (hstep : ∀ s a t, I s → M.step s a = some t →
      (f s a t = [] ∧ clock s + debt s ≤ clock t + debt t) ∨
      (f s a t = [clock s] ∧ debt s = 0 ∧ clock s + gap ≤ clock t + debt t))
    {s t : S} {as : List L} (hs : I s) (h : M.exec s as = some t) :
    (∀ x ∈ (M.outputs f s as).head?, clock s + debt s ≤ x) ∧
    (M.outputs f s as).IsChain fun x y => x + gap ≤ y := by
  induction as generalizing s with
  | nil => simp
  | cons a as ih =>
    obtain ⟨u,hu,ht⟩ := exec_cons_iff.mp h
    obtain ⟨hhead,hchain⟩ := ih (hinv s a u hs hu) ht
    rw [outputs_cons hu]
    rcases hstep s a u hs hu with ⟨hnone,hlater⟩ | ⟨hone,hpaid,hgap⟩
    · rw [hnone, List.nil_append]
      exact ⟨fun x hx => Nat.le_trans hlater (hhead x hx),hchain⟩
    · rw [hone, List.singleton_append]
      refine ⟨?_,?_⟩
      · intro x hx
        obtain rfl : clock s = x := by simpa using hx
        omega
      · rw [List.isChain_cons]
        exact ⟨fun y hy => Nat.le_trans hgap (hhead y hy),hchain⟩

end Spacing

end Machine
end Transition
