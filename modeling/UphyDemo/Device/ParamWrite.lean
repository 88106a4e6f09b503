import UphyDemo.Device.Digio

namespace UphyDemo.Device
open Bytes

structure WriteReq where
  slotIx : UInt16
  paramIx : UInt16
  data : List UInt8
deriving DecidableEq

namespace WriteReq

def address (req : WriteReq) : Nat × Nat := (req.slotIx.toNat,req.paramIx.toNat)

end WriteReq

structure Copy where
  storage : Region
  written : Region
deriving DecidableEq, Repr

def Copy.Inside (c : Copy) : Prop := ∀ a ∈ c.written, a ∈ c.storage

variable (d : DeviceModel)

-- `none` is a table access past `n_slots`, `n_params` or `up_vars`
def writeParam (m : Store) (req : WriteReq) : Option (Copy × Store) :=
  match d.slots[req.slotIx.toNat]? with
  | none => none
  | some slot =>
    match slot.params[req.paramIx.toNat]? with
    | none => none
    | some p =>
      match d.upVars[p.ix]? with
      | none => none
      | some info =>
        some (⟨⟨info.value,bytesOf p.bitlength⟩,⟨info.value,req.data.length⟩⟩,
          write m info.value req.data)

def cbParamWriteInd : List WriteReq → Store → Option (List Copy × Store)
  | [], m => some ([],m)
  | req :: queue, m =>
      (writeParam d m req).bind fun (c,m') =>
        (cbParamWriteInd queue m').map fun (cs,m'') => (c :: cs,m'')

def Fits (req : WriteReq) : Prop :=
  ∃ p, d.param req.slotIx.toNat req.paramIx.toNat = some p ∧
    req.data.length ≤ bytesOf p.bitlength

instance (req : WriteReq) : Decidable (Fits d req) :=
  match h : d.param req.slotIx.toNat req.paramIx.toNat with
  | none => isFalse (by simp [Fits, h])
  | some p => decidable_of_iff (req.data.length ≤ bytesOf p.bitlength) (by simp [Fits, h])

def addressedStorage (queue : List WriteReq) : List Region :=
  queue.filterMap fun req => (d.param req.slotIx.toNat req.paramIx.toNat).bind d.storage

variable {d}

theorem writeParam_eq_some_iff {m m' : Store} {req : WriteReq} {c : Copy} :
    writeParam d m req = some (c,m') ↔
      ∃ p r, d.param req.slotIx.toNat req.paramIx.toNat = some p ∧ d.storage p = some r ∧
        c = ⟨r,⟨r.start,req.data.length⟩⟩ ∧ m' = write m r.start req.data := by
  simp only [writeParam, DeviceModel.param, paramAt, DeviceModel.storage, paramRegion]
  cases hslot : d.slots[req.slotIx.toNat]? with
  | none => simp
  | some slot =>
    cases hp : slot.params[req.paramIx.toNat]? with
    | none => simp [hp]
    | some p =>
      cases hinfo : d.upVars[p.ix]? with
      | none => simp [hp, hinfo]
      | some info => simp [hp, hinfo, eq_comm]

theorem copy_inside_iff {r : Region} {n : Nat} :
    Copy.Inside ⟨r,⟨r.start,n⟩⟩ ↔ n ≤ r.size := by
  constructor
  · intro h
    by_contra hn
    have hlast : r.start + r.size ∈ r := h _ (by rw [mem_region]; dsimp only; omega)
    rw [mem_region] at hlast
    omega
  · intro hn a ha
    rw [mem_region] at ha ⊢
    dsimp only at ha ⊢
    omega

theorem writeParam_inside_iff (m : Store) (req : WriteReq) :
    (∃ c m', writeParam d m req = some (c,m') ∧ c.Inside) ↔ Fits d req := by
  simp only [writeParam_eq_some_iff, Fits]
  constructor
  · rintro ⟨c,m',⟨p,r,hp,hr,rfl,rfl⟩,hin⟩
    obtain ⟨info,_,hs⟩ := DeviceModel.storage_of_param hp
    obtain rfl := Option.some.inj (hr.symm.trans hs)
    exact ⟨p,hp,copy_inside_iff.mp hin⟩
  · rintro ⟨p,hp,hlen⟩
    obtain ⟨info,_,hs⟩ := DeviceModel.storage_of_param hp
    exact ⟨_,_,⟨p,_,hp,hs,rfl,rfl⟩,copy_inside_iff.mpr hlen⟩

theorem cbParamWriteInd_inside_iff (queue : List WriteReq) (m : Store) :
    (∃ cs m', cbParamWriteInd d queue m = some (cs,m') ∧ ∀ c ∈ cs, c.Inside) ↔
      ∀ req ∈ queue, Fits d req := by
  induction queue generalizing m with
  | nil => simp [cbParamWriteInd]
  | cons req queue ih =>
    rw [List.forall_mem_cons, ← writeParam_inside_iff m req]
    constructor
    · rintro ⟨cs,m'',hrun,hin⟩
      simp only [cbParamWriteInd, Option.bind_eq_some_iff, Option.map_eq_some_iff] at hrun
      obtain ⟨⟨c,m'⟩,hw,⟨cs',m2⟩,hrest,heq⟩ := hrun
      simp only [Prod.mk.injEq] at heq
      obtain ⟨rfl,rfl⟩ := heq
      rw [List.forall_mem_cons] at hin
      exact ⟨⟨c,m',hw,hin.1⟩,(ih m').mp ⟨cs',m2,hrest,hin.2⟩⟩
    · rintro ⟨⟨c,m',hw,hc⟩,hall⟩
      obtain ⟨cs,m'',hrest,hin⟩ := (ih m').mpr hall
      refine ⟨c :: cs,m'',?_,List.forall_mem_cons.mpr ⟨hc,hin⟩⟩
      simp [cbParamWriteInd, hw, hrest]

theorem writeParam_sameOn {m m' : Store} {req : WriteReq} {c : Copy} {r : Region}
    (hfit : Fits d req) (hw : writeParam d m req = some (c,m'))
    (hapart : ∀ p s, d.param req.slotIx.toNat req.paramIx.toNat = some p →
      d.storage p = some s → s.Disjoint r) : SameOn r m m' := by
  obtain ⟨p,s,hp,hs,_,rfl⟩ := writeParam_eq_some_iff.mp hw
  obtain ⟨p',hp',hlen⟩ := hfit
  obtain rfl := Option.some.inj (hp.symm.trans hp')
  obtain ⟨info,_,hs'⟩ := DeviceModel.storage_of_param hp
  obtain rfl := Option.some.inj (hs.symm.trans hs')
  exact sameOn_write ((hapart p _ hp hs).shorten hlen)

theorem cbParamWriteInd_sameOn {queue : List WriteReq} {m m' : Store} {cs : List Copy}
    {r : Region} (hfit : ∀ req ∈ queue, Fits d req)
    (hrun : cbParamWriteInd d queue m = some (cs,m'))
    (hapart : ∀ req ∈ queue, ∀ p s, d.param req.slotIx.toNat req.paramIx.toNat = some p →
      d.storage p = some s → s.Disjoint r) : SameOn r m m' := by
  induction queue generalizing m cs with
  | nil =>
    obtain ⟨_,rfl⟩ := by simpa [cbParamWriteInd] using hrun
    exact .refl r m
  | cons req queue ih =>
    rw [List.forall_mem_cons] at hfit hapart
    simp only [cbParamWriteInd, Option.bind_eq_some_iff, Option.map_eq_some_iff] at hrun
    obtain ⟨⟨c,m1⟩,hw,⟨cs',m2⟩,hrest,heq⟩ := hrun
    simp only [Prod.mk.injEq] at heq
    obtain ⟨rfl,rfl⟩ := heq
    exact (writeParam_sameOn hfit.1 hw hapart.1).trans (ih hfit.2 hrest hapart.2)

theorem mem_addressedStorage {queue : List WriteReq} {req : WriteReq} {p : Param} {r : Region}
    (hreq : req ∈ queue) (hp : d.param req.slotIx.toNat req.paramIx.toNat = some p)
    (hr : d.storage p = some r) : r ∈ addressedStorage d queue :=
  List.mem_filterMap.mpr ⟨req,hreq,by rw [hp]; exact hr⟩

theorem cbParamWriteInd_elsewhere {queue : List WriteReq} {m m' : Store} {cs : List Copy} {a : Nat}
    (hfit : ∀ req ∈ queue, Fits d req) (hrun : cbParamWriteInd d queue m = some (cs,m'))
    (ha : ∀ r ∈ addressedStorage d queue, a ∉ r) : m' a = m a := by
  have hsame : SameOn ⟨a,1⟩ m m' := by
    apply cbParamWriteInd_sameOn hfit hrun
    intro req hreq p s hp hs b hb hba
    rw [mem_region] at hba
    dsimp only at hba
    obtain rfl : b = a := by omega
    exact ha s (mem_addressedStorage hreq hp hs) hb
  exact hsame a (by rw [mem_region]; dsimp only; omega)

theorem cbParamWriteInd_signals (hsignals : d.SignalsApart) {queue : List WriteReq} {m m' : Store}
    {cs : List Copy} {r : Region} (hfit : ∀ req ∈ queue, Fits d req)
    (hrun : cbParamWriteInd d queue m = some (cs,m')) (hr : r ∈ d.signalStorage) :
    SameOn r m m' := by
  apply cbParamWriteInd_sameOn hfit hrun
  intro req _ p s hp hs
  exact hsignals _ _ p s hp hs r hr

theorem param_writes_stay_inside_iff (d : DeviceModel) (queue : List WriteReq) (m : Store) :
    ((∃ cs m', cbParamWriteInd d queue m = some (cs,m') ∧ ∀ c ∈ cs, c.Inside) ↔
      ∀ req ∈ queue, Fits d req) ∧
    ((∀ req ∈ queue, Fits d req) → ∀ cs m', cbParamWriteInd d queue m = some (cs,m') →
      (∀ a, (∀ r ∈ addressedStorage d queue, a ∉ r) → m' a = m a) ∧
      (d.SignalsApart → ∀ r ∈ d.signalStorage, SameOn r m m') ∧
      (d.ParamsApart → ∀ i j p r, d.param i j = some p → d.storage p = some r →
        (∀ req ∈ queue, req.address ≠ (i,j)) → SameOn r m m')) := by
  refine ⟨cbParamWriteInd_inside_iff queue m,?_⟩
  intro hfit cs m' hrun
  refine ⟨?_,?_,?_⟩
  · intro a ha
    exact cbParamWriteInd_elsewhere hfit hrun ha
  · intro hsignals r hr
    exact cbParamWriteInd_signals hsignals hfit hrun hr
  · intro hparams i j p r hp hr hother
    apply cbParamWriteInd_sameOn hfit hrun
    intro req hreq p' s hp' hs
    exact hparams _ _ p' s i j p r hp' hp hs hr (hother req hreq)

def unaddressed : WriteReq := ⟨0,0,[]⟩
def overlong : WriteReq := ⟨2,0,[1,2,3,4,5,6,7,8]⟩

theorem param_writes_escape :
    cbParamWriteInd (Digio.model 0 1) [unaddressed] (fun _ => 0) = none ∧
    ¬ ∀ (d : DeviceModel) (queue : List WriteReq) (m : Store),
      ∃ cs m', cbParamWriteInd d queue m = some (cs,m') ∧ ∀ c ∈ cs, c.Inside := by
  refine ⟨rfl,?_⟩
  intro h
  obtain ⟨cs,m',hrun,hin⟩ := h (Digio.model 0 1) [overlong] (fun _ => 0)
  obtain ⟨rfl,_⟩ := Prod.mk.inj (Option.some.inj hrun)
  have hpast := hin _ (List.mem_singleton_self _) 12 (by decide)
  exact absurd hpast (by decide)

end UphyDemo.Device
