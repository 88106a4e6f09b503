import UphyDemo.Foundation.WriteLog
import UphyDemo.Device.ParamWrite
import Mathlib.Data.List.Forall2

namespace UphyDemo.Device
open Bytes

variable {d : DeviceModel}

def lastData (queue : List WriteReq) (address : Nat × Nat) (k : Nat) : Option UInt8 :=
  (queue.filterMap fun req => if req.address = address then req.data[k]? else none).getLast?

def SameOrder (queue queue' : List WriteReq) : Prop :=
  ∀ address, queue.filter (·.address = address) = queue'.filter (·.address = address)

def Copied (d : DeviceModel) (req : WriteReq) (c : Copy) : Prop :=
  ∃ p r, d.param req.slotIx.toNat req.paramIx.toNat = some p ∧ d.storage p = some r ∧
    c = ⟨r,⟨r.start,req.data.length⟩⟩

def requestWrite (d : DeviceModel) (req : WriteReq) : Write :=
  match (d.param req.slotIx.toNat req.paramIx.toNat).bind d.storage with
  | some r => ⟨r.start,req.data⟩
  | none => ⟨0,[]⟩

theorem requestWrite_eq {req : WriteReq} {p : Param} {r : Region}
    (hp : d.param req.slotIx.toNat req.paramIx.toNat = some p) (hr : d.storage p = some r) :
    requestWrite d req = ⟨r.start,req.data⟩ := by
  simp [requestWrite, hp, hr]

theorem Fits.storage {req : WriteReq} (h : Fits d req) :
    ∃ p r, d.param req.slotIx.toNat req.paramIx.toNat = some p ∧ d.storage p = some r ∧
      req.data.length ≤ r.size := by
  obtain ⟨p,hp,hlen⟩ := h
  obtain ⟨info,_,hr⟩ := DeviceModel.storage_of_param hp
  exact ⟨p,_,hp,hr,hlen⟩

theorem Fits.written {req : WriteReq} {p : Param} {r : Region} (h : Fits d req)
    (hp : d.param req.slotIx.toNat req.paramIx.toNat = some p) (hr : d.storage p = some r)
    {a : Nat} (ha : a ∈ (requestWrite d req).region) : a ∈ r := by
  obtain ⟨p',r',hp',hr',hlen⟩ := h.storage
  obtain rfl := Option.some.inj (hp.symm.trans hp')
  obtain rfl := Option.some.inj (hr.symm.trans hr')
  rw [requestWrite_eq hp hr] at ha
  simp only [Write.region, mem_region] at ha ⊢
  omega

theorem writeParam_fits {req : WriteReq} (h : Fits d req) (m : Store) :
    ∃ c, Copied d req c ∧
      writeParam d m req = some (c,write m (requestWrite d req).start (requestWrite d req).bytes) := by
  obtain ⟨p,r,hp,hr,_⟩ := h.storage
  refine ⟨_,⟨p,r,hp,hr,rfl⟩,?_⟩
  rw [writeParam_eq_some_iff, requestWrite_eq hp hr]
  exact ⟨p,r,hp,hr,rfl,rfl⟩

theorem cbParamWriteInd_fits {queue : List WriteReq} (h : ∀ req ∈ queue, Fits d req) (m : Store) :
    ∃ cs, List.Forall₂ (Copied d) queue cs ∧
      cbParamWriteInd d queue m = some (cs,writeAll (queue.map (requestWrite d)) m) := by
  induction queue generalizing m with
  | nil => exact ⟨[],.nil,rfl⟩
  | cons req queue ih =>
    rw [List.forall_mem_cons] at h
    obtain ⟨c,hc,hwrite⟩ := writeParam_fits h.1 m
    obtain ⟨cs,hcs,hrest⟩ := ih h.2 (write m (requestWrite d req).start (requestWrite d req).bytes)
    refine ⟨c :: cs,.cons hc hcs,?_⟩
    simp [cbParamWriteInd, hwrite, hrest, writeAll]

theorem requestWrite_byteAt (hparams : d.ParamsApart) {req : WriteReq} {i j : Nat} {p : Param} {r : Region}
    (h : Fits d req) (hp : d.param i j = some p) (hr : d.storage p = some r) {k : Nat}
    (hk : k < r.size) :
    (requestWrite d req).byteAt (r.start + k) =
      if req.address = (i,j) then req.data[k]? else none := by
  by_cases haddr : req.address = (i,j)
  · obtain ⟨rfl,rfl⟩ := Prod.mk.inj haddr
    rw [if_pos haddr, requestWrite_eq hp hr]
    exact Write.byteAt_inside _ k
  · obtain ⟨p',r',hp',hr',_⟩ := h.storage
    rw [if_neg haddr]
    apply Write.byteAt_outside
    intro ha
    have hapart := hparams _ _ p' r' i j p r hp' hp hr' hr haddr
    apply hapart _ (h.written hp' hr' ha)
    rw [mem_region]
    omega

theorem lastByte_requests (hparams : d.ParamsApart) {queue : List WriteReq} {i j : Nat}
    {p : Param} {r : Region} (h : ∀ req ∈ queue, Fits d req) (hp : d.param i j = some p)
    (hr : d.storage p = some r) {k : Nat} (hk : k < r.size) :
    lastByte (queue.map (requestWrite d)) (r.start + k) = lastData queue (i,j) k :=
  lastByte_map fun req hreq => requestWrite_byteAt hparams (h req hreq) hp hr hk

theorem lastByte_elsewhere {queue : List WriteReq} (h : ∀ req ∈ queue, Fits d req) {a : Nat}
    (ha : ∀ i j p r, d.param i j = some p → d.storage p = some r → a ∉ r) :
    lastByte (queue.map (requestWrite d)) a = none := by
  apply lastByte_untouched
  intro w hw
  obtain ⟨req,hreq,rfl⟩ := List.mem_map.mp hw
  obtain ⟨p,r,hp,hr,_⟩ := (h req hreq).storage
  intro hin
  exact ha _ _ p r hp hr ((h req hreq).written hp hr hin)

theorem lastData_filter (queue : List WriteReq) (address : Nat × Nat) (k : Nat) :
    lastData queue address k =
      ((queue.filter (·.address = address)).filterMap fun req => req.data[k]?).getLast? := by
  rw [lastData, List.filterMap_filter]
  simp only [decide_eq_true_eq]

theorem SameOrder.fits {queue queue' : List WriteReq} (h : SameOrder queue queue')
    (hfit : ∀ req ∈ queue, Fits d req) : ∀ req ∈ queue', Fits d req := by
  intro req hreq
  have hmem : req ∈ queue'.filter (·.address = req.address) := by simp [hreq]
  rw [← h req.address] at hmem
  exact hfit req (List.mem_filter.mp hmem).1

theorem SameOrder.lastByte (hparams : d.ParamsApart) {queue queue' : List WriteReq}
    (h : SameOrder queue queue') (hfit : ∀ req ∈ queue, Fits d req) (a : Nat) :
    lastByte (queue'.map (requestWrite d)) a = lastByte (queue.map (requestWrite d)) a := by
  by_cases ha : ∃ i j p r, d.param i j = some p ∧ d.storage p = some r ∧ a ∈ r
  · obtain ⟨i,j,p,r,hp,hr,hin⟩ := ha
    rw [mem_region] at hin
    obtain ⟨k,rfl⟩ := Nat.exists_eq_add_of_le hin.1
    have hk : k < r.size := by omega
    rw [lastByte_requests hparams hfit hp hr hk, lastByte_requests hparams (h.fits hfit) hp hr hk,
      lastData_filter, lastData_filter, h (i,j)]
  · have hout (i j : Nat) (p : Param) (r : Region) (hp : d.param i j = some p)
        (hr : d.storage p = some r) : a ∉ r := fun hin => ha ⟨i,j,p,r,hp,hr,hin⟩
    rw [lastByte_elsewhere hfit hout, lastByte_elsewhere (h.fits hfit) hout]

theorem write_queue_last_writer (d : DeviceModel) (queue : List WriteReq) (m : Store)
    (hparams : d.ParamsApart) (hsignals : d.SignalsApart) (hfit : ∀ req ∈ queue, Fits d req) :
    ∃ cs m', cbParamWriteInd d queue m = some (cs,m') ∧ List.Forall₂ (Copied d) queue cs ∧
      (∀ i j p r, d.param i j = some p → d.storage p = some r → ∀ k, k < r.size →
        m' (r.start + k) = (lastData queue (i,j) k).getD (m (r.start + k))) ∧
      (∀ a, (∀ i j p r, d.param i j = some p → d.storage p = some r → a ∉ r) → m' a = m a) ∧
      (∀ r ∈ d.signalStorage, SameOn r m m') ∧
      (∀ queue', SameOrder queue queue' → ∃ cs', cbParamWriteInd d queue' m = some (cs',m')) := by
  obtain ⟨cs,hcs,hrun⟩ := cbParamWriteInd_fits hfit m
  refine ⟨cs,_,hrun,hcs,?_,?_,?_,?_⟩
  · intro i j p r hp hr k hk
    rw [writeAll_apply, lastByte_requests hparams hfit hp hr hk]
  · intro a ha
    rw [writeAll_apply, lastByte_elsewhere hfit ha, Option.getD_none]
  · intro r hr
    exact cbParamWriteInd_signals hsignals hfit hrun hr
  · intro queue' horder
    obtain ⟨cs',_,hrun'⟩ := cbParamWriteInd_fits (horder.fits hfit) m
    refine ⟨cs',?_⟩
    rw [hrun']
    have hsame : writeAll (queue'.map (requestWrite d)) m =
        writeAll (queue.map (requestWrite d)) m := by
      funext a
      rw [writeAll_apply, writeAll_apply, horder.lastByte hparams hfit]
    rw [hsame]

def shortened : List WriteReq := [⟨2,0,[1,2,3,4]⟩,⟨2,0,[5]⟩]

theorem write_queue_last_writer_shortened :
    ∃ cs m', cbParamWriteInd (Digio.model 0 1) shortened (fun _ => 0) = some (cs,m') ∧
      m' 8 = 5 ∧ m' 9 = 2 := by
  have hfit : ∀ req ∈ shortened, Fits (Digio.model 0 1) req := by decide
  obtain ⟨cs,m',hrun,_,hlast,_⟩ := write_queue_last_writer _ shortened (fun _ => 0)
    (Digio.params_apart 0 1) (Digio.signals_apart 0 1 (by decide)) hfit
  exact ⟨cs,m',hrun,hlast 2 0 ⟨4,32⟩ ⟨8,4⟩ rfl rfl 0 (by decide),
    hlast 2 0 ⟨4,32⟩ ⟨8,4⟩ rfl rfl 1 (by decide)⟩

end UphyDemo.Device
