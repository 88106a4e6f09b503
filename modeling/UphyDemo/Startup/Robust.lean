import UphyDemo.Startup.Autostart

namespace UphyDemo.Startup
open CString

inductive StrCall where
  | strcmp (lit : List UInt8)
  | printf
deriving DecidableEq, Repr

def StrCall.reads (s : Memory) : StrCall → Nat → Prop
  | .strcmp lit, i => strcmpReads s lit i
  | .printf, i => printfReads s i

def Supported.names (f : Supported) : List (List UInt8) :=
  (if f.profinet then [ascii "profinet"] else []) ++
  (if f.ethercat then [ascii "ethercat"] else []) ++
  (if f.ethernetip then [ascii "ethernetip"] else []) ++
  (if f.modbus then [ascii "modbus"] else []) ++
  (if f.cclink then [ascii "cclink"] else []) ++ [ascii "mock"]

def compared (str : Memory) : List (List UInt8) → List StrCall
  | [] => [.printf]
  | name :: names =>
      .strcmp name :: if CString.strcmp str name = 0 then [] else compared str names

def strToBusConfigCalls (f : Supported) (str : Memory) : List StrCall := compared str f.names

def bytesRead (fs : RteFs) (autostart : File) : List UInt8 :=
  match autostart, fs.fopen with
  | some content, true =>
      let available := content.take bufSize
      available.take (fs.fread available.length)
  | _, _ => []

def Opened (fs : RteFs) (autostart : File) : Prop := autostart ≠ none ∧ fs.fopen = true

def autoStartCalls (f : Supported) (fs : RteFs) (autostart : File) (buf : Memory) : List StrCall :=
  match autostart, fs.fopen with
  | some _, true =>
      let buf := (autoStart f fs autostart buf).buf
      strToBusConfigCalls f buf ++
        if (strToBusConfig f (some buf)).isOk then [.printf] else []
  | _, _ => []

structure Robust (f : Supported) (fs : RteFs) (autostart : File) : Prop where
  same : ∀ buf buf', (autoStart f fs autostart buf).ret = (autoStart f fs autostart buf').ret ∧
    (autoStart f fs autostart buf).bustype = (autoStart f fs autostart buf').bustype
  accepts : ∀ buf, (autoStart f fs autostart buf).ret = 0 ↔
    ∃ (x : Str) (b : Bustype), x.bytes ++ [0] <+: bytesRead fs autostart ∧
      strToBusConfig f (some x.memory) = .ok b
  reads : ∀ buf, ∀ call ∈ autoStartCalls f fs autostart buf, ∀ i,
    call.reads (autoStart f fs autostart buf).buf i →
      i < (bytesRead fs autostart).length ∧ i < bufSize

variable {f : Supported} {fs : RteFs} {autostart : File}

theorem mem_names {name : List UInt8} :
    name ∈ f.names ↔ ∃ b : Bustype, b.supportedBy f = true ∧ name = b.name := by
  constructor
  · intro h
    simp only [Supported.names, List.mem_append, List.mem_ite_nil_right, List.mem_singleton] at h
    rcases h with ((((⟨h,rfl⟩ | ⟨h,rfl⟩) | ⟨h,rfl⟩) | ⟨h,rfl⟩) | ⟨h,rfl⟩) | rfl
    · exact ⟨.profinet,h,rfl⟩
    · exact ⟨.ecat,h,rfl⟩
    · exact ⟨.ethernetip,h,rfl⟩
    · exact ⟨.modbus,h,rfl⟩
    · exact ⟨.cclink,h,rfl⟩
    · exact ⟨.mock,rfl,rfl⟩
  · rintro ⟨b,h,rfl⟩
    cases b <;> simp_all [Supported.names, Bustype.supportedBy, Bustype.name]

theorem printf_mem_compared {str : Memory} {names : List (List UInt8)} :
    .printf ∈ compared str names ↔ ∀ name ∈ names, CString.strcmp str name ≠ 0 := by
  induction names with
  | nil => simp [compared]
  | cons name names ih =>
    by_cases hname : CString.strcmp str name = 0
    · simp [compared, hname]
    · simp [compared, hname, ih]

theorem strcmp_mem_compared {str : Memory} {names : List (List UInt8)} {lit : List UInt8}
    (h : .strcmp lit ∈ compared str names) : lit ∈ names := by
  induction names with
  | nil => simp [compared] at h
  | cons name names ih =>
    rcases List.mem_cons.mp h with heq | hrest
    · obtain rfl := StrCall.strcmp.inj heq
      exact List.mem_cons_self
    · split at hrest
      · simp at hrest
      · exact List.mem_cons_of_mem _ (ih hrest)

theorem printf_mem_strToBusConfigCalls {str : Memory} :
    .printf ∈ strToBusConfigCalls f str ↔ ∀ b, strToBusConfig f (some str) ≠ .ok b := by
  rw [strToBusConfigCalls, printf_mem_compared]
  constructor
  · intro h b hb
    obtain ⟨hsupp,hname⟩ := strToBusConfig_ok_iff.mp hb
    exact h b.name (mem_names.mpr ⟨b,hsupp,rfl⟩) hname
  · intro h name hmem hname
    obtain ⟨b,hsupp,rfl⟩ := mem_names.mp hmem
    exact h b (strToBusConfig_ok_iff.mpr ⟨hsupp,hname⟩)

theorem calls_unterminated {str : Memory} {call : StrCall}
    (hcall : call ∈ strToBusConfigCalls f str) {i : Nat} (hi : call.reads str i) :
    printfReads str i := by
  cases call with
  | strcmp lit =>
    obtain ⟨b,_,rfl⟩ := mem_names.mp (strcmp_mem_compared hcall)
    exact strcmpReads_unterminated b.name_unterminated hi
  | printf => exact hi

theorem mem_compared {str : Memory} {names : List (List UInt8)} {name : List UInt8}
    (hmem : name ∈ names) (honly : ∀ n ∈ names, CString.strcmp str n = 0 → n = name) :
    .strcmp name ∈ compared str names := by
  induction names with
  | nil => simp at hmem
  | cons n names ih =>
    rw [List.forall_mem_cons] at honly
    rcases List.mem_cons.mp hmem with rfl | hrest
    · exact List.mem_cons_self
    · by_cases hn : CString.strcmp str n = 0
      · rw [honly.1 hn]
        exact List.mem_cons_self
      · rw [compared, if_neg hn]
        exact List.mem_cons_of_mem _ (ih hrest honly.2)

theorem strToBusConfig_agree {s t : Memory}
    (h : ∀ call ∈ strToBusConfigCalls f s, ∀ i, call.reads s i → s i = t i) {b : Bustype} :
    strToBusConfig f (some s) = .ok b ↔ strToBusConfig f (some t) = .ok b := by
  have hsame (b : Bustype) (hsupp : b.supportedBy f = true)
      (honly : ∀ n ∈ f.names, CString.strcmp s n = 0 → n = b.name) :
      CString.strcmp s b.name = CString.strcmp t b.name :=
    strcmp_agree (h _ (mem_compared (mem_names.mpr ⟨b,hsupp,rfl⟩) honly))
  have hforth (b : Bustype) (hb : strToBusConfig f (some s) = .ok b) :
      strToBusConfig f (some t) = .ok b := by
    obtain ⟨hsupp,hname⟩ := strToBusConfig_ok_iff.mp hb
    rw [strToBusConfig_ok_iff, ← hsame b hsupp]
    · exact ⟨hsupp,hname⟩
    · intro n hn hmatch
      obtain ⟨b',_,rfl⟩ := mem_names.mp hn
      exact strcmp_unique b'.name_unterminated b.name_unterminated hmatch hname
  refine ⟨hforth b,?_⟩
  intro hb
  by_cases hany : ∃ b', strToBusConfig f (some s) = .ok b'
  · obtain ⟨b',hb'⟩ := hany
    obtain rfl := Except.ok.inj ((hforth b' hb').symm.trans hb)
    exact hb'
  · obtain ⟨hsupp,hname⟩ := strToBusConfig_ok_iff.mp hb
    rw [strToBusConfig_ok_iff, hsame b hsupp]
    · exact ⟨hsupp,hname⟩
    · intro n hn hmatch
      obtain ⟨b',hsupp',rfl⟩ := mem_names.mp hn
      exact absurd ⟨b',strToBusConfig_ok_iff.mpr ⟨hsupp',hmatch⟩⟩ hany

theorem bytesRead_length (fs : RteFs) (autostart : File) :
    (bytesRead fs autostart).length ≤ bufSize := by
  unfold bytesRead
  split
  · simp only [List.length_take]
    omega
  · exact Nat.zero_le _

section Opened

variable (buf : Memory)

theorem autoStart_buf (h : Opened fs autostart) :
    (autoStart f fs autostart buf).buf = Bytes.write buf 0 (bytesRead fs autostart) := by
  obtain ⟨content,rfl⟩ := Option.ne_none_iff_exists'.mp h.1
  simp only [autoStart, bytesRead, h.2]
  split <;> rfl

theorem autoStart_bustype (h : Opened fs autostart) :
    (autoStart f fs autostart buf).bustype =
      (strToBusConfig f (some (Bytes.write buf 0 (bytesRead fs autostart)))).toOption := by
  obtain ⟨content,rfl⟩ := Option.ne_none_iff_exists'.mp h.1
  simp only [autoStart, bytesRead, h.2]
  split
  · rename_i hok
    rw [hok]
    rfl
  · rename_i herror
    rw [herror]
    rfl

theorem autoStart_ret (f : Supported) (fs : RteFs) (autostart : File) :
    (autoStart f fs autostart buf).ret =
      if (autoStart f fs autostart buf).bustype = none then -1 else 0 := by
  fun_cases autoStart f fs autostart buf <;> rfl

theorem autoStart_unopened (h : ¬ Opened fs autostart) :
    (autoStart f fs autostart buf).bustype = none ∧ bytesRead fs autostart = [] ∧
      autoStartCalls f fs autostart buf = [] := by
  have hcases : autostart = none ∨ fs.fopen = false := by
    simpa [Opened, Decidable.or_iff_not_imp_left] using h
  rcases hcases with rfl | hfopen
  · exact ⟨rfl,rfl,rfl⟩
  · cases autostart with
    | none => exact ⟨rfl,rfl,rfl⟩
    | some content => simp [autoStart, bytesRead, autoStartCalls, hfopen]

theorem autoStart_calls (h : Opened fs autostart) :
    autoStartCalls f fs autostart buf =
      strToBusConfigCalls f (Bytes.write buf 0 (bytesRead fs autostart)) ++
        if (strToBusConfig f (some (Bytes.write buf 0 (bytesRead fs autostart)))).isOk
        then [.printf] else [] := by
  obtain ⟨content,rfl⟩ := Option.ne_none_iff_exists'.mp h.1
  have hbuf := autoStart_buf (f := f) buf h
  simp only [autoStartCalls, h.2, hbuf]

theorem printf_mem_autoStartCalls (h : Opened fs autostart) :
    .printf ∈ autoStartCalls f fs autostart buf := by
  rw [autoStart_calls buf h, List.mem_append]
  cases hread : strToBusConfig f (some (Bytes.write buf 0 (bytesRead fs autostart))) with
  | ok b => exact .inr (by simp [Except.isOk, Except.toBool])
  | error e => exact .inl (printf_mem_strToBusConfigCalls.mpr fun b hb => by simp [hread] at hb)

theorem reads_of_mem (h : Opened fs autostart) {call : StrCall}
    (hcall : call ∈ autoStartCalls f fs autostart buf) {i : Nat}
    (hi : call.reads (Bytes.write buf 0 (bytesRead fs autostart)) i) :
    printfReads (Bytes.write buf 0 (bytesRead fs autostart)) i := by
  rw [autoStart_calls buf h] at hcall
  rcases List.mem_append.mp hcall with hcompare | hprint
  · exact calls_unterminated hcompare hi
  · split at hprint
    · obtain rfl := List.mem_singleton.mp hprint
      exact hi
    · simp at hprint

end Opened

theorem toOption_eq_some_iff {ε α : Type} {e : Except ε α} {a : α} :
    e.toOption = some a ↔ e = .ok a := by
  cases e <;> simp [Except.toOption]

theorem bustype_terminated {x : Str} (h : Opened fs autostart)
    (hx : x.bytes ++ [0] <+: bytesRead fs autostart) (buf : Memory) {b : Bustype} :
    (autoStart f fs autostart buf).bustype = some b ↔
      strToBusConfig f (some x.memory) = .ok b := by
  rw [autoStart_bustype buf h, toOption_eq_some_iff, strToBusConfig_terminated hx]

theorem robust_unopened (h : ¬ Opened fs autostart) : Robust f fs autostart := by
  refine ⟨?_,?_,?_⟩
  · intro buf buf'
    simp only [autoStart_ret, (autoStart_unopened _ h).1, and_self]
  · intro buf
    simp [autoStart_ret, (autoStart_unopened buf h).1, (autoStart_unopened (f := f) buf h).2.1]
  · intro buf call hcall
    rw [(autoStart_unopened buf h).2.2] at hcall
    exact absurd hcall List.not_mem_nil

theorem reads_terminated {x : Str} (h : Opened fs autostart)
    (hx : x.bytes ++ [0] <+: bytesRead fs autostart) (buf : Memory) {call : StrCall}
    (hcall : call ∈ autoStartCalls f fs autostart buf) {i : Nat}
    (hi : call.reads (Bytes.write buf 0 (bytesRead fs autostart)) i) :
    i < (bytesRead fs autostart).length := by
  have hend : Bytes.write buf 0 (bytesRead fs autostart) x.bytes.length = 0 := by
    rw [write_terminated hx buf (Nat.le_refl _)]
    exact getD_length x.bytes
  have hle := printfReads_le hend (reads_of_mem buf h hcall hi)
  have hlen := hx.length_le
  simp only [List.length_append, List.length_singleton] at hlen
  omega

theorem bustype_same {x : Str} (h : Opened fs autostart)
    (hx : x.bytes ++ [0] <+: bytesRead fs autostart) (buf buf' : Memory) :
    (autoStart f fs autostart buf).bustype = (autoStart f fs autostart buf').bustype := by
  rw [autoStart_bustype buf h, autoStart_bustype buf' h]
  apply Option.ext
  intro b
  rw [toOption_eq_some_iff, toOption_eq_some_iff]
  apply strToBusConfig_agree
  intro call hcall i hi
  have hmem : call ∈ autoStartCalls f fs autostart buf := by
    rw [autoStart_calls buf h]
    exact List.mem_append_left _ hcall
  have hlt := reads_terminated h hx buf hmem hi
  have hread := Bytes.write_inside buf 0 hlt
  have hread' := Bytes.write_inside buf' 0 hlt
  rw [Nat.zero_add] at hread hread'
  exact hread.trans hread'.symm

theorem robust_terminated (h : Opened fs autostart) (hnul : 0 ∈ bytesRead fs autostart) :
    Robust f fs autostart := by
  obtain ⟨x,hx⟩ := exists_terminated hnul
  refine ⟨?_,?_,?_⟩
  · intro buf buf'
    refine ⟨?_,bustype_same h hx buf buf'⟩
    rw [autoStart_ret, autoStart_ret, bustype_same h hx buf buf']
  · intro buf
    have hret : (autoStart f fs autostart buf).ret = 0 ↔
        ∃ b, (autoStart f fs autostart buf).bustype = some b := by
      rw [autoStart_ret]
      cases (autoStart f fs autostart buf).bustype <;> simp
    rw [hret]
    constructor
    · rintro ⟨b,hb⟩
      exact ⟨x,b,hx,(bustype_terminated h hx buf).mp hb⟩
    · rintro ⟨y,b,hy,hb⟩
      exact ⟨b,(bustype_terminated h hy buf).mpr hb⟩
  · intro buf call hcall i hi
    rw [autoStart_buf buf h] at hi
    have hlt := reads_terminated h hx buf hcall hi
    exact ⟨hlt,Nat.lt_of_lt_of_le hlt (bytesRead_length fs autostart)⟩

theorem reads_past {bs : List UInt8} (hnul : 0 ∉ bs) (buf : Memory) :
    printfReads (Bytes.write buf 0 bs) bs.length := by
  intro j hj hzero
  have hread := Bytes.write_inside buf 0 hj
  rw [Nat.zero_add, hzero] at hread
  exact hnul (hread ▸ List.getElem_mem hj)

-- the message printed on both paths runs past the bytes read when none of them is a NUL
theorem auto_start_robust_iff (f : Supported) (fs : RteFs) (autostart : File) :
    Robust f fs autostart ↔ (Opened fs autostart → 0 ∈ bytesRead fs autostart) := by
  constructor
  · intro hrobust h
    by_contra hnul
    have hpast : StrCall.printf.reads (autoStart f fs autostart fun _ => 0).buf
        (bytesRead fs autostart).length := by
      rw [autoStart_buf _ h]
      exact reads_past hnul _
    have hread := hrobust.reads _ .printf (printf_mem_autoStartCalls _ h) _ hpast
    exact absurd hread.1 (Nat.lt_irrefl _)
  · intro hnul
    by_cases h : Opened fs autostart
    · exact robust_terminated h (hnul h)
    · exact robust_unopened h

def leftover : Memory := Bustype.profinet.argument.memory

theorem auto_start_reads_garbage :
    ¬ ∀ (f : Supported) (fs : RteFs) (autostart : File), Robust f fs autostart := by
  intro h
  have hsame := ((h generatedSupport .reliable (some [])).same leftover fun _ => 0).2
  exact absurd hsame (by decide)

end UphyDemo.Startup
