import UphyDemo.Startup.Robust

namespace UphyDemo.Startup
open CString

def StartsWith (f : Supported) (autostart : File) (b : Bustype) : Prop :=
  ∀ buf, (autoStart f .reliable autostart buf).ret = 0 ∧
    (autoStart f .reliable autostart buf).bustype = some b

def StartsNone (f : Supported) (autostart : File) : Prop :=
  ∀ buf, (autoStart f .reliable autostart buf).bustype = none

structure Truthful (f : Supported) (fs : RteFs) (argv : List Str) (autostart : File) : Prop where
  handles : ∀ call ∈ (cmdAutostart f fs argv autostart).fsCalls,
    call ≠ .fwrite false ∧ call ≠ .fclose false
  added : .autostartAdded ∈ (cmdAutostart f fs argv autostart).printed →
    (cmdAutostart f fs argv autostart).ret = 0 →
    ∃ cmd x b, argv = [cmd,x] ∧ strToBusConfig f (some x.memory) = .ok b ∧
      StartsWith f (cmdAutostart f fs argv autostart).autostart b
  disabled : .autostartDisabled ∈ (cmdAutostart f fs argv autostart).printed →
    StartsNone f (cmdAutostart f fs argv autostart).autostart

def Stores (fs : RteFs) (x : Str) : Prop :=
  match fs.fclose with
  | none => x.bytes.length + 1 ≤ fs.fwrite (x.bytes.length + 1)
  | some left => ∃ content, left = some content ∧ x.bytes ++ [0] <+: content

def NamesNone (f : Supported) (content : List UInt8) : Prop :=
  ∀ b : Bustype, b.supportedBy f = true →
    ¬ (content <+: b.name ++ [0] ∨ b.name ++ [0] <+: content)

def Reportable (f : Supported) (fs : RteFs) (argv : List Str) (autostart : File) : Prop :=
  match argv with
  | [_,x] =>
      if (strToBusConfig f (some x.memory)).isOk then fs.fopen = true ∧ Stores fs x
      else fs.remove = true ∨ ∀ content, autostart = some content → NamesNone f content
  | _ => True

theorem agree_of_prefix {xs ys : List UInt8} (h : xs <+: ys ∨ ys <+: xs) {i : Nat}
    (hx : i < xs.length) (hy : i < ys.length) : xs[i] = ys[i] := by
  rcases h with h | h
  · exact h.getElem hx
  · exact (h.getElem hy).symm

theorem terminated_getElem {lit : List UInt8} {i : Nat} (hi : i < (lit ++ [0]).length) :
    (lit ++ [0])[i] = lit.getD i 0 := by
  rw [List.length_append, List.length_singleton] at hi
  rcases Nat.lt_or_ge i lit.length with hlt | hge
  · simp [List.getElem_append_left, hlt]
  · obtain rfl : i = lit.length := by omega
    simp

theorem strcmp_written {lit bs : List UInt8} {buf : Memory} :
    strcmp (Bytes.write buf 0 bs) lit = 0 ↔
      (bs <+: lit ++ [0] ∨ lit ++ [0] <+: bs) ∧
        ∀ i, bs.length ≤ i → i ≤ lit.length → buf i = lit.getD i 0 := by
  have hinside {i : Nat} (hi : i < bs.length) : Bytes.write buf 0 bs i = bs[i] := by
    simpa using Bytes.write_inside buf 0 hi
  have houtside {i : Nat} (hi : bs.length ≤ i) : Bytes.write buf 0 bs i = buf i := by
    apply Bytes.write_outside
    simpa [Bytes.mem_region] using hi
  rw [strcmp_eq_zero_iff]
  constructor
  · intro h
    have hagree (i : Nat) (hi : i < bs.length) (hl : i < (lit ++ [(0 : UInt8)]).length) :
        bs[i] = (lit ++ [0])[i] := by
      rw [terminated_getElem hl, ← hinside hi]
      exact h i (by simpa [Nat.lt_succ_iff] using hl)
    refine ⟨?_,?_⟩
    · rcases Nat.le_total bs.length (lit ++ [0]).length with hle | hle
      · refine .inl (List.prefix_iff_getElem.mpr ⟨hle,?_⟩)
        intro i hi
        exact hagree i hi (Nat.lt_of_lt_of_le hi hle)
      · refine .inr (List.prefix_iff_getElem.mpr ⟨hle,?_⟩)
        intro i hl
        exact (hagree i (Nat.lt_of_lt_of_le hl hle) hl).symm
    · intro i hi hl
      rw [← houtside hi]
      exact h i hl
  · rintro ⟨hstart,hrest⟩ i hl
    rcases Nat.lt_or_ge i bs.length with hlt | hge
    · have hend : i < (lit ++ [0]).length := by simpa [Nat.lt_succ_iff] using hl
      rw [hinside hlt, agree_of_prefix hstart hlt hend, terminated_getElem hend]
    · rw [houtside hge]
      exact hrest i hge hl

variable {f : Supported} {fs : RteFs} {autostart : File}

theorem bytesRead_reliable (content : List UInt8) :
    bytesRead .reliable (some content) = content.take bufSize := by
  exact List.take_of_length_le (Nat.le_refl _)

theorem opened_reliable (content : List UInt8) : Opened .reliable (some content) :=
  ⟨by simp,rfl⟩

theorem name_prefix_take {b : Bustype} {content : List UInt8} :
    b.name ++ [0] <+: content.take bufSize ↔ b.name ++ [0] <+: content := by
  have hlen := b.name_length
  rw [List.prefix_take_iff]
  simp only [List.length_append, List.length_singleton, bufSize, and_iff_left_iff_imp]
  intro _
  omega

theorem take_prefix_name {b : Bustype} {content : List UInt8} :
    content.take bufSize <+: b.name ++ [0] ↔ content <+: b.name ++ [0] := by
  have hname := b.name_length
  constructor
  · intro h
    have hlen := h.length_le
    simp only [List.length_take, List.length_append, List.length_singleton, bufSize] at hlen
    rwa [List.take_of_length_le (by simp only [bufSize]; omega)] at h
  · exact fun h => (List.take_prefix _ _).trans h

theorem bustype_reliable {content : List UInt8} {buf : Memory} {b : Bustype} :
    (autoStart f .reliable (some content) buf).bustype = some b ↔ b.supportedBy f = true ∧
      (content <+: b.name ++ [0] ∨ b.name ++ [0] <+: content) ∧
      ∀ i, (content.take bufSize).length ≤ i → i ≤ b.name.length → buf i = b.name.getD i 0 := by
  rw [autoStart_bustype buf (opened_reliable content), bytesRead_reliable, toOption_eq_some_iff,
    strToBusConfig_ok_iff, strcmp_written, name_prefix_take, take_prefix_name]

theorem startsNone_iff {content : List UInt8} :
    StartsNone f (some content) ↔ NamesNone f content := by
  constructor
  · intro h b hsupp hstart
    have hbus : (autoStart f .reliable (some content) b.argument.memory).bustype = some b :=
      bustype_reliable.mpr ⟨hsupp,hstart,fun i _ _ => rfl⟩
    rw [h] at hbus
    simp at hbus
  · intro h buf
    rw [Option.eq_none_iff_forall_ne_some]
    intro b hb
    obtain ⟨hsupp,hstart,_⟩ := bustype_reliable.mp hb
    exact h b hsupp hstart

theorem startsNone_none : StartsNone f none := fun _ => rfl

theorem startsWith_iff {content : List UInt8} {b : Bustype} (hsupp : b.supportedBy f = true) :
    StartsWith f (some content) b ↔ b.name ++ [0] <+: content := by
  constructor
  · intro h
    obtain ⟨_,hstart,hrest⟩ := bustype_reliable.mp (h fun _ => 255).2
    -- garbage without a NUL leaves the terminator to the file
    have hlong : ¬ (content.take bufSize).length ≤ b.name.length := by
      intro hle
      have hend := hrest b.name.length hle (Nat.le_refl _)
      rw [getD_length] at hend
      exact absurd hend (by decide)
    rcases hstart with hshort | hfull
    · have hlen := hshort.length_le
      have hsize := b.name_length
      simp only [List.length_take, List.length_append, List.length_singleton, bufSize] at hlen hlong
      have heq := hshort.eq_of_length (by
        simp only [List.length_append, List.length_singleton]
        omega)
      exact ⟨[],by rw [heq, List.append_nil]⟩
    · exact hfull
  · intro h buf
    have hbus : (autoStart f .reliable (some content) buf).bustype = some b := by
      refine bustype_reliable.mpr ⟨hsupp,.inr h,?_⟩
      intro i hi hl
      have hlen := (name_prefix_take.mpr h).length_le
      simp only [List.length_append, List.length_singleton] at hlen
      omega
    refine ⟨?_,hbus⟩
    rw [autoStart_ret, hbus]
    rfl

theorem not_startsWith_none (b : Bustype) : ¬ StartsWith f none b := by
  intro h
  cases (h fun _ => 0).2

theorem take_terminated_iff {x : Str} {n : Nat} :
    x.bytes ++ [0] <+: (x.bytes ++ [0]).take n ↔ x.bytes.length + 1 ≤ n := by
  rw [List.prefix_take_iff]
  simp

theorem startsWith_leftBehind {x : Str} {b : Bustype}
    (hx : strToBusConfig f (some x.memory) = .ok b) :
    StartsWith f (leftBehind fs x) b ↔ Stores fs x := by
  obtain ⟨hsupp,hname⟩ := strToBusConfig_str.mp hx
  unfold leftBehind Stores
  rcases fs.fclose with _ | left
  · rw [Option.getD_none, startsWith_iff hsupp, ← hname]
    exact take_terminated_iff
  · rw [Option.getD_some]
    cases left with
    | none => simp [not_startsWith_none]
    | some content => simp [startsWith_iff hsupp, hname]

theorem truthful_ok {cmd x : Str} {b : Bustype}
    (hx : strToBusConfig f (some x.memory) = .ok b) :
    Truthful f fs [cmd,x] autostart ↔ fs.fopen = true ∧ Stores fs x := by
  have hcall := cmdAutostart_ok hx fs cmd autostart
  constructor
  · intro h
    have hopen : fs.fopen = true := by
      have hwrite := (h.handles (.fwrite fs.fopen) (by simp [hcall])).1
      simpa using hwrite
    obtain ⟨_,y,b',hargv,hy,hstart⟩ := h.added (by simp [hcall]) (by simp [hcall])
    obtain ⟨rfl,rfl⟩ : cmd = _ ∧ x = y := by simpa using hargv
    rw [hcall, hopen] at hstart
    exact ⟨hopen,(startsWith_leftBehind hy).mp hstart⟩
  · rintro ⟨hopen,hstores⟩
    refine ⟨?_,?_,?_⟩
    · simp [hcall, hopen]
    · intro _ _
      refine ⟨cmd,x,b,rfl,hx,?_⟩
      rw [hcall, hopen]
      exact (startsWith_leftBehind hx).mpr hstores
    · simp [hcall]

theorem truthful_error {cmd x : Str} {e : Refused}
    (hx : strToBusConfig f (some x.memory) = .error e) :
    Truthful f fs [cmd,x] autostart ↔
      (fs.remove = true ∨ ∀ content, autostart = some content → NamesNone f content) := by
  have hcall := cmdAutostart_error hx fs cmd autostart
  have hleft : StartsNone f (if fs.remove then none else autostart) ↔
      (fs.remove = true ∨ ∀ content, autostart = some content → NamesNone f content) := by
    cases hremove : fs.remove with
    | true => simp [startsNone_none]
    | false =>
      cases autostart with
      | none => simp [startsNone_none]
      | some content => simp [startsNone_iff]
  rw [← hleft]
  constructor
  · intro h
    have hnone := h.disabled (by simp [hcall])
    rwa [hcall] at hnone
  · intro h
    refine ⟨?_,?_,?_⟩
    · simp [hcall]
    · intro _ hret
      simp [hcall] at hret
    · intro _
      rwa [hcall]

theorem cmd_autostart_truthful_iff (f : Supported) (fs : RteFs) (argv : List Str)
    (autostart : File) : Truthful f fs argv autostart ↔ Reportable f fs argv autostart := by
  match argv with
  | [] | [_] | _ :: _ :: _ :: _ =>
    refine ⟨fun _ => trivial,fun _ => ⟨?_,?_,?_⟩⟩ <;> simp [cmdAutostart]
  | [cmd,x] =>
    cases hx : strToBusConfig f (some x.memory) with
    | ok b => simpa [Reportable, hx, Except.isOk, Except.toBool] using truthful_ok hx
    | error e => simpa [Reportable, hx, Except.isOk, Except.toBool] using truthful_error hx

def unformatted : RteFs := { RteFs.reliable with fopen := false }

theorem cmd_autostart_untruthful :
    ¬ ∀ (f : Supported) (fs : RteFs) (argv : List Str) (autostart : File),
      Truthful f fs argv autostart := by
  intro h
  have hhandles := (h generatedSupport unformatted
    [cmdAutostartName,Bustype.profinet.argument] none).handles
  have hnull := (hhandles (.fwrite false) (by decide)).1
  exact hnull rfl

end UphyDemo.Startup
