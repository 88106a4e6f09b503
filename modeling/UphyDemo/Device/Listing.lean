import UphyDemo.Foundation.CString
import UphyDemo.Foundation.Lines

namespace UphyDemo.Device
open CString Lines

-- the names `_cmd_show_device` reads from `up_device`
structure SlotNames where
  name : Str
  inputs : List Str
  outputs : List Str
  params : List Str

structure DeviceNames where
  name : Str
  slots : List SlotNames

def newline : UInt8 := 10

def decimal (n : Nat) : List UInt8 := (Nat.toDigits 10 n).map fun c => c.toNat.toUInt8

section Show

def slotLine (i : Nat) (name : Str) : List UInt8 :=
  ascii "Slot[" ++ decimal (i + 1) ++ ascii "]: " ++ name.bytes ++ ascii "\r"

def inputLine (name : Str) : List UInt8 := ascii "   [in] " ++ name.bytes ++ ascii "\r"

def outputLine (name : Str) : List UInt8 := ascii "  [out] " ++ name.bytes ++ ascii "\r"

def paramLine (name : Str) : List UInt8 := ascii "  [par] " ++ name.bytes ++ ascii "\r"

def showSlot (i : Nat) (slot : SlotNames) : List (List UInt8) :=
  slotLine i slot.name :: (slot.inputs.map inputLine ++ slot.outputs.map outputLine ++
    slot.params.map paramLine)

def nameLine (name : Str) : List UInt8 := ascii "\"" ++ name.bytes ++ ascii "\"\r"

-- each line is the text of one `printf` of `_cmd_show_device` before its `\n`
def cmdShowDevice (d : DeviceNames) : List UInt8 :=
  unlines newline (nameLine d.name :: (d.slots.zipIdx.flatMap fun (slot,i) => showSlot i slot))

end Show

section Read

inductive Line where
  | slot (name : List UInt8)
  | input (name : List UInt8)
  | output (name : List UInt8)
  | param (name : List UInt8)
deriving DecidableEq, Repr

structure SlotListing where
  name : List UInt8
  inputs : List (List UInt8)
  outputs : List (List UInt8)
  params : List (List UInt8)
deriving DecidableEq, Repr

structure DeviceListing where
  name : List UInt8
  slots : List SlotListing
deriving DecidableEq, Repr

def readLine (line : List UInt8) : Option Line :=
  if ascii "Slot[" <+: line then
    some (.slot (((line.drop 5).dropWhile fun b => b ≠ 93).drop 3).dropLast)
  else if ascii "   [in] " <+: line then some (.input (line.drop 8).dropLast)
  else if ascii "  [out] " <+: line then some (.output (line.drop 8).dropLast)
  else if ascii "  [par] " <+: line then some (.param (line.drop 8).dropLast)
  else none

-- the slots read so far, from the last one; the first holds the signals above which its own
-- line is still to come
structure Pending where
  inputs : List (List UInt8)
  outputs : List (List UInt8)
  params : List (List UInt8)
  slots : List SlotListing

def Pending.add (p : Pending) : Line → Pending
  | .slot name => ⟨[],[],[],⟨name,p.inputs,p.outputs,p.params⟩ :: p.slots⟩
  | .input name => { p with inputs := name :: p.inputs }
  | .output name => { p with outputs := name :: p.outputs }
  | .param name => { p with params := name :: p.params }

def gather (ls : List Line) : Pending := ls.foldr (fun l p => p.add l) ⟨[],[],[],[]⟩

def readDevice (bytes : List UInt8) : Option DeviceListing :=
  match lines newline bytes with
  | [] => none
  | header :: rest => (rest.mapM readLine).map fun ls =>
      ⟨((header.drop 1).dropLast).dropLast,(gather ls).slots⟩

end Read

def SlotNames.listing (slot : SlotNames) : SlotListing where
  name := slot.name.bytes
  inputs := slot.inputs.map Str.bytes
  outputs := slot.outputs.map Str.bytes
  params := slot.params.map Str.bytes

def DeviceNames.listing (d : DeviceNames) : DeviceListing where
  name := d.name.bytes
  slots := d.slots.map SlotNames.listing

def SlotNames.names (slot : SlotNames) : List Str :=
  slot.name :: (slot.inputs ++ slot.outputs ++ slot.params)

def DeviceNames.names (d : DeviceNames) : List Str := d.name :: d.slots.flatMap SlotNames.names

section Lines

theorem ascii_slot : ascii "Slot[" = [83,108,111,116,91] := by decide

theorem ascii_number : ascii "]: " = [93,58,32] := by decide

theorem ascii_in : ascii "   [in] " = [32,32,32,91,105,110,93,32] := by decide

theorem ascii_out : ascii "  [out] " = [32,32,91,111,117,116,93,32] := by decide

theorem ascii_par : ascii "  [par] " = [32,32,91,112,97,114,93,32] := by decide

theorem ascii_return : ascii "\r" = [13] := by decide

theorem ascii_quote : ascii "\"" = [34] := by decide

theorem ascii_quoteReturn : ascii "\"\r" = [34,13] := by decide

theorem decimal_digit {n : Nat} {b : UInt8} (h : b ∈ decimal n) : 48 ≤ b.toNat ∧ b.toNat ≤ 57 := by
  obtain ⟨c,hc,rfl⟩ := List.mem_map.mp h
  have hdigit := Nat.isDigit_of_mem_toDigits (by decide) (by decide) hc
  rw [Char.isDigit, Bool.and_eq_true, decide_eq_true_iff, decide_eq_true_iff] at hdigit
  have hlow : 48 ≤ c.toNat := hdigit.1
  have hhigh : c.toNat ≤ 57 := hdigit.2
  rw [Nat.toUInt8, UInt8.toNat_ofNat']
  omega

theorem readLine_slot (i : Nat) (name : Str) :
    readLine (slotLine i name) = some (.slot name.bytes) := by
  have hline : slotLine i name =
      ascii "Slot[" ++ (decimal (i + 1) ++ (ascii "]: " ++ (name.bytes ++ ascii "\r"))) := by
    simp [slotLine]
  have hdigits : ∀ b ∈ decimal (i + 1), decide (b ≠ 93) = true := by
    intro b hb
    have hle := (decimal_digit hb).2
    simp only [ne_eq, decide_not, Bool.not_eq_true', decide_eq_false_iff_not]
    rintro rfl
    exact absurd hle (by decide)
  have hdrop : (slotLine i name).drop 5 =
      decimal (i + 1) ++ (ascii "]: " ++ (name.bytes ++ ascii "\r")) := by
    rw [hline]
    exact List.drop_left' (by decide)
  have hname : (((slotLine i name).drop 5).dropWhile fun b => b ≠ 93).drop 3 =
      name.bytes ++ ascii "\r" := by
    rw [hdrop, List.dropWhile_append_of_pos hdigits, ascii_number]
    simp
  rw [readLine, if_pos (hline ▸ List.prefix_append _ _), hname, ascii_return, List.dropLast_concat]

theorem readLine_input (name : Str) : readLine (inputLine name) = some (.input name.bytes) := by
  simp [readLine, inputLine, ascii_slot, ascii_in, ascii_return]

theorem readLine_output (name : Str) : readLine (outputLine name) = some (.output name.bytes) := by
  simp [readLine, outputLine, ascii_slot, ascii_in, ascii_out, ascii_return]

theorem readLine_param (name : Str) : readLine (paramLine name) = some (.param name.bytes) := by
  simp [readLine, paramLine, ascii_slot, ascii_in, ascii_out, ascii_par, ascii_return]

end Lines

section Gather

def SlotNames.lines (slot : SlotNames) : List Line :=
  .slot slot.name.bytes :: (slot.inputs.map (fun x => .input x.bytes) ++
    slot.outputs.map (fun x => .output x.bytes) ++ slot.params.map fun x => .param x.bytes)

theorem mapM_map {f : Str → List UInt8} {g : Str → Line} (h : ∀ x, readLine (f x) = some (g x))
    (xs : List Str) : (xs.map f).mapM readLine = some (xs.map g) := by
  induction xs with
  | nil => rfl
  | cons x xs ih => simp [h x, ih]

theorem read_slot (i : Nat) (slot : SlotNames) :
    (showSlot i slot).mapM readLine = some slot.lines := by
  simp [showSlot, SlotNames.lines, List.mapM_append, readLine_slot, mapM_map readLine_input,
    mapM_map readLine_output, mapM_map readLine_param]

theorem read_slots (slots : List SlotNames) (k : Nat) :
    ((slots.zipIdx k).flatMap fun (slot,i) => showSlot i slot).mapM readLine =
      some (slots.flatMap SlotNames.lines) := by
  induction slots generalizing k with
  | nil => rfl
  | cons slot slots ih =>
    simp [List.zipIdx_cons, List.mapM_append, read_slot, ih (k + 1)]

theorem gather_run (f : Str → Line) (put : List (List UInt8) → Pending → Pending)
    (h : ∀ x names p, (put names p).add (f x) = put (x.bytes :: names) p) (xs : List Str)
    (names : List (List UInt8)) (p : Pending) :
    (xs.map f).foldr (fun l p => p.add l) (put names p) = put (xs.map Str.bytes ++ names) p := by
  induction xs with
  | nil => rfl
  | cons x xs ih => rw [List.map_cons, List.foldr_cons, ih, h, List.map_cons, List.cons_append]

theorem gather_slot (slot : SlotNames) (slots : List SlotListing) :
    slot.lines.foldr (fun l p => Pending.add p l) ⟨[],[],[],slots⟩ =
      ⟨[],[],[],slot.listing :: slots⟩ := by
  have hparams := gather_run (fun x => .param x.bytes) (fun names p => { p with params := names })
    (fun _ _ _ => rfl) slot.params [] ⟨[],[],[],slots⟩
  have houtputs := gather_run (fun x => .output x.bytes)
    (fun names p => { p with outputs := names }) (fun _ _ _ => rfl) slot.outputs []
    ⟨[],[],slot.params.map Str.bytes,slots⟩
  have hinputs := gather_run (fun x => .input x.bytes) (fun names p => { p with inputs := names })
    (fun _ _ _ => rfl) slot.inputs []
    ⟨[],slot.outputs.map Str.bytes,slot.params.map Str.bytes,slots⟩
  simp only [List.append_nil] at hparams houtputs hinputs
  rw [SlotNames.lines, List.foldr_cons, List.foldr_append, List.foldr_append, hparams, houtputs,
    hinputs]
  rfl

theorem gather_slots (slots : List SlotNames) :
    gather (slots.flatMap SlotNames.lines) = ⟨[],[],[],slots.map SlotNames.listing⟩ := by
  induction slots with
  | nil => rfl
  | cons slot slots ih =>
    rw [gather] at ih ⊢
    rw [List.flatMap_cons, List.foldr_append, ih, gather_slot, List.map_cons]

end Gather

section Newlines

theorem unbroken_words : newline ∉ ascii "Slot[" ∧ newline ∉ ascii "]: " ∧ newline ∉ ascii "\r" ∧
    newline ∉ ascii "   [in] " ∧ newline ∉ ascii "  [out] " ∧ newline ∉ ascii "  [par] " := by
  decide

theorem show_unbroken {i : Nat} {slot : SlotNames} (h : ∀ x ∈ slot.names, newline ∉ x.bytes) :
    ∀ l ∈ showSlot i slot, newline ∉ l := by
  have hdigits : newline ∉ decimal (i + 1) := by
    intro hmem
    exact absurd (decimal_digit hmem).1 (by decide)
  obtain ⟨hslot,hnumber,hreturn,hin,hout,hpar⟩ := unbroken_words
  intro l hl
  rw [showSlot, List.mem_cons, List.mem_append, List.mem_append, List.mem_map, List.mem_map,
    List.mem_map] at hl
  rcases hl with rfl | ((⟨x,hx,rfl⟩ | ⟨x,hx,rfl⟩) | ⟨x,hx,rfl⟩)
  · have hname := h slot.name List.mem_cons_self
    simp [slotLine, hslot, hnumber, hreturn, hdigits, hname]
  · have hname := h x (by simp [SlotNames.names, hx])
    simp [inputLine, hin, hreturn, hname]
  · have hname := h x (by simp [SlotNames.names, hx])
    simp [outputLine, hout, hreturn, hname]
  · have hname := h x (by simp [SlotNames.names, hx])
    simp [paramLine, hpar, hreturn, hname]

end Newlines

theorem read_show {d : DeviceNames} (h : ∀ x ∈ d.names, newline ∉ x.bytes) :
    readDevice (cmdShowDevice d) = some d.listing := by
  have hunbroken : ∀ l ∈ nameLine d.name :: (d.slots.zipIdx.flatMap fun (slot,i) => showSlot i slot),
      newline ∉ l := by
    rw [DeviceNames.names, List.forall_mem_cons] at h
    rw [List.forall_mem_cons]
    refine ⟨?_,?_⟩
    · have hquote : newline ∉ ascii "\"" ∧ newline ∉ ascii "\"\r" := by decide
      simp [nameLine, hquote.1, hquote.2, h.1]
    · intro l hl
      obtain ⟨⟨slot,i⟩,hslot,hl⟩ := List.mem_flatMap.mp hl
      refine show_unbroken (fun x hx => h.2 x ?_) l hl
      exact List.mem_flatMap.mpr ⟨slot,List.fst_mem_of_mem_zipIdx hslot,hx⟩
  rw [readDevice, cmdShowDevice, lines_unlines newline hunbroken]
  dsimp only
  rw [read_slots, Option.map_some, gather_slots]
  simp [nameLine, ascii_quote, ascii_quoteReturn, DeviceNames.listing]

def digioNames : DeviceNames where
  name := word "U-Phy DIGIO Sample"
  slots :=
    [⟨word "I8",[word "Input 8 bits"],[],[]⟩,
     ⟨word "O8",[],[word "Output 8 bits"],[]⟩,
     ⟨word "I8O8",[word "Input 8 bits"],[word "Output 8 bits"],[word "Parameter 1"]⟩]

theorem read_show_digio : readDevice (cmdShowDevice digioNames) = some digioNames.listing :=
  read_show (by decide)

end UphyDemo.Device
