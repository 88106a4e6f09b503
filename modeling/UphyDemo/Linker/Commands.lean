import UphyDemo.Foundation.Layout
import Mathlib.Data.List.Sort

namespace UphyDemo.Linker
open Layout

-- what SHELL_CMD emits for a command: one entry in a section `.cmds.<name>`
structure ShellCmd where
  size : Nat
  size_pos : 0 < size
  size_mod : size % 4 = 0

def ShellCmd.section (E : ShellCmd) : InputSection := ⟨E.size,2⟩

structure Cmd where
  name : List UInt8
deriving DecidableEq, Repr

inductive Piece where
  | vectors
  | text
  | cmds (cmd : Cmd)
  | other
deriving DecidableEq, Repr

inductive Sym where
  | vectors
  | vectorsEnd
  | end_
  | cmdsStart
  | cmdsEnd
deriving DecidableEq, Repr

-- `rest` holds the input sections that follow `cmds_end`, one list for each description
structure Inputs where
  vectors : List InputSection
  text : List InputSection
  cmds : List Cmd
  rest : List (List InputSection)

def sorted (cmds : List Cmd) : List Cmd := cmds.mergeSort fun c c' => decide (c.name ≤ c'.name)

def textSection (E : ShellCmd) (i : Inputs) : List (Statement Sym Piece) :=
  [.alignDot 4,
   .assign .vectors,
   .input (i.vectors.map fun s => (.vectors,s)),
   .alignDot 4,
   .assign .vectorsEnd,
   .assign .end_,
   .alignDot 4,
   .input (i.text.map fun s => (.text,s)),
   .assign .cmdsStart,
   .input ((sorted i.cmds).map fun c => (.cmds c,E.section)),
   .assign .cmdsEnd] ++
  i.rest.map fun ss => .input (ss.map fun s => (.other,s))

def entryOf : Piece × Nat → Option (Cmd × Nat)
  | (.cmds cmd,a) => some (cmd,a)
  | _ => none

def entries (p : Placement Sym Piece) : List (Cmd × Nat) := p.placed.filterMap entryOf

def address (p : Placement Sym Piece) (sym : Sym) : Nat := (p.symbols.lookup sym).getD 0

structure TableExact (E : ShellCmd) (cmds : List Cmd) (p : Placement Sym Piece) : Prop where
  first : ∀ cmd a, (entries p).head? = some (cmd,a) → address p .cmdsStart = a
  size : address p .cmdsEnd = address p .cmdsStart + cmds.length * E.size
  visits : ((walk E.size (address p .cmdsEnd) (address p .cmdsEnd - address p .cmdsStart)
    (address p .cmdsStart)).map (entryAt (entries p))).Perm (cmds.map some)

def textEnd (origin : Nat) (i : Inputs) : Nat :=
  endOf (alignUp (alignUp (endOf (alignUp origin 4) i.vectors) 4) 4) i.text

variable {E : ShellCmd}

theorem place_entries_none {f : InputSection → Piece} (h : ∀ s a, entryOf (f s,a) = none)
    (dot : Nat) (ss : List InputSection) :
    (place dot (ss.map fun s => (f s,s))).filterMap entryOf = [] := by
  induction ss generalizing dot with
  | nil => rfl
  | cons s ss ih =>
    rw [List.map_cons, place, List.filterMap_cons_none (h s _)]
    exact ih _

theorem place_entries_cmds (dot : Nat) (s : InputSection) (cmds : List Cmd) :
    (place dot (cmds.map fun c => (Piece.cmds c,s))).filterMap entryOf =
      place dot (cmds.map fun c => (c,s)) := by
  induction cmds generalizing dot with
  | nil => rfl
  | cons c cmds ih =>
    have hone : entryOf (Piece.cmds c,alignUp dot s.align) = some (c,alignUp dot s.align) := rfl
    simp only [List.map_cons, place, List.filterMap_cons_some hone, ih]

theorem rest_keeps (rest : List (List InputSection)) (p : Placement Sym Piece) :
    let q := (rest.map fun ss => Statement.input (ss.map fun s => (Piece.other,s))).foldl
      (fun p statement => statement.exec p) p
    q.symbols = p.symbols ∧ entries q = entries p := by
  induction rest generalizing p with
  | nil => exact ⟨rfl,rfl⟩
  | cons ss rest ih =>
    obtain ⟨hsymbols,hentries⟩ := ih (Statement.exec (.input (ss.map fun s => (Piece.other,s))) p)
    refine ⟨hsymbols,hentries.trans ?_⟩
    simp [entries, Statement.exec, place_entries_none (f := fun _ => .other) fun _ _ => rfl]

theorem linked_symbols (E : ShellCmd) (origin : Nat) (i : Inputs) :
    address (link origin (textSection E i)) .cmdsStart = textEnd origin i ∧
    address (link origin (textSection E i)) .cmdsEnd =
      endOf (textEnd origin i) (List.replicate i.cmds.length E.section) := by
  have hlength : (sorted i.cmds).length = i.cmds.length := List.length_mergeSort _
  have htext : (i.text.map fun s => (Piece.text,s)).map Prod.snd = i.text := by
    simp [Function.comp_def]
  have hvectors : (i.vectors.map fun s => (Piece.vectors,s)).map Prod.snd = i.vectors := by
    simp [Function.comp_def]
  have hcmds : ((sorted i.cmds).map fun c => (Piece.cmds c,E.section)).map Prod.snd =
      List.replicate i.cmds.length E.section := by
    simp [Function.comp_def, List.map_const', hlength]
  rw [link, textSection, List.foldl_append]
  simp only [address, (rest_keeps i.rest _).1]
  simp only [List.foldl_cons, List.foldl_nil, Statement.exec, htext, hvectors, hcmds, textEnd]
  exact ⟨rfl,rfl⟩

theorem linked_entries (E : ShellCmd) (origin : Nat) (i : Inputs) :
    entries (link origin (textSection E i)) =
      place (textEnd origin i) ((sorted i.cmds).map fun c => (c,E.section)) := by
  rw [link, textSection, List.foldl_append, (rest_keeps i.rest _).2]
  simp [entries, Statement.exec, textEnd, Function.comp_def, place_entries_cmds,
    place_entries_none (f := fun _ => .vectors) fun _ _ => rfl,
    place_entries_none (f := fun _ => .text) fun _ _ => rfl]

theorem textEnd_residue (origin : Nat) (i : Inputs) :
    textEnd origin i % 4 = residueOf i.text 0 := by
  rw [textEnd, endOf_residue, alignUp_mod _ (by omega)]

theorem ShellCmd.section_mod (E : ShellCmd) : E.section.size % E.section.align = 0 := E.size_mod

theorem sorted_length (cmds : List Cmd) : (sorted cmds).length = cmds.length :=
  List.length_mergeSort _

theorem linked_entries_zip (E : ShellCmd) (origin : Nat) (i : Inputs) :
    entries (link origin (textSection E i)) =
      (sorted i.cmds).zip (List.range' (alignUp (textEnd origin i) 4) i.cmds.length E.size) := by
  rw [linked_entries, place_uniform _ _ E.section_mod, sorted_length]
  rfl

theorem linked_first (E : ShellCmd) (origin : Nat) (i : Inputs) (h : i.cmds ≠ []) :
    ∃ cmd, (entries (link origin (textSection E i))).head? =
      some (cmd,alignUp (textEnd origin i) 4) := by
  have hsorted : sorted i.cmds ≠ [] := by
    intro hnil
    have hlength := sorted_length i.cmds
    rw [hnil, List.length_nil] at hlength
    exact h (List.eq_nil_of_length_eq_zero hlength.symm)
  obtain ⟨cmd,cmds,hcmd⟩ := List.exists_cons_of_ne_nil hsorted
  have hlength : i.cmds.length = cmds.length + 1 := by
    rw [← sorted_length, hcmd, List.length_cons]
  refine ⟨cmd,?_⟩
  rw [linked_entries_zip, hcmd, hlength, List.range'_succ]
  rfl

theorem table_empty (E : ShellCmd) (origin : Nat) (i : Inputs) (h : i.cmds = []) :
    TableExact E i.cmds (link origin (textSection E i)) := by
  obtain ⟨hstart,hend⟩ := linked_symbols E origin i
  have hsame : address (link origin (textSection E i)) .cmdsEnd = textEnd origin i := by
    rw [hend, h]
    rfl
  refine ⟨?_,?_,?_⟩
  · intro cmd a hhead
    rw [linked_entries_zip, h] at hhead
    simp at hhead
  · rw [hstart, hsame, h]
    simp
  · rw [hstart, hsame, h, Nat.sub_self]
    exact .refl _

section Aligned

variable {origin : Nat} {i : Inputs}

theorem aligned_end (h : textEnd origin i % 4 = 0) :
    address (link origin (textSection E i)) .cmdsEnd =
      textEnd origin i + i.cmds.length * E.size := by
  have hmod : textEnd origin i % E.section.align = 0 := h
  rw [(linked_symbols E origin i).2, endOf_aligned _ _ hmod E.section_mod]
  rfl

theorem aligned_addresses (h : textEnd origin i % 4 = 0) :
    (entries (link origin (textSection E i))).map Prod.snd =
      List.range' (textEnd origin i) i.cmds.length E.size := by
  rw [linked_entries_zip, alignUp_of_mod h, List.map_snd_zip]
  simp [sorted_length]

theorem entries_cmds (E : ShellCmd) (origin : Nat) (i : Inputs) :
    (entries (link origin (textSection E i))).map Prod.fst = sorted i.cmds := by
  rw [linked_entries_zip, List.map_fst_zip]
  simp [sorted_length]

theorem aligned_visits (h : textEnd origin i % 4 = 0) {fuel : Nat} (hfuel : i.cmds.length ≤ fuel) :
    (walk E.size (textEnd origin i + i.cmds.length * E.size) fuel (textEnd origin i)).map
      (entryAt (entries (link origin (textSection E i)))) = (sorted i.cmds).map some := by
  have hnodup : ((entries (link origin (textSection E i))).map Prod.snd).Nodup := by
    rw [aligned_addresses h]
    exact List.nodup_range' E.size E.size_pos
  rw [walk_range E.size_pos _ _ _ hfuel, ← aligned_addresses h, entryAt_placed hnodup,
    ← entries_cmds E origin i, List.map_map]
  rfl

theorem table_aligned (h : textEnd origin i % 4 = 0) :
    TableExact E i.cmds (link origin (textSection E i)) := by
  have hstart := (linked_symbols E origin i).1
  refine ⟨?_,?_,?_⟩
  · intro cmd a hhead
    by_cases hnil : i.cmds = []
    · rw [linked_entries_zip, hnil] at hhead
      simp at hhead
    · obtain ⟨cmd',hfirst⟩ := linked_first E origin i hnil
      rw [hhead, alignUp_of_mod h] at hfirst
      rw [hstart]
      exact (Prod.mk.inj (Option.some.inj hfirst)).2.symm
  · rw [hstart, aligned_end h]
  · have hfuel : i.cmds.length ≤ i.cmds.length * E.size := Nat.le_mul_of_pos_right _ E.size_pos
    rw [hstart, aligned_end h, Nat.add_sub_cancel_left, aligned_visits h hfuel]
    exact (List.mergeSort_perm _ _).map some

end Aligned

theorem shell_table_exact_iff (E : ShellCmd) (origin : Nat) (i : Inputs) :
    TableExact E i.cmds (link origin (textSection E i)) ↔
      i.cmds = [] ∨ residueOf i.text 0 = 0 := by
  rw [← textEnd_residue origin]
  constructor
  · intro h
    by_cases hnil : i.cmds = []
    · exact .inl hnil
    · obtain ⟨cmd,hfirst⟩ := linked_first E origin i hnil
      have heq := h.first cmd _ hfirst
      rw [(linked_symbols E origin i).1] at heq
      exact .inr ((alignUp_eq_iff (by omega)).mp heq.symm)
  · rintro (hnil | hmod)
    · exact table_empty E origin i hnil
    · exact table_aligned hmod

def pointers : ShellCmd := ⟨16,by omega,rfl⟩

def oddText : Inputs where
  vectors := []
  text := [⟨6,1⟩]
  cmds := [⟨[97]⟩]
  rest := []

theorem shell_table_shifted :
    ¬ ∀ (E : ShellCmd) (origin : Nat) (i : Inputs),
      TableExact E i.cmds (link origin (textSection E i)) := by
  intro h
  have hsize := (h pointers 0 oddText).size
  rw [(linked_symbols pointers 0 oddText).1, (linked_symbols pointers 0 oddText).2] at hsize
  exact absurd hsize (by decide)

end UphyDemo.Linker
