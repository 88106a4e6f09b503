import UphyDemo.Linker.Image

namespace UphyDemo.Linker
open Layout

section Stages

variable (E : ShellCmd) (i : ImageInputs)

def after (n : Nat) : Image Region Name Symbol Piece := layout memory ((script E i).take n)

theorem image_eq : image E i = after E i 27 := rfl

theorem after_succ {E : ShellCmd} {i : ImageInputs} {n : Nat} {item : ScriptItem}
    (h : (script E i)[n]? = some item) : after E i (n + 1) = item.exec memory (after E i n) :=
  layout_succ memory h

-- the symbols each item behind `.text` assigns, and the regions each item touches
def assignedBy : List (List Symbol) :=
  [[],[],[.copyTableStart,.copyTableEnd],[.zeroTableStart,.zeroTableEnd],[.itcmStart,.itcmEnd],
   [.itcmFlashEnd],[.dtcmStart,.dtcmEnd],[.etext],[.ramVectorsStart,.ramVectorsEnd],
   [.dataStart,.preinitArrayStart,.preinitArrayEnd,.initArrayStart,.initArrayEnd,.finiArrayStart,
    .finiArrayEnd,.dataEnd],
   [],[.bssStart,.bssEnd],[.heapBase,.text .end_,.end_,.heapLimit],[],[.stackTop],[.stackLimit],
   [],[],[],[],[],[],[],[]]

def regionsBy : List (List Region) :=
  [[.flashCm0p],[],[.flash],[.flash],[.flash],[.flash],[.flash],[.itcm,.flash],[],[.dtcm,.flash],
   [],[.ram],[.ram,.flash],[.ram],[.ram],[.ram],[.ram],[],[],[],[.emEeprom],[.sflashUserData],
   [.sflashNar],[.sflashPublicKey],[.sflashToc2],[.xip],[.efuse]]

def namesBy : List (List Name) :=
  [[.cyCm0pImage],[],[.text],[.armExtab],[.armExidx],[.copyTable],[.zeroTable],[.cyItcm],[],
   [.cyDtcm],[],[.ramVectors],[.data],[.noinit],[.bss],[.heap],[.stackDummy],[],[],[],
   [.cyEmEeprom],[.cySflashUserData],[.cySflashNar],[.cySflashPublicKey],[.cyTocPart2],[.cyXip],
   [.cyEfuse]]

theorem names_script : (script E i).map Item.names = namesBy := rfl

theorem assigned_script : ((script E i).drop 3).map Item.assigned = assignedBy := rfl

theorem regions_script : (script E i).map Item.regions = regionsBy := rfl

theorem later_items (n m : Nat) : ((script E i).take (m + 3)).drop (n + 3) =
    (((script E i).drop 3).take m).drop n := by
  rw [List.drop_take, List.drop_take, List.drop_drop, Nat.add_sub_add_right, Nat.add_comm 3 n]

theorem symbol_later {n m : Nat} {sym : Symbol} (hnm : n ≤ m)
    (h : sym ∉ ((assignedBy.take m).drop n).flatten) :
    (after E i (m + 3)).symbol sym = (after E i (n + 3)).symbol sym := by
  have hout : sym ∉ (((script E i).take (m + 3)).drop (n + 3)).flatMap Item.assigned := by
    rw [later_items, List.flatMap_def, List.map_drop, List.map_take, assigned_script]
    exact h
  rw [after, layout_take memory _ (Nat.add_le_add_right hnm 3)]
  exact layoutFrom_kept memory hout _

theorem current_later {n m : Nat} {r : Region} (hnm : n ≤ m)
    (h : r ∉ ((regionsBy.take m).drop n).flatten) :
    (after E i m).current r = (after E i n).current r := by
  have hout : r ∉ (((script E i).take m).drop n).flatMap Item.regions := by
    rw [List.flatMap_def, List.map_drop, List.map_take, regions_script]
    exact h
  rw [after, layout_take memory _ hnm]
  exact layoutFrom_current memory hout _

theorem names_before {n : Nat} {name : Name} (h : name ∉ (namesBy.take n).flatten) :
    ∀ e ∈ (after E i n).extents, e.name ≠ name := by
  rintro e he rfl
  rcases layoutFrom_names memory he with hnil | hname
  · cases hnil
  · rw [List.flatMap_def, List.map_take, names_script] at hname
    exact h hname

end Stages

section Outputs

variable (p : Image Region Name Symbol Piece)

theorem zeroTable_end :
    (zeroTable.exec memory p).symbol .zeroTableEnd = (zeroTable.exec memory p).current .flash := by
  rw [OutputSection.exec_symbol, OutputSection.exec_created memory (by decide)]
  exact valueOf_last _ _ _

section TightlyCoupled

variable (name : Name) (region : Region) (first last : Symbol) (ss : List InputSection)

theorem tightlyCoupled_vma :
    (tightlyCoupled name region first last ss).vma p = (memory region).origin := alignUp_one _

theorem tightlyCoupled_body : ((tightlyCoupled name region first last ss).body p).dot =
    endOf (memory region).origin ss ∧
    ((tightlyCoupled name region first last ss).body p).symbols = p.symbols ++
      [(first,(memory region).origin)] ++ [(last,endOf (memory region).origin ss)] := by
  rw [OutputSection.body, tightlyCoupled_vma]
  constructor <;>
    simp [OutputSection.run, tightlyCoupled, Command.exec, assign, sections, Statement.exec]

theorem tightlyCoupled_symbols (hne : first ≠ last) :
    ((tightlyCoupled name region first last ss).exec memory p).symbol first =
      (memory region).origin ∧
    ((tightlyCoupled name region first last ss).exec memory p).symbol last =
      endOf (memory region).origin ss := by
  rw [OutputSection.exec_symbol, OutputSection.exec_symbol, (tightlyCoupled_body p name region first last ss).2]
  exact ⟨(valueOf_other _ _ hne).trans (valueOf_last _ _ _),valueOf_last _ _ _⟩

theorem tightlyCoupled_exec : (tightlyCoupled name region first last ss).exec memory p =
    (tightlyCoupled name region first last ss).created memory p :=
  OutputSection.exec_created memory (by simp [OutputSection.assigned, tightlyCoupled, assign,
    Command.assigned])

theorem tightlyCoupled_flash (hregion : region ≠ .flash) :
    ((tightlyCoupled name region first last ss).exec memory p).current .flash =
      p.current .flash + (endOf (memory region).origin ss - (memory region).origin) := by
  have hstop : (tightlyCoupled name region first last ss).stop p .flash =
      (tightlyCoupled name region first last ss).lma p .flash +
        (tightlyCoupled name region first last ss).size p :=
    OutputSection.stop_load rfl hregion.symm
  rw [tightlyCoupled_exec, OutputSection.created_current, hstop, OutputSection.size,
    tightlyCoupled_vma, (tightlyCoupled_body p name region first last ss).1]
  exact congrArg (· + _) (alignUp_one _)

theorem tightlyCoupled_starts (hregion : region ≠ .flash)
    (hnew : ∀ e ∈ p.extents, e.name ≠ name) :
    ((tightlyCoupled name region first last ss).exec memory p).startOf region name =
      some (memory region).origin ∧
    ((tightlyCoupled name region first last ss).exec memory p).startOf .flash name =
      some (p.current .flash) := by
  rw [tightlyCoupled_exec]
  constructor
  · rw [← tightlyCoupled_vma p name region first last ss]
    exact startOf_run memory hnew
  · rw [← alignUp_one (p.current .flash)]
    exact startOf_load memory hnew rfl hregion.symm

theorem tightlyCoupled_covered (hne : first ≠ last) (hnew : ∀ e ∈ p.extents, e.name ≠ name) :
    ((tightlyCoupled name region first last ss).exec memory p).Covered
      (tightlyCoupled name region first last ss) 1 first last := by
  obtain ⟨hfirst,hlast⟩ := tightlyCoupled_symbols p name region first last ss hne
  obtain ⟨hdot,_⟩ := tightlyCoupled_body p name region first last ss
  have hvma := tightlyCoupled_vma p name region first last ss
  obtain ⟨mid,hplaced,hin⟩ := run_contents (tightlyCoupled name region first last ss).commands
    ⟨(tightlyCoupled name region first last ss).vma p,p.symbols,p.placed⟩
  refine ⟨⟨(memory region).origin,?_,?_⟩,?_,?_⟩
  · rw [hlast, tightlyCoupled_exec, ← hdot, ← hvma]
    exact extentOf_run memory hnew
  · rw [hfirst, alignUp_one]
  · rw [hfirst, hlast, tightlyCoupled_exec, ← hdot, ← hvma]
    exact ⟨p.placed,mid,[],hplaced.trans (List.append_nil _).symm,hin⟩
  · rw [hfirst, hlast]
    exact le_endOf _ _

end TightlyCoupled

section Data

variable (i : ImageInputs)

theorem data_exec : (data i).exec memory p = (data i).created memory p :=
  OutputSection.exec_created memory (by simp [OutputSection.assigned, data, bracketed,
    Command.assigned])

theorem data_covered (hnew : ∀ e ∈ p.extents, e.name ≠ .data) :
    ((data i).exec memory p).Covered (data i) 4 .dataStart .dataEnd := by
  rw [data_exec]
  exact covered_bracketed memory (dataContents i) rfl (by decide) (by decide)
    (by simp [dataContents, sections, align, assign, Command.assigned]) hnew

theorem bss_covered (hnew : ∀ e ∈ p.extents, e.name ≠ .bss) :
    ((bss i).exec memory p).Covered (bss i) 4 .bssStart .bssEnd := by
  have hexec : (bss i).exec memory p = (bss i).created memory p :=
    OutputSection.exec_created memory (by simp [OutputSection.assigned, bss, inRam, bracketed,
      Command.assigned])
  rw [hexec]
  exact covered_bracketed memory [sections i.bss,sections i.common] rfl (by decide)
    (by decide) (by simp [sections, Command.assigned]) hnew

theorem data_vma : (data i).vma p = p.symbol .ramVectorsEnd := alignUp_one _

theorem data_symbols :
    ((data i).exec memory p).symbol .dataStart = alignUp (p.symbol .ramVectorsEnd) 4 ∧
    ((data i).exec memory p).symbol .dataEnd % 4 = 0 := by
  have hstart : Symbol.dataStart ∉ (dataContents i).flatMap Command.assigned := by
    simp [dataContents, sections, align, assign, Command.assigned]
  obtain ⟨hfirst,hlast,hmod,_⟩ := run_bracketed .dataStart .dataEnd (by decide : 0 < 4)
    (by decide) hstart ⟨(data i).vma p,p.symbols,p.placed⟩
  rw [data_vma] at hfirst hlast hmod
  rw [OutputSection.exec_symbol, OutputSection.exec_symbol, OutputSection.body, data_vma]
  exact ⟨hfirst,(congrArg (· % 4) hlast).trans hmod⟩

theorem data_starts (hnew : ∀ e ∈ p.extents, e.name ≠ .data) :
    ((data i).exec memory p).startOf .ram .data = some (p.symbol .ramVectorsEnd) ∧
    ((data i).exec memory p).startOf .flash .data = some (p.current .flash) := by
  rw [data_exec]
  constructor
  · rw [← data_vma p i]
    exact startOf_run memory hnew
  · rw [← alignUp_one (p.current .flash)]
    exact startOf_load memory hnew rfl (by simp [data])

end Data

theorem ramVectors_end (i : ImageInputs) :
    ((ramVectors i).exec memory p).symbol .ramVectorsEnd % 4 = residueOf i.ramVectors 0 ∧
    ((ramVectors i).exec memory p).symbol .ramVectorsEnd =
      ((ramVectors i).exec memory p).current .ram := by
  have hexec : (ramVectors i).exec memory p = (ramVectors i).created memory p :=
    OutputSection.exec_created memory (by simp [OutputSection.assigned, ramVectors, inRam, assign,
      align, Command.assigned])
  have hend : ((ramVectors i).body p).dot =
      endOf (alignUp ((ramVectors i).vma p) ramvectorsAlignment) i.ramVectors := by
    simp [OutputSection.body, OutputSection.run, ramVectors, inRam, align, assign, sections,
      Command.exec, Statement.exec, Function.comp_def]
  have hsymbol : ((ramVectors i).exec memory p).symbol .ramVectorsEnd =
      ((ramVectors i).body p).dot := by
    rw [OutputSection.exec_symbol]
    exact valueOf_last _ _ _
  constructor
  · have haligned := alignUp_mod ((ramVectors i).vma p) (by decide : 0 < ramvectorsAlignment)
    have hfour : alignUp ((ramVectors i).vma p) ramvectorsAlignment % 4 = 0 := by
      rw [ramvectorsAlignment] at haligned ⊢
      omega
    rw [hsymbol, hend, endOf_residue, hfour]
  · rw [hsymbol, hexec, OutputSection.created_current]
    exact OutputSection.stop_region.symm

end Outputs

section Commands

variable (E : ShellCmd) (i : ImageInputs)

theorem linked_list (origin : Nat) (i : Inputs) : ∃ a b c,
    (link origin (textSection E i)).symbols = [(.vectors,a),(.vectorsEnd,b),(.end_,c),
      (.cmdsStart,address (link origin (textSection E i)) .cmdsStart),
      (.cmdsEnd,address (link origin (textSection E i)) .cmdsEnd)] := by
  have hlist : ∃ a b c d e, (link origin (textSection E i)).symbols =
      [(.vectors,a),(.vectorsEnd,b),(.end_,c),(.cmdsStart,d),(.cmdsEnd,e)] := by
    rw [link, textSection, List.foldl_append, (rest_keeps i.rest _).1]
    exact ⟨_,_,_,_,_,rfl⟩
  obtain ⟨a,b,c,d,e,hlist⟩ := hlist
  refine ⟨a,b,c,?_⟩
  rw [address, address, hlist]
  rfl

-- the table the shell walks is the one `.text` has when it is linked alone
theorem image_commands :
    (image E i).symbol (.text .cmdsStart) =
      address (link (memory .flash).origin (textSection E i.text)) .cmdsStart ∧
    (image E i).symbol (.text .cmdsEnd) =
      address (link (memory .flash).origin (textSection E i.text)) .cmdsEnd := by
  have hstart : (image E i).symbol (.text .cmdsStart) = (after E i 3).symbol (.text .cmdsStart) :=
    symbol_later E i (n := 0) (m := 24) (by decide) (by decide)
  have hend : (image E i).symbol (.text .cmdsEnd) = (after E i 3).symbol (.text .cmdsEnd) :=
    symbol_later E i (n := 0) (m := 24) (by decide) (by decide)
  have hexec : after E i 3 = (text E i).exec memory (after E i 2) := after_succ (n := 2) rfl
  have hvma : (text E i).vma (after E i 2) = (memory .flash).origin := alignUp_one _
  have hbody : ((text E i).body (after E i 2)).symbols = (after E i 2).symbols ++
      (link (memory .flash).origin (textSection E i.text)).symbols.map fun x => (.text x.1,x.2) := by
    have hrun := run_renamed Symbol.text (textSection E i.text) (after E i 2).symbols
      (after E i 2).placed ⟨(memory .flash).origin,[],[]⟩
    rw [List.map_nil, List.append_nil, List.append_nil] at hrun
    rw [OutputSection.body, hvma]
    exact congrArg Placement.symbols hrun
  obtain ⟨a,b,c,hlist⟩ := linked_list E (memory .flash).origin i.text
  rw [hstart, hend, hexec, OutputSection.exec_symbol, OutputSection.exec_symbol, hbody, hlist]
  have hother : (Symbol.text .cmdsStart == Symbol.text .cmdsEnd) = false := by decide
  simp [valueOf, List.lookup_cons, hother]

end Commands

section Tables

-- what one entry of `.copy.table` makes the start-up code move: From, To and Size in words
structure CopyEntry where
  source : Nat
  dest : Nat
  words : Nat
deriving DecidableEq, Repr

def CopyEntry.moves (e : CopyEntry) : List (Nat × Nat) :=
  (List.range (4 * e.words)).map fun k => (e.source + k,e.dest + k)

def entriesOf : List Nat → List CopyEntry
  | source :: dest :: words :: rest => ⟨source,dest,words⟩ :: entriesOf rest
  | _ => []

def copyEntries (p : Image Region Name Symbol Piece) : List CopyEntry :=
  entriesOf (copyTable.longs p.symbol)

-- the bytes of a section that runs at `run` and is stored at `load`, between two addresses
def bytesBetween (run load start stop : Nat) : List (Nat × Nat) :=
  (List.range (stop - start)).map fun k => (load + (start - run) + k,start + k)

def Restored (p : Image Region Name Symbol Piece) (region : Region) (name : Name)
    (start stop : Nat) (e : CopyEntry) : Prop :=
  ∃ run load, p.startOf region name = some run ∧ p.startOf .flash name = some load ∧
    e.moves = bytesBetween run load start stop

theorem moves_eq_iff (source dest words load n : Nat) :
    (List.range (4 * words)).map (fun k => (source + k,dest + k)) =
      (List.range n).map (fun k => (load + k,dest + k)) ↔
    4 * words = n ∧ (n = 0 ∨ source = load) := by
  constructor
  · intro h
    have hlength : 4 * words = n := by simpa using congrArg List.length h
    refine ⟨hlength,?_⟩
    by_cases hzero : n = 0
    · exact .inl hzero
    · refine .inr ?_
      have hhead := congrArg (fun xs => xs[0]?) h
      have hpos : 0 < n := by omega
      simpa [hlength, hpos] using hhead
  · rintro ⟨hlength,hzero | rfl⟩
    · rw [hlength, hzero]
      rfl
    · rw [hlength]

theorem restored_iff {p : Image Region Name Symbol Piece} {region : Region} {name : Name}
    {run load start stop source : Nat} (hrun : p.startOf region name = some run)
    (hload : p.startOf .flash name = some load) :
    Restored p region name start stop ⟨source,start,(stop - start) / 4⟩ ↔
      (stop - start) % 4 = 0 ∧ (stop - start = 0 ∨ source = load + (start - run)) := by
  have hmoves := moves_eq_iff source start ((stop - start) / 4) (load + (start - run))
    (stop - start)
  constructor
  · rintro ⟨run',load',hrun',hload',heq⟩
    obtain rfl := Option.some.inj (hrun.symm.trans hrun')
    obtain rfl := Option.some.inj (hload.symm.trans hload')
    obtain ⟨hfour,hsource⟩ := hmoves.mp heq
    exact ⟨by omega,hsource⟩
  · rintro ⟨hmod,hsource⟩
    exact ⟨run,load,hrun,hload,hmoves.mpr ⟨by omega,hsource⟩⟩

end Tables

section Placed

variable (E : ShellCmd) (i : ImageInputs)

theorem startOf_image {n : Nat} (hn : n ≤ 27) {r : Region} {name : Name} {a : Nat}
    (h : (after E i n).startOf r name = some a) : (image E i).startOf r name = some a := by
  rw [image_eq, after, layout_take memory _ hn]
  exact startOf_kept memory h

theorem covered_image {n : Nat} (hn : n ≤ 27) {o : Output} {k : Nat} {first last : Symbol}
    (h : (after E i n).Covered o k first last)
    (hfirst : (image E i).symbol first = (after E i n).symbol first)
    (hlast : (image E i).symbol last = (after E i n).symbol last) :
    (image E i).Covered o k first last := by
  have hlater : after E i 27 =
      layoutFrom memory (after E i n) (((script E i).take 27).drop n) :=
    layout_take memory (script E i) hn
  rw [image_eq, hlater] at hfirst hlast ⊢
  exact covered_kept memory h hfirst hlast

theorem zeroTable_load : (after E i 7).symbol .zeroTableEnd = (after E i 7).current .flash := by
  have hexec : after E i 7 = Item.exec memory (.output zeroTable) (after E i 6) := after_succ rfl
  rw [hexec]
  exact zeroTable_end (after E i 6)

theorem itcm_exec : after E i 8 = (tightlyCoupled .cyItcm .itcm .itcmStart .itcmEnd i.itcm).exec
    memory (after E i 7) := after_succ (n := 7) rfl

theorem dtcm_exec : after E i 10 = (tightlyCoupled .cyDtcm .dtcm .dtcmStart .dtcmEnd i.dtcm).exec
    memory (after E i 9) := after_succ (n := 9) rfl

theorem itcm_load : (after E i 9).symbol .itcmFlashEnd = (after E i 9).current .flash := by
  have hdefine : (after E i 9).symbol .itcmFlashEnd = (after E i 8).symbol .zeroTableEnd +
      ((after E i 8).symbol .itcmEnd - (after E i 8).symbol .itcmStart) := by
    rw [after_succ (n := 8) rfl]
    exact valueOf_last _ _ _
  have hzero : (after E i 8).symbol .zeroTableEnd = (after E i 7).symbol .zeroTableEnd :=
    symbol_later E i (n := 4) (m := 5) (by decide) (by decide)
  have hkept : (after E i 9).current .flash = (after E i 8).current .flash :=
    current_later E i (by decide) (by decide)
  obtain ⟨hfirst,hlast⟩ := tightlyCoupled_symbols (after E i 7) .cyItcm .itcm .itcmStart .itcmEnd
    i.itcm (by decide)
  rw [hdefine, hzero, zeroTable_load, hkept, itcm_exec, hfirst, hlast]
  exact (tightlyCoupled_flash _ _ _ _ _ _ (by decide)).symm

theorem dtcm_load : (after E i 11).symbol .etext = (after E i 11).current .flash := by
  have hdefine : (after E i 11).symbol .etext = (after E i 10).symbol .itcmFlashEnd +
      ((after E i 10).symbol .dtcmEnd - (after E i 10).symbol .dtcmStart) := by
    rw [after_succ (n := 10) rfl]
    exact valueOf_last _ _ _
  have hitcm : (after E i 10).symbol .itcmFlashEnd = (after E i 9).symbol .itcmFlashEnd :=
    symbol_later E i (n := 6) (m := 7) (by decide) (by decide)
  have hkept : (after E i 11).current .flash = (after E i 10).current .flash :=
    current_later E i (by decide) (by decide)
  obtain ⟨hfirst,hlast⟩ := tightlyCoupled_symbols (after E i 9) .cyDtcm .dtcm .dtcmStart .dtcmEnd
    i.dtcm (by decide)
  rw [hdefine, hitcm, itcm_load, hkept, dtcm_exec, hfirst, hlast]
  exact (tightlyCoupled_flash _ _ _ _ _ _ (by decide)).symm

theorem itcm_placed :
    (image E i).symbol .itcmStart = baseItcm ∧
    (image E i).symbol .itcmEnd = endOf baseItcm i.itcm ∧
    (image E i).startOf .itcm .cyItcm = some baseItcm ∧
    (image E i).startOf .flash .cyItcm = some ((image E i).symbol .zeroTableEnd) := by
  have hstart : (image E i).symbol .itcmStart = (after E i 8).symbol .itcmStart :=
    symbol_later E i (n := 5) (m := 24) (by decide) (by decide)
  have hend : (image E i).symbol .itcmEnd = (after E i 8).symbol .itcmEnd :=
    symbol_later E i (n := 5) (m := 24) (by decide) (by decide)
  have hzero : (image E i).symbol .zeroTableEnd = (after E i 7).symbol .zeroTableEnd :=
    symbol_later E i (n := 4) (m := 24) (by decide) (by decide)
  obtain ⟨hfirst,hlast⟩ := tightlyCoupled_symbols (after E i 7) .cyItcm .itcm .itcmStart .itcmEnd
    i.itcm (by decide)
  obtain ⟨hrun,hload⟩ := tightlyCoupled_starts (after E i 7) .cyItcm .itcm .itcmStart .itcmEnd
    i.itcm (by decide) (names_before E i (by decide))
  rw [← itcm_exec] at hfirst hlast hrun hload
  rw [hstart, hend, hzero, zeroTable_load]
  exact ⟨hfirst,hlast,startOf_image E i (by decide) hrun,startOf_image E i (by decide) hload⟩

theorem dtcm_placed :
    (image E i).symbol .dtcmStart = baseDtcm ∧
    (image E i).symbol .dtcmEnd = endOf baseDtcm i.dtcm ∧
    (image E i).startOf .dtcm .cyDtcm = some baseDtcm ∧
    (image E i).startOf .flash .cyDtcm = some ((image E i).symbol .itcmFlashEnd) := by
  have hstart : (image E i).symbol .dtcmStart = (after E i 10).symbol .dtcmStart :=
    symbol_later E i (n := 7) (m := 24) (by decide) (by decide)
  have hend : (image E i).symbol .dtcmEnd = (after E i 10).symbol .dtcmEnd :=
    symbol_later E i (n := 7) (m := 24) (by decide) (by decide)
  have hitcm : (image E i).symbol .itcmFlashEnd = (after E i 9).symbol .itcmFlashEnd :=
    symbol_later E i (n := 6) (m := 24) (by decide) (by decide)
  obtain ⟨hfirst,hlast⟩ := tightlyCoupled_symbols (after E i 9) .cyDtcm .dtcm .dtcmStart .dtcmEnd
    i.dtcm (by decide)
  obtain ⟨hrun,hload⟩ := tightlyCoupled_starts (after E i 9) .cyDtcm .dtcm .dtcmStart .dtcmEnd
    i.dtcm (by decide) (names_before E i (by decide))
  rw [← dtcm_exec] at hfirst hlast hrun hload
  rw [hstart, hend, hitcm, itcm_load]
  exact ⟨hfirst,hlast,startOf_image E i (by decide) hrun,startOf_image E i (by decide) hload⟩

theorem data_placed :
    (image E i).symbol .dataStart = alignUp ((image E i).symbol .ramVectorsEnd) 4 ∧
    (image E i).symbol .dataEnd % 4 = 0 ∧
    (image E i).startOf .ram .data = some ((image E i).symbol .ramVectorsEnd) ∧
    (image E i).startOf .flash .data = some ((image E i).symbol .etext) ∧
    (image E i).symbol .ramVectorsEnd % 4 = residueOf i.ramVectors 0 := by
  have hstart : (image E i).symbol .dataStart = (after E i 13).symbol .dataStart :=
    symbol_later E i (n := 10) (m := 24) (by decide) (by decide)
  have hend : (image E i).symbol .dataEnd = (after E i 13).symbol .dataEnd :=
    symbol_later E i (n := 10) (m := 24) (by decide) (by decide)
  have hvectors : (image E i).symbol .ramVectorsEnd = (after E i 12).symbol .ramVectorsEnd :=
    symbol_later E i (n := 9) (m := 24) (by decide) (by decide)
  have hetext : (image E i).symbol .etext = (after E i 11).symbol .etext :=
    symbol_later E i (n := 8) (m := 24) (by decide) (by decide)
  have hflash : (after E i 12).current .flash = (after E i 11).current .flash :=
    current_later E i (by decide) (by decide)
  have hexec : after E i 13 = (data i).exec memory (after E i 12) := after_succ (n := 12) rfl
  have hexec' : after E i 12 = (ramVectors i).exec memory (after E i 11) :=
    after_succ (n := 11) rfl
  obtain ⟨hfirst,hmod⟩ := data_symbols (after E i 12) i
  obtain ⟨hrun,hload⟩ := data_starts (after E i 12) i (names_before E i (by decide))
  rw [← hexec] at hfirst hmod hrun hload
  rw [hstart, hend, hvectors, hetext, dtcm_load, ← hflash]
  refine ⟨hfirst,hmod,startOf_image E i (by decide) hrun,startOf_image E i (by decide) hload,?_⟩
  rw [hexec']
  exact (ramVectors_end (after E i 11) i).1

end Placed

theorem bss_zeroed (E : ShellCmd) (i : ImageInputs) :
    (image E i).symbol .bssStart % 4 = 0 ∧ (image E i).symbol .bssEnd % 4 = 0 ∧
    (image E i).symbol .bssEnd = (after E i 15).current .ram := by
  have hstart : (image E i).symbol .bssStart = (after E i 15).symbol .bssStart :=
    symbol_later E i (n := 12) (m := 24) (by decide) (by decide)
  have hend : (image E i).symbol .bssEnd = (after E i 15).symbol .bssEnd :=
    symbol_later E i (n := 12) (m := 24) (by decide) (by decide)
  have hexec : after E i 15 = (bss i).exec memory (after E i 14) := after_succ (n := 14) rfl
  have hcreated : (bss i).exec memory (after E i 14) = (bss i).created memory (after E i 14) :=
    OutputSection.exec_created memory (by simp [OutputSection.assigned, bss, inRam, bracketed,
      Command.assigned])
  have hout : Symbol.bssStart ∉ [sections i.bss,sections i.common].flatMap Command.assigned := by
    simp [sections, Command.assigned]
  obtain ⟨hfirst,hlast,hmod,_⟩ := run_bracketed .bssStart .bssEnd (by decide : 0 < 4)
    (by decide) hout ⟨(bss i).vma (after E i 14),(after E i 14).symbols,(after E i 14).placed⟩
  rw [hstart, hend, hexec, OutputSection.exec_symbol, OutputSection.exec_symbol]
  refine ⟨?_,?_,?_⟩
  · exact (congrArg (· % 4) hfirst).trans (alignUp_mod _ (by decide))
  · exact (congrArg (· % 4) hlast).trans hmod
  · rw [hcreated, OutputSection.created_current]
    exact hlast.trans OutputSection.stop_region.symm

theorem tail_residue {origin : Nat} (ss : List InputSection) (h : origin % 4 = 0) :
    (endOf origin ss - origin) % 4 = 0 ↔ residueOf ss 0 = 0 := by
  have hresidue := endOf_residue ss origin
  have hle := le_endOf origin ss
  rw [h] at hresidue
  omega

section Restored

variable (E : ShellCmd) (i : ImageInputs)

def dataEntry (p : Image Region Name Symbol Piece) : CopyEntry :=
  ⟨p.symbol .etext,p.symbol .dataStart,(p.symbol .dataEnd - p.symbol .dataStart) / 4⟩

def itcmEntry (p : Image Region Name Symbol Piece) : CopyEntry :=
  ⟨p.symbol .zeroTableEnd,p.symbol .itcmStart,(p.symbol .itcmEnd - p.symbol .itcmStart) / 4⟩

def dtcmEntry (p : Image Region Name Symbol Piece) : CopyEntry :=
  ⟨p.symbol .itcmFlashEnd,p.symbol .dtcmStart,(p.symbol .dtcmEnd - p.symbol .dtcmStart) / 4⟩

theorem copyEntries_eq (p : Image Region Name Symbol Piece) :
    copyEntries p = [dataEntry p,itcmEntry p,dtcmEntry p] := rfl

theorem data_restored_iff :
    Restored (image E i) .ram .data ((image E i).symbol .dataStart) ((image E i).symbol .dataEnd)
      (dataEntry (image E i)) ↔
    residueOf i.ramVectors 0 = 0 ∨
      (image E i).symbol .dataEnd ≤ (image E i).symbol .dataStart := by
  obtain ⟨hstart,hend,hrun,hload,hvectors⟩ := data_placed E i
  have haligned : (image E i).symbol .dataStart % 4 = 0 := by
    rw [hstart]
    exact alignUp_mod _ (by decide)
  have hsame : alignUp ((image E i).symbol .ramVectorsEnd) 4 = (image E i).symbol .ramVectorsEnd ↔
      (image E i).symbol .ramVectorsEnd % 4 = 0 := alignUp_eq_iff (by decide)
  have hle := le_alignUp ((image E i).symbol .ramVectorsEnd) 4
  rw [← hstart] at hsame hle
  rw [dataEntry, restored_iff hrun hload, ← hvectors, ← hsame]
  omega

theorem itcm_restored_iff :
    Restored (image E i) .itcm .cyItcm ((image E i).symbol .itcmStart)
      ((image E i).symbol .itcmEnd) (itcmEntry (image E i)) ↔ residueOf i.itcm 0 = 0 := by
  obtain ⟨hstart,hend,hrun,hload⟩ := itcm_placed E i
  rw [itcmEntry, restored_iff hrun hload, hstart, hend, Nat.sub_self, Nat.add_zero,
    tail_residue _ (by decide)]
  exact ⟨And.left,fun h => ⟨h,.inr rfl⟩⟩

theorem dtcm_restored_iff :
    Restored (image E i) .dtcm .cyDtcm ((image E i).symbol .dtcmStart)
      ((image E i).symbol .dtcmEnd) (dtcmEntry (image E i)) ↔ residueOf i.dtcm 0 = 0 := by
  obtain ⟨hstart,hend,hrun,hload⟩ := dtcm_placed E i
  rw [dtcmEntry, restored_iff hrun hload, hstart, hend, Nat.sub_self, Nat.add_zero,
    tail_residue _ (by decide)]
  exact ⟨And.left,fun h => ⟨h,.inr rfl⟩⟩

end Restored

section Covered

variable (E : ShellCmd) (i : ImageInputs)

theorem itcm_covered : (image E i).Covered (cyItcm i) 1 .itcmStart .itcmEnd := by
  apply covered_image E i (n := 8) (by decide)
  · rw [itcm_exec]
    exact tightlyCoupled_covered _ _ _ _ _ _ (by decide) (names_before E i (by decide))
  · exact symbol_later E i (n := 5) (m := 24) (by decide) (by decide)
  · exact symbol_later E i (n := 5) (m := 24) (by decide) (by decide)

theorem dtcm_covered : (image E i).Covered (cyDtcm i) 1 .dtcmStart .dtcmEnd := by
  apply covered_image E i (n := 10) (by decide)
  · rw [dtcm_exec]
    exact tightlyCoupled_covered _ _ _ _ _ _ (by decide) (names_before E i (by decide))
  · exact symbol_later E i (n := 7) (m := 24) (by decide) (by decide)
  · exact symbol_later E i (n := 7) (m := 24) (by decide) (by decide)

theorem image_data_covered : (image E i).Covered (data i) 4 .dataStart .dataEnd := by
  have hexec : after E i 13 = (data i).exec memory (after E i 12) := after_succ (n := 12) rfl
  apply covered_image E i (n := 13) (by decide)
  · rw [hexec]
    exact data_covered _ i (names_before E i (by decide))
  · exact symbol_later E i (n := 10) (m := 24) (by decide) (by decide)
  · exact symbol_later E i (n := 10) (m := 24) (by decide) (by decide)

theorem image_bss_covered : (image E i).Covered (bss i) 4 .bssStart .bssEnd := by
  have hexec : after E i 15 = (bss i).exec memory (after E i 14) := after_succ (n := 14) rfl
  apply covered_image E i (n := 15) (by decide)
  · rw [hexec]
    exact bss_covered _ i (names_before E i (by decide))
  · exact symbol_later E i (n := 12) (m := 24) (by decide) (by decide)
  · exact symbol_later E i (n := 12) (m := 24) (by decide) (by decide)

end Covered

theorem startup_tables_iff (E : ShellCmd) (i : ImageInputs) :
    ∃ toRam toItcm toDtcm zeros, copyEntries (image E i) = [toRam,toItcm,toDtcm] ∧
      zeroTable.longs (image E i).symbol = [(image E i).symbol .bssStart,zeros] ∧
      ((image E i).Covered (data i) 4 .dataStart .dataEnd ∧
        (Restored (image E i) .ram .data ((image E i).symbol .dataStart)
          ((image E i).symbol .dataEnd) toRam ↔ residueOf i.ramVectors 0 = 0 ∨
            (image E i).symbol .dataEnd ≤ (image E i).symbol .dataStart)) ∧
      ((image E i).Covered (cyItcm i) 1 .itcmStart .itcmEnd ∧
        (Restored (image E i) .itcm .cyItcm ((image E i).symbol .itcmStart)
          ((image E i).symbol .itcmEnd) toItcm ↔ residueOf i.itcm 0 = 0)) ∧
      ((image E i).Covered (cyDtcm i) 1 .dtcmStart .dtcmEnd ∧
        (Restored (image E i) .dtcm .cyDtcm ((image E i).symbol .dtcmStart)
          ((image E i).symbol .dtcmEnd) toDtcm ↔ residueOf i.dtcm 0 = 0)) ∧
      (image E i).Covered (bss i) 4 .bssStart .bssEnd ∧
      (image E i).symbol .bssStart + 4 * zeros = (image E i).symbol .bssEnd := by
  obtain ⟨hbssStart,hbssEnd,_⟩ := bss_zeroed E i
  have hbss := image_bss_covered E i
  refine ⟨_,_,_,_,copyEntries_eq _,rfl,⟨image_data_covered E i,data_restored_iff E i⟩,
    ⟨itcm_covered E i,itcm_restored_iff E i⟩,⟨dtcm_covered E i,dtcm_restored_iff E i⟩,hbss,?_⟩
  have hmod : ((image E i).symbol .bssEnd - (image E i).symbol .bssStart) % 4 = 0 := by omega
  have hwords : 4 * (((image E i).symbol .bssEnd - (image E i).symbol .bssStart) / 4) =
      (image E i).symbol .bssEnd - (image E i).symbol .bssStart :=
    Nat.mul_div_cancel' (Nat.dvd_of_mod_eq_zero hmod)
  rw [hwords]
  exact Nat.add_sub_cancel' hbss.ordered

end UphyDemo.Linker
