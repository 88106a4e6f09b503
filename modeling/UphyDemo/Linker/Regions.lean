import UphyDemo.Linker.Startup

namespace UphyDemo.Linker
open Layout

section Order

variable (E : ShellCmd) (i : ImageInputs)

def boot : Image Region Name Symbol Piece := ⟨0,fun r => (memory r).origin,[],[],[],[]⟩

def freeBy : List Bool :=
  [false,true,false,true,true,true,true,false,true,false,true,true,false,true,true,true,true,true,
   true,true,true,true,true,true,true,true,true]

theorem free_script : (script E i).map Item.free = freeBy := rfl

theorem forward_free {n m : Nat} (h : ((freeBy.take m).drop n).all id = true)
    (hn : ForwardFrom memory boot ((script E i).take n)) (hnm : n ≤ m) :
    ForwardFrom memory boot ((script E i).take m) := by
  have hsplit : (script E i).take m = (script E i).take n ++ ((script E i).take m).drop n := by
    conv_lhs => rw [← List.take_append_drop n ((script E i).take m), List.take_take,
      Nat.min_eq_left hnm]
  rw [hsplit, forwardFrom_append]
  refine ⟨hn,forwardFrom_free memory ?_ _⟩
  rw [← free_script E i, ← List.map_take, ← List.map_drop, List.all_map] at h
  simpa using h

theorem forward_output {n : Nat} {o : Output} (h : (script E i)[n]? = some (.output o))
    (hn : ForwardFrom memory boot ((script E i).take n))
    (hstart : (after E i n).current o.region ≤ o.vma (after E i n))
    (hload : o.load ≠ some o.region) : ForwardFrom memory boot ((script E i).take (n + 1)) := by
  rw [List.take_add_one, h, forwardFrom_append]
  refine ⟨hn,?_,trivial⟩
  rintro o' heq
  obtain rfl := Item.output.inj heq
  exact ⟨hstart,hload⟩

theorem fixed_forward {n : Nat} {o : Output} {r : Region} (hregion : o.region = r)
    (h : o.address = .fixed (memory r).origin) (hfirst : r ∉ ((regionsBy.take n).drop 0).flatten) :
    (after E i n).current o.region ≤ o.vma (after E i n) := by
  have hcurrent : (after E i n).current r = (after E i 0).current r :=
    current_later E i (Nat.zero_le n) hfirst
  rw [hregion, hcurrent, OutputSection.vma, h]
  exact le_alignUp _ _

theorem vectors_current :
    (after E i 12).symbol .ramVectorsEnd = (after E i 12).current .ram := by
  have hexec : after E i 12 = (ramVectors i).exec memory (after E i 11) :=
    after_succ (n := 11) rfl
  rw [hexec]
  exact (ramVectors_end (after E i 11) i).2

theorem script_forward : ForwardFrom memory boot (script E i) := by
  have hcm0p := forward_output E i (n := 0) (o := cyCm0pImage i) rfl trivial
    (fixed_forward E i (r := .flashCm0p) rfl rfl (by decide)) (by simp [cyCm0pImage])
  have htext := forward_output E i (n := 2) (o := text E i) rfl
    (forward_free E i (n := 1) (by decide) hcm0p (by decide))
    (fixed_forward E i (r := .flash) rfl rfl (by decide)) (by simp [text])
  have hitcm := forward_output E i (n := 7) (o := cyItcm i) rfl
    (forward_free E i (n := 3) (by decide) htext (by decide))
    (fixed_forward E i (r := .itcm) rfl rfl (by decide)) (by simp [cyItcm, tightlyCoupled])
  have hdtcm := forward_output E i (n := 9) (o := cyDtcm i) rfl
    (forward_free E i (n := 8) (by decide) hitcm (by decide))
    (fixed_forward E i (r := .dtcm) rfl rfl (by decide)) (by simp [cyDtcm, tightlyCoupled])
  have hdata := forward_output E i (n := 12) (o := data i) rfl
    (forward_free E i (n := 10) (by decide) hdtcm (by decide))
    (by rw [data_vma, vectors_current]; exact Nat.le_refl _) (by simp [data])
  exact forward_free E i (n := 13) (m := 27) (by decide) hdata (by decide)

theorem after_tidy (n : Nat) : Tidy memory (after E i n) := by
  have hforward := script_forward E i
  rw [← List.take_append_drop n (script E i), forwardFrom_append] at hforward
  exact (tidy_start memory).layoutFrom memory hforward.1

end Order

section Heap

variable (i : ImageInputs) (p : Image Region Name Symbol Piece)

theorem heap_exec : (heap i).exec memory p = (heap i).created memory p :=
  OutputSection.exec_created memory (by simp [OutputSection.assigned, heap, inRam, assign,
    sections, Command.assigned])

theorem heap_body : ((heap i).body p).dot = max (endOf ((heap i).vma p) i.heap) stackBottom ∧
    ((heap i).body p).symbols = p.symbols ++ [(.heapBase,(heap i).vma p)] ++
      [(.text .end_,(heap i).vma p)] ++ [(.end_,(heap i).vma p)] ++
      [(.heapLimit,max (endOf ((heap i).vma p) i.heap) stackBottom)] := by
  constructor <;>
    simp [OutputSection.body, OutputSection.run, heap, inRam, assign, sections, Command.exec,
      Statement.exec, Function.comp_def]

theorem heap_symbols :
    ((heap i).exec memory p).symbol .heapBase = (heap i).vma p ∧
    ((heap i).exec memory p).symbol .end_ = (heap i).vma p ∧
    ((heap i).exec memory p).symbol .heapLimit =
      max (endOf ((heap i).vma p) i.heap) stackBottom := by
  rw [OutputSection.exec_symbol, OutputSection.exec_symbol, OutputSection.exec_symbol,
    (heap_body i p).2]
  refine ⟨?_,?_,valueOf_last _ _ _⟩
  · rw [valueOf_other _ _ (by decide), valueOf_other _ _ (by decide), valueOf_other _ _ (by decide)]
    exact valueOf_last _ _ _
  · rw [valueOf_other _ _ (by decide)]
    exact valueOf_last _ _ _

theorem heap_backwards : .backwards .heap ∈ (heap i).errors memory p ↔
    stackBottom < endOf ((heap i).vma p) i.heap := by
  have hback : OutputSection.goesBack (heap i).commands
      ⟨(heap i).vma p,p.symbols,p.placed⟩ = true ↔
        stackBottom < endOf ((heap i).vma p) i.heap := by
    simp [OutputSection.goesBack, heap, inRam, assign, sections, Command.exec, Command.backwards,
      Statement.exec, Function.comp_def]
  rw [OutputSection.mem_errors, hback]
  constructor
  · rintro (⟨_,hlt⟩ | ⟨r,_,heq,_⟩)
    · exact hlt
    · cases heq
  · intro hlt
    exact .inl ⟨rfl,hlt⟩

end Heap

section Checked

variable (E : ShellCmd) (i : ImageInputs)

theorem errors_of_stage {n : Nat} (hn : n ≤ 27) {x : LinkError Region Name}
    (h : x ∈ (after E i n).errors) : x ∈ (image E i).errors := by
  rw [image_eq, after, layout_take memory _ hn]
  exact (layoutFrom_grows memory _ _).1.subset h

theorem heap_stage : after E i 16 = (heap i).created memory (after E i 15) := by
  rw [← heap_exec]
  exact after_succ (n := 15) rfl

theorem heap_placed :
    (image E i).symbol .heapBase = (heap i).vma (after E i 15) ∧
    (image E i).symbol .end_ = (heap i).vma (after E i 15) ∧
    (image E i).symbol .heapLimit =
      max (endOf ((heap i).vma (after E i 15)) i.heap) stackBottom := by
  have hbase : (image E i).symbol .heapBase = (after E i 16).symbol .heapBase :=
    symbol_later E i (n := 13) (m := 24) (by decide) (by decide)
  have hend : (image E i).symbol .end_ = (after E i 16).symbol .end_ :=
    symbol_later E i (n := 13) (m := 24) (by decide) (by decide)
  have hlimit : (image E i).symbol .heapLimit = (after E i 16).symbol .heapLimit :=
    symbol_later E i (n := 13) (m := 24) (by decide) (by decide)
  rw [hbase, hend, hlimit, heap_stage, ← heap_exec]
  exact heap_symbols i _

theorem stack_symbols : (after E i 19).symbol .stackTop = stackBottom + stackSize ∧
    (after E i 19).symbol .stackLimit = stackBottom := by
  have htop : (after E i 18).symbol .stackTop = (memory .ram).origin + (memory .ram).length := by
    rw [after_succ (n := 17) rfl]
    exact valueOf_last _ _ _
  have hlater : (after E i 19).symbol .stackTop = (after E i 18).symbol .stackTop :=
    symbol_later E i (n := 15) (m := 16) (by decide) (by decide)
  have hlimit : (after E i 19).symbol .stackLimit =
      (after E i 18).symbol .stackTop - stackSize := by
    rw [after_succ (n := 18) rfl]
    exact valueOf_last _ _ _
  rw [hlimit, hlater, htop]
  exact ⟨rfl,rfl⟩

theorem mem_image_errors {x : LinkError Region Name} : x ∈ (image E i).errors ↔
    ∃ (n : Nat) (item : ScriptItem), (script E i)[n]? = some item ∧
      x ∈ item.raised memory (after E i n) := by
  rw [image, layout, mem_layoutFrom_errors]
  simp [after, layout]

theorem raised_output {x : LinkError Region Name} {item : ScriptItem}
    {p : Image Region Name Symbol Piece} {r : Region} {name : Name} (hx : x = .overflow r name)
    (h : x ∈ item.raised memory p) : item.names = [name] := by
  cases item with
  | output o =>
    rw [Item.raised] at h
    split at h
    · cases h
    · rw [OutputSection.mem_errors, hx] at h
      rcases h with ⟨heq,_⟩ | ⟨r',_,heq,_⟩
      · cases heq
      · rw [Item.names, (LinkError.overflow.inj heq).2]
  | define sym value => cases h
  | check holds message =>
    rw [Item.raised] at h
    split at h
    · cases h
    · rw [List.mem_singleton, hx] at h
      cases h

theorem only_named {n k : Nat} {item : ScriptItem} {name : Name}
    (honly : ∀ n < 27, namesBy[n]? = some [name] → n = k) (h : (script E i)[n]? = some item)
    (hname : item.names = [name]) : n = k := by
  have hnames : namesBy[n]? = some [name] := by
    rw [← names_script E i, List.getElem?_map, h, Option.map_some, hname]
  obtain ⟨hlt,_⟩ := List.getElem?_eq_some_iff.mp hnames
  exact honly n hlt hnames

theorem overflow_stage {k : Nat} {o : Output} {r : Region} {name : Name}
    (hstage : (script E i)[k]? = some (.output o))
    (honly : ∀ n < 27, namesBy[n]? = some [name] → n = k)
    (h : .overflow r name ∈ (image E i).errors) :
    (memory r).origin + (memory r).length < o.stop (after E i k) r := by
  obtain ⟨n,item,hitem,hraised⟩ := (mem_image_errors E i).mp h
  obtain rfl := only_named E i honly hitem (raised_output rfl hraised)
  obtain rfl := Option.some.inj (hitem.symm.trans hstage)
  rw [Item.raised] at hraised
  split at hraised
  · cases hraised
  · rcases (OutputSection.mem_errors memory).mp hraised with ⟨heq,_⟩ | ⟨r',_,heq,hover⟩
    · cases heq
    · rw [(LinkError.overflow.inj heq).1]
      exact hover

theorem failed_check {x : String} (h : .assertion x ∈ (image E i).errors) :
    ∃ (n : Nat) (holds : (Symbol → Nat) → Bool), (script E i)[n]? = some (.check holds x) ∧
      holds (after E i n).symbol = false := by
  obtain ⟨n,item,hitem,hraised⟩ := (mem_image_errors E i).mp h
  cases item with
  | output o =>
    rw [Item.raised] at hraised
    split at hraised
    · cases hraised
    · rcases (OutputSection.mem_errors memory).mp hraised with ⟨heq,_⟩ | ⟨_,_,heq,_⟩ <;> cases heq
  | define sym value => cases hraised
  | check holds message =>
    rw [Item.raised] at hraised
    split at hraised
    next => cases hraised
    next hfails =>
      obtain rfl := LinkError.assertion.inj (List.mem_singleton.mp hraised)
      exact ⟨n,holds,hitem,by simpa using hfails⟩

def isCheck : ScriptItem → Bool
  | .check _ _ => true
  | _ => false

theorem checks_script : (script E i).map isCheck =
    (List.range 27).map fun n => n == 1 || n == 19 := rfl

theorem check_stage {n : Nat} {holds : (Symbol → Nat) → Bool} {message : String}
    (h : (script E i)[n]? = some (.check holds message)) : n = 1 ∨ n = 19 := by
  have hcheck : ((script E i).map isCheck)[n]? = some true := by
    rw [List.getElem?_map, h]
    rfl
  rw [checks_script, List.getElem?_map, Option.map_eq_some_iff] at hcheck
  obtain ⟨m,hm,htrue⟩ := hcheck
  obtain rfl : n = m := by
    obtain ⟨hlt,hget⟩ := List.getElem?_eq_some_iff.mp hm
    simpa using hget
  simpa using htrue

theorem ram_check (h : .assertion ramOverflow ∈ (image E i).errors) :
    .backwards .heap ∈ (image E i).errors := by
  obtain ⟨n,holds,hitem,hfails⟩ := failed_check E i h
  rcases check_stage E i hitem with rfl | rfl
  · obtain ⟨_,hmessage⟩ := Item.check.inj (Option.some.inj hitem)
    exact absurd hmessage (by decide)
  · obtain ⟨rfl,_⟩ := Item.check.inj (Option.some.inj hitem)
    have hlimit : (after E i 19).symbol .heapLimit = (after E i 16).symbol .heapLimit :=
      symbol_later E i (n := 13) (m := 16) (by decide) (by decide)
    rw [decide_eq_false_iff_not, (stack_symbols E i).2, hlimit, heap_stage, ← heap_exec,
      (heap_symbols i _).2.2] at hfails
    refine errors_of_stage E i (n := 16) (by decide) ?_
    rw [heap_stage]
    refine List.mem_append_right _ ((heap_backwards i _).mpr ?_)
    omega

theorem dtcm_check (h : .overflow .dtcm .cyDtcm ∈ (image E i).errors) :
    .overflow .flash .cyDtcm ∈ (image E i).errors := by
  have hover : (memory .dtcm).origin + (memory .dtcm).length <
      (cyDtcm i).stop (after E i 9) .dtcm := overflow_stage E i (k := 9) rfl (by decide) h
  have hstop : (cyDtcm i).stop (after E i 9) .dtcm = endOf baseDtcm i.dtcm :=
    OutputSection.stop_region.trans (tightlyCoupled_body (after E i 9) _ _ _ _ _).1
  have horigin := (after_tidy E i 9).origin .flash
  have hflash := tightlyCoupled_flash (after E i 9) .cyDtcm .dtcm .dtcmStart .dtcmEnd i.dtcm
    (by decide)
  refine errors_of_stage E i (n := 10) (by decide) ?_
  rw [dtcm_exec, tightlyCoupled_exec]
  rw [tightlyCoupled_exec, OutputSection.created_current] at hflash
  refine List.mem_append_right _ ((OutputSection.mem_errors memory).mpr (.inr ?_))
  refine ⟨.flash,by simp [tightlyCoupled],rfl,?_⟩
  rw [hflash]
  rw [hstop] at hover
  simp only [memory, baseDtcm, codeFlashBaseAddress, cm0plusCodeFlashReserve,
    cm70CodeFlashReserve] at hover horigin ⊢
  omega

theorem cm0p_check (h : .overflow .flashCm0p .cyCm0pImage ∈ (image E i).errors) :
    .assertion cm0pOverflow ∈ (image E i).errors := by
  have hover : (memory .flashCm0p).origin + (memory .flashCm0p).length <
      (cyCm0pImage i).stop (after E i 0) .flashCm0p := overflow_stage E i (k := 0) rfl (by decide) h
  have hexec : after E i 1 = (cyCm0pImage i).exec memory (after E i 0) := after_succ (n := 0) rfl
  have hend : (after E i 1).symbol .cyM0pCodeEnd = (cyCm0pImage i).stop (after E i 0) .flashCm0p := by
    have hstop : (cyCm0pImage i).stop (after E i 0) .flashCm0p =
        ((cyCm0pImage i).body (after E i 0)).dot := OutputSection.stop_region
    rw [hexec, OutputSection.exec_symbol, hstop]
    exact valueOf_last _ _ _
  refine errors_of_stage E i (n := 2) (by decide) ?_
  rw [after_succ (n := 1) rfl]
  rcases Item.exec_check memory (fun v => decide (v .cyM0pCodeEnd < (memory .flash).origin))
    cm0pOverflow (after E i 1) with ⟨hholds,_⟩ | ⟨_,hexec'⟩
  · rw [decide_eq_true_iff, hend] at hholds
    simp only [memory] at hover hholds
    omega
  · rw [hexec']
    exact List.mem_append_right _ (List.mem_singleton.mpr rfl)

end Checked

theorem redundant_checks (E : ShellCmd) (i : ImageInputs) :
    (.assertion ramOverflow ∈ (image E i).errors → .backwards .heap ∈ (image E i).errors) ∧
    (.overflow .dtcm .cyDtcm ∈ (image E i).errors →
      .overflow .flash .cyDtcm ∈ (image E i).errors) ∧
    (.overflow .flashCm0p .cyCm0pImage ∈ (image E i).errors →
      .assertion cm0pOverflow ∈ (image E i).errors) :=
  ⟨ram_check E i,dtcm_check E i,cm0p_check E i⟩

structure SoundImage (p : Image Region Name Symbol Piece) : Prop where
  apart : p.extents.Pairwise fun e e' => e.region = e'.region → e.stop ≤ e'.start
  inside : ∀ e ∈ p.extents, (memory e.region).origin ≤ e.start ∧ e.start ≤ e.stop ∧
    e.stop ≤ (memory e.region).origin + (memory e.region).length
  heap : p.symbol .end_ = p.symbol .heapBase ∧ p.symbol .bssEnd ≤ p.symbol .heapBase ∧
    p.symbol .heapBase ≤ p.symbol .heapLimit
  stack : p.symbol .heapLimit = p.symbol .stackLimit ∧
    p.symbol .stackTop = p.symbol .stackLimit + stackSize ∧
    p.symbol .stackTop = (memory .ram).origin + (memory .ram).length

theorem image_sound {E : ShellCmd} {i : ImageInputs} (h : (image E i).errors = []) :
    SoundImage (image E i) := by
  have htidy := after_tidy E i 27
  rw [← image_eq] at htidy
  obtain ⟨hbase,hend,hlimit⟩ := heap_placed E i
  obtain ⟨htop,hstack⟩ := stack_symbols E i
  have htop' : (image E i).symbol .stackTop = (after E i 19).symbol .stackTop :=
    symbol_later E i (n := 16) (m := 24) (by decide) (by decide)
  have hstack' : (image E i).symbol .stackLimit = (after E i 19).symbol .stackLimit :=
    symbol_later E i (n := 16) (m := 24) (by decide) (by decide)
  have hroom : endOf ((heap i).vma (after E i 15)) i.heap ≤ stackBottom := by
    by_contra hover
    have hback := (heap_backwards i (after E i 15)).mpr (Nat.lt_of_not_le hover)
    have hmem : .backwards .heap ∈ (image E i).errors := by
      refine errors_of_stage E i (n := 16) (by decide) ?_
      rw [heap_stage]
      exact List.mem_append_right _ hback
    rw [h] at hmem
    cases hmem
  refine ⟨htidy.apart,?_,⟨?_,?_,?_⟩,?_,?_,?_⟩
  · intro e he
    obtain ⟨horigin,hle,hstop⟩ := htidy.below e he
    exact ⟨horigin,hle,Nat.le_trans hstop (htidy.fits h e.region)⟩
  · rw [hend, hbase]
  · rw [hbase, (bss_zeroed E i).2.2]
    exact le_alignUp _ _
  · have hle := le_endOf ((heap i).vma (after E i 15)) i.heap
    rw [hbase, hlimit]
    omega
  · rw [hlimit, hstack', hstack]
    omega
  · rw [htop', hstack', htop, hstack]
  · rw [htop', htop]
    rfl

def smallImage : ImageInputs where
  cm0pImage := [⟨0x4000,2⟩]
  text := ⟨[⟨0x400,10⟩],[⟨0x20000,2⟩],[⟨[97]⟩],[]⟩
  armExtab := []
  armExidx := [⟨8,2⟩]
  itcm := [⟨6,1⟩]
  dtcm := [⟨0x5000,3⟩]
  ramVectors := [⟨0x400,7⟩]
  vtable := []
  data := [⟨0x6d,2⟩]
  preinitArray := []
  initArraySorted := []
  initArray := [⟨4,2⟩]
  finiArraySorted := []
  finiArray := [⟨4,2⟩]
  jcr := []
  ramfunc := []
  sharedmem := []
  noinit := []
  bss := [⟨0x8000,3⟩]
  common := []
  heap := []
  stack := [⟨0x1000,3⟩]
  rest := fun _ => []

theorem image_sound_small : SoundImage (image pointers smallImage) :=
  image_sound (by decide +kernel)

-- the section is larger than the 16 KiB of the DTCM, and no check of the script says so
example : (image pointers smallImage).errors = [] ∧
    0x4000 < endOf baseDtcm smallImage.dtcm - baseDtcm := by decide +kernel

end UphyDemo.Linker
