import Mathlib.Data.List.Forall2
import Mathlib.Data.List.Pairwise
import UphyDemo.Foundation.Layout

namespace Layout

structure Memory where
  origin : Nat
  length : Nat

-- where an output section starts: at the region's pointer, or at an address expression
inductive Address (Sym : Type) where
  | next
  | fixed (a : Nat)
  | symbol (sym : Sym)

-- what stands between the braces; `long` is LONG(expression)
inductive Command (Sym A : Type) where
  | statement (statement : Statement Sym A)
  | long (value : (Sym → Nat) → Nat)
  | moveDot (a : Nat)

def bracketed {Sym A : Type} (n : Nat) (first last : Sym) (contents : List (Command Sym A)) :
    List (Command Sym A) :=
  .statement (.alignDot n) :: .statement (.assign first) ::
    (contents ++ [.statement (.alignDot n),.statement (.assign last)])

structure OutputSection (R N Sym A : Type) where
  name : N
  address : Address Sym
  align : Nat
  commands : List (Command Sym A)
  region : R
  load : Option R

inductive Item (R N Sym A : Type) where
  | output (o : OutputSection R N Sym A)
  | define (sym : Sym) (value : Nat → (Sym → Nat) → Nat)
  | check (holds : (Sym → Nat) → Bool) (message : String)

inductive LinkError (R N : Type) where
  | backwards (name : N)
  | overflow (region : R) (name : N)
  | assertion (message : String)
deriving DecidableEq, Repr

structure Extent (R N : Type) where
  region : R
  name : N
  start : Nat
  stop : Nat
deriving DecidableEq, Repr

structure Image (R N Sym A : Type) where
  dot : Nat
  current : R → Nat
  symbols : List (Sym × Nat)
  placed : List (A × Nat)
  extents : List (Extent R N)
  errors : List (LinkError R N)

section Symbols

variable {R N Sym A : Type} [DecidableEq Sym]

-- a symbol has the value of its last assignment
def valueOf (symbols : List (Sym × Nat)) (sym : Sym) : Nat :=
  (symbols.reverse.lookup sym).getD 0

def Image.symbol (p : Image R N Sym A) (sym : Sym) : Nat := valueOf p.symbols sym

end Symbols

def Statement.rename {Sym Sym' A : Type} (f : Sym → Sym') : Statement Sym A → Statement Sym' A
  | .alignDot n => .alignDot n
  | .assign sym => .assign (f sym)
  | .input sections => .input sections

section Body

variable {R N Sym A : Type}

def Command.exec : Command Sym A → Placement Sym A → Placement Sym A
  | .statement s, p => s.exec p
  | .long _, p => { p with dot := p.dot + 4 }
  | .moveDot a, p => { p with dot := max p.dot a }

def Command.backwards (p : Placement Sym A) : Command Sym A → Bool
  | .moveDot a => decide (a < p.dot)
  | _ => false

def Command.sections : Command Sym A → List InputSection
  | .statement (.input ss) => ss.map Prod.snd
  | _ => []

def Command.assigned : Command Sym A → List Sym
  | .statement (.assign sym) => [sym]
  | _ => []

def maxAlign (ss : List InputSection) : Nat := ss.foldl (fun n s => max n s.align) 1

namespace OutputSection

variable (o : OutputSection R N Sym A)

def inputs : List InputSection := o.commands.flatMap Command.sections

def run (p : Placement Sym A) : Placement Sym A := o.commands.foldl (fun p c => c.exec p) p

def goesBack : List (Command Sym A) → Placement Sym A → Bool
  | [], _ => false
  | c :: cs, p => c.backwards p || goesBack cs (c.exec p)

def longs (values : Sym → Nat) : List Nat :=
  o.commands.filterMap fun
    | .long value => some (value values)
    | _ => none

def assigned : List Sym := o.commands.flatMap Command.assigned

-- a section left without contents and without symbols is not created; ld also discards one that
-- only assigns symbols, which stays here as an extent of size 0
def dropped (size : Nat) : Bool := o.assigned.isEmpty && decide (size = 0)

end OutputSection

end Body

section Link

variable {R N Sym A : Type} [DecidableEq R] [DecidableEq Sym]

namespace OutputSection

variable (mem : R → Memory) (o : OutputSection R N Sym A) (p : Image R N Sym A)

def vma : Nat :=
  match o.address with
  | .next => alignUp (p.current o.region) (max o.align (maxAlign o.inputs))
  | .fixed a => alignUp a o.align
  | .symbol sym => alignUp (p.symbol sym) o.align

-- AT>region: the load address is aligned by the output statement only
def lma (r : R) : Nat := alignUp (p.current r) o.align

def body : Placement Sym A := o.run ⟨o.vma p,p.symbols,p.placed⟩

def size : Nat := (o.body p).dot - o.vma p

def stop (r : R) : Nat :=
  if r = o.region then (o.body p).dot
  else if o.load = some r then o.lma p r + o.size p
  else p.current r

def extents : List (Extent R N) :=
  ⟨o.region,o.name,o.vma p,(o.body p).dot⟩ ::
    o.load.toList.map fun r => ⟨r,o.name,o.lma p r,o.lma p r + o.size p⟩

def overflows : List (LinkError R N) :=
  (o.region :: o.load.toList).filterMap fun r =>
    if o.stop p r ≤ (mem r).origin + (mem r).length then none else some (.overflow r o.name)

def errors : List (LinkError R N) :=
  (if goesBack o.commands ⟨o.vma p,p.symbols,p.placed⟩ then [.backwards o.name] else []) ++
    o.overflows mem p

def exec : Image R N Sym A :=
  if o.dropped (o.size p) then { p with placed := (o.body p).placed }
  else
    { dot := (o.body p).dot
      current := o.stop p
      symbols := (o.body p).symbols
      placed := (o.body p).placed
      extents := p.extents ++ o.extents p
      errors := p.errors ++ o.errors mem p }

end OutputSection

def Item.exec (mem : R → Memory) : Item R N Sym A → Image R N Sym A → Image R N Sym A
  | .output o, p => o.exec mem p
  | .define sym value, p => { p with symbols := p.symbols ++ [(sym,value p.dot p.symbol)] }
  | .check holds message, p =>
      if holds p.symbol then p else { p with errors := p.errors ++ [.assertion message] }

def Item.assigned : Item R N Sym A → List Sym
  | .output o => o.assigned
  | .define sym _ => [sym]
  | .check _ _ => []

def Item.regions : Item R N Sym A → List R
  | .output o => o.region :: o.load.toList
  | _ => []

def Item.names : Item R N Sym A → List N
  | .output o => [o.name]
  | _ => []

def Item.raised (mem : R → Memory) (p : Image R N Sym A) : Item R N Sym A → List (LinkError R N)
  | .output o => if o.dropped (o.size p) then [] else o.errors mem p
  | .define _ _ => []
  | .check holds message => if holds p.symbol then [] else [.assertion message]

def layoutFrom (mem : R → Memory) (p : Image R N Sym A) (script : List (Item R N Sym A)) :
    Image R N Sym A :=
  script.foldl (fun p item => item.exec mem p) p

def Image.extentOf [DecidableEq N] (p : Image R N Sym A) (r : R) (name : N) :
    Option (Extent R N) :=
  p.extents.find? fun e => decide (e.region = r ∧ e.name = name)

def Image.startOf [DecidableEq N] (p : Image R N Sym A) (r : R) (name : N) : Option Nat :=
  (p.extentOf r name).map Extent.start

def layout (mem : R → Memory) (script : List (Item R N Sym A)) : Image R N Sym A :=
  layoutFrom mem ⟨0,fun r => (mem r).origin,[],[],[],[]⟩ script

end Link

section Body

variable {R N Sym A : Type}

theorem alignUp_one (dot : Nat) : alignUp dot 1 = dot := by simp [alignUp, Nat.mod_one]

theorem le_alignUp (dot n : Nat) : dot ≤ alignUp dot n := Nat.le_add_right _ _

theorem le_endOf (dot : Nat) (ss : List InputSection) : dot ≤ endOf dot ss := by
  induction ss generalizing dot with
  | nil => exact Nat.le_refl dot
  | cons s ss ih =>
    have hfinish : dot ≤ s.finish dot := Nat.le_trans (le_alignUp dot s.align) (Nat.le_add_right _ _)
    exact Nat.le_trans hfinish (ih _)

theorem Command.le_dot (c : Command Sym A) (p : Placement Sym A) : p.dot ≤ (c.exec p).dot := by
  cases c with
  | statement s =>
    cases s with
    | alignDot n => exact le_alignUp _ _
    | assign sym => exact Nat.le_refl _
    | input ss => exact le_endOf _ _
  | long value => exact Nat.le_add_right _ _
  | moveDot a => exact Nat.le_max_left _ _

theorem run_le_dot (cs : List (Command Sym A)) (p : Placement Sym A) :
    p.dot ≤ (cs.foldl (fun p c => c.exec p) p).dot := by
  induction cs generalizing p with
  | nil => exact Nat.le_refl _
  | cons c cs ih => exact Nat.le_trans (c.le_dot p) (ih _)

theorem run_renamed {Sym' : Type} (f : Sym → Sym') (script : List (Statement Sym A))
    (symbols : List (Sym' × Nat)) (placed : List (A × Nat)) (p : Placement Sym A) :
    (script.map fun s => Command.statement (s.rename f)).foldl (fun p c => c.exec p)
        ⟨p.dot,symbols ++ p.symbols.map fun x => (f x.1,x.2),placed ++ p.placed⟩ =
      let q := script.foldl (fun p s => s.exec p) p
      ⟨q.dot,symbols ++ q.symbols.map fun x => (f x.1,x.2),placed ++ q.placed⟩ := by
  induction script generalizing p with
  | nil => rfl
  | cons s script ih =>
    rw [List.map_cons, List.foldl_cons, List.foldl_cons, ← ih (s.exec p)]
    cases s <;> simp [Command.exec, Statement.rename, Statement.exec]

section Contents

def Contained (first last : Nat) (s : InputSection) (x : A × Nat) : Prop :=
  first ≤ x.2 ∧ x.2 + s.size ≤ last

theorem Contained.mono {first first' last last' : Nat} {s : InputSection} {x : A × Nat}
    (h : Contained first last s x) (hfirst : first' ≤ first) (hlast : last ≤ last') :
    Contained first' last' s x :=
  ⟨Nat.le_trans hfirst h.1,Nat.le_trans h.2 hlast⟩

-- the input sections are placed one after the other, all between two addresses
def Image.Holds (p : Image R N Sym A) (ss : List InputSection) (first last : Nat) : Prop :=
  ∃ before mid after, p.placed = before ++ mid ++ after ∧
    List.Forall₂ (Contained first last) ss mid

theorem place_contained (dot : Nat) (ss : List (A × InputSection)) :
    List.Forall₂ (Contained dot (endOf dot (ss.map Prod.snd))) (ss.map Prod.snd) (place dot ss) := by
  induction ss generalizing dot with
  | nil => exact .nil
  | cons x ss ih =>
    have hstart : dot ≤ alignUp dot x.2.align := le_alignUp dot x.2.align
    have hfinish : dot ≤ x.2.finish dot := Nat.le_trans hstart (Nat.le_add_right _ _)
    refine .cons ⟨hstart,le_endOf _ _⟩ ?_
    exact (ih (x.2.finish dot)).imp fun _ _ h => h.mono hfinish (Nat.le_refl _)

theorem Command.exec_contents (c : Command Sym A) (p : Placement Sym A) :
    ∃ mid, (c.exec p).placed = p.placed ++ mid ∧
      List.Forall₂ (Contained p.dot (c.exec p).dot) c.sections mid := by
  cases c with
  | statement s =>
    cases s with
    | input ss => exact ⟨_,rfl,place_contained p.dot ss⟩
    | alignDot n | assign sym => exact ⟨[],(List.append_nil _).symm,.nil⟩
  | long value | moveDot a => exact ⟨[],(List.append_nil _).symm,.nil⟩

theorem run_contents (cs : List (Command Sym A)) (p : Placement Sym A) :
    ∃ mid, (cs.foldl (fun p c => c.exec p) p).placed = p.placed ++ mid ∧
      List.Forall₂ (Contained p.dot (cs.foldl (fun p c => c.exec p) p).dot)
        (cs.flatMap Command.sections) mid := by
  induction cs generalizing p with
  | nil => exact ⟨[],(List.append_nil _).symm,.nil⟩
  | cons c cs ih =>
    obtain ⟨now,hnow,hin⟩ := c.exec_contents p
    obtain ⟨later,hlater,hin'⟩ := ih (c.exec p)
    refine ⟨now ++ later,?_,?_⟩
    · rw [List.foldl_cons, hlater, hnow, List.append_assoc]
    · rw [List.flatMap_cons]
      refine List.rel_append ?_ ?_
      · exact hin.imp fun _ _ h => h.mono (Nat.le_refl _) (run_le_dot cs _)
      · exact hin'.imp fun _ _ h => h.mono (c.le_dot p) (Nat.le_refl _)

theorem bracketed_contents (n : Nat) (first last : Sym) (contents : List (Command Sym A))
    (p : Placement Sym A) :
    let q := (bracketed n first last contents).foldl (fun p c => c.exec p) p
    ∃ mid, q.placed = p.placed ++ mid ∧ List.Forall₂ (Contained (alignUp p.dot n) q.dot)
      ((bracketed n first last contents).flatMap Command.sections) mid := by
  have hsections : (bracketed n first last contents).flatMap Command.sections =
      (contents ++ [Command.statement (.alignDot n),.statement (.assign last)]).flatMap
        Command.sections := rfl
  rw [hsections]
  exact run_contents _ ⟨alignUp p.dot n,p.symbols ++ [(first,alignUp p.dot n)],p.placed⟩

end Contents

section Symbols

variable [DecidableEq Sym]

theorem valueOf_last (symbols : List (Sym × Nat)) (sym : Sym) (a : Nat) :
    valueOf (symbols ++ [(sym,a)]) sym = a := by
  simp [valueOf]

theorem valueOf_other (symbols : List (Sym × Nat)) {sym s : Sym} (a : Nat) (h : sym ≠ s) :
    valueOf (symbols ++ [(s,a)]) sym = valueOf symbols sym := by
  have hbeq : (sym == s) = false := by simpa using h
  simp [valueOf, List.lookup_cons, hbeq]

theorem Command.valueOf_kept {c : Command Sym A} {sym : Sym} (h : sym ∉ c.assigned)
    (p : Placement Sym A) : valueOf (c.exec p).symbols sym = valueOf p.symbols sym := by
  cases c with
  | statement s =>
    cases s with
    | alignDot n | input ss => rfl
    | assign s =>
      have hne : sym ≠ s := by simpa [Command.assigned] using h
      exact valueOf_other _ _ hne
  | long value | moveDot a => rfl

theorem run_valueOf_kept {cs : List (Command Sym A)} {sym : Sym}
    (h : sym ∉ cs.flatMap Command.assigned) (p : Placement Sym A) :
    valueOf (cs.foldl (fun p c => c.exec p) p).symbols sym = valueOf p.symbols sym := by
  induction cs generalizing p with
  | nil => rfl
  | cons c cs ih =>
    rw [List.flatMap_cons, List.mem_append, not_or] at h
    rw [List.foldl_cons, ih h.2, Command.valueOf_kept h.1]

theorem run_bracketed {n : Nat} (first last : Sym) {contents : List (Command Sym A)}
    (hn : 0 < n) (hne : first ≠ last) (h : first ∉ contents.flatMap Command.assigned)
    (p : Placement Sym A) :
    let q := (bracketed n first last contents).foldl (fun p c => c.exec p) p
    valueOf q.symbols first = alignUp p.dot n ∧ valueOf q.symbols last = q.dot ∧
      q.dot % n = 0 ∧ alignUp p.dot n ≤ q.dot := by
  have hlast : first ∉ (contents ++ [Command.statement (.alignDot n),
      .statement (.assign last)]).flatMap Command.assigned := by
    rw [List.flatMap_append, List.mem_append, not_or]
    exact ⟨h,by simpa [Command.assigned] using hne⟩
  refine ⟨?_,?_,?_,?_⟩
  · exact (run_valueOf_kept hlast _).trans (valueOf_last _ _ _)
  · simp only [bracketed, List.foldl_cons, List.foldl_append, List.foldl_nil]
    exact valueOf_last _ _ _
  · simp only [bracketed, List.foldl_cons, List.foldl_append, List.foldl_nil]
    exact alignUp_mod _ hn
  · exact run_le_dot (contents ++ [.statement (.alignDot n),.statement (.assign last)])
      ⟨alignUp p.dot n,p.symbols ++ [(first,alignUp p.dot n)],p.placed⟩

end Symbols

end Body

section Run

variable {R N Sym A : Type} [DecidableEq R] [DecidableEq Sym] (mem : R → Memory)
  {p : Image R N Sym A} {o : OutputSection R N Sym A}

namespace OutputSection

omit [DecidableEq R] [DecidableEq Sym] in
theorem dropped_symbols {n : Nat} (h : o.dropped n = true) (sym : Sym) : sym ∉ o.assigned := by
  have hnil : o.assigned = [] := by
    rw [dropped, Bool.and_eq_true] at h
    exact List.isEmpty_iff.mp h.1
  simp [hnil]

def created (p : Image R N Sym A) : Image R N Sym A where
  dot := (o.body p).dot
  current := o.stop p
  symbols := (o.body p).symbols
  placed := (o.body p).placed
  extents := p.extents ++ o.extents p
  errors := p.errors ++ o.errors mem p

theorem created_current : (o.created mem p).current = o.stop p := rfl

theorem exec_cases (o : OutputSection R N Sym A) (p : Image R N Sym A) :
    (o.dropped (o.size p) = true ∧ o.exec mem p = { p with placed := (o.body p).placed }) ∨
    (o.dropped (o.size p) = false ∧ o.exec mem p = o.created mem p) := by
  cases h : o.dropped (o.size p) with
  | true => exact .inl ⟨rfl,if_pos h⟩
  | false => exact .inr ⟨rfl,if_neg (by simp [h])⟩

theorem stop_region : o.stop p o.region = (o.body p).dot := if_pos rfl

theorem stop_load {r : R} (h : o.load = some r) (hne : r ≠ o.region) :
    o.stop p r = o.lma p r + o.size p := by
  rw [stop, if_neg hne, if_pos h]

theorem exec_symbol (sym : Sym) : (o.exec mem p).symbol sym = valueOf (o.body p).symbols sym := by
  rcases exec_cases mem o p with ⟨h,hexec⟩ | ⟨_,hexec⟩
  · have hkept := run_valueOf_kept (dropped_symbols h sym) ⟨o.vma p,p.symbols,p.placed⟩
    rw [hexec]
    exact hkept.symm
  · rw [hexec]
    rfl

theorem exec_kept {sym : Sym} (h : sym ∉ o.assigned) :
    (o.exec mem p).symbol sym = p.symbol sym := by
  rw [exec_symbol]
  exact run_valueOf_kept h _

theorem exec_current {r : R} (h : r ≠ o.region) (h' : o.load ≠ some r) :
    (o.exec mem p).current r = p.current r := by
  rcases exec_cases mem o p with ⟨_,hexec⟩ | ⟨_,hexec⟩
  · rw [hexec]
  · rw [hexec, created]
    simp [stop, h, h']

theorem exec_created (h : o.assigned ≠ []) : o.exec mem p = o.created mem p := by
  rcases exec_cases mem o p with ⟨hdropped,_⟩ | ⟨_,hexec⟩
  · rw [dropped, Bool.and_eq_true, List.isEmpty_iff] at hdropped
    exact absurd hdropped.1 h
  · exact hexec

omit [DecidableEq R] in
theorem vma_le_dot (o : OutputSection R N Sym A) (p : Image R N Sym A) :
    o.vma p ≤ (o.body p).dot := run_le_dot o.commands ⟨o.vma p,p.symbols,p.placed⟩

end OutputSection

theorem Item.exec_check (holds : (Sym → Nat) → Bool) (message : String) (p : Image R N Sym A) :
    (holds p.symbol = true ∧ (Item.check holds message).exec mem p = p) ∨
    (holds p.symbol = false ∧ (Item.check holds message).exec mem p =
      { p with errors := p.errors ++ [.assertion message] }) := by
  cases h : holds p.symbol with
  | true => exact .inl ⟨rfl,if_pos h⟩
  | false => exact .inr ⟨rfl,if_neg (by simp [h])⟩

theorem Item.exec_kept {item : Item R N Sym A} {sym : Sym} (h : sym ∉ item.assigned) :
    (item.exec mem p).symbol sym = p.symbol sym := by
  cases item with
  | output o => exact OutputSection.exec_kept mem h
  | define s value =>
    have hne : sym ≠ s := by simpa [Item.assigned] using h
    exact valueOf_other _ _ hne
  | check holds message =>
    rcases Item.exec_check mem holds message p with ⟨_,hexec⟩ | ⟨_,hexec⟩
    · rw [hexec]
    · rw [hexec]
      rfl

theorem layoutFrom_append (p : Image R N Sym A) (xs ys : List (Item R N Sym A)) :
    layoutFrom mem p (xs ++ ys) = layoutFrom mem (layoutFrom mem p xs) ys :=
  List.foldl_append

theorem layoutFrom_kept {items : List (Item R N Sym A)} {sym : Sym}
    (h : sym ∉ items.flatMap Item.assigned) (p : Image R N Sym A) :
    (layoutFrom mem p items).symbol sym = p.symbol sym := by
  induction items generalizing p with
  | nil => rfl
  | cons item items ih =>
    rw [List.flatMap_cons, List.mem_append, not_or] at h
    exact (ih h.2 _).trans (Item.exec_kept mem h.1)

theorem Item.exec_current {item : Item R N Sym A} {r : R} (h : r ∉ item.regions) :
    (item.exec mem p).current r = p.current r := by
  cases item with
  | output o =>
    simp only [Item.regions, List.mem_cons, Option.mem_toList, not_or] at h
    exact OutputSection.exec_current mem h.1 h.2
  | define sym value => rfl
  | check holds message =>
    rcases Item.exec_check mem holds message p with ⟨_,hexec⟩ | ⟨_,hexec⟩ <;> rw [hexec]

theorem layoutFrom_current {items : List (Item R N Sym A)} {r : R}
    (h : r ∉ items.flatMap Item.regions) (p : Image R N Sym A) :
    (layoutFrom mem p items).current r = p.current r := by
  induction items generalizing p with
  | nil => rfl
  | cons item items ih =>
    rw [List.flatMap_cons, List.mem_append, not_or] at h
    exact (ih h.2 _).trans (Item.exec_current mem h.1)

theorem Item.exec_grows (item : Item R N Sym A) (p : Image R N Sym A) :
    p.errors <+: (item.exec mem p).errors ∧ p.extents <+: (item.exec mem p).extents := by
  cases item with
  | output o =>
    rw [Item.exec]
    rcases OutputSection.exec_cases mem o p with ⟨_,hexec⟩ | ⟨_,hexec⟩
    · rw [hexec]
      exact ⟨List.prefix_rfl,List.prefix_rfl⟩
    · rw [hexec]
      exact ⟨List.prefix_append _ _,List.prefix_append _ _⟩
  | define sym value => exact ⟨List.prefix_rfl,List.prefix_rfl⟩
  | check holds message =>
    rcases Item.exec_check mem holds message p with ⟨_,hexec⟩ | ⟨_,hexec⟩
    · rw [hexec]
      exact ⟨List.prefix_rfl,List.prefix_rfl⟩
    · rw [hexec]
      exact ⟨List.prefix_append _ _,List.prefix_rfl⟩

theorem Item.exec_errors (item : Item R N Sym A) (p : Image R N Sym A) :
    (item.exec mem p).errors = p.errors ++ item.raised mem p := by
  cases item with
  | output o =>
    rw [Item.exec, Item.raised]
    rcases OutputSection.exec_cases mem o p with ⟨h,hexec⟩ | ⟨h,hexec⟩
    · simp [hexec, h]
    · simp [hexec, h, OutputSection.created]
  | define sym value => exact (List.append_nil _).symm
  | check holds message =>
    rw [Item.raised]
    rcases Item.exec_check mem holds message p with ⟨h,hexec⟩ | ⟨h,hexec⟩
    · simp [hexec, h]
    · simp [hexec, h]

theorem mem_layoutFrom_errors {items : List (Item R N Sym A)} {x : LinkError R N} :
    x ∈ (layoutFrom mem p items).errors ↔ x ∈ p.errors ∨
      ∃ (n : Nat) (item : Item R N Sym A), items[n]? = some item ∧
        x ∈ item.raised mem (layoutFrom mem p (items.take n)) := by
  induction items generalizing p with
  | nil => simp [layoutFrom]
  | cons item items ih =>
    have hstep : layoutFrom mem p (item :: items) = layoutFrom mem (item.exec mem p) items := rfl
    rw [hstep, ih, Item.exec_errors, List.mem_append, or_assoc]
    refine or_congr_right ?_
    constructor
    · rintro (hnow | ⟨n,later,hlater,hx⟩)
      · exact ⟨0,item,rfl,hnow⟩
      · exact ⟨n + 1,later,hlater,hx⟩
    · rintro ⟨n,later,hlater,hx⟩
      cases n with
      | zero =>
        obtain rfl := Option.some.inj hlater
        exact .inl hx
      | succ n => exact .inr ⟨n,later,hlater,hx⟩

theorem layoutFrom_grows (items : List (Item R N Sym A)) (p : Image R N Sym A) :
    p.errors <+: (layoutFrom mem p items).errors ∧
      p.extents <+: (layoutFrom mem p items).extents := by
  induction items generalizing p with
  | nil => exact ⟨List.prefix_rfl,List.prefix_rfl⟩
  | cons item items ih =>
    obtain ⟨herrors,hextents⟩ := Item.exec_grows mem item p
    obtain ⟨herrors',hextents'⟩ := ih (item.exec mem p)
    exact ⟨herrors.trans herrors',hextents.trans hextents'⟩

theorem Item.exec_placed (item : Item R N Sym A) (p : Image R N Sym A) :
    p.placed <+: (item.exec mem p).placed := by
  cases item with
  | output o =>
    obtain ⟨mid,hmid,_⟩ := run_contents o.commands ⟨o.vma p,p.symbols,p.placed⟩
    have hbody : p.placed <+: (o.body p).placed := ⟨mid,hmid.symm⟩
    rw [Item.exec]
    rcases OutputSection.exec_cases mem o p with ⟨_,hexec⟩ | ⟨_,hexec⟩ <;> rw [hexec] <;> exact hbody
  | define sym value => exact List.prefix_rfl
  | check holds message =>
    rcases Item.exec_check mem holds message p with ⟨_,hexec⟩ | ⟨_,hexec⟩
    · exact ⟨[],by rw [hexec, List.append_nil]⟩
    · exact ⟨[],by rw [hexec, List.append_nil]⟩

theorem layoutFrom_placed (items : List (Item R N Sym A)) (p : Image R N Sym A) :
    p.placed <+: (layoutFrom mem p items).placed := by
  induction items generalizing p with
  | nil => exact List.prefix_rfl
  | cons item items ih => exact (Item.exec_placed mem item p).trans (ih (item.exec mem p))

theorem Image.holds_kept {items : List (Item R N Sym A)} {ss : List InputSection}
    {first last : Nat} (h : p.Holds ss first last) :
    (layoutFrom mem p items).Holds ss first last := by
  obtain ⟨before,mid,after,hplaced,hin⟩ := h
  obtain ⟨later,hlater⟩ := layoutFrom_placed mem items p
  exact ⟨before,mid,after ++ later,by rw [← hlater, hplaced, List.append_assoc],hin⟩

theorem Item.exec_names {item : Item R N Sym A} {e : Extent R N}
    (he : e ∈ (item.exec mem p).extents) : e ∈ p.extents ∨ e.name ∈ item.names := by
  cases item with
  | output o =>
    rw [Item.exec] at he
    rcases OutputSection.exec_cases mem o p with ⟨_,hexec⟩ | ⟨_,hexec⟩
    · rw [hexec] at he
      exact .inl he
    · rw [hexec, OutputSection.created, List.mem_append] at he
      rcases he with hold | hnew
      · exact .inl hold
      · rw [OutputSection.extents, List.mem_cons, List.mem_map] at hnew
        rcases hnew with rfl | ⟨r,_,rfl⟩ <;> exact .inr (by simp [Item.names])
  | define sym value => exact .inl he
  | check holds message =>
    rcases Item.exec_check mem holds message p with ⟨_,hexec⟩ | ⟨_,hexec⟩
    · rw [hexec] at he
      exact .inl he
    · rw [hexec] at he
      exact .inl he

theorem layoutFrom_names {items : List (Item R N Sym A)} {e : Extent R N}
    (he : e ∈ (layoutFrom mem p items).extents) :
    e ∈ p.extents ∨ e.name ∈ items.flatMap Item.names := by
  induction items generalizing p with
  | nil => exact .inl he
  | cons item items ih =>
    rw [List.flatMap_cons, List.mem_append]
    rcases ih he with hold | hlater
    · rcases Item.exec_names mem hold with hold | hnow
      · exact .inl hold
      · exact .inr (.inl hnow)
    · exact .inr (.inr hlater)

section Starts

variable [DecidableEq N]

theorem extentOf_kept {items : List (Item R N Sym A)} {r : R} {name : N} {e : Extent R N}
    (h : p.extentOf r name = some e) : (layoutFrom mem p items).extentOf r name = some e := by
  obtain ⟨later,hlater⟩ := (layoutFrom_grows mem items p).2
  rw [Image.extentOf, ← hlater, List.find?_append, show p.extents.find? _ = some e from h]
  rfl

theorem extentOf_created (hnew : ∀ e ∈ p.extents, e.name ≠ o.name) (r : R) :
    (o.created mem p).extentOf r o.name =
      (o.extents p).find? fun e => decide (e.region = r ∧ e.name = o.name) := by
  have hnone : p.extents.find? (fun e => decide (e.region = r ∧ e.name = o.name)) = none := by
    rw [List.find?_eq_none]
    intro e he
    simp [hnew e he]
  rw [Image.extentOf, OutputSection.created, List.find?_append, hnone, Option.none_or]

theorem extentOf_run (hnew : ∀ e ∈ p.extents, e.name ≠ o.name) :
    (o.created mem p).extentOf o.region o.name =
      some ⟨o.region,o.name,o.vma p,(o.body p).dot⟩ := by
  rw [extentOf_created mem hnew]
  simp [OutputSection.extents]

theorem startOf_kept {items : List (Item R N Sym A)} {r : R} {name : N} {a : Nat}
    (h : p.startOf r name = some a) : (layoutFrom mem p items).startOf r name = some a := by
  obtain ⟨e,he,rfl⟩ := Option.map_eq_some_iff.mp h
  exact congrArg (Option.map Extent.start) (extentOf_kept mem he)

theorem startOf_run (hnew : ∀ e ∈ p.extents, e.name ≠ o.name) :
    (o.created mem p).startOf o.region o.name = some (o.vma p) :=
  congrArg (Option.map Extent.start) (extentOf_run mem hnew)

theorem startOf_load (hnew : ∀ e ∈ p.extents, e.name ≠ o.name) {r : R} (h : o.load = some r)
    (hne : r ≠ o.region) : (o.created mem p).startOf r o.name = some (o.lma p r) := by
  rw [Image.startOf, extentOf_created mem hnew]
  simp [OutputSection.extents, h, hne.symm]

-- the output section ends at the one symbol and starts, up to its alignment, at the other
structure Image.Covered (p : Image R N Sym A) (o : OutputSection R N Sym A) (n : Nat)
    (first last : Sym) : Prop where
  extent : ∃ start, p.extentOf o.region o.name = some ⟨o.region,o.name,start,p.symbol last⟩ ∧
    p.symbol first = alignUp start n
  contents : p.Holds o.inputs (p.symbol first) (p.symbol last)
  ordered : p.symbol first ≤ p.symbol last

theorem covered_kept {items : List (Item R N Sym A)} {n : Nat} {first last : Sym}
    (h : p.Covered o n first last) (hfirst : (layoutFrom mem p items).symbol first = p.symbol first)
    (hlast : (layoutFrom mem p items).symbol last = p.symbol last) :
    (layoutFrom mem p items).Covered o n first last := by
  obtain ⟨⟨start,hextent,hstart⟩,hcontents,hordered⟩ := h
  refine ⟨⟨start,?_,?_⟩,?_,?_⟩
  · rw [hlast]
    exact extentOf_kept mem hextent
  · rw [hfirst, hstart]
  · rw [hfirst, hlast]
    exact Image.holds_kept mem hcontents
  · rw [hfirst, hlast]
    exact hordered

theorem covered_bracketed {n : Nat} {first last : Sym} (contents : List (Command Sym A))
    (hcommands : o.commands = bracketed n first last contents) (hn : 0 < n) (hne : first ≠ last)
    (hout : first ∉ contents.flatMap Command.assigned) (hnew : ∀ e ∈ p.extents, e.name ≠ o.name) :
    (o.created mem p).Covered o n first last := by
  have hrun : o.body p = (bracketed n first last contents).foldl (fun p c => c.exec p)
      ⟨o.vma p,p.symbols,p.placed⟩ := by
    rw [OutputSection.body, OutputSection.run, hcommands]
  obtain ⟨hfirst,hlast,_,hordered⟩ := run_bracketed first last hn hne hout
    ⟨o.vma p,p.symbols,p.placed⟩
  obtain ⟨mid,hplaced,hin⟩ := bracketed_contents n first last contents
    ⟨o.vma p,p.symbols,p.placed⟩
  rw [← hrun] at hfirst hlast hordered hplaced hin
  have hfirst' : (o.created mem p).symbol first = alignUp (o.vma p) n := hfirst
  have hlast' : (o.created mem p).symbol last = (o.body p).dot := hlast
  refine ⟨⟨o.vma p,?_,hfirst'⟩,?_,?_⟩
  · rw [hlast']
    exact extentOf_run mem hnew
  · rw [hfirst', hlast', OutputSection.inputs, hcommands]
    exact ⟨p.placed,mid,[],hplaced.trans (List.append_nil _).symm,hin⟩
  · rw [hfirst', hlast']
    exact hordered

end Starts

theorem layout_succ {script : List (Item R N Sym A)} {n : Nat} {item : Item R N Sym A}
    (h : script[n]? = some item) :
    layout mem (script.take (n + 1)) = item.exec mem (layout mem (script.take n)) := by
  rw [List.take_add_one, h, layout, layoutFrom_append]
  rfl

theorem layout_take (script : List (Item R N Sym A)) {n m : Nat} (h : n ≤ m) :
    layout mem (script.take m) =
      layoutFrom mem (layout mem (script.take n)) ((script.take m).drop n) := by
  have hsplit : script.take m = script.take n ++ (script.take m).drop n := by
    conv_lhs => rw [← List.take_append_drop n (script.take m), List.take_take, Nat.min_eq_left h]
  conv_lhs => rw [hsplit, layout, layoutFrom_append]
  rfl

end Run

section Order

variable {R N Sym A : Type} [DecidableEq R] [DecidableEq Sym] (mem : R → Memory)

-- no output section starts below the pointer of its region
def ForwardFrom : Image R N Sym A → List (Item R N Sym A) → Prop
  | _, [] => True
  | p, item :: items =>
      (∀ o, item = .output o → p.current o.region ≤ o.vma p ∧ o.load ≠ some o.region) ∧
        ForwardFrom (item.exec mem p) items

structure Tidy (p : Image R N Sym A) : Prop where
  apart : p.extents.Pairwise fun e e' => e.region = e'.region → e.stop ≤ e'.start
  below : ∀ e ∈ p.extents, (mem e.region).origin ≤ e.start ∧ e.start ≤ e.stop ∧
    e.stop ≤ p.current e.region
  origin : ∀ r, (mem r).origin ≤ p.current r
  fits : p.errors = [] → ∀ r, p.current r ≤ (mem r).origin + (mem r).length

namespace OutputSection

variable {o : OutputSection R N Sym A} {p : Image R N Sym A}

theorem extent_placed (hforward : p.current o.region ≤ o.vma p) (hload : o.load ≠ some o.region)
    {e : Extent R N} (he : e ∈ o.extents p) :
    p.current e.region ≤ e.start ∧ e.start ≤ e.stop ∧ e.stop = o.stop p e.region := by
  rw [extents, List.mem_cons, List.mem_map] at he
  rcases he with rfl | ⟨r,hr,rfl⟩
  · exact ⟨hforward,vma_le_dot o p,by simp [stop]⟩
  · have hsome : o.load = some r := by simpa using hr
    have hne : r ≠ o.region := by
      rintro rfl
      exact hload hsome
    exact ⟨le_alignUp _ _,Nat.le_add_right _ _,by simp [stop, hsome, hne]⟩

omit [DecidableEq R] in
theorem extents_regions (hload : o.load ≠ some o.region) :
    (o.extents p).Pairwise fun e e' => e.region ≠ e'.region := by
  cases h : o.load with
  | none => simp [extents, h]
  | some r =>
    have hne : o.region ≠ r := by
      rintro rfl
      exact hload h
    simp [extents, h, hne]

theorem current_le_stop (hforward : p.current o.region ≤ o.vma p) (r : R) :
    p.current r ≤ o.stop p r := by
  unfold stop
  split
  next hr =>
    rw [hr]
    exact Nat.le_trans hforward (vma_le_dot o p)
  next =>
    split
    · exact Nat.le_trans (le_alignUp _ _) (Nat.le_add_right _ _)
    · exact Nat.le_refl _

theorem mem_errors {x : LinkError R N} : x ∈ o.errors mem p ↔
    (x = .backwards o.name ∧ goesBack o.commands ⟨o.vma p,p.symbols,p.placed⟩ = true) ∨
    ∃ r ∈ o.region :: o.load.toList, x = .overflow r o.name ∧
      (mem r).origin + (mem r).length < o.stop p r := by
  rw [errors, List.mem_append, overflows, List.mem_filterMap]
  refine or_congr ?_ (exists_congr fun r => and_congr_right fun _ => ?_)
  · cases h : goesBack o.commands ⟨o.vma p,p.symbols,p.placed⟩ <;> simp
  · by_cases h : o.stop p r ≤ (mem r).origin + (mem r).length
    · simp [h]
    · simp only [if_neg h, Option.some.injEq]
      exact ⟨fun heq => ⟨heq.symm,Nat.lt_of_not_le h⟩,fun heq => heq.1.symm⟩

theorem stop_fits (herrors : o.errors mem p = []) {r : R}
    (hr : r ∈ o.region :: o.load.toList) : o.stop p r ≤ (mem r).origin + (mem r).length := by
  by_contra hover
  have hmem : LinkError.overflow r o.name ∈ o.errors mem p :=
    (mem_errors mem).mpr (.inr ⟨r,hr,rfl,Nat.lt_of_not_le hover⟩)
  rw [herrors] at hmem
  cases hmem

theorem tidy_created (hp : Tidy mem p) (hforward : p.current o.region ≤ o.vma p)
    (hload : o.load ≠ some o.region) : Tidy mem (o.created mem p) := by
  have hgrows := current_le_stop (o := o) hforward
  refine ⟨?_,?_,?_,?_⟩
  · refine List.pairwise_append.mpr ⟨hp.apart,?_,?_⟩
    · exact (extents_regions hload).imp fun hne heq => absurd heq hne
    · intro e he e' he' hsame
      obtain ⟨hstart,_⟩ := extent_placed hforward hload he'
      obtain ⟨_,_,hstop⟩ := hp.below e he
      rw [hsame] at hstop
      exact Nat.le_trans hstop hstart
  · intro e he
    rcases List.mem_append.mp he with hold | hnew
    · obtain ⟨horigin,hle,hstop⟩ := hp.below e hold
      exact ⟨horigin,hle,Nat.le_trans hstop (hgrows e.region)⟩
    · obtain ⟨hstart,hle,hstop⟩ := extent_placed hforward hload hnew
      exact ⟨Nat.le_trans (hp.origin e.region) hstart,hle,Nat.le_of_eq hstop⟩
  · intro r
    exact Nat.le_trans (hp.origin r) (hgrows r)
  · intro herrors r
    obtain ⟨hbefore,hnow⟩ := List.append_eq_nil_iff.mp herrors
    by_cases hr : r ∈ o.region :: o.load.toList
    · exact stop_fits mem hnow hr
    · have hout : r ≠ o.region ∧ ¬ o.load = some r := by simpa using hr
      have hkept : o.stop p r = p.current r := by simp [stop, hout.1, hout.2]
      exact Nat.le_trans (Nat.le_of_eq hkept) (hp.fits hbefore r)

end OutputSection

theorem Tidy.item {item : Item R N Sym A} {p : Image R N Sym A} (hp : Tidy mem p)
    (hforward : ∀ o, item = .output o → p.current o.region ≤ o.vma p ∧ o.load ≠ some o.region) :
    Tidy mem (item.exec mem p) := by
  cases item with
  | output o =>
    obtain ⟨hstart,hload⟩ := hforward o rfl
    rw [Item.exec]
    rcases OutputSection.exec_cases mem o p with ⟨_,hexec⟩ | ⟨_,hexec⟩
    · rw [hexec]
      exact ⟨hp.apart,hp.below,hp.origin,hp.fits⟩
    · rw [hexec]
      exact OutputSection.tidy_created mem hp hstart hload
  | define sym value => exact ⟨hp.apart,hp.below,hp.origin,hp.fits⟩
  | check holds message =>
    rcases Item.exec_check mem holds message p with ⟨_,hexec⟩ | ⟨_,hexec⟩
    · rw [hexec]
      exact hp
    · rw [hexec]
      exact ⟨hp.apart,hp.below,hp.origin,fun hnil => absurd hnil (by simp)⟩

theorem Tidy.layoutFrom {items : List (Item R N Sym A)} {p : Image R N Sym A} (hp : Tidy mem p)
    (hforward : ForwardFrom mem p items) : Tidy mem (layoutFrom mem p items) := by
  induction items generalizing p with
  | nil => exact hp
  | cons item items ih => exact ih (hp.item mem hforward.1) hforward.2

omit [DecidableEq R] [DecidableEq Sym] in
theorem tidy_start : Tidy mem
    (⟨0,fun r => (mem r).origin,[],[],[],[]⟩ : Image R N Sym A) where
  apart := .nil
  below := by simp
  origin := fun r => Nat.le_refl _
  fits := fun _ r => Nat.le_add_right _ _

theorem forwardFrom_append (p : Image R N Sym A) (xs ys : List (Item R N Sym A)) :
    ForwardFrom mem p (xs ++ ys) ↔
      ForwardFrom mem p xs ∧ ForwardFrom mem (Layout.layoutFrom mem p xs) ys := by
  induction xs generalizing p with
  | nil => simp [ForwardFrom, Layout.layoutFrom]
  | cons x xs ih => simp [ForwardFrom, ih, Layout.layoutFrom, and_assoc]

-- an output section without an address expression starts at the pointer of its region
def Item.free : Item R N Sym A → Bool
  | .output o => o.address matches .next && o.load.isNone
  | _ => true

theorem forwardFrom_free {items : List (Item R N Sym A)} (h : ∀ item ∈ items, item.free = true)
    (p : Image R N Sym A) : ForwardFrom mem p items := by
  induction items generalizing p with
  | nil => trivial
  | cons item items ih =>
    refine ⟨?_,ih (fun x hx => h x (List.mem_cons_of_mem _ hx)) _⟩
    rintro o rfl
    have hfree := h _ List.mem_cons_self
    rw [Item.free, Bool.and_eq_true] at hfree
    constructor
    · cases haddress : o.address with
      | next =>
        rw [OutputSection.vma, haddress]
        exact le_alignUp _ _
      | fixed a | symbol sym => simp [haddress] at hfree
    · intro hload
      simp [hload] at hfree

end Order

end Layout
