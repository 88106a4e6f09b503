import UphyDemo.Startup.Board

namespace UphyDemo.Startup
open CString Transition

variable {f : Supported} {fs : RteFs}

def NamesTask (f : Supported) (argv : List Str) (k : Kernel) : Prop :=
  ∃ cmd x b, argv = [cmd,x] ∧ strToBusConfig f (some x.memory) = .ok b ∧ b ∈ k.tasks

structure Tells (f : Supported) (created : Bool) (argv : List Str) (k : Kernel) : Prop where
  zero : (cmdStart f created argv k).ret = 0 ↔ NamesTask f argv (cmdStart f created argv k).kernel
  refused : ¬ NamesTask f argv (cmdStart f created argv k).kernel →
    (cmdStart f created argv k).kernel.uphyTaskHdl = k.uphyTaskHdl
  later : (cmdStart f created argv k).kernel.tasks = [] → ∀ cmd x b,
    strToBusConfig f (some x.memory) = .ok b →
    b ∈ (cmdStart f true [cmd,x] (cmdStart f created argv k).kernel).kernel.tasks

def Startable (f : Supported) (created : Bool) (argv : List Str) (k : Kernel) : Prop :=
  match argv with
  | [_,x] => ∃ b, strToBusConfig f (some x.memory) = .ok b ∧
      (k.tasks = [b] ∨ (k.tasks = [] ∧ created = true))
  | _ => True

def EachStart (P : Bool → List Str → Kernel → Prop) (_ : List Event) (s : Board) : Event → Prop
  | .upStart argv created => P created argv s.kernel
  | _ => True

theorem namesTask_ok {cmd x : Str} {b : Bustype} {k : Kernel}
    (hx : strToBusConfig f (some x.memory) = .ok b) : NamesTask f [cmd,x] k ↔ b ∈ k.tasks := by
  constructor
  · rintro ⟨_,y,b',hargv,hy,hmem⟩
    obtain ⟨rfl,rfl⟩ : cmd = _ ∧ x = y := by simpa using hargv
    obtain rfl : b = b' := Except.ok.inj (hx.symm.trans hy)
    exact hmem
  · exact fun hmem => ⟨cmd,x,b,rfl,hx,hmem⟩

theorem Kernel.Once.tasks_cases {k : Kernel} (hk : k.Once) :
    (k.tasks = [] ∧ k.uphyTaskHdl = none) ∨ ∃ b, k.tasks = [b] ∧ k.uphyTaskHdl ≠ none := by
  have hhandle := hk.handle
  cases htasks : k.tasks with
  | nil => exact .inl ⟨rfl,hhandle.mpr htasks⟩
  | cons b bs =>
    have hlen := hk.single
    simp only [htasks, List.length_cons] at hlen
    obtain rfl : bs = [] := List.eq_nil_of_length_eq_zero (by omega)
    exact .inr ⟨b,rfl,fun hnone => by simp [hhandle.mp hnone] at htasks⟩

theorem startUphy_mem_iff {created : Bool} {b : Bustype} {k : Kernel} (hk : k.Once) :
    b ∈ (startUphy created b k).tasks ↔ k.tasks = [b] ∨ (k.tasks = [] ∧ created = true) := by
  rcases hk.tasks_cases with ⟨htasks,hnone⟩ | ⟨b',htasks,hset⟩
  · cases created <;> simp [startUphy, xTaskCreate, hnone, htasks]
  · simp [startUphy, hset, htasks, eq_comm]

theorem startUphy_unnamed {created : Bool} {b : Bustype} {k : Kernel}
    (h : b ∉ (startUphy created b k).tasks) : startUphy created b k = k := by
  rcases startUphy_cases created b k with heq | ⟨_,heq⟩
  · exact heq
  · rw [heq] at h
    simp at h

theorem starts_later {k : Kernel} (hk : k.Once) (hempty : k.tasks = []) (cmd : Str) {x : Str}
    {b : Bustype} (hx : strToBusConfig f (some x.memory) = .ok b) :
    b ∈ (cmdStart f true [cmd,x] k).kernel.tasks := by
  rw [cmdStart_ok hx]
  exact (startUphy_mem_iff hk).mpr (.inr ⟨hempty,rfl⟩)

theorem cmdStart_unnamed {created : Bool} {argv : List Str} {k : Kernel}
    (h : ¬ NamesTask f argv (cmdStart f created argv k).kernel) :
    (cmdStart f created argv k).kernel = k := by
  match argv with
  | [] | [_] | _ :: _ :: _ :: _ => rfl
  | [cmd,x] =>
    cases hx : strToBusConfig f (some x.memory) with
    | ok b =>
      rw [cmdStart_ok hx, namesTask_ok hx] at h
      rw [cmdStart_ok hx]
      exact startUphy_unnamed h
    | error e => rw [cmdStart_error hx]

theorem tells_iff {created : Bool} {argv : List Str} {k : Kernel} (hk : k.Once) :
    Tells f created argv k ↔ Startable f created argv k := by
  have hlater (h : (cmdStart f created argv k).kernel.tasks = []) (cmd x : Str) (b : Bustype)
      (hx : strToBusConfig f (some x.memory) = .ok b) :
      b ∈ (cmdStart f true [cmd,x] (cmdStart f created argv k).kernel).kernel.tasks :=
    starts_later (hk.cmdStart created argv) h cmd hx
  have hrefused (h : ¬ NamesTask f argv (cmdStart f created argv k).kernel) :
      (cmdStart f created argv k).kernel.uphyTaskHdl = k.uphyTaskHdl :=
    congrArg Kernel.uphyTaskHdl (cmdStart_unnamed h)
  match argv with
  | [] | [_] | _ :: _ :: _ :: _ =>
    refine ⟨fun _ => trivial,fun _ => ⟨?_,hrefused,hlater⟩⟩
    simp [cmdStart, NamesTask]
  | [cmd,x] =>
    cases hx : strToBusConfig f (some x.memory) with
    | ok b =>
      have hcmd : cmdStart f created [cmd,x] k = ⟨0,startUphy created b k,[]⟩ := cmdStart_ok hx
      have hcond : Startable f created [cmd,x] k ↔ b ∈ (startUphy created b k).tasks := by
        rw [startUphy_mem_iff hk]
        simp [Startable, hx]
      rw [hcond]
      constructor
      · intro h
        have hnames := h.zero.mp (by rw [hcmd])
        rw [hcmd] at hnames
        exact (namesTask_ok hx).mp hnames
      · intro hmem
        have hnames : NamesTask f [cmd,x] (cmdStart f created [cmd,x] k).kernel := by
          rw [hcmd]
          exact (namesTask_ok hx).mpr hmem
        exact ⟨⟨fun _ => hnames,fun _ => by rw [hcmd]⟩,hrefused,hlater⟩
    | error e =>
      constructor
      · intro h
        have hzero : (cmdStart f created [cmd,x] k).ret = 0 := by rw [cmdStart_error hx]
        obtain ⟨_,y,b,hargv,hy,_⟩ := h.zero.mp hzero
        obtain ⟨rfl,rfl⟩ : cmd = _ ∧ x = y := by simpa using hargv
        cases hx.symm.trans hy
      · rintro ⟨b,hb,_⟩
        cases hx.symm.trans hb

theorem up_start_tells_iff (f : Supported) (fs : RteFs) (deviceName : Str) (autostart : File)
    (es : List Event) :
    (board f fs deviceName autostart).Meets (EachStart (Tells f)) es ↔
      (board f fs deviceName autostart).Meets (EachStart (Startable f)) es := by
  refine Machine.meets_congr (I := fun _ s => s.kernel.Once) Kernel.once_boot ?_ ?_ es
  · intro pre s e t hs h
    exact once_step hs h
  · intro pre s e hs
    cases e with
    | upStart argv created => exact tells_iff hs
    | upAutostart argv | reboot buf created | upAppInit => exact .rfl

def unknownProtocol : List Event := [.upStart [cmdStartName,cmdStartName] true]

theorem up_start_misreports :
    ¬ ∀ (f : Supported) (fs : RteFs) (deviceName : Str) (autostart : File) (es : List Event),
      (board f fs deviceName autostart).Meets (EachStart (Tells f)) es := by
  intro h
  have htells := (h generatedSupport .reliable digioSample none unknownProtocol).1
  obtain ⟨cmd,x,b,hargv,hx,_⟩ := htells.zero.mp (by decide)
  obtain ⟨_,rfl⟩ : cmdStartName = cmd ∧ cmdStartName = x := by simpa using hargv
  have hrefused : strToBusConfig generatedSupport (some cmdStartName.memory) =
      .error .unsupportedFieldbus := rfl
  cases hrefused.symm.trans hx

end UphyDemo.Startup
