import UphyDemo.Foundation.Sections
import UphyDemo.Linker.Commands

namespace UphyDemo.Linker
open Layout

def stackSize : Nat := 0x1000
def ramvectorsAlignment : Nat := 128

def cm0plusSramReserve : Nat := 0x00004000
def cm70SramReserve : Nat := 0x000FC000
def cm0plusCodeFlashReserve : Nat := 0x00080000
def cm70CodeFlashReserve : Nat := 0x007B0000
def codeFlashBaseAddress : Nat := 0x10000000
def sramBaseAddress : Nat := 0x28000000
def baseItcm : Nat := 0x00000000
def sizeItcm : Nat := 0x00004000
def baseDtcm : Nat := 0x20000000

inductive Region where
  | ram
  | flashCm0p
  | flash
  | emEeprom
  | sflashUserData
  | sflashNar
  | sflashPublicKey
  | sflashToc2
  | xip
  | efuse
  | itcm
  | dtcm
deriving DecidableEq, Repr

def memory : Region → Memory
  | .ram => ⟨sramBaseAddress + cm0plusSramReserve,cm70SramReserve⟩
  | .flashCm0p => ⟨codeFlashBaseAddress,cm0plusCodeFlashReserve⟩
  | .flash => ⟨codeFlashBaseAddress + cm0plusCodeFlashReserve,cm70CodeFlashReserve⟩
  | .emEeprom => ⟨0x14000000,0x00040000⟩
  | .sflashUserData => ⟨0x17000800,0x00000800⟩
  | .sflashNar => ⟨0x17001A00,0x00000200⟩
  | .sflashPublicKey => ⟨0x17006400,0x00000C00⟩
  | .sflashToc2 => ⟨0x17007C00,0x00000200⟩
  | .xip => ⟨0x60000000,0x08000000⟩
  | .efuse => ⟨0x90700000,0x00100000⟩
  | .itcm => ⟨baseItcm,sizeItcm⟩
  | .dtcm => ⟨baseDtcm,baseDtcm⟩

inductive Name where
  | cyCm0pImage
  | text
  | armExtab
  | armExidx
  | copyTable
  | zeroTable
  | cyItcm
  | cyDtcm
  | ramVectors
  | data
  | noinit
  | bss
  | heap
  | stackDummy
  | cyEmEeprom
  | cySflashUserData
  | cySflashNar
  | cySflashPublicKey
  | cyTocPart2
  | cyXip
  | cyEfuse
deriving DecidableEq, Repr

inductive Symbol where
  | text (sym : Sym)
  | cyM0pCodeStart
  | cyM0pCodeEnd
  | copyTableStart
  | copyTableEnd
  | zeroTableStart
  | zeroTableEnd
  | itcmStart
  | itcmEnd
  | itcmFlashEnd
  | dtcmStart
  | dtcmEnd
  | etext
  | ramVectorsStart
  | ramVectorsEnd
  | dataStart
  | preinitArrayStart
  | preinitArrayEnd
  | initArrayStart
  | initArrayEnd
  | finiArrayStart
  | finiArrayEnd
  | dataEnd
  | bssStart
  | bssEnd
  | heapBase
  | end_
  | heapLimit
  | stackTop
  | stackLimit
deriving DecidableEq, Repr

-- the input sections, one list for each description of the script
structure ImageInputs where
  cm0pImage : List InputSection
  text : Inputs
  armExtab : List InputSection
  armExidx : List InputSection
  itcm : List InputSection
  dtcm : List InputSection
  ramVectors : List InputSection
  vtable : List InputSection
  data : List InputSection
  preinitArray : List InputSection
  initArraySorted : List InputSection
  initArray : List InputSection
  finiArraySorted : List InputSection
  finiArray : List InputSection
  jcr : List InputSection
  ramfunc : List InputSection
  sharedmem : List InputSection
  noinit : List InputSection
  bss : List InputSection
  common : List InputSection
  heap : List InputSection
  stack : List InputSection
  rest : Name → List InputSection

abbrev Body := List (Command Symbol Piece)

def sections (ss : List InputSection) : Command Symbol Piece :=
  .statement (.input (ss.map fun s => (.other,s)))

def assign (sym : Symbol) : Command Symbol Piece := .statement (.assign sym)

def align (n : Nat) : Command Symbol Piece := .statement (.alignDot n)

abbrev Output := OutputSection Region Name Symbol Piece

def cyCm0pImage (i : ImageInputs) : Output where
  name := .cyCm0pImage
  address := .fixed (memory .flashCm0p).origin
  align := 1
  commands := [align 4,assign .cyM0pCodeStart,sections i.cm0pImage,assign .cyM0pCodeEnd]
  region := .flashCm0p
  load := none

def text (E : ShellCmd) (i : ImageInputs) : Output where
  name := .text
  address := .fixed (memory .flash).origin
  align := 1
  commands := (textSection E i.text).map fun s => .statement (s.rename .text)
  region := .flash
  load := none

def inFlash (name : Name) (commands : Body) : Output where
  name := name
  address := .next
  align := 1
  commands := commands
  region := .flash
  load := none

def armExtab (i : ImageInputs) : Output := inFlash .armExtab [sections i.armExtab]

def armExidx (i : ImageInputs) : Output := inFlash .armExidx [sections i.armExidx]

def copyTable : Output := inFlash .copyTable
  [align 4,assign .copyTableStart,
   .long fun v => v .etext,
   .long fun v => v .dataStart,
   .long fun v => (v .dataEnd - v .dataStart) / 4,
   .long fun v => v .zeroTableEnd,
   .long fun v => v .itcmStart,
   .long fun v => (v .itcmEnd - v .itcmStart) / 4,
   .long fun v => v .itcmFlashEnd,
   .long fun v => v .dtcmStart,
   .long fun v => (v .dtcmEnd - v .dtcmStart) / 4,
   assign .copyTableEnd]

def zeroTable : Output := inFlash .zeroTable
  [align 4,assign .zeroTableStart,
   .long fun v => v .bssStart,
   .long fun v => (v .bssEnd - v .bssStart) / 4,
   assign .zeroTableEnd]

def tightlyCoupled (name : Name) (region : Region) (first last : Symbol)
    (ss : List InputSection) : Output where
  name := name
  address := .fixed (memory region).origin
  align := 1
  commands := [assign first,sections ss,assign last]
  region := region
  load := some .flash

def cyItcm (i : ImageInputs) : Output := tightlyCoupled .cyItcm .itcm .itcmStart .itcmEnd i.itcm

def cyDtcm (i : ImageInputs) : Output := tightlyCoupled .cyDtcm .dtcm .dtcmStart .dtcmEnd i.dtcm

def inRam (name : Name) (n : Nat) (commands : Body) : Output where
  name := name
  address := .next
  align := n
  commands := commands
  region := .ram
  load := none

def ramVectors (i : ImageInputs) : Output := inRam .ramVectors 1
  [align ramvectorsAlignment,assign .ramVectorsStart,sections i.ramVectors,assign .ramVectorsEnd]

def dataContents (i : ImageInputs) : Body :=
  [sections i.vtable,sections i.data,
   align 4,assign .preinitArrayStart,sections i.preinitArray,assign .preinitArrayEnd,
   align 4,assign .initArrayStart,sections i.initArraySorted,sections i.initArray,
   assign .initArrayEnd,
   align 4,assign .finiArrayStart,sections i.finiArraySorted,sections i.finiArray,
   assign .finiArrayEnd,
   sections i.jcr,align 4,sections i.ramfunc,align 32,sections i.sharedmem]

def data (i : ImageInputs) : Output where
  name := .data
  address := .symbol .ramVectorsEnd
  align := 1
  commands := bracketed 4 .dataStart .dataEnd (dataContents i)
  region := .ram
  load := some .flash

def noinit (i : ImageInputs) : Output := inRam .noinit 8 [sections i.noinit]

def bss (i : ImageInputs) : Output := inRam .bss 1
  (bracketed 4 .bssStart .bssEnd [sections i.bss,sections i.common])

def stackBottom : Nat := (memory .ram).origin + (memory .ram).length - stackSize

def heap (i : ImageInputs) : Output := inRam .heap 1
  [assign .heapBase,assign (.text .end_),assign .end_,sections i.heap,.moveDot stackBottom,
   assign .heapLimit]

def stackDummy (i : ImageInputs) : Output := inRam .stackDummy 1 [sections i.stack]

def restOutput (i : ImageInputs) (name : Name) (region : Region) : Output where
  name := name
  address := .next
  align := 1
  commands := [sections (i.rest name)]
  region := region
  load := none

abbrev ScriptItem := Item Region Name Symbol Piece

def ramOverflow : String := "region RAM overflowed with stack"

def cm0pOverflow : String :=
  "CM0+ flash image overflows with CM7, increase CM7 base address "

def script (E : ShellCmd) (i : ImageInputs) : List ScriptItem :=
  [.output (cyCm0pImage i),
   .check (fun v => v .cyM0pCodeEnd < (memory .flash).origin) cm0pOverflow,
   .output (text E i),
   .output (armExtab i),
   .output (armExidx i),
   .output copyTable,
   .output zeroTable,
   .output (cyItcm i),
   .define .itcmFlashEnd fun _ v => v .zeroTableEnd + (v .itcmEnd - v .itcmStart),
   .output (cyDtcm i),
   .define .etext fun _ v => v .itcmFlashEnd + (v .dtcmEnd - v .dtcmStart),
   .output (ramVectors i),
   .output (data i),
   .output (noinit i),
   .output (bss i),
   .output (heap i),
   .output (stackDummy i),
   .define .stackTop fun _ _ => (memory .ram).origin + (memory .ram).length,
   .define .stackLimit fun _ v => v .stackTop - stackSize,
   .check (fun v => v .stackLimit ≥ v .heapLimit) ramOverflow,
   .output (restOutput i .cyEmEeprom .emEeprom),
   .output (restOutput i .cySflashUserData .sflashUserData),
   .output (restOutput i .cySflashNar .sflashNar),
   .output (restOutput i .cySflashPublicKey .sflashPublicKey),
   .output (restOutput i .cyTocPart2 .sflashToc2),
   .output (restOutput i .cyXip .xip),
   .output (restOutput i .cyEfuse .efuse)]

def image (E : ShellCmd) (i : ImageInputs) : Image Region Name Symbol Piece :=
  layout memory (script E i)

end UphyDemo.Linker
