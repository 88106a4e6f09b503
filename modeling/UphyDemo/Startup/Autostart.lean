import UphyDemo.Foundation.Bytes
import UphyDemo.Startup.Bustype

namespace UphyDemo.Startup
open CString

abbrev File := Option (List UInt8)

-- outcome of each `rte_fs` call; a failed `fclose` leaves the given content
structure RteFs where
  fopen : Bool
  fread : Nat → Nat
  fwrite : Nat → Nat
  fclose : Option File
  remove : Bool

def RteFs.reliable : RteFs where
  fopen := true
  fread := id
  fwrite := id
  fclose := none
  remove := true

inductive FsCall where
  | fopen (handle : Bool)
  | fread (handle : Bool)
  | fwrite (handle : Bool)
  | fclose (handle : Bool)
  | remove
deriving DecidableEq, Repr

inductive Line where
  | unsupportedFieldbus
  | autostartEnabled
  | autostartHint
  | commandHelp
  | autostartAdded
  | autostartDisabled
deriving DecidableEq, Repr

def Line.text : Line → String
  | .unsupportedFieldbus => "Unsupported fieldbus \"%s\". Is it supported by device model?\n"
  | .autostartEnabled => "Autostart enabled - %s\n"
  | .autostartHint => "Autostart disabled, start U-Phy using console command 'up_start'\n"
  | .commandHelp => "error - try \"help %s\"\n"
  | .autostartAdded => "%s autostart added\n"
  | .autostartDisabled => "autostart disabled\n"

def Refused.printed : Refused → List Line
  | .nullPointer => []
  | .unsupportedFieldbus => [.unsupportedFieldbus]

structure AutoStart where
  ret : Int
  bustype : Option Bustype
  buf : Memory
  printed : List Line

def bufSize : Nat := 32

def autoStart (f : Supported) (fs : RteFs) (autostart : File) (buf : Memory) : AutoStart :=
  match autostart, fs.fopen with
  | some content, true =>
      let available := content.take bufSize
      let buf := Bytes.write buf 0 (available.take (fs.fread available.length))
      match strToBusConfig f (some buf) with
      | .ok bustype => ⟨0,some bustype,buf,[.autostartEnabled]⟩
      | .error e => ⟨-1,none,buf,e.printed⟩
  | _, _ => ⟨-1,none,buf,[.autostartHint]⟩

def cmdAutostartName : Str := word "up_autostart"

structure CmdAutostart where
  ret : Int
  autostart : File
  printed : List Line
  fsCalls : List FsCall

def cmdAutostart (f : Supported) (fs : RteFs) (argv : List Str) (autostart : File) :
    CmdAutostart :=
  match argv with
  | [_,fieldbus] =>
      match strToBusConfig f (some fieldbus.memory) with
      | .ok _ =>
          let data := fieldbus.bytes ++ [0]
          let written := some (data.take (fs.fwrite data.length))
          let content := if fs.fopen then fs.fclose.getD written else autostart
          ⟨0,content,[.autostartAdded],[.fopen fs.fopen,.fwrite fs.fopen,.fclose fs.fopen]⟩
      | .error e =>
          ⟨-1,if fs.remove then none else autostart,e.printed ++ [.autostartDisabled],[.remove]⟩
  | _ => ⟨-1,autostart,[.commandHelp],[]⟩

def leftBehind (fs : RteFs) (x : Str) : File :=
  fs.fclose.getD (some ((x.bytes ++ [0]).take (fs.fwrite (x.bytes.length + 1))))

theorem take_terminated (x : Str) :
    (x.bytes ++ [0]).take (x.bytes.length + 1) = x.bytes ++ [0] :=
  List.take_of_length_le (by simp)

theorem leftBehind_reliable (x : Str) : leftBehind .reliable x = some (x.bytes ++ [0]) := by
  simp [leftBehind, RteFs.reliable, take_terminated]

theorem write_terminated {x : Str} {bs : List UInt8} (hx : x.bytes ++ [0] <+: bs) (buf : Memory)
    {i : Nat} (hi : i ≤ x.bytes.length) : Bytes.write buf 0 bs i = x.memory i := by
  obtain ⟨rest,rfl⟩ := hx
  have hlen : i < (x.bytes ++ [0] ++ rest).length := by
    simp only [List.length_append, List.length_singleton]
    omega
  have hread := Bytes.write_inside buf 0 hlen
  rw [Nat.zero_add] at hread
  rw [hread, Str.memory]
  rcases Nat.lt_or_ge i x.bytes.length with hlt | hge
  · simp [List.getElem_append_left, hlt]
  · obtain rfl : i = x.bytes.length := Nat.le_antisymm hi hge
    simp

section Reads

variable {f : Supported}

theorem strToBusConfig_terminated {x : Str} {bs : List UInt8} (hx : x.bytes ++ [0] <+: bs)
    (buf : Memory) {b : Bustype} :
    strToBusConfig f (some (Bytes.write buf 0 bs)) = .ok b ↔
      strToBusConfig f (some x.memory) = .ok b := by
  rw [strToBusConfig_ok_iff, strToBusConfig_str,
    strcmp_terminated b.name_unterminated fun i hi => write_terminated hx buf hi]

theorem autoStart_stored {x : Str} {b : Bustype} (hx : strToBusConfig f (some x.memory) = .ok b)
    (buf : Memory) :
    (autoStart f .reliable (some (x.bytes ++ [0])) buf).ret = 0 ∧
      (autoStart f .reliable (some (x.bytes ++ [0])) buf).bustype = some b := by
  have hname := (strToBusConfig_str.mp hx).2
  have hlen : (x.bytes ++ [0]).length ≤ bufSize := by
    have := b.name_length
    simp [hname, bufSize]
    omega
  have hread : strToBusConfig f (some (Bytes.write buf 0 (x.bytes ++ [0]))) = .ok b :=
    (strToBusConfig_terminated List.prefix_rfl buf).mpr hx
  have htake : (x.bytes ++ [0]).take bufSize = x.bytes ++ [0] := List.take_of_length_le hlen
  simp [autoStart, RteFs.reliable, htake, take_terminated, hread]

theorem autoStart_missing (f : Supported) (fs : RteFs) (buf : Memory) :
    (autoStart f fs none buf).ret = -1 ∧ (autoStart f fs none buf).bustype = none :=
  ⟨rfl,rfl⟩

theorem cmdAutostart_ok {x : Str} {b : Bustype} (hx : strToBusConfig f (some x.memory) = .ok b)
    (fs : RteFs) (cmd : Str) (autostart : File) :
    cmdAutostart f fs [cmd,x] autostart =
      ⟨0,if fs.fopen then leftBehind fs x else autostart,[.autostartAdded],
        [.fopen fs.fopen,.fwrite fs.fopen,.fclose fs.fopen]⟩ := by
  simp [cmdAutostart, hx, leftBehind]

theorem cmdAutostart_error {x : Str} {e : Refused}
    (hx : strToBusConfig f (some x.memory) = .error e) (fs : RteFs) (cmd : Str) (autostart : File) :
    cmdAutostart f fs [cmd,x] autostart =
      ⟨-1,if fs.remove then none else autostart,e.printed ++ [.autostartDisabled],[.remove]⟩ := by
  simp [cmdAutostart, hx]

end Reads

end UphyDemo.Startup
