/-
Which sectors a disk command touches (device/disk.c): the port writes of `send_cmd`,
what the drive takes from them, and the partition they ought to stay in.

The mutex and the wait for an interrupt change neither and are left out.
-/

import MangoOS.Device.DeviceTable
import MangoOS.FileSystem.Device
import MangoOS.Kernel.DiskWait
import Mathlib.Algebra.Group.Nat.Defs
import Mathlib.Algebra.Group.Int.Defs

namespace MangoOS

namespace DiskCommand

open DeviceTable (PartInfo partIndex enopart)

structure PortWrite where
  port : Nat
  value : Nat
  deriving DecidableEq

/-- `load_part_info` over the boot sector: four items of 16 bytes from byte 446 on. -/
def loadPartInfo (part : Nat → PartInfo) (data : ByteMemory) (index : Nat) : PartInfo :=
  if 1 ≤ index ∧ index ≤ 4 then
    let item := 446 + 16 * (index - 1)
    if (data (item + 4)).toNat = 0 then { type := 0, beginSec := 0, count := 0 }
    else
      { type := (data (item + 4)).toNat
        beginSec := data.word (item + 8)
        count := data.word (item + 12) }
  else part index

/-- `(uchar)`. -/
def uchar (value : Int) : Nat := (value % 256).toNat

def sendCmd (startSec : Nat) (count : Int) (cmd : Nat) : List PortWrite :=
  [ ⟨0x1F6, 0xE0⟩,
    ⟨0x1F2, uchar (count / 2 ^ 8)⟩,
    ⟨0x1F3, uchar (startSec / 2 ^ 24 : Nat)⟩,
    ⟨0x1F4, 0x00⟩,
    ⟨0x1F5, 0x00⟩,
    ⟨0x1F2, uchar count⟩,
    ⟨0x1F3, uchar startSec⟩,
    ⟨0x1F4, uchar (startSec / 2 ^ 8 : Nat)⟩,
    ⟨0x1F5, uchar (startSec / 2 ^ 16 : Nat)⟩,
    ⟨0x1F7, uchar cmd⟩ ]

/-- What a call returns, its port writes, and how many sectors of data went through. -/
structure Transfer where
  result : Int
  writes : List PortWrite
  sectors : Nat
  deriving DecidableEq

/-- The loop of `disk_read` from sector `i` on; `ready i` is `wait_data` for that sector. -/
def readLoop (ready : Nat → Bool) : (left i : Nat) → Int × Nat
  | 0, i => (i, i)
  | left + 1, i => if ready i then readLoop ready left (i + 1) else (-enodisk, i)

/-- The loop of `disk_write`, which hands a sector over before it waits. -/
def writeLoop (ready : Nat → Bool) : (left i : Nat) → Int × Nat
  | 0, i => (i, i)
  | left + 1, i => if ready i then writeLoop ready left (i + 1) else (-enodisk, i + 1)

/-- `disk_read` and `disk_write` but for the loop and the command. -/
def transfer (loop : (left i : Nat) → Int × Nat) (cmd : Nat) (part : Nat → PartInfo)
    (minor beginSec count : Int) : Transfer :=
  let info := part (partIndex minor)
  if info.count = 0 then { result := -enopart, writes := [], sectors := 0 }
  else
    let (result, sectors) := loop count.toNat 0
    { result := result
      writes := sendCmd (uint32 (info.beginSec + beginSec)) count cmd
      sectors := sectors }

def diskRead (ready : Nat → Bool) := transfer (readLoop ready) 0x24

def diskWrite (ready : Nat → Bool) := transfer (writeLoop ready) 0x34

/-! ### The drive -/

structure Command where
  start : Nat
  count : Nat
  cmd : Nat
  deriving DecidableEq

/-- The task file: a register keeps the value that was written to it before the last one. -/
structure Drive where
  current : Nat → Nat
  previous : Nat → Nat
  commands : List Command

/-- A 48-bit command; 0 sectors stand for 65536. -/
def Drive.command (drive : Drive) (cmd : Nat) : Command :=
  let count := drive.current 0x1F2 + 2 ^ 8 * drive.previous 0x1F2
  { start := drive.current 0x1F3 + 2 ^ 8 * drive.current 0x1F4 + 2 ^ 16 * drive.current 0x1F5 +
      2 ^ 24 * drive.previous 0x1F3 + 2 ^ 32 * drive.previous 0x1F4 +
      2 ^ 40 * drive.previous 0x1F5
    count := if count = 0 then 65536 else count
    cmd := cmd }

def Drive.outb (drive : Drive) (write : PortWrite) : Drive :=
  if write.port = 0x1F7 then
    { drive with commands := drive.commands ++ [drive.command write.value] }
  else
    { drive with
      current := Function.update drive.current write.port write.value
      previous := Function.update drive.previous write.port (drive.current write.port) }

/-- The commands that a call issues to a drive with anything in its registers. -/
def issued (drive : Drive) (writes : List PortWrite) : List Command :=
  (writes.foldl Drive.outb { drive with commands := [] }).commands

/-- Every sector of a command lies in a partition, and there are as many as were asked for. -/
def Command.Within (command : Command) (info : PartInfo) (count : Int) : Prop :=
  (∀ sector, command.start ≤ sector → sector < command.start + command.count →
    info.beginSec ≤ sector ∧ sector < info.beginSec + info.count) ∧ command.count = count

/-- A call stays in its partition, or fails without a command. -/
def Transfer.Contained (done : Transfer) (drive : Drive) (info : PartInfo) (count : Int) : Prop :=
  (∀ command, command ∈ issued drive done.writes → command.Within info count) ∧
    (issued drive done.writes = [] → done.result < 0)

/-- The partition is not there, or the sectors are in it and a command can count them. -/
def InPartition (info : PartInfo) (beginSec count : Int) : Prop :=
  info.count = 0 ∨
    info.beginSec + uint32 beginSec < 2 ^ 32 ∧ uint32 beginSec + count ≤ info.count ∧
      1 ≤ count ∧ count ≤ 65536

theorem loadPartInfo_small {part : Nat → PartInfo} (small : ∀ i, (part i).beginSec < 2 ^ 32)
    (data : ByteMemory) (i : Nat) : (loadPartInfo part data i).beginSec < 2 ^ 32 := by
  unfold loadPartInfo
  by_cases item : 1 ≤ i ∧ i ≤ 4
  · rw [if_pos item]
    dsimp only
    by_cases invalid : (data (446 + 16 * (i - 1) + 4)).toNat = 0
    · rw [if_pos invalid]
      exact (by decide : 0 < 2 ^ 32)
    · rw [if_neg invalid]
      exact data.word_lt _
  · rw [if_neg item]
    exact small i

theorem uchar_nat (value : Nat) : uchar value = value % 256 := by
  unfold uchar
  omega

theorem acceptedSectors_bytes (count : Int) :
    (if uchar count + 2 ^ 8 * uchar (count / 2 ^ 8) = 0 then 65536
      else uchar count + 2 ^ 8 * uchar (count / 2 ^ 8)) = acceptedSectors count := by
  have low : uchar count + 2 ^ 8 * uchar (count / 2 ^ 8) = (count % 65536).toNat := by
    unfold uchar
    omega
  unfold acceptedSectors
  rw [low]
  by_cases zero : count % 65536 = 0
  · rw [if_pos zero, zero]
    rfl
  · rw [if_neg zero, if_neg (by omega)]

/-- The drive gets the start sector and, in 16 bits, the count. -/
theorem issued_sendCmd (drive : Drive) {startSec cmd : Nat} (small : startSec < 2 ^ 32)
    (byte : cmd < 256) (count : Int) :
    issued drive (sendCmd startSec count cmd) =
      [{ start := startSec, count := acceptedSectors count, cmd := cmd }] := by
  have final : issued drive (sendCmd startSec count cmd) =
      [{ start := uchar startSec + 2 ^ 8 * uchar (startSec / 2 ^ 8 : Nat) +
          2 ^ 16 * uchar (startSec / 2 ^ 16 : Nat) + 2 ^ 24 * uchar (startSec / 2 ^ 24 : Nat) +
          2 ^ 32 * 0 + 2 ^ 40 * 0
         count := if uchar count + 2 ^ 8 * uchar (count / 2 ^ 8) = 0 then 65536
          else uchar count + 2 ^ 8 * uchar (count / 2 ^ 8)
         cmd := uchar cmd }] := rfl
  rw [final, acceptedSectors_bytes]
  simp only [uchar_nat]
  congr 2
  · omega
  · omega

theorem acceptedSectors_eq_iff (count : Int) :
    (acceptedSectors count : Int) = count ↔ 1 ≤ count ∧ count ≤ 65536 := by
  unfold acceptedSectors
  by_cases zero : count % 65536 = 0
  · rw [if_pos zero]
    omega
  · rw [if_neg zero]
    omega

theorem acceptedSectors_pos (count : Int) : 0 < acceptedSectors count := by
  unfold acceptedSectors
  by_cases zero : count % 65536 = 0
  · rw [if_pos zero]
    decide
  · rw [if_neg zero]
    omega

/-- Sectors from the wrapped-around start on lie in the partition only if nothing wrapped. -/
theorem within_iff {info : PartInfo} (small : info.beginSec < 2 ^ 32) (beginSec count : Int)
    (cmd : Nat) :
    Command.Within ⟨uint32 (info.beginSec + beginSec), acceptedSectors count, cmd⟩ info count ↔
      info.beginSec + uint32 beginSec < 2 ^ 32 ∧ uint32 beginSec + count ≤ info.count ∧
        1 ≤ count ∧ count ≤ 65536 := by
  have positive := acceptedSectors_pos count
  unfold Command.Within
  dsimp only
  rw [acceptedSectors_eq_iff]
  constructor
  · intro ⟨inside, bounds⟩
    have counted := (acceptedSectors_eq_iff count).mpr bounds
    have first := inside (uint32 (info.beginSec + beginSec)) (Nat.le_refl _) (by omega)
    have last := inside (uint32 (info.beginSec + beginSec) + acceptedSectors count - 1)
      (by omega) (by omega)
    unfold uint32 at first last ⊢
    omega
  · intro ⟨noWrap, fits, bounds⟩
    have counted := (acceptedSectors_eq_iff count).mpr bounds
    refine ⟨fun sector lower upper => ?_, bounds⟩
    unfold uint32 at noWrap fits lower upper
    omega

theorem transfer_contained_iff (loop : (left i : Nat) → Int × Nat) {cmd : Nat} (byte : cmd < 256)
    {part : Nat → PartInfo} (small : ∀ i, (part i).beginSec < 2 ^ 32) (drive : Drive)
    (minor beginSec count : Int) :
    (transfer loop cmd part minor beginSec count).Contained drive (part (partIndex minor)) count ↔
      InPartition (part (partIndex minor)) beginSec count := by
  unfold transfer InPartition
  dsimp only
  by_cases missing : (part (partIndex minor)).count = 0
  · rw [if_pos missing]
    refine iff_of_true ⟨?_, ?_⟩ (Or.inl missing)
    · exact fun command impossible => absurd impossible List.not_mem_nil
    · exact fun _ => by decide
  · have start : uint32 ((part (partIndex minor)).beginSec + beginSec) < 2 ^ 32 := uint32_lt _
    rw [if_neg missing, or_iff_right missing, ← within_iff (small _) beginSec count cmd]
    unfold Transfer.Contained
    dsimp only
    rw [issued_sendCmd drive start byte count]
    constructor
    · intro ⟨within, _⟩
      exact within _ (List.mem_singleton.mpr rfl)
    · intro within
      refine ⟨fun command member => ?_, fun impossible => ?_⟩
      · rw [List.mem_singleton.mp member]
        exact within
      · cases impossible

/-- A transfer stays in its partition if and only if its sectors do and a command can count
them, whatever the drive answers. -/
theorem disk_contained_iff (part : Nat → PartInfo) (small : ∀ i, (part i).beginSec < 2 ^ 32)
    (drive : Drive) (ready : Nat → Bool) (minor beginSec count : Int) :
    ((diskRead ready part minor beginSec count).Contained drive (part (partIndex minor)) count ↔
        InPartition (part (partIndex minor)) beginSec count) ∧
      ((diskWrite ready part minor beginSec count).Contained drive (part (partIndex minor)) count ↔
        InPartition (part (partIndex minor)) beginSec count) :=
  ⟨transfer_contained_iff (readLoop ready) (by decide) small drive minor beginSec count,
    transfer_contained_iff (writeLoop ready) (by decide) small drive minor beginSec count⟩

/-- A boot sector with one partition of 4096 sectors from sector 2048 on. -/
private def bootSector : ByteMemory :=
  ((ByteMemory.setByte (fun _ => 0) 450 0x83).setWord 454 2048).setWord 458 4096

private def samplePart : Nat → PartInfo := loadPartInfo (fun _ => ⟨0, 0, 0⟩) bootSector

private def idleDrive : Drive := ⟨fun _ => 0, fun _ => 0, []⟩

private theorem samplePart_small (i : Nat) : (samplePart i).beginSec < 2 ^ 32 :=
  loadPartInfo_small (fun _ => by decide) bootSector i

/-- The last block of a partition. -/
theorem disk_contained_lastBlock :
    (diskWrite (fun _ => true) samplePart 1 4094 2).Contained idleDrive (samplePart 1) 2 :=
  (disk_contained_iff samplePart samplePart_small idleDrive (fun _ => true) 1 4094 2).2.mpr
    (Or.inr (by decide +kernel))

/-- The block behind it belongs to the next partition, and is written. -/
theorem disk_contained_not :
    (diskWrite (fun _ => true) samplePart 1 4096 2).result = 2 ∧
    issued idleDrive (diskWrite (fun _ => true) samplePart 1 4096 2).writes = [⟨6144, 2, 0x34⟩] ∧
    ¬ (diskWrite (fun _ => true) samplePart 1 4096 2).Contained idleDrive (samplePart 1) 2 := by
  have command : issued idleDrive (diskWrite (fun _ => true) samplePart 1 4096 2).writes =
      [⟨6144, 2, 0x34⟩] := by decide +kernel
  refine ⟨by decide +kernel, command, ?_⟩
  intro ⟨within, _⟩
  rw [command] at within
  have inside := (within ⟨6144, 2, 0x34⟩ (List.mem_singleton.mpr rfl)).1 6144 (by decide)
    (by decide)
  exact absurd inside.2 (by decide +kernel)

end DiskCommand

end MangoOS
