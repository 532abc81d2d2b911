/-
ext2_mount (fs/ext2.c).

The bitmaps are read through a buffer on the stack.  What lies behind their last whole sector
is not read: it is copied from whatever the buffer holds there.
-/

import MangoOS.FileSystem.Sync
import MangoOS.Memory.Pages

namespace MangoOS

open Intrusive
open BlockStore (sectorOf)

/-- What a mount meets besides the disk: the answer of dev_open, whether kmalloc serves the two
calls that are checked, the stack at `data`, and the memory that kmalloc hands out. -/
structure MountMemory where
  devOpen : Int
  superBlock : Bool
  mutex : Bool
  data : Region
  pBlockBitmap : Nat → Region
  pInodeBitmap : Nat → Region
  inodeData : Nat → Nat → Inode

/-- A loop that loads a bitmap, 8 sectors a time, all of them from the same place; `none` for
a failed read. -/
def loadBitmapLoop (sector size : Nat) :
    (fuel : Nat) → (secCount : Int) → (offset : Nat) → (bitmap data : Region) → Device →
      Option (Region × Region × Device)
  | 0, _, _, bitmap, data, device => some (bitmap, data, device)
  | fuel + 1, secCount, offset, bitmap, data, device =>
      let (count, data, device) :=
        device.devRead sector data (if secCount > 8 then 8 else secCount.toNat)
      if count ≤ 0 then none
      else
        let bitmap :=
          if secCount > 8 then bitmap.copy (offset * 512 : Nat) data 0 4096
          else
            let bitmap := bitmap.copy (offset * 512 : Nat) data 0 (secCount * 512)
            if size % 512 ≠ 0 then
              bitmap.copy ((offset + secCount) * 512) data (secCount * 512) (size % 512 : Nat)
            else bitmap
        if secCount - 8 > 0 then
          loadBitmapLoop sector size fuel (secCount - 8) (offset + 1) bitmap data device
        else some (bitmap, data, device)

def loadBitmap (blockSize block size : Nat) (bitmap data : Region) (device : Device) :
    Option (Region × Region × Device) :=
  let secCount := size / 512
  loadBitmapLoop (sectorOf blockSize block) size (secCount + 1) secCount 0 bitmap data device

/-- `pos`, the sector of the group descriptors behind the super block. -/
def descriptorSector (blockSize : Nat) : Nat := if blockSize > 1024 then 6 else 2

/-- The descriptor of the group `i` in the sectors read from the super block on. -/
def descriptorPlace (blockSize i : Nat) : Nat := i * 32 + descriptorSector blockSize * 512

namespace FileSystem

/-- `1024 << log_size`. -/
def mountBlockSize (data : Region) : Nat := 1024 <<< (data.word 24 % 256) % 65536

/-- The bytes of a bitmap. -/
def mountBitmapSize (bits : Nat) : Nat := (bits + 7) % 4294967296 / 8 % 65536

def mountGroupCount (data : Region) : Nat :=
  data.word 4 / data.word 32 + if data.word 4 % data.word 32 ≠ 0 then 1 else 0

/-- The super block and the group descriptors, before the bitmaps are loaded. -/
def mountSuper (memory : MountMemory) (data : Region) (store : BlockStore)
    (dirty : Links (Option Nat)) : FileSystem where
  store := store
  inodeCount := data.word 0
  usedBlock := data.word 8
  freeBlock := data.word 12
  freeInode := data.word 16
  inodeSize := data.half 88
  blockSize := mountBlockSize data
  groupBlock := data.word 32
  groupInode := data.word 40
  groupCount := mountGroupCount data
  groups := fun i =>
    let place := descriptorPlace (mountBlockSize data) i
    { blockBitmap := data.word (place + 0 : Nat)
      inodeBitmap := data.word (place + 4 : Nat)
      inodeTable := data.word (place + 8 : Nat)
      freeBlock := data.half (place + 12 : Nat)
      freeInode := data.half (place + 14 : Nat)
      blockBitmapSize := mountBitmapSize (data.word 32)
      inodeBitmapSize := mountBitmapSize (data.word 40)
      pBlockBitmap := memory.pBlockBitmap i
      pInodeBitmap := memory.pInodeBitmap i
      inodeBegin := -1
      inodeData := memory.inodeData i }
  pSuperBlock := data
  dirty := dirty

/-- The table with both bitmaps of a group. -/
def setBitmaps (fs : FileSystem) (device : Device) (i : Nat) (pBlockBitmap pInodeBitmap : Region) :
    FileSystem :=
  (fs.setStore { fs.store with device := device }).setGroup i
    { fs.groups i with pBlockBitmap := pBlockBitmap, pInodeBitmap := pInodeBitmap }

/-- Both bitmaps of a group; the buffer goes on to the next one. -/
def loadGroup (fs : FileSystem) (data : Region) (i : Nat) : Option (Region × FileSystem) :=
  let group := fs.groups i
  match loadBitmap fs.blockSize group.blockBitmap group.blockBitmapSize group.pBlockBitmap data
      fs.store.device with
  | none => none
  | some (pBlockBitmap, data, device) =>
      match loadBitmap fs.blockSize group.inodeBitmap group.inodeBitmapSize group.pInodeBitmap
          data device with
      | none => none
      | some (pInodeBitmap, data, device) =>
          some (data, fs.setBitmaps device i pBlockBitmap pInodeBitmap)

def loadGroups : (left i : Nat) → (data : Region) → FileSystem → Option FileSystem
  | 0, _, _, fs => some fs
  | left + 1, i, data, fs =>
      match fs.loadGroup data i with
      | none => none
      | some (data, fs) => loadGroups left (i + 1) data fs

end FileSystem

/-- `ext2_mount`: its answer, and the file system that it leaves. -/
def ext2Mount (memory : MountMemory) (store : BlockStore) (dirty : Links (Option Nat)) :
    Int × Option FileSystem :=
  if memory.devOpen < 0 then (memory.devOpen, none)
  else
    let (count, data, device) := store.device.devRead 2 memory.data 7
    if count ≤ 0 then (count, none)
    else if memory.superBlock = false then (-enomem, none)
    else
      let fs := FileSystem.mountSuper memory data { store with device := device } dirty
      match FileSystem.loadGroups fs.groupCount 0 data fs with
      | none => (-enomem, none)
      | some fs => if memory.mutex = false then (-enomem, none) else (memory.devOpen, some fs)

variable {blockSize block size : Nat} {bitmap data : Region} {device : Device}

/-- A bitmap of at most 8 sectors: without a whole sector the read counts as failed, and
otherwise the bitmap is what the buffer holds behind it. -/
theorem loadBitmap_short (reliable : device.Reliable) (short : size ≤ 4096) :
    (size < 512 ∧ loadBitmap blockSize block size bitmap data device = none) ∨
      (512 ≤ size ∧ ∃ loaded after,
        loadBitmap blockSize block size bitmap data device =
          some (loaded, data.copy 0 (device.sectors (sectorOf blockSize block)) 0
            (size / 512 * 512 : Nat), after) ∧
        loaded.Agree (data.copy 0 (device.sectors (sectorOf blockSize block)) 0
          (size / 512 * 512 : Nat)) 0 size ∧
        after.bytes = device.bytes ∧ after.Reliable) := by
  have few : size / 512 ≤ 8 := by omega
  have notMore : ¬ ((size / 512 : Nat) : Int) > 8 := by omega
  have done : ¬ ((size / 512 : Nat) : Int) - 8 > 0 := by omega
  have read : device.devRead (sectorOf blockSize block) data (size / 512) = _ :=
    reliable.devRead_eq few
  unfold loadBitmap
  rw [loadBitmapLoop]
  simp only [if_neg notMore, if_neg done, Int.toNat_natCast, read]
  by_cases small : size < 512
  · left
    refine ⟨small, ?_⟩
    rw [if_pos (by omega)]
  · right
    rw [if_neg (by omega)]
    refine ⟨by omega, _, _, rfl, ?_, rfl, reliable⟩
    have scaled : ((size / 512 : Nat) : Int) * 512 = (size / 512 * 512 : Nat) := rfl
    intro x lower upper
    by_cases rest : size % 512 ≠ 0
    · rw [if_pos rest]
      by_cases behind : x < (size / 512 * 512 : Nat)
      · rw [Region.copy_outside _ _ (by omega), Region.copy_inside _ _ (by omega) (by omega)]
        congr 1
        omega
      · rw [Region.copy_inside _ _ (by omega) (by omega)]
        congr 1
        omega
    · rw [if_neg rest, Region.copy_inside _ _ (by omega) (by omega)]
      congr 1
      omega

end MangoOS
