/-
Writing a file system back: `ext2_sync` and `ext2_close` (fs/ext2.c).

Removing the node that `list_each` stands on and going on from its successor leaves
that successor out, and behind the head the list is entered again.  In a list whose
links are not a ring the loop need not end: `fuel` bounds its rounds.
-/

import MangoOS.FileSystem.Unlink

namespace MangoOS

open Intrusive
open BlockStore (sectorOf)

/-- The write of a bitmap, 8 sectors a time, all of them to the same place; every round
takes 8 off `secCount`, so as much is fuel enough.  The first component is false for
-EIO. -/
def writeBitmapLoop (sector : Nat) (bitmap : Region) :
    (fuel : Nat) → (secCount : Int) → (offset : Nat) → BlockStore → Bool × BlockStore
  | 0, _, _, store => (true, store)
  | fuel + 1, secCount, offset, store =>
      let size := if secCount > 8 then 8 else secCount.toNat
      let (count, device) :=
        store.device.devWrite sector (fun x => bitmap (x + (offset * 512 : Nat))) size
      let store := { store with device := device }
      if count < 0 then (false, store)
      else if secCount - 8 > 0 then
        writeBitmapLoop sector bitmap fuel (secCount - 8) (offset + 1) store
      else (true, store)

def writeBitmap (blockSize block size : Nat) (bitmap : Region) (store : BlockStore) :
    Bool × BlockStore :=
  let secCount := size / 512
  writeBitmapLoop (sectorOf blockSize block) bitmap (secCount + 1) secCount 0 store

namespace FileSystem

/-- `list_remove(bn)` on the dirty list. -/
def listRemove (fs : FileSystem) (bn : Option Nat) : FileSystem :=
  { fs with dirty := queueRemove fs.dirty bn }

/-- The loop of `ext2_sync` over the dirty list; the first component is false for -1. -/
def syncBlocks : (fuel : Nat) → FileSystem → (bn : Option Nat) → Option (Bool × FileSystem)
  | 0, _, _ => none
  | _ + 1, fs, none => some (true, fs)
  | fuel + 1, fs, some bb =>
      let (count, store) := fs.store.flush (sectorOf fs.blockSize (fs.store.buffers bb).blockNo) bb
      let fs := fs.setStore store
      if count ≤ 0 then some (false, fs)
      else
        let temp := fs.dirty.next (some bb)
        let fs := fs.listRemove (some bb)
        syncBlocks fuel fs (fs.dirty.next temp)

/-- What `ext2_sync` writes for a group: both bitmaps and the window of inodes. -/
def syncGroup (fs : FileSystem) (i : Nat) : Bool × FileSystem :=
  let group := fs.groups i
  match writeBitmap fs.blockSize group.blockBitmap group.blockBitmapSize group.pBlockBitmap
      fs.store with
  | (false, store) => (false, fs.setStore store)
  | (true, store) =>
      match writeBitmap fs.blockSize group.inodeBitmap group.inodeBitmapSize group.pInodeBitmap
          store with
      | (false, store) => (false, fs.setStore store)
      | (true, store) => (true, fs.setStore ((fs.setStore store).writeInode group))

def syncGroups : (left i : Nat) → FileSystem → Bool × FileSystem
  | 0, _, fs => (true, fs)
  | left + 1, i, fs =>
      match fs.syncGroup i with
      | (false, fs) => (false, fs)
      | (true, fs) => syncGroups left (i + 1) fs

/-- The counts that `ext2_sync` puts into the saved super block. -/
def superCounts (fs : FileSystem) : Region :=
  let data := (fs.pSuperBlock.setWord (8 : Nat) fs.usedBlock).setWord (12 : Nat) fs.freeBlock
  let pos := if fs.blockSize > 1024 then 6 else 2
  (List.range fs.groupCount).foldl (fun data i =>
    (data.setHalf (i * 32 + pos * 512 + 12 : Nat) (fs.groups i).freeBlock).setHalf
      (i * 32 + pos * 512 + 14 : Nat) (fs.groups i).freeInode) data

/-- The end of `ext2_sync`: the super block and the group descriptors. -/
def syncSuper (fs : FileSystem) : Int × FileSystem :=
  let fs := { fs with pSuperBlock := fs.superCounts }
  let (count, device) := fs.store.device.devWrite 2 fs.pSuperBlock 7
  let fs := fs.setStore { fs.store with device := device }
  if count < 0 then (-eio, fs) else (0, fs)

end FileSystem

def ext2Sync (fuel : Nat) (fs : FileSystem) : Option (Int × FileSystem) :=
  match fs.syncBlocks fuel (fs.dirty.next none) with
  | none => none
  | some (false, fs) => some (-1, fs)
  | some (true, fs) =>
      match FileSystem.syncGroups fs.groupCount 0 fs with
      | (false, fs) => some (-eio, fs)
      | (true, fs) => some fs.syncSuper

/-- `ext2_close`; `file->mode & O_RDONLY == O_RDONLY` is `file->mode & 1`. -/
def ext2Close (fuel : Nat) (fs : FileSystem) (file : File) : Option (Int × FileSystem) :=
  if file.mode &&& 1 ≠ 0 then some (0, fs)
  else
    match ext2Sync fuel fs with
    | none => none
    | some (_, fs) => some (0, fs)

end MangoOS
