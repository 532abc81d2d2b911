/-
Files of the ext2 file system (fs/ext2.c, fs/fs.c): position, reading, writing.

A file refers to its inode by its place in the cached part of an inode table.
Which inode a path names is left to the caller of `ext2Open`.
-/

import MangoOS.FileSystem.Buffer
import MangoOS.Kernel.Queue

namespace MangoOS

open Intrusive

/-- A pointer into the inode cache of a group. -/
structure InodeRef where
  group : Nat
  slot : Nat
  deriving DecidableEq, Repr

/-- `inode_t`. -/
structure Inode where
  iMode : Nat
  iBlocks : Nat
  iUid : Nat
  iGid : Nat
  iSize : Nat
  iAtime : Nat
  iMtime : Nat
  iCtime : Nat
  iBlock : Nat → Nat
  parent : Option InodeRef

/-- `group_desc_t`; `inodeData` caches the inodes from block `inodeBegin` on. -/
structure Group where
  blockBitmap : Nat
  inodeBitmap : Nat
  inodeTable : Nat
  freeBlock : Nat
  freeInode : Nat
  blockBitmapSize : Nat
  inodeBitmapSize : Nat
  pBlockBitmap : Region
  pInodeBitmap : Region
  inodeBegin : Int
  inodeData : Nat → Inode

/-- `super_block_t` with everything that hangs off it; `dirty` links `dirty_blocks`, where
`none` is the head and `some bb` the node of a buffer. -/
structure FileSystem where
  store : BlockStore
  inodeCount : Nat
  usedBlock : Nat
  freeBlock : Nat
  freeInode : Nat
  inodeSize : Nat
  blockSize : Nat
  groupBlock : Nat
  groupInode : Nat
  groupCount : Nat
  groups : Nat → Group
  pSuperBlock : Region
  dirty : Links (Option Nat)

/-- `file_t`. -/
structure File where
  pos : Int
  mode : Nat
  startBlock : Int
  curBlock : Int
  ino : Nat
  inode : InodeRef
  ref : Nat

def enotexist : Int := 16

def sIsDir (mode : Nat) : Bool := mode &&& 0o170000 == 0o040000

def oAppend : Nat := 8

namespace FileSystem

def inode (fs : FileSystem) (ref : InodeRef) : Inode := (fs.groups ref.group).inodeData ref.slot

def setGroup (fs : FileSystem) (index : Nat) (group : Group) : FileSystem :=
  { fs with groups := Function.update fs.groups index group }

theorem setGroup_self (fs : FileSystem) (index : Nat) (group : Group) :
    (fs.setGroup index group).groups index = group :=
  Function.update_self ..

theorem setGroup_other (fs : FileSystem) {index other : Nat} (group : Group)
    (different : other ≠ index) : (fs.setGroup index group).groups other = fs.groups other :=
  Function.update_of_ne different ..

/-- A field that a new group shares with the old one is the same in all groups. -/
theorem setGroup_field {α : Type} {fs : FileSystem} {index : Nat} {group : Group}
    (field : Group → α) (same : field group = field (fs.groups index)) (other : Nat) :
    field ((fs.setGroup index group).groups other) = field (fs.groups other) := by
  cases decEq other index with
  | isTrue equal =>
      rw [equal, setGroup_self]
      exact same
  | isFalse different => rw [setGroup_other fs group different]

def setInode (fs : FileSystem) (ref : InodeRef) (inode : Inode) : FileSystem :=
  let group := fs.groups ref.group
  fs.setGroup ref.group
    { group with inodeData := Function.update group.inodeData ref.slot inode }

theorem inode_setInode (fs : FileSystem) (ref : InodeRef) (inode : Inode) :
    (fs.setInode ref inode).inode ref = inode := by
  simp [setInode, setGroup, FileSystem.inode]

def setStore (fs : FileSystem) (store : BlockStore) : FileSystem := { fs with store := store }

/-- A file system with one group whose cached inodes are regular files of `iSize` bytes, on
a disk of zeros. -/
def sample (iSize : Nat) : FileSystem where
  store := BlockStore.zeroed
  inodeCount := 160
  usedBlock := 0
  freeBlock := 0
  freeInode := 0
  inodeSize := 128
  blockSize := 4096
  groupBlock := 32768
  groupInode := 160
  groupCount := 1
  groups := fun _ =>
    { blockBitmap := 2
      inodeBitmap := 3
      inodeTable := 4
      freeBlock := 0
      freeInode := 0
      blockBitmapSize := 0
      inodeBitmapSize := 0
      pBlockBitmap := fun _ => 0#8
      pInodeBitmap := fun _ => 0#8
      inodeBegin := 4
      inodeData := fun _ =>
        { iMode := 0o100644
          iBlocks := 3
          iUid := 0
          iGid := 0
          iSize := iSize
          iAtime := 0
          iMtime := 0
          iCtime := 0
          iBlock := fun i => 100 + i
          parent := none } }
  pSuperBlock := fun _ => 0#8
  dirty := { next := fun _ => none, prev := fun _ => none }

end FileSystem

/-! ### Block tree -/

/-- The `uint` at a byte offset of a block. -/
def readEntry (store : BlockStore) (blockSize bno offset : Nat) : Option Nat × BlockStore :=
  match store.readBlock blockSize bno with
  | (none, store) => (none, store)
  | (some bb, store) => (some ((store.buffers bb).data.word offset), store)

/-- `iget_bno`; the `-1` of a failed read as `uint`. -/
def igetBno (store : BlockStore) (blockSize : Nat) (inode : Inode) (index : Nat) :
    Nat × BlockStore :=
  if index < 12 then (inode.iBlock index, store)
  else if index < 1036 then
    match readEntry store blockSize (inode.iBlock 12) (index - 12) with
    | (none, store) => (4294967295, store)
    | (some bno, store) => (bno, store)
  else if index < 1049612 then
    match readEntry store blockSize (inode.iBlock 13) ((index - 1036) / 1024) with
    | (none, store) => (4294967295, store)
    | (some curBno, store) =>
        match readEntry store blockSize curBno ((index - 1036) % 1024) with
        | (none, store) => (4294967295, store)
        | (some bno, store) => (bno, store)
  else
    match readEntry store blockSize (inode.iBlock 14) ((index - 1049612) / 1048576) with
    | (none, store) => (4294967295, store)
    | (some curBno, store) =>
        match readEntry store blockSize curBno ((index - 1049612) % 1048576 / 1024) with
        | (none, store) => (4294967295, store)
        | (some curBno, store) =>
            match readEntry store blockSize curBno ((index - 1049612) % 1048576 % 1024) with
            | (none, store) => (4294967295, store)
            | (some bno, store) => (bno, store)

/-! ### Positions -/

/-- `ext2_open` with what `find_inode_by_path` found. -/
def ext2Open (fs : FileSystem) (file : File) (found : Option InodeRef) : Int × File :=
  match found with
  | none => (-enotexist, file)
  | some inode =>
      if sIsDir (fs.inode inode).iMode then (-enotexist, file)
      else (0, { file with inode := inode, pos := 0, startBlock := 0, curBlock := 0 })

/-- What `sys_open` does for `O_APPEND` once the file is open. -/
def sysOpenAppend (fs : FileSystem) (file : File) : File :=
  { file with pos := int32 (fs.inode file.inode).iSize }

def ext2Seek (fs : FileSystem) (file : File) (offset : Nat) : Int × File :=
  let pos := int32 offset
  (0, { file with pos := pos, curBlock := pos.tdiv fs.blockSize })

theorem ext2Seek_snd (fs : FileSystem) (file : File) (offset : Nat) :
    (ext2Seek fs file offset).2 =
      { file with
        pos := int32 offset
        curBlock := (int32 offset).tdiv fs.blockSize } := rfl

theorem seek_inode (fs : FileSystem) (file : File) (offset : Nat) :
    (ext2Seek fs file offset).2.inode = file.inode := by
  rw [ext2Seek_snd]

/-! ### Reading and writing -/

/-- The size `ext2_read` is left with: at most 12 blocks, at most up to the end of file. -/
def readSize (iSize : Nat) (pos size : Int) : Int :=
  let size := if size > 49152 then 49152 else size
  if uint32 (pos + size) > iSize then int32 ((iSize : Int) - pos) else size

/-- The loop of `ext2_read`; every round takes at least one byte off `rSize`, so `rSize` is
fuel enough.  The first component is false if a block could not be read. -/
def ext2ReadLoop (inode : Inode) (blockSize : Nat) (size : Int) :
    (fuel : Nat) → BlockStore → File → (data : Region) → (begin : Int) → (bno : Nat) →
      (pos rSize : Int) → Bool × BlockStore × File × Region
  | 0, store, file, data, _, _, _, _ => (true, store, file, data)
  | fuel + 1, store, file, data, begin, bno, pos, rSize =>
      if rSize > 0 then
        match store.readBlock blockSize bno with
        | (none, store) => (false, store, file, data)
        | (some bb, store) =>
            if size ≤ blockSize - begin then
              (true, store, { file with pos := int32 (file.pos + rSize) },
                data.copy pos (store.buffers bb).data begin rSize)
            else
              let data := data.copy pos (store.buffers bb).data begin (blockSize - begin)
              let file :=
                { file with
                  pos := int32 (file.pos + (blockSize - begin))
                  curBlock := int32 (file.curBlock + 1) }
              let (bno, store) := igetBno store blockSize inode (uint32 file.curBlock)
              ext2ReadLoop inode blockSize size fuel store file data 0 bno
                (pos + (blockSize - begin)) (rSize - (blockSize - begin))
      else (true, store, file, data)

structure ReadResult where
  count : Int
  fs : FileSystem
  file : File
  data : Region

def ext2Read (fs : FileSystem) (file : File) (data : Region) (size : Int) : ReadResult :=
  let inode := fs.inode file.inode
  let size := readSize inode.iSize file.pos size
  let begin := file.pos.tmod fs.blockSize
  let (bno, store) := igetBno fs.store fs.blockSize inode (uint32 file.curBlock)
  let (done, store, file, data) :=
    ext2ReadLoop inode fs.blockSize size size.toNat store file data begin bno 0 size
  { count := if done then size else 0
    fs := fs.setStore store
    file := file
    data := data }

theorem ext2Read_eq {fs : FileSystem} {file after : File} {data moved : Region} {size n : Int}
    {bno : Nat} {found store : BlockStore} {done : Bool}
    (isSize : readSize (fs.inode file.inode).iSize file.pos size = n)
    (isBno : igetBno fs.store fs.blockSize (fs.inode file.inode) (uint32 file.curBlock) =
      (bno, found))
    (loop : ext2ReadLoop (fs.inode file.inode) fs.blockSize n n.toNat found file data
      (file.pos.tmod fs.blockSize) bno 0 n = (done, store, after, moved)) :
    ext2Read fs file data size =
      { count := if done then n else 0
        fs := fs.setStore store
        file := after
        data := moved } := by
  unfold ext2Read
  simp only [isSize, isBno, loop]

/-- `list_insert_tail` on `dirty_blocks`. -/
def FileSystem.markDirty (fs : FileSystem) (bb : Nat) : FileSystem :=
  { fs with dirty := queueInsertTail fs.dirty none (some bb) }

/-- The end of `ext2_write`. -/
def ext2WriteSize (fs : FileSystem) (file : File) (size : Int) : FileSystem :=
  let inode := fs.inode file.inode
  let now := fs.store.clock fs.store.looks
  let fs := fs.setStore { fs.store with looks := fs.store.looks + 1 }
  fs.setInode file.inode
    { inode with iSize := uint32 (inode.iSize + size), iAtime := now }

/-- `ext2_write`.  Both arms of its loop end in `break`: it runs at most once, and what
stands behind the arms, `alloc_block` included, is never reached. -/
def ext2Write (fs : FileSystem) (file : File) (data : Region) (size : Int) :
    Int × FileSystem × File :=
  let begin := file.pos.tmod fs.blockSize
  let (bno, store) := igetBno fs.store fs.blockSize (fs.inode file.inode)
    (uint32 (file.pos.tdiv fs.blockSize))
  if size > 0 then
    match store.readBlock fs.blockSize bno with
    | (none, store) => (0, fs.setStore store, file)
    | (some bb, store) =>
        let count := if size ≤ fs.blockSize - begin then size else fs.blockSize - begin
        let buffer := store.buffers bb
        let store := store.setBuffer bb { buffer with data := buffer.data.copy begin data 0 count }
        let fs := (fs.setStore store).markDirty bb
        let file := { file with pos := int32 (file.pos + count) }
        (size, ext2WriteSize fs file size, file)
  else (size, ext2WriteSize (fs.setStore store) file size, file)

end MangoOS
