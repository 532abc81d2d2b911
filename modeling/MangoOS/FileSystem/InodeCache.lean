/-
The window of inodes that a group keeps in memory: `write_inode` and `iget_inode`
(fs/ext2.c).

A window starts at some block of the inode table; a lookup behind or in front of it
writes it back and loads another one over it.
-/

import MangoOS.FileSystem.Ext2

namespace MangoOS

/-- The inode stored from byte `step` of a block on; `parent` is not stored. -/
def loadInode (data : Region) (step : Nat) (old : Inode) : Inode where
  iMode := data.half (step + 0 : Nat)
  iBlocks := data.word (step + 28 : Nat) % 65536
  iUid := data.half (step + 2 : Nat)
  iGid := data.half (step + 24 : Nat)
  iSize := data.word (step + 4 : Nat)
  iAtime := data.word (step + 8 : Nat)
  iMtime := data.word (step + 16 : Nat)
  iCtime := data.word (step + 12 : Nat)
  iBlock := fun k => if k < 15 then data.word (step + 40 + 4 * k : Nat) else old.iBlock k
  parent := old.parent

/-- What `write_inode` puts into a block; the group id is overwritten by the user id. -/
def storeInode (data : Region) (step : Nat) (inode : Inode) : Region :=
  let data := data.setWord (step + 28 : Nat) inode.iBlocks
  let data := data.setHalf (step + 2 : Nat) inode.iUid
  let data := data.setHalf (step + 24 : Nat) inode.iUid
  let data := data.setWord (step + 4 : Nat) inode.iSize
  let data := data.setWord (step + 8 : Nat) inode.iAtime
  let data := data.setWord (step + 16 : Nat) inode.iMtime
  let data := data.setWord (step + 12 : Nat) inode.iCtime
  (List.range 15).foldl
    (fun data k => data.setWord (step + 40 + 4 * k : Nat) (inode.iBlock k)) data

/-- How inodes lie in blocks. -/
structure InodeShape where
  blockSize : Nat
  inodeSize : Nat
  /-- The first block of the window. -/
  inodeBlock : Nat

namespace InodeShape

open BlockStore (sectorOf)

/-- `num_in_cache`. -/
def total (shape : InodeShape) : Nat := 4096 * 5 / shape.inodeSize

/-- `num`, the inodes of a block. -/
def num (shape : InodeShape) : Nat := shape.blockSize / shape.inodeSize

/-- The start of a round: every `num` inodes the next block is read. -/
def startRound (shape : InodeShape) (store : BlockStore) (i bb step : Nat) :
    Option (Nat × Nat) × BlockStore :=
  if i % shape.num = 0 then
    match store.readBlock shape.blockSize ((shape.inodeBlock + i / shape.num) % 4294967296) with
    | (none, store) => (none, store)
    | (some bb, store) => (some (bb, 0), store)
  else (some (bb, step), store)

/-- The loop of `write_inode`. -/
def writeLoop (shape : InodeShape) (inodeData : Nat → Inode) :
    (left i : Nat) → BlockStore → (bb step : Nat) → BlockStore
  | 0, _, store, _, _ => store
  | left + 1, i, store, bb, step =>
      match shape.startRound store i bb step with
      | (none, store) => store
      | (some (bb, step), store) =>
          let buffer := store.buffers bb
          let store := store.setBuffer bb
            { buffer with data := storeInode buffer.data step (inodeData i) }
          let store :=
            if i % shape.num = shape.num - 1 ∨ i = shape.total - 1 then
              (store.flush (sectorOf shape.blockSize (store.buffers bb).blockNo) bb).2
            else store
          shape.writeLoop inodeData left (i + 1) store bb (step + shape.inodeSize)

/-- The loop of `iget_inode`; the first component is false if a block could not be read. -/
def loadLoop (shape : InodeShape) :
    (left i : Nat) → BlockStore → (inodeData : Nat → Inode) → (bb step : Nat) →
      Bool × BlockStore × (Nat → Inode)
  | 0, _, store, inodeData, _, _ => (true, store, inodeData)
  | left + 1, i, store, inodeData, bb, step =>
      match shape.startRound store i bb step with
      | (none, store) => (false, store, inodeData)
      | (some (bb, step), store) =>
          let inode := loadInode (store.buffers bb).data step (inodeData i)
          shape.loadLoop left (i + 1) store (Function.update inodeData i inode) bb
            (step + shape.inodeSize)

end InodeShape

namespace FileSystem

def writeInode (fs : FileSystem) (group : Group) : BlockStore :=
  if group.inodeBegin = -1 then fs.store
  else
    let shape : InodeShape := ⟨fs.blockSize, fs.inodeSize, uint32 group.inodeBegin⟩
    shape.writeLoop group.inodeData shape.total 0 fs.store 0 0

/-- The group that `iget_inode` looks an inode up in. -/
def inodeGroup (fs : FileSystem) (ino : Nat) : Nat := (ino - 1) / fs.groupInode

/-- The byte of the inode table where an inode starts, computed in 32 bits. -/
def inodePlace (fs : FileSystem) (ino : Nat) : Nat :=
  (ino - 1) % fs.groupInode * fs.inodeSize % 4294967296

/-- The block of the inode table that holds an inode. -/
def inodeBlock (fs : FileSystem) (ino : Nat) : Nat :=
  ((fs.groups (fs.inodeGroup ino)).inodeTable + fs.inodePlace ino / fs.blockSize) % 4294967296

/-- The place of an inode among those of its block. -/
def inodeSlot (fs : FileSystem) (ino : Nat) : Nat :=
  fs.inodePlace ino % fs.blockSize / fs.inodeSize

/-- How many blocks an inode lies behind the start of the window. -/
def inodeAway (fs : FileSystem) (ino : Nat) : Nat :=
  uint32 (fs.inodeBlock ino - (fs.groups (fs.inodeGroup ino)).inodeBegin)

/-- The inode lies in the window. -/
def InodeCached (fs : FileSystem) (ino : Nat) : Prop :=
  (fs.groups (fs.inodeGroup ino)).inodeBegin ≠ -1 ∧ fs.inodeAway ino < 5

instance (fs : FileSystem) (ino : Nat) : Decidable (fs.InodeCached ino) :=
  inferInstanceAs (Decidable (_ ∧ _))

/-- The reload of a window: the old one is written back and another one read over it. -/
def loadWindow (fs : FileSystem) (ino : Nat) : Bool × BlockStore × (Nat → Inode) :=
  let group := fs.groups (fs.inodeGroup ino)
  let shape : InodeShape := ⟨fs.blockSize, fs.inodeSize, fs.inodeBlock ino⟩
  shape.loadLoop shape.total 0 (fs.writeInode group) group.inodeData 0 0

/-- `iget_inode`; `none` is NULL. -/
def igetInode (fs : FileSystem) (ino : Nat) : Option InodeRef × FileSystem :=
  if ino < 1 ∨ ino > fs.inodeCount then (none, fs)
  else
    let index := fs.inodeGroup ino
    if fs.InodeCached ino then
      (some ⟨index, fs.inodeAway ino * fs.blockSize / fs.inodeSize + fs.inodeSlot ino⟩, fs)
    else
      let (done, store, inodeData) := fs.loadWindow ino
      let group := { fs.groups index with inodeData := inodeData }
      if done then
        (some ⟨index, fs.inodeSlot ino⟩,
          (fs.setStore store).setGroup index
            { group with inodeBegin := int32 (fs.inodeBlock ino) })
      else (none, (fs.setStore store).setGroup index group)

variable {fs : FileSystem} {ino : Nat}

theorem igetInode_invalid (invalid : ino < 1 ∨ ino > fs.inodeCount) :
    fs.igetInode ino = (none, fs) := by
  unfold igetInode
  rw [if_pos invalid]

theorem igetInode_cached (lower : 1 ≤ ino) (upper : ino ≤ fs.inodeCount)
    (cached : fs.InodeCached ino) :
    fs.igetInode ino =
      (some ⟨fs.inodeGroup ino,
        fs.inodeAway ino * fs.blockSize / fs.inodeSize + fs.inodeSlot ino⟩, fs) := by
  unfold igetInode
  rw [if_neg (by omega)]
  simp only [if_pos cached]

theorem igetInode_failed (lower : 1 ≤ ino) (upper : ino ≤ fs.inodeCount)
    (missed : ¬ fs.InodeCached ino) {store : BlockStore} {inodeData : Nat → Inode}
    (loads : fs.loadWindow ino = (false, store, inodeData)) :
    fs.igetInode ino =
      (none, (fs.setStore store).setGroup (fs.inodeGroup ino)
        { fs.groups (fs.inodeGroup ino) with inodeData := inodeData }) := by
  unfold igetInode
  rw [if_neg (by omega)]
  simp only [if_neg missed, loads]
  rfl

theorem igetInode_loaded (lower : 1 ≤ ino) (upper : ino ≤ fs.inodeCount)
    (missed : ¬ fs.InodeCached ino) {store : BlockStore} {inodeData : Nat → Inode}
    (loads : fs.loadWindow ino = (true, store, inodeData)) :
    fs.igetInode ino =
      (some ⟨fs.inodeGroup ino, fs.inodeSlot ino⟩,
        (fs.setStore store).setGroup (fs.inodeGroup ino)
          { fs.groups (fs.inodeGroup ino) with
            inodeData := inodeData
            inodeBegin := int32 (fs.inodeBlock ino) }) := by
  unfold igetInode
  rw [if_neg (by omega)]
  simp only [if_neg missed, loads]
  rfl

/-- A lookup off the window that returns an inode has reloaded the window. -/
theorem igetInode_reloaded (lower : 1 ≤ ino) (upper : ino ≤ fs.inodeCount)
    (missed : ¬ fs.InodeCached ino) {ref : InodeRef} {after : FileSystem}
    (returns : fs.igetInode ino = (some ref, after)) :
    ∃ store inodeData, fs.loadWindow ino = (true, store, inodeData) ∧
      ref = ⟨fs.inodeGroup ino, fs.inodeSlot ino⟩ ∧
      after = (fs.setStore store).setGroup (fs.inodeGroup ino)
        { fs.groups (fs.inodeGroup ino) with
          inodeData := inodeData
          inodeBegin := int32 (fs.inodeBlock ino) } := by
  rcases loads : fs.loadWindow ino with ⟨done, store, inodeData⟩
  cases done with
  | false =>
      rw [igetInode_failed lower upper missed loads] at returns
      cases returns
  | true =>
      rw [igetInode_loaded lower upper missed loads] at returns
      cases returns
      exact ⟨store, inodeData, rfl, rfl, rfl⟩

/-- All that `iget_inode` can change: the store, and the window of the group. -/
theorem igetInode_changes (fs : FileSystem) (ino : Nat) :
    (fs.igetInode ino).2 = fs ∨ ∃ store inodeData inodeBegin,
      (fs.igetInode ino).2 = (fs.setStore store).setGroup (fs.inodeGroup ino)
        { fs.groups (fs.inodeGroup ino) with
          inodeData := inodeData
          inodeBegin := inodeBegin } := by
  by_cases valid : 1 ≤ ino ∧ ino ≤ fs.inodeCount
  · by_cases cached : fs.InodeCached ino
    · rw [igetInode_cached valid.1 valid.2 cached]
      exact Or.inl rfl
    · rcases loads : fs.loadWindow ino with ⟨done, store, inodeData⟩
      cases done with
      | true =>
          rw [igetInode_loaded valid.1 valid.2 cached loads]
          exact Or.inr ⟨_, _, _, rfl⟩
      | false =>
          rw [igetInode_failed valid.1 valid.2 cached loads]
          exact Or.inr ⟨_, _, _, rfl⟩
  · rw [igetInode_invalid (by omega)]
    exact Or.inl rfl

end FileSystem

end MangoOS
