/-
The bitmaps behind ext2_sync and a new ext2_mount.

ext2_sync writes whole sectors of a bitmap and ext2_mount reads whole sectors, so the bytes
behind the last one come from the stack; a bitmap of less than a sector is not read at all.
-/

import MangoOS.FileSystem.Eviction
import MangoOS.FileSystem.Mount
import MangoOS.FileSystem.Window
import MangoOS.Library.Fields

namespace MangoOS

open Intrusive
open BlockStore (sectorOf)

variable {fs after : FileSystem} {store : BlockStore} {blockSize size bno bb a : Nat}

/-- The bytes from `a` on and those from `b` on lie apart. -/
def BytesApart (a length b width : Nat) : Prop := a + length ≤ b ∨ b + width ≤ a

/-- Where the 8 sectors of a block start. -/
def blockPlace (blockSize bno : Nat) : Nat := sectorOf blockSize bno * sectorSize

/-! ### Reads of a block -/

namespace BlockStore

theorem bgetBlock_blockNo (store : BlockStore) (bno : Nat) :
    ((store.bgetBlock bno).2.buffers (store.bgetBlock bno).1).blockNo = bno := by
  by_cases full : (store.heads (hashBh bno)).size ≥ 100
  · cases found : store.bgetFound bno with
    | inl bb =>
        have hit := (bgetSearch_hit found).2.1
        simp [bgetBlock, full, found, hit]
    | inr oldest =>
        obtain ⟨middle, got, _, blockNo, _⟩ := bgetBlock_miss full found
        rw [got]
        exact (blockNo oldest.1).trans (if_pos rfl)
  · simp [bgetBlock, full]

theorem refill_blockNo (store : BlockStore) (sector bb other : Nat) :
    ((store.refill sector bb).2.buffers other).blockNo = (store.buffers other).blockNo := by
  unfold refill
  by_cases failed : (store.fill sector bb).1 ≤ 0
  · rw [if_pos failed]
    by_cases same : other = bb <;> simp [fill, same]
  · rw [if_neg failed]
    by_cases same : other = bb <;> simp [fill, same]

theorem load_blockNo (store : BlockStore) (blockSize bno bb other : Nat) :
    ((store.load blockSize bno bb).2.buffers other).blockNo = (store.buffers other).blockNo := by
  rw [load_eq]
  split
  · rfl
  · split
    · split
      · rfl
      · exact refill_blockNo _ _ _ _
    · exact refill_blockNo _ _ _ _

theorem load_fst (store : BlockStore) (blockSize bno bb : Nat) :
    (store.load blockSize bno bb).1 = none ∨ (store.load blockSize bno bb).1 = some bb := by
  rw [load_eq]
  split
  · exact Or.inr rfl
  · split
    · split
      · exact Or.inl rfl
      · exact (refill_shows _ _ _).2.1
    · exact (refill_shows _ _ _).2.1

/-- The buffer that `read_block` returns has the number of the block. -/
theorem readBlock_blockNo {later : BlockStore}
    (read : store.readBlock blockSize bno = (some bb, later)) :
    (later.buffers bb).blockNo = bno := by
  have loaded : (store.bgetBlock bno).2.load blockSize bno (store.bgetBlock bno).1 =
      (some bb, later) := read
  have isBuffer := load_fst (store.bgetBlock bno).2 blockSize bno (store.bgetBlock bno).1
  have number := load_blockNo (store.bgetBlock bno).2 blockSize bno (store.bgetBlock bno).1 bb
  rw [loaded] at isBuffer number
  rcases isBuffer with none | isBuffer
  · cases none
  · rw [Option.some.inj isBuffer] at number ⊢
    rw [number]
    exact bgetBlock_blockNo store bno

theorem refill_bytes (store : BlockStore) (sector bb : Nat) :
    (store.refill sector bb).2.device.bytes = store.device.bytes := by
  rw [refill_device]
  rfl

/-- `read_block` writes nowhere but to the place of its block. -/
theorem readBlock_outside (outside : a < blockPlace blockSize bno ∨
      blockPlace blockSize bno + 4096 ≤ a) :
    (store.readBlock blockSize bno).2.device.bytes a = store.device.bytes a := by
  rw [← bgetBlock_device store bno]
  have away : a < sectorOf blockSize bno * sectorSize ∨
      (sectorOf blockSize bno + 8) * sectorSize ≤ a := by
    rw [Nat.add_mul]
    exact outside
  change ((store.bgetBlock bno).2.load blockSize bno (store.bgetBlock bno).1).2.device.bytes a = _
  rw [load_eq]
  split
  · rfl
  · split
    · split
      · exact Device.devWrite_outside away
      · rw [refill_bytes]
        exact Device.devWrite_outside away
    · rw [refill_bytes]

end BlockStore

/-! ### The window of a group -/

namespace InodeShape

/-- The byte lies apart from all blocks of the window. -/
def Outside (shape : InodeShape) (a : Nat) : Prop :=
  ∀ i, i < shape.total → a < blockPlace shape.blockSize (shape.block (i / shape.num)) ∨
    blockPlace shape.blockSize (shape.block (i / shape.num)) + 4096 ≤ a

/-- The buffer belongs to a block of the window. -/
def OfWindow (shape : InodeShape) (store : BlockStore) (bb : Nat) : Prop :=
  ∃ i, i < shape.total ∧ (store.buffers bb).blockNo = shape.block (i / shape.num)

theorem startRound_outside (shape : InodeShape) {i : Nat} (step : Nat) (inTotal : i < shape.total)
    (outside : shape.Outside a) (window : i % shape.num ≠ 0 → shape.OfWindow store bb) :
    (shape.startRound store i bb step).2.device.bytes a = store.device.bytes a ∧
      ∀ found, (shape.startRound store i bb step).1 = some found →
        shape.OfWindow (shape.startRound store i bb step).2 found.1 := by
  unfold startRound
  by_cases first : i % shape.num = 0
  · rw [if_pos first]
    have same : (store.readBlock shape.blockSize (shape.block (i / shape.num))).2.device.bytes a =
        store.device.bytes a := BlockStore.readBlock_outside (outside i inTotal)
    unfold block at same
    cases read : store.readBlock shape.blockSize
        ((shape.inodeBlock + i / shape.num) % 4294967296) with
    | mk result later =>
        rw [read] at same
        cases result with
        | none => exact ⟨same, fun found isFound => by cases isFound⟩
        | some bb =>
            refine ⟨same, ?_⟩
            intro found isFound
            rw [← Option.some.inj isFound]
            exact ⟨i, inTotal, BlockStore.readBlock_blockNo read⟩
  · rw [if_neg first]
    refine ⟨rfl, ?_⟩
    intro found isFound
    rw [← Option.some.inj isFound]
    exact window first

theorem OfWindow.setData {shape : InodeShape} (window : shape.OfWindow store bb) (data : Region) :
    shape.OfWindow (store.setBuffer bb { store.buffers bb with data := data }) bb := by
  obtain ⟨i, inTotal, number⟩ := window
  refine ⟨i, inTotal, ?_⟩
  rw [BlockStore.setBuffer_buffers, if_pos rfl]
  exact number

theorem OfWindow.flush_outside {shape : InodeShape} (window : shape.OfWindow store bb)
    (outside : shape.Outside a) :
    (store.flush (sectorOf shape.blockSize (store.buffers bb).blockNo) bb).2.device.bytes a =
      store.device.bytes a := by
  obtain ⟨i, inTotal, number⟩ := window
  have away := outside i inTotal
  rw [number]
  apply Device.devWrite_outside
  rw [Nat.add_mul]
  exact away

/-- `write_inode` writes nowhere but to the blocks of the window. -/
theorem writeLoop_outside (shape : InodeShape) (inodeData : Nat → Inode)
    (outside : shape.Outside a) :
    ∀ left i store bb step, i + left = shape.total →
      (i % shape.num ≠ 0 → shape.OfWindow store bb) →
        (shape.writeLoop inodeData left i store bb step).device.bytes a =
          store.device.bytes a := by
  intro left
  induction left with
  | zero =>
      intro i store bb step _ _
      rfl
  | succ left ih =>
      intro i store bb step ends window
      obtain ⟨same, ofWindow⟩ :=
        shape.startRound_outside step (by omega : i < shape.total) outside window
      rw [writeLoop]
      cases started : shape.startRound store i bb step with
      | mk result later =>
          rw [started] at same ofWindow
          cases result with
          | none => exact same
          | some found =>
              obtain ⟨bb, step⟩ := found
              have edited := (ofWindow (bb, step) rfl).setData
                (storeInode (later.buffers bb).data step (inodeData i))
              dsimp only
              by_cases last : i % shape.num = shape.num - 1 ∨ i = shape.total - 1
              · rw [if_pos last]
                refine Eq.trans (ih _ _ _ _ (by omega) ?_) ?_
                · exact fun _ => edited
                · exact (edited.flush_outside outside).trans same
              · rw [if_neg last]
                refine Eq.trans (ih _ _ _ _ (by omega) ?_) ?_
                · exact fun _ => edited
                · exact same

theorem startRound_reliable (shape : InodeShape) (i bb step : Nat)
    (reliable : store.device.Reliable) :
    (shape.startRound store i bb step).2.device.Reliable := by
  unfold startRound
  split
  · obtain ⟨found, later, read, still⟩ := BlockStore.readBlock_some shape.blockSize
      ((shape.inodeBlock + i / shape.num) % 4294967296) reliable
    rw [read]
    exact still
  · exact reliable

theorem writeLoop_reliable (shape : InodeShape) (inodeData : Nat → Inode) :
    ∀ left i store bb step, store.device.Reliable →
      (shape.writeLoop inodeData left i store bb step).device.Reliable := by
  intro left
  induction left with
  | zero =>
      intro i store bb step reliable
      exact reliable
  | succ left ih =>
      intro i store bb step reliable
      have started := shape.startRound_reliable i bb step reliable
      rw [writeLoop]
      split
      case h_1 isStart =>
          rw [isStart] at started
          exact started
      case h_2 isStart =>
          rw [isStart] at started
          apply ih
          split
          · exact started.devWrite
          · exact started

end InodeShape

/-! ### Where the bitmaps are -/

/-- The block of a bitmap of a group: that of its blocks, or that of its inodes. -/
def Group.bitmapBlock (group : Group) (ofInodes : Bool) : Nat :=
  if ofInodes then group.inodeBitmap else group.blockBitmap

def Group.bitmapSize (group : Group) (ofInodes : Bool) : Nat :=
  if ofInodes then group.inodeBitmapSize else group.blockBitmapSize

def Group.bitmap (group : Group) (ofInodes : Bool) : Region :=
  if ofInodes then group.pInodeBitmap else group.pBlockBitmap

/-- The bytes of its whole sectors. -/
def Group.bitmapWhole (group : Group) (ofInodes : Bool) : Nat :=
  group.bitmapSize ofInodes / 512 * 512

namespace FileSystem

def bitmapPlace (fs : FileSystem) (i : Nat) (ofInodes : Bool) : Nat :=
  blockPlace fs.blockSize ((fs.groups i).bitmapBlock ofInodes)

/-- The window of inodes of a group. -/
def window (fs : FileSystem) (i : Nat) : InodeShape :=
  ⟨fs.blockSize, fs.inodeSize, uint32 (fs.groups i).inodeBegin⟩

/-- Bitmaps fit in a block; they lie apart from each other, from the super block with the group
descriptors, and from the windows of inodes. -/
structure BitmapsApart (fs : FileSystem) : Prop where
  short : ∀ i p, i < fs.groupCount → (fs.groups i).bitmapSize p ≤ 4096
  bitmaps : ∀ i j p q, i < fs.groupCount → j < fs.groupCount → (i, p) ≠ (j, q) →
    BytesApart (fs.bitmapPlace i p) ((fs.groups i).bitmapWhole p) (fs.bitmapPlace j q)
      ((fs.groups j).bitmapWhole q)
  super : ∀ i p, i < fs.groupCount →
    BytesApart (fs.bitmapPlace i p) ((fs.groups i).bitmapWhole p) 1024 3584
  windows : ∀ i j p, i < fs.groupCount → j < fs.groupCount → (fs.groups j).inodeBegin ≠ -1 →
    ∀ k, k < (fs.window j).total →
      BytesApart (fs.bitmapPlace i p) ((fs.groups i).bitmapWhole p)
        (blockPlace fs.blockSize ((fs.window j).block (k / (fs.window j).num))) 4096

/-- The whole sectors of a bitmap are on the disk. -/
def OnDisk (fs : FileSystem) (device : Device) (i : Nat) (p : Bool) : Prop :=
  ∀ x, x < (fs.groups i).bitmapWhole p →
    device.bytes (fs.bitmapPlace i p + x) = (fs.groups i).bitmap p x

end FileSystem

/-! ### What ext2_sync leaves on the disk -/

/-- A bitmap of at most 8 sectors: its whole sectors go to its block. -/
theorem writeBitmap_short (block : Nat) (bitmap : Region) (reliable : store.device.Reliable)
    (short : size ≤ 4096) :
    ∃ written, writeBitmap blockSize block size bitmap store = (true, written) ∧
      written.device.Reliable ∧
      (∀ x : Nat, x < size / 512 * 512 →
        written.device.bytes (blockPlace blockSize block + x) = bitmap x) ∧
      ∀ b, b < blockPlace blockSize block ∨ blockPlace blockSize block + size / 512 * 512 ≤ b →
        written.device.bytes b = store.device.bytes b := by
  have few : size / 512 ≤ 8 := by omega
  have notMore : ¬ ((size / 512 : Nat) : Int) > 8 := by omega
  have done : ¬ ((size / 512 : Nat) : Int) - 8 > 0 := by omega
  have count := reliable.devWrite_fst (sectorOf blockSize block)
    (fun x => bitmap (x + (0 * 512 : Nat))) few
  have notFailed : ¬ ((size / 512 : Nat) : Int) < 0 := by omega
  have ends : (sectorOf blockSize block + size / 512) * sectorSize =
      blockPlace blockSize block + size / 512 * 512 := Nat.add_mul _ _ _
  have still : (store.device.devWrite (sectorOf blockSize block)
      (fun x => bitmap (x + (0 * 512 : Nat))) (size / 512)).2.Reliable := reliable.devWrite
  refine ⟨{ store with
      device := (store.device.devWrite (sectorOf blockSize block)
        (fun x => bitmap (x + (0 * 512 : Nat))) (size / 512)).2 }, ?_, still, ?_, ?_⟩
  · unfold writeBitmap
    rw [writeBitmapLoop]
    simp only [if_neg notMore, if_neg done, Int.toNat_natCast, count, if_neg notFailed]
  · intro x inside
    have stored : (store.device.devWrite (sectorOf blockSize block)
        (fun x => bitmap (x + (0 * 512 : Nat))) (size / 512)).2.bytes
          (blockPlace blockSize block + x) =
        bitmap (((blockPlace blockSize block + x : Nat) : Int) -
          (blockPlace blockSize block : Nat) + (0 * 512 : Nat)) :=
      reliable.devWrite_inside few (Nat.le_add_right _ x) (by rw [ends]; omega)
    refine Eq.trans stored ?_
    congr 1
    omega
  · intro b outside
    have kept : (store.device.devWrite (sectorOf blockSize block)
        (fun x => bitmap (x + (0 * 512 : Nat))) (size / 512)).2.bytes b = store.device.bytes b :=
      Device.devWrite_outside (by rw [ends]; exact outside)
    exact kept

namespace FileSystem

variable {device later : Device} {i : Nat} {p : Bool}

theorem OnDisk.keep (stored : fs.OnDisk device i p)
    (same : ∀ b, fs.bitmapPlace i p ≤ b → b < fs.bitmapPlace i p + (fs.groups i).bitmapWhole p →
      later.bytes b = device.bytes b) : fs.OnDisk later i p := by
  intro x inside
  rw [same _ (Nat.le_add_right _ x) (by omega)]
  exact stored x inside

theorem writeBitmap_onDisk (apart : fs.BitmapsApart) (reliable : store.device.Reliable)
    (inTable : i < fs.groupCount) (p : Bool) :
    ∃ written, writeBitmap fs.blockSize ((fs.groups i).bitmapBlock p) ((fs.groups i).bitmapSize p)
        ((fs.groups i).bitmap p) store = (true, written) ∧
      written.device.Reliable ∧ fs.OnDisk written.device i p ∧
      ∀ j q, j < fs.groupCount → fs.OnDisk store.device j q → fs.OnDisk written.device j q := by
  obtain ⟨written, result, still, inside, outside⟩ :=
    writeBitmap_short ((fs.groups i).bitmapBlock p) ((fs.groups i).bitmap p) reliable
      (apart.short i p inTable)
  refine ⟨written, result, still, inside, ?_⟩
  intro j q jInTable stored
  by_cases same : (j, q) = (i, p)
  · obtain ⟨sameGroup, sameKind⟩ := Prod.mk.inj same
    rw [sameGroup, sameKind]
    exact inside
  · have away := apart.bitmaps j i q p jInTable inTable same
    apply stored.keep
    intro b lower upper
    apply outside
    unfold BytesApart bitmapPlace Group.bitmapWhole at away
    unfold bitmapPlace Group.bitmapWhole at upper
    unfold bitmapPlace at lower
    omega

theorem writeInode_onDisk (apart : fs.BitmapsApart) (reliable : store.device.Reliable)
    (inTable : i < fs.groupCount) :
    ((fs.setStore store).writeInode (fs.groups i)).device.Reliable ∧
      ∀ j q, j < fs.groupCount → fs.OnDisk store.device j q →
        fs.OnDisk ((fs.setStore store).writeInode (fs.groups i)).device j q := by
  unfold writeInode
  by_cases none : (fs.groups i).inodeBegin = -1
  · rw [if_pos none]
    exact ⟨reliable, fun _ _ _ stored => stored⟩
  · rw [if_neg none]
    refine ⟨(fs.window i).writeLoop_reliable _ _ _ _ _ _ reliable, ?_⟩
    intro j q jInTable stored
    apply stored.keep
    intro b lower upper
    refine (fs.window i).writeLoop_outside _ ?_ _ _ _ _ _ (Nat.zero_add _) ?_
    · intro k inWindow
      have away := apart.windows j i q jInTable inTable none k inWindow
      unfold BytesApart at away
      change b < blockPlace fs.blockSize _ ∨ blockPlace fs.blockSize _ + 4096 ≤ b
      omega
    · intro notFirst
      exact absurd (Nat.zero_mod _) notFirst

theorem syncGroup_onDisk (apart : fs.BitmapsApart) (reliable : store.device.Reliable)
    (inTable : i < fs.groupCount) :
    ∃ synced, (fs.setStore store).syncGroup i = (true, fs.setStore synced) ∧
      synced.device.Reliable ∧ (∀ p, fs.OnDisk synced.device i p) ∧
      ∀ j q, j < fs.groupCount → fs.OnDisk store.device j q → fs.OnDisk synced.device j q := by
  obtain ⟨first, blocks, firstReliable, firstStored, firstKept⟩ :=
    writeBitmap_onDisk apart reliable inTable false
  obtain ⟨second, inodes, secondReliable, secondStored, secondKept⟩ :=
    writeBitmap_onDisk apart firstReliable inTable true
  obtain ⟨still, kept⟩ := writeInode_onDisk apart secondReliable inTable
  refine ⟨(fs.setStore second).writeInode (fs.groups i), ?_, still, ?_, ?_⟩
  · have blocksWritten : writeBitmap (fs.setStore store).blockSize
        ((fs.setStore store).groups i).blockBitmap ((fs.setStore store).groups i).blockBitmapSize
        ((fs.setStore store).groups i).pBlockBitmap (fs.setStore store).store = (true, first) :=
      blocks
    have inodesWritten : writeBitmap (fs.setStore store).blockSize
        ((fs.setStore store).groups i).inodeBitmap ((fs.setStore store).groups i).inodeBitmapSize
        ((fs.setStore store).groups i).pInodeBitmap first = (true, second) :=
      inodes
    rw [syncGroup, blocksWritten]
    dsimp only
    rw [inodesWritten]
    rfl
  · intro p
    cases p with
    | false => exact kept i false inTable (secondKept i false inTable firstStored)
    | true => exact kept i true inTable secondStored
  · intro j q jInTable stored
    exact kept j q jInTable (secondKept j q jInTable (firstKept j q jInTable stored))

/-- The loop over the groups: the bitmaps of those it has passed stay on the disk. -/
theorem syncGroups_onDisk (apart : fs.BitmapsApart) :
    ∀ left i store, i + left ≤ fs.groupCount → store.device.Reliable →
      (∀ j p, j < i → fs.OnDisk store.device j p) →
        ∃ synced, syncGroups left i (fs.setStore store) = (true, fs.setStore synced) ∧
          synced.device.Reliable ∧ ∀ j p, j < i + left → fs.OnDisk synced.device j p := by
  intro left
  induction left with
  | zero =>
      intro i store _ reliable stored
      exact ⟨store, rfl, reliable, stored⟩
  | succ left ih =>
      intro i store inTable reliable stored
      obtain ⟨middle, group, still, here, kept⟩ :=
        syncGroup_onDisk apart reliable (by omega : i < fs.groupCount)
      have passed : ∀ j p, j < i + 1 → fs.OnDisk middle.device j p := by
        intro j p below
        by_cases last : j = i
        · rw [last]
          exact here p
        · exact kept j p (by omega) (stored j p (by omega))
      obtain ⟨synced, rest, reliableLast, onDisk⟩ := ih (i + 1) middle (by omega) still passed
      refine ⟨synced, ?_, reliableLast, ?_⟩
      · rw [syncGroups, group]
        exact rest
      · intro j p below
        exact onDisk j p (by omega)

/-- The loop over the dirty list leaves everything but the cache and the list. -/
theorem syncBlocks_store (reliable : fs.store.device.Reliable) {fuel : Nat} {bn : Option Nat}
    {done : Bool} (returns : syncBlocks fuel fs bn = some (done, after)) :
    ∃ store dirty, after = { fs with store := store, dirty := dirty } ∧
      store.device.Reliable := by
  induction fuel generalizing fs bn with
  | zero => cases returns
  | succ fuel ih =>
      cases bn with
      | none =>
          rw [syncBlocks, Option.some.injEq, Prod.mk.injEq] at returns
          exact ⟨fs.store, fs.dirty, returns.2.symm, reliable⟩
      | some bb =>
          rw [syncBlocks] at returns
          dsimp only at returns
          split at returns
          · rw [Option.some.injEq, Prod.mk.injEq] at returns
            exact ⟨_, fs.dirty, returns.2.symm, reliable.devWrite⟩
          · obtain ⟨store, dirty, isAfter, still⟩ := ih (by exact reliable.devWrite) returns
            exact ⟨store, dirty, isAfter, still⟩

theorem syncSuper_onDisk (apart : fs.BitmapsApart) (reliable : fs.store.device.Reliable) :
    fs.syncSuper.2.store.device.Reliable ∧
      (∀ x : Nat, x < 3584 → fs.syncSuper.2.store.device.bytes (1024 + x) = fs.superCounts x) ∧
      ∀ j q, j < fs.groupCount → fs.OnDisk fs.store.device j q →
        fs.OnDisk fs.syncSuper.2.store.device j q := by
  have device : fs.syncSuper.2.store.device = (fs.store.device.devWrite 2 fs.superCounts 7).2 := by
    unfold syncSuper
    dsimp only
    split <;> rfl
  rw [device]
  refine ⟨reliable.devWrite, ?_, ?_⟩
  · intro x inside
    rw [reliable.devWrite_inside (by decide) (by unfold sectorSize; omega)
      (by unfold sectorSize; omega)]
    congr 1
    unfold sectorSize
    omega
  · intro j q jInTable stored
    have away := apart.super j q jInTable
    apply stored.keep
    intro b lower upper
    apply Device.devWrite_outside
    unfold BytesApart at away
    unfold sectorSize
    omega

/-- ext2_sync puts the whole sectors of all bitmaps and the super block with its new counts on
the disk. -/
theorem ext2Sync_onDisk (apart : fs.BitmapsApart) (reliable : fs.store.device.Reliable)
    {fuel : Nat} (synced : ext2Sync fuel fs = some (0, after)) :
    after.store.device.Reliable ∧
      (∀ x : Nat, x < 3584 → after.store.device.bytes (1024 + x) = fs.superCounts x) ∧
      ∀ i p, i < fs.groupCount → fs.OnDisk after.store.device i p := by
  unfold ext2Sync at synced
  split at synced
  case h_1 => cases synced
  case h_2 => cases synced
  case h_3 middle blocks =>
      obtain ⟨store, dirty, isMiddle, still⟩ := syncBlocks_store reliable blocks
      subst isMiddle
      have sameApart : BitmapsApart { fs with store := store, dirty := dirty } :=
        ⟨apart.short, apart.bitmaps, apart.super, apart.windows⟩
      obtain ⟨last, groups, lastReliable, onDisk⟩ :=
        syncGroups_onDisk sameApart fs.groupCount 0 store (by rw [Nat.zero_add]) still
          (fun j _ below => absurd below (Nat.not_lt_zero j))
      rw [show ({ fs with store := store, dirty := dirty } : FileSystem).setStore store =
        { fs with store := store, dirty := dirty } from rfl] at groups
      dsimp only at synced
      rw [groups] at synced
      have lastApart : BitmapsApart (setStore { fs with store := store, dirty := dirty } last) :=
        ⟨apart.short, apart.bitmaps, apart.super, apart.windows⟩
      obtain ⟨endReliable, super, kept⟩ := syncSuper_onDisk lastApart lastReliable
      rw [Option.some.injEq] at synced
      rw [synced] at endReliable super kept
      refine ⟨endReliable, super, ?_⟩
      intro i p inTable
      exact kept i p inTable (onDisk i p (by omega))

/-! ### The super block that is saved -/

/-- The table of groups is the one that ext2_mount made of the saved super block. -/
structure Described (fs : FileSystem) : Prop where
  blockSize : fs.blockSize = mountBlockSize fs.pSuperBlock
  groupCount : fs.groupCount = mountGroupCount fs.pSuperBlock
  block : ∀ i p, i < fs.groupCount → (fs.groups i).bitmapBlock p =
    fs.pSuperBlock.word (descriptorPlace fs.blockSize i + if p then 4 else 0 : Nat)
  size : ∀ i p, i < fs.groupCount → (fs.groups i).bitmapSize p =
    mountBitmapSize (fs.pSuperBlock.word (if p then 40 else 32 : Nat))

section SetBitmaps

variable (fs : FileSystem) (device : Device) (i : Nat) (pBlockBitmap pInodeBitmap : Region)

theorem setBitmaps_groups (j : Nat) :
    (fs.setBitmaps device i pBlockBitmap pInodeBitmap).groups j =
      if j = i then
        { fs.groups i with pBlockBitmap := pBlockBitmap, pInodeBitmap := pInodeBitmap }
      else fs.groups j :=
  Function.update_apply fs.groups i _ j

theorem setBitmaps_block (j : Nat) (p : Bool) :
    ((fs.setBitmaps device i pBlockBitmap pInodeBitmap).groups j).bitmapBlock p =
      (fs.groups j).bitmapBlock p := by
  rw [setBitmaps_groups]
  by_cases here : j = i
  · rw [if_pos here, here]
    rfl
  · rw [if_neg here]

theorem setBitmaps_size (j : Nat) (p : Bool) :
    ((fs.setBitmaps device i pBlockBitmap pInodeBitmap).groups j).bitmapSize p =
      (fs.groups j).bitmapSize p := by
  rw [setBitmaps_groups]
  by_cases here : j = i
  · rw [if_pos here, here]
    rfl
  · rw [if_neg here]

end SetBitmaps

theorem loadGroup_described {data rest : Region} (described : fs.Described)
    (loads : fs.loadGroup data i = some (rest, after)) : after.Described := by
  unfold loadGroup at loads
  dsimp only at loads
  split at loads
  · cases loads
  · split at loads
    · cases loads
    · rw [Option.some.injEq, Prod.mk.injEq] at loads
      rw [← loads.2]
      refine ⟨described.blockSize, described.groupCount, ?_, ?_⟩
      · intro j p inTable
        rw [setBitmaps_block]
        exact described.block j p inTable
      · intro j p inTable
        rw [setBitmaps_size]
        exact described.size j p inTable

theorem loadGroups_described :
    ∀ left i data (fs : FileSystem), fs.Described → loadGroups left i data fs = some after →
      after.Described := by
  intro left
  induction left with
  | zero =>
      intro i data fs described loads
      exact Option.some.inj loads ▸ described
  | succ left ih =>
      intro i data fs described loads
      rw [loadGroups] at loads
      split at loads
      · cases loads
      case h_2 loaded => exact ih _ _ _ (loadGroup_described described loaded) loads

theorem mountSuper_described (memory : MountMemory) (data : Region) (store : BlockStore)
    (dirty : Links (Option Nat)) : (mountSuper memory data store dirty).Described := by
  refine ⟨rfl, rfl, ?_, ?_⟩
  · intro i p _
    cases p <;> rfl
  · intro i p _
    cases p <;> rfl

theorem ext2Mount_described {memory : MountMemory} {dirty : Links (Option Nat)} {answer : Int}
    (mounts : ext2Mount memory store dirty = (answer, some after)) : after.Described := by
  unfold ext2Mount at mounts
  dsimp only at mounts
  split at mounts
  · cases mounts
  · split at mounts
    · cases mounts
    · split at mounts
      · cases mounts
      · split at mounts
        · cases mounts
        case h_2 loaded =>
            split at mounts
            · cases mounts
            · rw [Prod.mk.injEq, Option.some.injEq] at mounts
              exact mounts.2 ▸ loadGroups_described _ _ _ _ (mountSuper_described _ _ _ _) loaded

theorem superCounts_word (fs : FileSystem) {offset : Nat} (header : offset + 4 ≤ 8 ∨ 16 ≤ offset)
    (descriptors : ∀ i, offset + 4 ≤ descriptorPlace fs.blockSize i + 12 ∨
      descriptorPlace fs.blockSize i + 16 ≤ offset) :
    fs.superCounts.word offset = fs.pSuperBlock.word offset := by
  have table : ∀ (l : List Nat) (data : Region),
      (l.foldl (fun data i =>
        (data.setHalf (descriptorPlace fs.blockSize i + 12 : Nat) (fs.groups i).freeBlock).setHalf
          (descriptorPlace fs.blockSize i + 14 : Nat) (fs.groups i).freeInode) data).word offset =
        data.word offset := by
    intro l
    induction l with
    | nil =>
        intro data
        rfl
    | cons i l ih =>
        intro data
        have apart := descriptors i
        rw [List.foldl_cons, ih, Region.word_setHalf_other _ _ (by omega),
          Region.word_setHalf_other _ _ (by omega)]
  have counts := table (List.range fs.groupCount)
    ((fs.pSuperBlock.setWord (8 : Nat) fs.usedBlock).setWord (12 : Nat) fs.freeBlock)
  refine Eq.trans counts ?_
  rw [Region.word_setWord_other _ _ (by omega), Region.word_setWord_other _ _ (by omega)]

/-! ### What a new mount loads -/

/-- The buffer of the mount behind the read of the super block. -/
def superBuffer (fs : FileSystem) (memory : MountMemory) : Region :=
  memory.data.copy 0 fs.superCounts 0 3584

/-- What the buffer holds behind the whole sectors of a bitmap: bytes of the bitmap that was
read before it, or else of the super block and of the stack. -/
def bitmapTail (fs : FileSystem) (memory : MountMemory) (i : Nat) (p : Bool) : Region := fun x =>
  if p then
    if x < (fs.groups i).bitmapWhole false then (fs.groups i).bitmap false x
    else fs.superBuffer memory x
  else if 0 < i ∧ x < (fs.groups (i - 1)).bitmapWhole true then
    (fs.groups (i - 1)).bitmap true x
  else fs.superBuffer memory x

/-- A mount of the disk succeeds and has the bitmaps in all their bytes. -/
structure BitmapsLoaded (fs : FileSystem) (mounted : Int × Option FileSystem) : Prop where
  answer : 0 ≤ mounted.1
  loaded : ∃ again, mounted.2 = some again ∧ again.groupCount = fs.groupCount ∧
    ∀ i p, i < fs.groupCount → (again.groups i).bitmapSize p = (fs.groups i).bitmapSize p ∧
      ((again.groups i).bitmap p).Agree ((fs.groups i).bitmap p) 0 ((fs.groups i).bitmapSize p)

/-- The group descriptors lie in the sectors that a mount reads. -/
def DescriptorsRead (fs : FileSystem) : Prop :=
  ∀ i, i < fs.groupCount → descriptorPlace fs.blockSize i + 32 ≤ 3584

/-- Blocks have 8 sectors and the bitmaps lie apart; the device opens and kmalloc serves; every
bitmap has a whole sector, and what follows its whole sectors is what the buffer holds there. -/
structure RemountReady (fs : FileSystem) (memory : MountMemory) : Prop where
  whole : fs.blockSize = 8 * sectorSize
  apart : fs.BitmapsApart
  devOpen : 0 ≤ memory.devOpen
  superBlock : memory.superBlock = true
  mutex : memory.mutex = true
  descriptors : fs.DescriptorsRead
  sectors : ∀ i p, i < fs.groupCount → 512 ≤ (fs.groups i).bitmapSize p
  tails : ∀ i p, i < fs.groupCount → ∀ x : Int, (fs.groups i).bitmapWhole p ≤ x →
    x < (fs.groups i).bitmapSize p → (fs.groups i).bitmap p x = fs.bitmapTail memory i p x

/-- The buffer before the group `i`. -/
def bufferAt (fs : FileSystem) (memory : MountMemory) : (i : Nat) → Region
  | 0 => fs.superBuffer memory
  | i + 1 => fun x =>
      if x < (fs.groups i).bitmapWhole true then (fs.groups i).bitmap true x
      else if x < (fs.groups i).bitmapWhole false then (fs.groups i).bitmap false x
      else fs.superBuffer memory x

theorem bufferAt_succ (fs : FileSystem) (memory : MountMemory) (i : Nat) (x : Int) :
    fs.bufferAt memory (i + 1) x =
      if x < (fs.groups i).bitmapWhole true then (fs.groups i).bitmap true x
      else if x < (fs.groups i).bitmapWhole false then (fs.groups i).bitmap false x
      else fs.superBuffer memory x := rfl

/-- The mount stands before the group `i`: its table has the places and sizes of the bitmaps,
the disk holds them, and the buffer is what the group before has left. -/
structure Loading (fs : FileSystem) (memory : MountMemory) (again : FileSystem) (data : Region)
    (i : Nat) : Prop where
  blockSize : again.blockSize = fs.blockSize
  block : ∀ j p, j < fs.groupCount → (again.groups j).bitmapBlock p = (fs.groups j).bitmapBlock p
  size : ∀ j p, j < fs.groupCount → (again.groups j).bitmapSize p = (fs.groups j).bitmapSize p
  reliable : again.store.device.Reliable
  onDisk : ∀ j p, j < fs.groupCount → fs.OnDisk again.store.device j p
  data : ∀ x : Int, 0 ≤ x → data x = fs.bufferAt memory i x

theorem Described.sameWhole (described : fs.Described) {j : Nat} (iInside : i < fs.groupCount)
    (jInside : j < fs.groupCount) (p : Bool) :
    (fs.groups i).bitmapWhole p = (fs.groups j).bitmapWhole p := by
  unfold Group.bitmapWhole
  rw [described.size i p iInside, described.size j p jInside]

/-- Behind the larger whole part the buffer is still that of the super block. -/
theorem bufferAt_super (described : fs.Described) (memory : MountMemory)
    (inTable : i < fs.groupCount) {x : Int} (blocks : (fs.groups i).bitmapWhole false ≤ x)
    (inodes : (fs.groups i).bitmapWhole true ≤ x) :
    fs.bufferAt memory i x = fs.superBuffer memory x := by
  cases i with
  | zero => rfl
  | succ i =>
      have sameBlocks := described.sameWhole inTable (by omega : i < fs.groupCount) false
      have sameInodes := described.sameWhole inTable (by omega : i < fs.groupCount) true
      rw [bufferAt_succ, if_neg (by omega), if_neg (by omega)]

theorem bufferAt_tail (described : fs.Described) (memory : MountMemory)
    (inTable : i < fs.groupCount) {x : Int} (blocks : (fs.groups i).bitmapWhole false ≤ x) :
    fs.bufferAt memory i x = fs.bitmapTail memory i false x := by
  unfold bitmapTail
  rw [if_neg Bool.false_ne_true]
  cases i with
  | zero => exact (if_neg (fun both => absurd both.1 (Nat.lt_irrefl 0))).symm
  | succ i =>
      have sameBlocks := described.sameWhole inTable (by omega : i < fs.groupCount) false
      rw [bufferAt_succ, Nat.add_sub_cancel]
      by_cases inInodes : x < (fs.groups i).bitmapWhole true
      · rw [if_pos inInodes, if_pos ⟨Nat.succ_pos i, inInodes⟩]
      · rw [if_neg inInodes, if_neg (by omega), if_neg (fun both => inInodes both.2)]

namespace Loading

variable {memory : MountMemory} {again : FileSystem} {data : Region}

/-- A bitmap that is read: its whole sectors are those of the disk, and the rest is the
buffer's. -/
theorem loadBitmap (loading : Loading fs memory again data i) (apart : fs.BitmapsApart)
    (inTable : i < fs.groupCount) (p : Bool) (bitmap buffer : Region)
    (bytes : device.bytes = again.store.device.bytes) (reliable : device.Reliable) :
    ((fs.groups i).bitmapSize p < 512 ∧
        MangoOS.loadBitmap again.blockSize ((again.groups i).bitmapBlock p)
          ((again.groups i).bitmapSize p) bitmap buffer device = none) ∨
      (512 ≤ (fs.groups i).bitmapSize p ∧ ∃ loaded rest later,
        MangoOS.loadBitmap again.blockSize ((again.groups i).bitmapBlock p)
          ((again.groups i).bitmapSize p) bitmap buffer device = some (loaded, rest, later) ∧
        later.bytes = again.store.device.bytes ∧ later.Reliable ∧
        (∀ x : Int, 0 ≤ x → rest x =
          if x < (fs.groups i).bitmapWhole p then (fs.groups i).bitmap p x else buffer x) ∧
        loaded.Agree rest 0 ((fs.groups i).bitmapSize p)) := by
  rw [loading.size i p inTable, loading.block i p inTable, loading.blockSize]
  have read : (_ ∧ MangoOS.loadBitmap fs.blockSize ((fs.groups i).bitmapBlock p) _ bitmap buffer
      device = none) ∨ _ := loadBitmap_short reliable (apart.short i p inTable)
  rcases read with ⟨small, failed⟩ | ⟨large, loaded, later, read, agree, same, still⟩
  · exact Or.inl ⟨small, failed⟩
  · right
    refine ⟨large, loaded, _, later, read, same.trans bytes, still, ?_, agree⟩
    intro x lower
    by_cases whole : x < (fs.groups i).bitmapWhole p
    · rw [if_pos whole, Region.copy_inside _ _ lower (by unfold Group.bitmapWhole at whole; omega)]
      have stored := loading.onDisk i p inTable x.toNat (by omega)
      rw [Int.toNat_of_nonneg lower, ← bytes] at stored
      rw [← stored]
      unfold Device.sectors bitmapPlace blockPlace
      congr 2
      omega
    · rw [if_neg whole, Region.copy_outside]
      unfold Group.bitmapWhole at whole
      omega

/-- A bitmap of the group `i` as a mount loads it. -/
def Loaded (fs : FileSystem) (memory : MountMemory) (i : Nat) (p : Bool) (bitmap : Region) :
    Prop :=
  512 ≤ (fs.groups i).bitmapSize p ∧ ∀ x : Int, 0 ≤ x → x < (fs.groups i).bitmapSize p →
    bitmap x = if x < (fs.groups i).bitmapWhole p then (fs.groups i).bitmap p x
      else fs.bitmapTail memory i p x

/-- One round: a bitmap without a whole sector fails the mount, and otherwise both are loaded. -/
theorem step (loading : Loading fs memory again data i) (apart : fs.BitmapsApart)
    (described : fs.Described) (inTable : i < fs.groupCount) :
    ((∃ p, (fs.groups i).bitmapSize p < 512) ∧ again.loadGroup data i = none) ∨
      ∃ rest next, again.loadGroup data i = some (rest, next) ∧
        Loading fs memory next rest (i + 1) ∧ next.groupCount = again.groupCount ∧
        (∀ j, j ≠ i → next.groups j = again.groups j) ∧
        ∀ p, Loaded fs memory i p ((next.groups i).bitmap p) := by
  have first := loading.loadBitmap apart inTable false (again.groups i).pBlockBitmap data rfl
    loading.reliable
  rcases first with ⟨small, failed⟩ | ⟨large, blocks, middle, device, read, bytes, still, isMiddle,
    agree⟩
  · left
    refine ⟨⟨false, small⟩, ?_⟩
    change MangoOS.loadBitmap again.blockSize (again.groups i).blockBitmap
      (again.groups i).blockBitmapSize _ _ _ = none at failed
    unfold loadGroup
    dsimp only
    rw [failed]
  · change MangoOS.loadBitmap again.blockSize (again.groups i).blockBitmap
      (again.groups i).blockBitmapSize _ _ _ = _ at read
    have second := loading.loadBitmap apart inTable true (again.groups i).pInodeBitmap middle bytes
      still
    rcases second with ⟨small, failed⟩ | ⟨inodesLarge, inodes, rest, later, inodesRead, laterBytes,
      laterStill, isRest, inodesAgree⟩
    · left
      refine ⟨⟨true, small⟩, ?_⟩
      change MangoOS.loadBitmap again.blockSize (again.groups i).inodeBitmap
        (again.groups i).inodeBitmapSize _ _ _ = none at failed
      unfold loadGroup
      dsimp only
      rw [read]
      dsimp only
      rw [failed]
    · right
      change MangoOS.loadBitmap again.blockSize (again.groups i).inodeBitmap
        (again.groups i).inodeBitmapSize _ _ _ = _ at inodesRead
      refine ⟨rest, again.setBitmaps later i blocks inodes, ?_, ?_, rfl, ?_, ?_⟩
      · unfold loadGroup
        dsimp only
        rw [read]
        dsimp only
        rw [inodesRead]
      · refine ⟨loading.blockSize, ?_, ?_, laterStill, ?_, ?_⟩
        · intro j p jInTable
          rw [setBitmaps_block]
          exact loading.block j p jInTable
        · intro j p jInTable
          rw [setBitmaps_size]
          exact loading.size j p jInTable
        · intro j p jInTable
          exact (loading.onDisk j p jInTable).keep (fun b _ _ => congrFun laterBytes b)
        · intro x lower
          rw [isRest x lower, isMiddle x lower, loading.data x lower, bufferAt_succ]
          by_cases inInodes : x < (fs.groups i).bitmapWhole true
          · rw [if_pos inInodes, if_pos inInodes]
          · rw [if_neg inInodes, if_neg inInodes]
            by_cases inBlocks : x < (fs.groups i).bitmapWhole false
            · rw [if_pos inBlocks, if_pos inBlocks]
            · rw [if_neg inBlocks, if_neg inBlocks,
                bufferAt_super described memory inTable (by omega) (by omega)]
      · intro j different
        rw [setBitmaps_groups, if_neg different]
      · intro p
        rw [setBitmaps_groups, if_pos rfl]
        cases p with
        | false =>
            refine ⟨large, ?_⟩
            intro x lower upper
            refine Eq.trans (agree x lower upper) ?_
            rw [isMiddle x lower, loading.data x lower]
            by_cases inBlocks : x < (fs.groups i).bitmapWhole false
            · rw [if_pos inBlocks, if_pos inBlocks]
            · rw [if_neg inBlocks, if_neg inBlocks,
                bufferAt_tail described memory inTable (by omega)]
        | true =>
            refine ⟨inodesLarge, ?_⟩
            intro x lower upper
            refine Eq.trans (inodesAgree x lower upper) ?_
            rw [isRest x lower, isMiddle x lower, loading.data x lower]
            by_cases inInodes : x < (fs.groups i).bitmapWhole true
            · rw [if_pos inInodes, if_pos inInodes]
            · rw [if_neg inInodes, if_neg inInodes]
              unfold bitmapTail
              rw [if_pos rfl]
              by_cases inBlocks : x < (fs.groups i).bitmapWhole false
              · rw [if_pos inBlocks, if_pos inBlocks]
              · rw [if_neg inBlocks, if_neg inBlocks,
                  bufferAt_super described memory inTable (by omega) (by omega)]

/-- The loop over the groups fails at the first bitmap without a whole sector, or loads all. -/
theorem rounds (apart : fs.BitmapsApart) (described : fs.Described) :
    ∀ left i data again, i + left = fs.groupCount → Loading fs memory again data i →
      ((∃ j p, i ≤ j ∧ j < fs.groupCount ∧ (fs.groups j).bitmapSize p < 512) ∧
          loadGroups left i data again = none) ∨
        ∃ last, loadGroups left i data again = some last ∧
          last.groupCount = again.groupCount ∧ (∀ j, j < i → last.groups j = again.groups j) ∧
          ∀ j p, i ≤ j → j < fs.groupCount →
            (last.groups j).bitmapSize p = (fs.groups j).bitmapSize p ∧
              Loaded fs memory j p ((last.groups j).bitmap p) := by
  intro left
  induction left with
  | zero =>
      intro i data again ends loading
      right
      refine ⟨again, rfl, rfl, fun _ _ => rfl, ?_⟩
      intro j p lower upper
      omega
  | succ left ih =>
      intro i data again ends loading
      rw [loadGroups]
      rcases loading.step apart described (by omega : i < fs.groupCount) with
        ⟨⟨p, small⟩, failed⟩ | ⟨rest, next, group, nextLoading, count, others, loaded⟩
      · left
        rw [failed]
        exact ⟨⟨i, p, Nat.le_refl i, by omega, small⟩, rfl⟩
      · rw [group]
        rcases ih (i + 1) rest next (by omega) nextLoading with
          ⟨⟨j, p, lower, upper, small⟩, failed⟩ | ⟨last, result, lastCount, kept, loadedRest⟩
        · exact Or.inl ⟨⟨j, p, by omega, upper, small⟩, failed⟩
        · right
          refine ⟨last, result, lastCount.trans count, ?_, ?_⟩
          · intro j below
            rw [kept j (by omega)]
            exact others j (by omega)
          · intro j p lower upper
            by_cases here : j = i
            · rw [here, kept i (by omega), nextLoading.size i p (by omega)]
              exact ⟨rfl, loaded p⟩
            · exact loadedRest j p (by omega) upper

end Loading

/-! ### The mount -/

section Mount

variable {memory : MountMemory} {fresh : BlockStore}

/-- The first read of the mount brings the saved super block. -/
theorem superBuffer_read
    (super : ∀ x : Nat, x < 3584 → fresh.device.bytes (1024 + x) = fs.superCounts x) :
    memory.data.copy 0 (fresh.device.sectors 2) 0 (7 * sectorSize : Nat) =
      fs.superBuffer memory := by
  apply Region.copy_congr
  intro x lower upper
  have inside : x < 3584 := upper
  have stored := super x.toNat (by omega)
  rw [Int.toNat_of_nonneg lower] at stored
  rw [Int.zero_add, ← stored]
  rfl

theorem superBuffer_word (memory : MountMemory) {offset : Nat} (inside : offset + 4 ≤ 3584)
    (header : offset + 4 ≤ 8 ∨ 16 ≤ offset)
    (descriptors : ∀ i, offset + 4 ≤ descriptorPlace fs.blockSize i + 12 ∨
      descriptorPlace fs.blockSize i + 16 ≤ offset) :
    (fs.superBuffer memory).word offset = fs.pSuperBlock.word offset := by
  rw [← superCounts_word fs header descriptors]
  apply Region.word_congr
  intro x lower upper
  unfold superBuffer
  rw [Region.copy_inside _ _ (by omega) (by omega), Int.zero_add, Int.sub_zero]

theorem superBuffer_header (fs : FileSystem) (memory : MountMemory) (offset : Nat)
    (inHeader : offset ≤ 1020) (header : offset + 4 ≤ 8 ∨ 16 ≤ offset) :
    (fs.superBuffer memory).word offset = fs.pSuperBlock.word offset := by
  apply superBuffer_word memory (by omega) header
  intro i
  unfold descriptorPlace descriptorSector
  split
  all_goals omega

theorem superBuffer_descriptor (read : fs.DescriptorsRead) (memory : MountMemory)
    (inTable : i < fs.groupCount) (p : Bool) :
    (fs.superBuffer memory).word (descriptorPlace fs.blockSize i + if p then 4 else 0 : Nat) =
      fs.pSuperBlock.word (descriptorPlace fs.blockSize i + if p then 4 else 0 : Nat) := by
  have inside := read i inTable
  have behind : 1024 ≤ descriptorPlace fs.blockSize i := by
    unfold descriptorPlace descriptorSector
    split
    all_goals omega
  have low : (if p then 4 else 0) ≤ 4 := by
    split
    all_goals decide
  apply superBuffer_word memory (by omega) (by omega)
  intro j
  unfold descriptorPlace at *
  omega

theorem Described.mountSuper_blockSize (described : fs.Described) (memory : MountMemory)
    (store : BlockStore) (dirty : Links (Option Nat)) :
    (mountSuper memory (fs.superBuffer memory) store dirty).blockSize = fs.blockSize := by
  have log : (fs.superBuffer memory).word 24 = fs.pSuperBlock.word 24 :=
    superBuffer_header fs memory 24 (by decide) (by decide)
  rw [described.blockSize]
  change mountBlockSize (fs.superBuffer memory) = _
  unfold mountBlockSize
  rw [log]

theorem Described.mountSuper_groupCount (described : fs.Described) (memory : MountMemory)
    (store : BlockStore) (dirty : Links (Option Nat)) :
    (mountSuper memory (fs.superBuffer memory) store dirty).groupCount = fs.groupCount := by
  have blocks : (fs.superBuffer memory).word 4 = fs.pSuperBlock.word 4 :=
    superBuffer_header fs memory 4 (by decide) (by decide)
  have groupBlock : (fs.superBuffer memory).word 32 = fs.pSuperBlock.word 32 :=
    superBuffer_header fs memory 32 (by decide) (by decide)
  rw [described.groupCount]
  change mountGroupCount (fs.superBuffer memory) = _
  unfold mountGroupCount
  rw [blocks, groupBlock]

/-- The table of a new mount stands before the first group. -/
theorem Described.loading (described : fs.Described) (read : fs.DescriptorsRead)
    (memory : MountMemory) (dirty : Links (Option Nat)) (reliable : fresh.device.Reliable)
    (onDisk : ∀ j p, j < fs.groupCount → fs.OnDisk fresh.device j p) :
    Loading fs memory (mountSuper memory (fs.superBuffer memory) fresh dirty)
      (fs.superBuffer memory) 0 := by
  have sameSize := described.mountSuper_blockSize memory fresh dirty
  refine ⟨sameSize, ?_, ?_, reliable, onDisk, fun x _ => rfl⟩
  · intro j p inTable
    rw [described.block j p inTable, ← superBuffer_descriptor read memory inTable p]
    have place : mountBlockSize (fs.superBuffer memory) = fs.blockSize := sameSize
    rw [← place]
    cases p <;> rfl
  · intro j p inTable
    rw [described.size j p inTable, ← superBuffer_header fs memory (if p then 40 else 32)
      (by split <;> decide) (by split <;> decide)]
    cases p <;> rfl

end Mount

/-- A bitmap that was loaded is the one in memory if what follows its whole sectors is. -/
theorem Loading.Loaded.agree_iff {memory : MountMemory} {bitmap : Region}
    (loaded : Loading.Loaded fs memory i p bitmap) :
    bitmap.Agree ((fs.groups i).bitmap p) 0 ((fs.groups i).bitmapSize p) ↔
      ∀ x : Int, (fs.groups i).bitmapWhole p ≤ x → x < (fs.groups i).bitmapSize p →
        (fs.groups i).bitmap p x = fs.bitmapTail memory i p x := by
  constructor
  · intro agree x lower upper
    rw [← agree x (by omega) upper, loaded.2 x (by omega) upper, if_neg (by omega)]
  · intro tails x lower upper
    rw [loaded.2 x lower upper]
    by_cases whole : x < (fs.groups i).bitmapWhole p
    · rw [if_pos whole]
    · rw [if_neg whole, tails x (by omega) upper]

/-- A mount whose first read brings the saved super block. -/
theorem ext2Mount_eq {memory : MountMemory} {fresh : BlockStore} {dirty : Links (Option Nat)}
    (reliable : fresh.device.Reliable)
    (super : ∀ x : Nat, x < 3584 → fresh.device.bytes (1024 + x) = fs.superCounts x) :
    ext2Mount memory fresh dirty =
      if memory.devOpen < 0 then (memory.devOpen, none)
      else if memory.superBlock = false then (-enomem, none)
      else
        match loadGroups (mountGroupCount (fs.superBuffer memory)) 0 (fs.superBuffer memory)
          (mountSuper memory (fs.superBuffer memory)
            { fresh with
              device := { fresh.device with transfers := fresh.device.transfers + 1 } } dirty) with
        | none => (-enomem, none)
        | some fs =>
            if memory.mutex = false then (-enomem, none) else (memory.devOpen, some fs) := by
  have read : fresh.device.devRead 2 memory.data 7 = _ := reliable.devRead_eq (by decide)
  rw [superBuffer_read super] at read
  have whole : ¬ ((7 : Nat) : Int) ≤ 0 := by decide
  unfold ext2Mount
  rw [read]
  dsimp only
  rw [if_neg whole]
  rfl

/-- With the descriptors among the sectors that are read, the mount brings the bitmaps exactly
if it is ready. -/
theorem ext2Mount_loaded_iff (described : fs.Described)
    (whole : fs.blockSize = 8 * sectorSize) (apart : fs.BitmapsApart) (read : fs.DescriptorsRead) (memory : MountMemory) (dirty : Links (Option Nat))
    {fresh : BlockStore} (reliable : fresh.device.Reliable)
    (super : ∀ x : Nat, x < 3584 → fresh.device.bytes (1024 + x) = fs.superCounts x)
    (onDisk : ∀ j p, j < fs.groupCount → fs.OnDisk fresh.device j p) :
    fs.BitmapsLoaded (ext2Mount memory fresh dirty) ↔ fs.RemountReady memory := by
  rw [ext2Mount_eq reliable super]
  by_cases closed : memory.devOpen < 0
  · rw [if_pos closed]
    constructor
    · intro loads
      exact absurd loads.answer (Int.not_le.mpr closed)
    · intro ready
      exact absurd ready.devOpen (Int.not_le.mpr closed)
  · rw [if_neg closed]
    have failed : ¬ fs.BitmapsLoaded (-enomem, none) := by
      intro loads
      obtain ⟨again, isAgain, _⟩ := loads.loaded
      cases isAgain
    by_cases noSuper : memory.superBlock = false
    · rw [if_pos noSuper]
      refine ⟨fun loads => absurd loads failed, ?_⟩
      intro ready
      rw [ready.superBlock] at noSuper
      cases noSuper
    · rw [if_neg noSuper, Bool.not_eq_false] at *
      have loading : Loading fs memory (mountSuper memory (fs.superBuffer memory)
          { fresh with
            device := { fresh.device with transfers := fresh.device.transfers + 1 } } dirty)
          (fs.superBuffer memory) 0 :=
        described.loading read memory dirty reliable onDisk
      have count : mountGroupCount (fs.superBuffer memory) = fs.groupCount :=
        described.mountSuper_groupCount memory fresh dirty
      rw [count]
      rcases Loading.rounds apart described fs.groupCount 0 _ _ (Nat.zero_add _) loading with
        ⟨⟨j, p, _, inTable, small⟩, result⟩ | ⟨last, result, lastCount, _, loaded⟩
      · rw [result]
        refine ⟨fun loads => absurd loads failed, ?_⟩
        intro ready
        have large := ready.sectors j p inTable
        omega
      · rw [result]
        dsimp only
        by_cases noMutex : memory.mutex = false
        · rw [if_pos noMutex]
          refine ⟨fun loads => absurd loads failed, ?_⟩
          intro ready
          rw [ready.mutex] at noMutex
          cases noMutex
        · rw [if_neg noMutex]
          constructor
          · intro loads
            obtain ⟨again, isAgain, _, bitmaps⟩ := loads.loaded
            rw [← Option.some.inj isAgain] at bitmaps
            refine ⟨whole, apart, Int.not_lt.mp closed, noSuper, Bool.not_eq_false _ ▸ noMutex, read,
              ?_, ?_⟩
            · intro j p inTable
              exact (loaded j p (Nat.zero_le j) inTable).2.1
            · intro j p inTable
              exact (loaded j p (Nat.zero_le j) inTable).2.agree_iff.mp (bitmaps j p inTable).2
          · intro ready
            refine ⟨ready.devOpen, last, rfl, lastCount.trans count, ?_⟩
            intro j p inTable
            obtain ⟨size, isLoaded⟩ := loaded j p (Nat.zero_le j) inTable
            exact ⟨size, isLoaded.agree_iff.mpr (ready.tails j p inTable)⟩

/-- Device 0, a stack of zeros, and set bits in every bitmap. -/
def mountSample : MountMemory where
  devOpen := 0
  superBlock := true
  mutex := true
  data := fun _ => 0#8
  pBlockBitmap := fun _ _ => 255#8
  pInodeBitmap := fun _ _ => 255#8
  inodeData := fun _ => ((FileSystem.sample 0).groups 0).inodeData

/-- 32768 blocks of 4096 bytes in one group; the bitmaps are in blocks 2 and 3. -/
def superSample (groupInode : Nat) : Region := fun x =>
  if x = 5 then 128#8 else if x = 24 then 2#8 else if x = 33 then 128#8
  else if x = 40 then BitVec.ofNat 8 groupInode
  else if x = 41 then BitVec.ofNat 8 (groupInode / 256)
  else if x = 3072 then 2#8 else if x = 3076 then 3#8 else if x = 3080 then 4#8 else 0#8

def noDirty : Links (Option Nat) := { next := fun _ => none, prev := fun _ => none }

/-- A file system that was mounted from them. -/
def remountSample (groupInode : Nat) : FileSystem :=
  mountSuper mountSample (superSample groupInode) BlockStore.zeroed noDirty

theorem remountSample_apart {groupInode : Nat}
    (count : (remountSample groupInode).groupCount = 1)
    (sizes : ∀ p, ((remountSample groupInode).groups 0).bitmapSize p ≤ 4096)
    (blocks : (remountSample groupInode).bitmapPlace 0 false = 8192)
    (inodes : (remountSample groupInode).bitmapPlace 0 true = 12288) :
    (remountSample groupInode).BitmapsApart := by
  have whole : ∀ p, ((remountSample groupInode).groups 0).bitmapWhole p ≤ 4096 := by
    intro p
    have short := sizes p
    unfold Group.bitmapWhole
    omega
  have blocksWhole := whole false
  have inodesWhole := whole true
  have only : ∀ {i}, i < (remountSample groupInode).groupCount → i = 0 := by
    intro i inTable
    omega
  refine ⟨?_, ?_, ?_, ?_⟩
  · intro i p inTable
    rw [only inTable]
    exact sizes p
  · intro i j p q iInside jInside different
    rw [only iInside, only jInside] at different ⊢
    unfold BytesApart
    cases p <;> cases q
    · exact absurd rfl different
    · omega
    · omega
    · exact absurd rfl different
  · intro i p inTable
    rw [only inTable]
    unfold BytesApart
    cases p
    · omega
    · omega
  · intro i j p _ _ cached
    exact absurd rfl cached

theorem synced_of_answer {fuel : Nat} (answer : (ext2Sync fuel fs).map Prod.fst = some 0) :
    ∃ after, ext2Sync fuel fs = some (0, after) := by
  obtain ⟨result, isResult, isZero⟩ := Option.map_eq_some_iff.mp answer
  refine ⟨result.2, ?_⟩
  rw [isResult, ← isZero]

theorem remountSample_whole : (remountSample 4096).BitmapsApart := by
  apply remountSample_apart
  all_goals decide +kernel

example : (remountSample 4096).RemountReady mountSample := by
  have count : (remountSample 4096).groupCount = 1 := by decide +kernel
  have sizes : ∀ p, ((remountSample 4096).groups 0).bitmapSize p = if p then 512 else 4096 := by
    decide +kernel
  have place : descriptorPlace (remountSample 4096).blockSize 0 + 32 ≤ 3584 := by decide +kernel
  refine ⟨by decide +kernel, remountSample_whole, by decide, rfl, rfl, ?_, ?_, ?_⟩
  · intro i inTable
    rw [count, Nat.lt_one_iff] at inTable
    rw [inTable]
    exact place
  · intro i p inTable
    rw [count, Nat.lt_one_iff] at inTable
    rw [inTable, sizes]
    cases p <;> decide
  · intro i p inTable x lower upper
    rw [count, Nat.lt_one_iff] at inTable
    rw [inTable] at lower upper
    unfold Group.bitmapWhole at lower
    rw [sizes] at lower upper
    cases p
    · exact absurd upper (Int.not_lt.mpr lower)
    · exact absurd upper (Int.not_lt.mpr lower)

end FileSystem

end MangoOS
