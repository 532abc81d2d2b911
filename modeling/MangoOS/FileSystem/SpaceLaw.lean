/-
The counters of free blocks and inodes over sequences of calls (fs/ext2.c).

Of the calls here only `alloc_inode` changes a bitmap or a counter: `ext2_write` leaves its loop
before it comes to `alloc_block`, and `set_bit` clears no bit for `ext2_unlink`.  `alloc_inode`
sets the bit behind the first one of a word that is not full, and counts it whether it was clear
or not.
-/

import Mathlib.Order.Interval.Finset.Nat
import MangoOS.Library.Ledger
import MangoOS.FileSystem.Creation
import MangoOS.FileSystem.Unlink

namespace MangoOS

/-! ### Runs -/

inductive SpaceOp
  /-- Opening a file, which creates it with `O_CREAT`. -/
  | create (fuel : Nat) (file : File) (path : CString)
  | write (file : File) (data : Region) (size : Int)
  | unlink (fuel : Nat) (ram : Ram) (file : File) (path : CString)

namespace FileSystem

/-- What a call returns, and the file system behind it; `none` if it does not return. -/
def spaceCall (fs : FileSystem) : SpaceOp → Option (Int × FileSystem)
  | .create fuel file path =>
      (fs.findInodeByPath fuel file path).map fun result =>
        ((ext2Open result.2.1 result.2.2 result.1).1, result.2.1)
  | .write file data size =>
      some ((ext2Write fs file data size).1, (ext2Write fs file data size).2.1)
  | .unlink fuel ram file path =>
      (fs.ext2Unlink fuel ram file path).map fun result => (result.1, result.2.1)

end FileSystem

/-- The states that calls which return success lead to, in blocks that the 8 sectors of
`read_block` do not overrun. -/
inductive SpaceRun (allowed : FileSystem → SpaceOp → Prop) (start : FileSystem) :
    FileSystem → Prop
  | start (whole : 8 * sectorSize ≤ start.blockSize) : SpaceRun allowed start start
  | call {fs after : FileSystem} {result : Int} (op : SpaceOp) :
      SpaceRun allowed start fs → allowed fs op → fs.spaceCall op = some (result, after) →
      0 ≤ result → SpaceRun allowed start after

namespace FileSystem

/-! ### Counters and bitmaps -/

def blockLedger (fs : FileSystem) : Ledger Nat Nat where
  used := fs.blockBit
  free := fun group => (fs.groups group).freeBlock
  total := fs.freeBlock

def inodeLedger (fs : FileSystem) : Ledger Nat Nat where
  used := fs.inodeBit
  free := fun group => (fs.groups group).freeInode
  total := fs.freeInode

/-- The counters agree with the bitmaps; `blocks` are the block bits of the groups. -/
structure CountersAgree (fs : FileSystem) (blocks : Nat → Finset Nat) : Prop where
  blocks : fs.blockLedger.Balanced (Finset.range fs.groupCount) blocks
  inodes : fs.inodeLedger.Balanced (Finset.range fs.groupCount)
    (fun _ => Finset.range fs.groupInode)

/-- The counters of inodes are a `uint` and `ushort`s. -/
structure CountersFit (fs : FileSystem) : Prop where
  groups : ∀ group, (fs.groups group).freeInode < 65536
  total : fs.freeInode < 4294967296

/-- Word `k` of the inode bitmap of a group is the first in which `alloc_inode` finds a clear
bit. -/
structure FirstFree (fs : FileSystem) (group k : Nat) : Prop where
  inTable : group < fs.inodeCount / fs.groupInode
  fullGroups : ∀ g, g < group → ∀ j, j < (fs.groups g).inodeBitmapSize / 32 →
    (fs.groups g).pInodeBitmap.word (4 * j : Nat) = 4294967295
  word : k < (fs.groups group).inodeBitmapSize / 32
  fullWords : ∀ j, j < k → (fs.groups group).pInodeBitmap.word (4 * j : Nat) = 4294967295
  free : (fs.groups group).pInodeBitmap.word (4 * k : Nat) ≠ 4294967295

/-- The second bit of the word that `alloc_inode` comes to is that of an inode, and clear. -/
def SpareInode (fs : FileSystem) : Prop :=
  ∀ group k, fs.FirstFree group k →
    fs.inodeLedger.Spare (Finset.range fs.groupCount) (fun _ => Finset.range fs.groupInode) group
      (32 * k + 1)

/-- If the search of the directory ends in a creation, an inode is spare. -/
def DirSpare (fuel : Nat) (fs : FileSystem) (file : File) (dir : InodeRef) (name : CString)
    (isEnd : Bool) : Prop :=
  ∀ last empty store, sIsDir (fs.inode dir).iMode = true →
    scanDir (fs.inode dir) fs.blockSize name fuel fuel 0 fs.store none none =
      some (.missing last empty, store) →
    file.mode &&& oCreat = oCreat → isEnd = true → fs.SpareInode

/-- The same for every directory that the loop of `find_inode_by_path` searches. -/
def PathSpare (fuel : Nat) :
    (rounds : Nat) → FileSystem → File → (path : CString) → (inode : Option InodeRef) →
      (isEnd : Bool) → Prop
  | 0, _, _, _, _, _ => True
  | rounds + 1, fs, file, path, inode, isEnd =>
      match igetName path isEnd with
      | none => True
      | some (name, path, isEnd) =>
          match inode with
          | none => True
          | some parent =>
              fs.DirSpare fuel file parent name isEnd ∧
                match fs.findInodeInDir fuel file parent name isEnd with
                | some (some found, fs, file) =>
                    let fs := fs.setInode found { fs.inode found with parent := some parent }
                    PathSpare fuel rounds fs file path (some found) isEnd
                | _ => True

def OpenSpare (fuel : Nat) (fs : FileSystem) (file : File) (path : CString) : Prop :=
  let (inode, fs) := fs.igetInode 2
  PathSpare fuel (path.length + 1) fs file path inode true

/-- The condition on a call. -/
def SpaceMeets (fs : FileSystem) : SpaceOp → Prop
  | .create fuel file path => fs.OpenSpare fuel file path
  | .write _ _ _ => True
  | .unlink fuel _ file path => fs.OpenSpare fuel file path

/-! ### What the calls do to the counters -/

variable {fs middle after : FileSystem} {blocks : Nat → Finset Nat} {fuel group n : Nat}
  {file file' : File} {dir : InodeRef} {name path : CString} {isEnd : Bool}
  {found inode : Option InodeRef}

/-- The bitmaps, the counters and the sizes of the groups are as they were. -/
structure SpaceKept (fs after : FileSystem) : Prop extends Untouched fs after where
  groupInode : after.groupInode = fs.groupInode
  groupCount : after.groupCount = fs.groupCount

theorem SpaceKept.refl (fs : FileSystem) : fs.SpaceKept fs := ⟨.refl fs, rfl, rfl⟩

theorem SpaceKept.trans (first : fs.SpaceKept middle) (second : middle.SpaceKept after) :
    fs.SpaceKept after :=
  ⟨first.toUntouched.trans second.toUntouched, second.groupInode.trans first.groupInode,
    second.groupCount.trans first.groupCount⟩

theorem spaceKept_setStore (fs : FileSystem) (store : BlockStore) :
    fs.SpaceKept (fs.setStore store) :=
  ⟨untouched_setStore fs store, rfl, rfl⟩

theorem spaceKept_inodeData (fs : FileSystem) (index : Nat) (begin : Int)
    (inodeData : Nat → Inode) :
    fs.SpaceKept (fs.setGroup index
      { fs.groups index with inodeBegin := begin, inodeData := inodeData }) :=
  ⟨⟨setGroup_field Group.pBlockBitmap rfl, setGroup_field Group.pInodeBitmap rfl,
    setGroup_field Group.freeBlock rfl, setGroup_field Group.freeInode rfl, rfl, rfl, rfl⟩,
    rfl, rfl⟩

theorem spaceKept_setInode (fs : FileSystem) (ref : InodeRef) (inode : Inode) :
    fs.SpaceKept (fs.setInode ref inode) :=
  spaceKept_inodeData fs ref.group (fs.groups ref.group).inodeBegin _

theorem spaceKept_igetInode (fs : FileSystem) (ino : Nat) :
    fs.SpaceKept (fs.igetInode ino).2 := by
  rcases igetInode_changes fs ino with same | ⟨store, inodeData, inodeBegin, loaded⟩
  · rw [same]
    exact .refl fs
  · rw [loaded]
    exact (spaceKept_setStore fs store).trans (spaceKept_inodeData _ _ _ _)

theorem spaceKept_markDirty (fs : FileSystem) (bb : Nat) : fs.SpaceKept (fs.markDirty bb) :=
  ⟨⟨fun _ => rfl, fun _ => rfl, fun _ => rfl, fun _ => rfl, rfl, rfl, rfl⟩, rfl, rfl⟩

theorem spaceKept_putEntry (fs : FileSystem) (bb entry ino : Nat) (name : CString) (last : Nat) :
    fs.SpaceKept ((fs.putEntry bb entry ino name).markDirty last) :=
  (spaceKept_setStore fs _).trans (spaceKept_markDirty _ last)

theorem spaceKept_stepped : Stepped SpaceKept :=
  Framed.stepped ⟨.refl, .trans, spaceKept_setStore, fun fs gno bit =>
    ⟨⟨setGroup_field Group.pBlockBitmap (setBit_zero (fs.groups gno).pBlockBitmap bit),
      setGroup_field Group.pInodeBitmap rfl, setGroup_field Group.freeBlock rfl,
      setGroup_field Group.freeInode rfl, rfl, rfl, rfl⟩, rfl, rfl⟩⟩

theorem spaceKept_write (fs : FileSystem) (file : File) (data : Region) (size : Int) :
    fs.SpaceKept (ext2Write fs file data size).2.1 := by
  unfold ext2Write
  rcases igetBno fs.store fs.blockSize (fs.inode file.inode)
    (uint32 (file.pos.tdiv fs.blockSize)) with ⟨bno, store⟩
  dsimp only
  by_cases some : size > 0
  · rw [if_pos some]
    rcases store.readBlock fs.blockSize bno with ⟨read, served⟩
    cases read with
    | none => exact spaceKept_setStore fs served
    | some bb =>
        exact (((spaceKept_setStore fs _).trans (spaceKept_markDirty _ bb)).trans
          (spaceKept_setStore _ _)).trans (spaceKept_setInode _ _ _)
  · rw [if_neg some]
    exact ((spaceKept_setStore fs store).trans (spaceKept_setStore _ _)).trans
      (spaceKept_setInode _ _ _)

theorem SpaceKept.blockLedger (kept : fs.SpaceKept after) :
    after.blockLedger = fs.blockLedger := by
  unfold FileSystem.blockLedger blockBit
  rw [funext kept.groupBlocks, kept.freeBlock]
  simp only [kept.blockBits]

theorem SpaceKept.inodeLedger (kept : fs.SpaceKept after) :
    after.inodeLedger = fs.inodeLedger := by
  unfold FileSystem.inodeLedger inodeBit
  rw [funext kept.groupInodes, kept.freeInode]
  simp only [kept.inodeBits]

theorem SpaceKept.agree_iff (kept : fs.SpaceKept after) :
    after.CountersAgree blocks ↔ fs.CountersAgree blocks := by
  constructor
  · intro ⟨isBlocks, isInodes⟩
    rw [kept.blockLedger, kept.groupCount] at isBlocks
    rw [kept.inodeLedger, kept.groupCount, kept.groupInode] at isInodes
    exact ⟨isBlocks, isInodes⟩
  · intro ⟨isBlocks, isInodes⟩
    constructor
    · rw [kept.blockLedger, kept.groupCount]
      exact isBlocks
    · rw [kept.inodeLedger, kept.groupCount, kept.groupInode]
      exact isInodes

theorem CountersFit.keep (fit : fs.CountersFit) (kept : fs.SpaceKept after) :
    after.CountersFit := by
  constructor
  · intro group
    rw [kept.groupInodes]
    exact fit.groups group
  · rw [kept.freeInode]
    exact fit.total

/-! ### Taking an inode -/

theorem takeInode_other {other : Nat} (different : other ≠ group) :
    (fs.takeInode group n).groups other = fs.groups other := by
  unfold takeInode
  dsimp only
  rw [setGroup_other fs _ different]

theorem takeInode_groupFree (fs : FileSystem) (group n : Nat) :
    ((fs.takeInode group n).groups group).freeInode =
      ((fs.groups group).freeInode + 65535) % 65536 := by
  unfold takeInode
  dsimp only
  rw [setGroup_self]

theorem takeInode_free (fs : FileSystem) (group n : Nat) :
    (fs.takeInode group n).freeInode = (fs.freeInode + 4294967295) % 4294967296 := by
  rw [takeInode]

theorem takeInode_takes (fit : fs.CountersFit) (group n : Nat) :
    fs.inodeLedger.Takes (fs.takeInode group n).inodeLedger group n := by
  unfold inodeLedger
  constructor
  · dsimp only
    rw [takeInode_bit, decide_eq_true ⟨rfl, rfl⟩, Bool.true_or]
  · intro bit different
    dsimp only
    rw [takeInode_bit, decide_eq_false (fun same => different same.2), Bool.false_or]
  · intro other different
    dsimp only
    constructor
    · funext bit
      rw [takeInode_bit, decide_eq_false (fun same => different same.1), Bool.false_or]
    · rw [takeInode_other different]
  · dsimp only
    rw [takeInode_groupFree]
    exact .wraps rfl (by decide) (fit.groups group)
  · dsimp only
    rw [takeInode_free]
    exact .wraps rfl (by decide) fit.total

theorem takeInode_blockLedger (fs : FileSystem) (group n : Nat) :
    (fs.takeInode group n).blockLedger = fs.blockLedger := by
  have bits : ∀ other, ((fs.takeInode group n).groups other).pBlockBitmap =
      (fs.groups other).pBlockBitmap := by
    unfold takeInode
    dsimp only
    exact setGroup_field Group.pBlockBitmap rfl
  have counters : ∀ other, ((fs.takeInode group n).groups other).freeBlock =
      (fs.groups other).freeBlock := by
    unfold takeInode
    dsimp only
    exact setGroup_field Group.freeBlock rfl
  have total : (fs.takeInode group n).freeBlock = fs.freeBlock := by
    rw [takeInode, setGroup]
  unfold blockLedger blockBit
  rw [funext counters, total]
  simp only [bits]

theorem takeInode_groupCount (fs : FileSystem) (group n : Nat) :
    (fs.takeInode group n).groupCount = fs.groupCount := by
  rw [takeInode, setGroup]

theorem takeInode_groupInode (fs : FileSystem) (group n : Nat) :
    (fs.takeInode group n).groupInode = fs.groupInode := by
  rw [takeInode, setGroup]

/-- The counters agree behind `alloc_inode` if and only if the bit that it sets is that of an
inode and was clear. -/
theorem takeInode_agree_iff (fit : fs.CountersFit) (agree : fs.CountersAgree blocks) :
    (fs.takeInode group n).CountersAgree blocks ↔
      fs.inodeLedger.Spare (Finset.range fs.groupCount) (fun _ => Finset.range fs.groupInode)
        group n := by
  rw [← (takeInode_takes fit group n).balanced_iff agree.inodes]
  constructor
  · intro again
    have inodes := again.inodes
    rw [takeInode_groupCount, takeInode_groupInode] at inodes
    exact inodes
  · intro again
    constructor
    · rw [takeInode_blockLedger, takeInode_groupCount]
      exact agree.blocks
    · rw [takeInode_groupCount, takeInode_groupInode]
      exact again

theorem CountersFit.take (fit : fs.CountersFit) (group n : Nat) :
    (fs.takeInode group n).CountersFit := by
  constructor
  · intro other
    by_cases same : other = group
    · rw [same, takeInode_groupFree]
      exact Nat.mod_lt _ (by decide)
    · rw [takeInode_other same]
      exact fit.groups other
  · rw [takeInode_free]
    exact Nat.mod_lt _ (by decide)

theorem FirstFree.not_noInode {k : Nat} (first : fs.FirstFree group k) : ¬ fs.NoInode :=
  fun noInode => first.free (noInode group first.inTable k first.word)

/-- `alloc_inode` takes the second bit of the word that it comes to. -/
theorem allocInode_first (returns : fs.allocInode fuel = some (n, after)) :
    after = fs ∧ fs.NoInode ∨
      ∃ group k, fs.FirstFree group k ∧ after = fs.takeInode group (32 * k + 1) ∧
        fs.inodeBit group (32 * k) = false := by
  rcases allocInodeLoop_cases returns with
    ⟨_, same, full⟩ | ⟨group, takes, inside, found, notWhole, before⟩
  · refine Or.inl ⟨same, ?_⟩
    intro group inside
    exact findFirstZeroBit_none_iff.mp (full group (Nat.zero_le group) (by omega))
  · rcases findFirstZeroBit_some found with isSize | ⟨k, word, isBit, isClear, fullWords⟩
    · exact absurd isSize notWhole
    · refine Or.inr ⟨group, k, ⟨by omega, ?_, by omega, fullWords, ?_⟩, ?_, isClear⟩
      · intro g less
        exact findFirstZeroBit_none_iff.mp (before g (Nat.zero_le g) less)
      · intro full
        have isSet := bitOf_full _ k full (Nat.le_refl (32 * k)) (by omega)
        rw [isClear] at isSet
        cases isSet
      · rw [← isBit]
        exact takes

theorem FirstFree.unique {other k j : Nat} (first : fs.FirstFree group k)
    (again : fs.FirstFree other j) : group = other ∧ k = j := by
  have same : group = other := by
    rcases Nat.lt_trichotomy group other with less | same | more
    · exact absurd (again.fullGroups group less k first.word) first.free
    · exact same
    · exact absurd (first.fullGroups other more j again.word) again.free
  subst same
  refine ⟨rfl, ?_⟩
  rcases Nat.lt_trichotomy k j with less | equal | more
  · exact absurd (again.fullWords k less) first.free
  · exact equal
  · exact absurd (first.fullWords j more) again.free

theorem allocInode_agree_iff (fit : fs.CountersFit) (agree : fs.CountersAgree blocks)
    (returns : fs.allocInode fuel = some (n, after)) :
    after.CountersAgree blocks ↔ fs.SpareInode := by
  rcases allocInode_first returns with ⟨same, noInode⟩ | ⟨group, k, first, takes, _⟩
  · rw [same]
    exact ⟨fun _ group k first => absurd noInode first.not_noInode, fun _ => agree⟩
  · rw [takes, takeInode_agree_iff fit agree]
    constructor
    · intro spare other j again
      obtain ⟨rfl, rfl⟩ := first.unique again
      exact spare
    · intro spare
      exact spare group k first

theorem CountersFit.alloc (fit : fs.CountersFit)
    (returns : fs.allocInode fuel = some (n, after)) : after.CountersFit := by
  rcases allocInode_first returns with ⟨same, _⟩ | ⟨group, k, _, takes, _⟩
  · rw [same]
    exact fit
  · rw [takes]
    exact fit.take group _

/-- The word is come to again, and its second bit is not clear any more. -/
theorem FirstFree.not_spare {k : Nat} (first : fs.FirstFree group k)
    (isClear : fs.inodeBit group (32 * k) = false) :
    ¬ (fs.takeInode group (32 * k + 1)).SpareInode := by
  have sizes : ∀ other, ((fs.takeInode group (32 * k + 1)).groups other).inodeBitmapSize =
      (fs.groups other).inodeBitmapSize := by
    unfold takeInode
    dsimp only
    exact setGroup_field Group.inodeBitmapSize rfl
  have bitmap : ((fs.takeInode group (32 * k + 1)).groups group).pInodeBitmap =
      setBit (fs.groups group).pInodeBitmap (32 * k + 1) 1 := by
    unfold takeInode
    dsimp only
    rw [setGroup_self]
  have count : (fs.takeInode group (32 * k + 1)).inodeCount = fs.inodeCount := by
    rw [takeInode, setGroup]
  have again : (fs.takeInode group (32 * k + 1)).FirstFree group k := by
    constructor
    · rw [count, takeInode_groupInode]
      exact first.inTable
    · intro g less j inside
      rw [takeInode_other (Nat.ne_of_lt less)] at inside ⊢
      exact first.fullGroups g less j inside
    · rw [sizes]
      exact first.word
    · intro j less
      rw [bitmap]
      exact word_full_setBit _ (first.fullWords j less)
    · intro full
      have isSet := bitOf_full _ k full (Nat.le_refl (32 * k)) (by omega)
      rw [bitmap, bitOf_setBit, decide_eq_false (by omega), Bool.false_or] at isSet
      exact Bool.false_ne_true (isClear.symm.trans isSet)
  intro spare
  have isFree := (spare group k again).isFree
  change (fs.takeInode group (32 * k + 1)).inodeBit group (32 * k + 1) = false at isFree
  rw [takeInode_bit, decide_eq_true ⟨rfl, rfl⟩, Bool.true_or] at isFree
  cases isFree

theorem allocInode_spends (returns : fs.allocInode fuel = some (n, after))
    (some : ¬ fs.NoInode) : ¬ after.SpareInode := by
  rcases allocInode_first returns with ⟨_, noInode⟩ | ⟨group, k, first, takes, isClear⟩
  · exact absurd noInode some
  · rw [takes]
    exact first.not_spare isClear

theorem spareInode_setStore (fs : FileSystem) (store : BlockStore) :
    (fs.setStore store).SpareInode ↔ fs.SpareInode := by
  constructor
  · intro spare group k ⟨inTable, fullGroups, word, fullWords, free⟩
    exact spare group k ⟨inTable, fullGroups, word, fullWords, free⟩
  · intro spare group k ⟨inTable, fullGroups, word, fullWords, free⟩
    exact spare group k ⟨inTable, fullGroups, word, fullWords, free⟩

/-! ### Walks and runs -/

/-- The counters agree behind a search if and only if an inode was spare for its creation. -/
theorem findInodeInDir_agree_iff (fit : fs.CountersFit) (agree : fs.CountersAgree blocks)
    (returns : fs.findInodeInDir fuel file dir name isEnd = some (found, after, file')) :
    after.CountersAgree blocks ↔ fs.DirSpare fuel file dir name isEnd := by
  unfold DirSpare
  cases findInodeInDir_iff.mp returns with
  | notDir other =>
      refine ⟨fun _ _ _ _ isDir => ?_, fun _ => agree⟩
      rw [other] at isDir
      cases isDir
  | failed isDir scan =>
      refine ⟨fun _ _ _ _ _ missing => ?_, fun _ => (spaceKept_setStore fs _).agree_iff.mpr agree⟩
      rw [scan] at missing
      cases missing
  | found isDir scan =>
      refine ⟨fun _ _ _ _ _ missing => ?_, fun _ =>
        ((spaceKept_setStore fs _).trans (spaceKept_igetInode _ _)).agree_iff.mpr agree⟩
      rw [scan] at missing
      cases missing
  | missing isDir scan noCreate =>
      exact ⟨fun _ _ _ _ _ _ creates atEnd => absurd ⟨creates, atEnd⟩ noCreate,
        fun _ => (spaceKept_setStore fs _).agree_iff.mpr agree⟩
  | @created last bb entry ino searched taken isDir scan creates allocated =>
      have stored := spaceKept_setStore fs searched
      have rest := (spaceKept_igetInode taken ino).trans
        (spaceKept_putEntry (taken.igetInode ino).2 bb entry ino name last)
      have spare := allocInode_agree_iff (fit.keep stored) (stored.agree_iff.mpr agree) allocated
      rw [spareInode_setStore] at spare
      rw [rest.agree_iff, spare]
      constructor
      · intro isSpare _ _ _ _ _ _ _
        exact isSpare
      · intro isSpare
        exact isSpare _ _ _ isDir scan creates.1 creates.2

theorem CountersFit.searched (fit : fs.CountersFit)
    (returns : fs.findInodeInDir fuel file dir name isEnd = some (found, after, file')) :
    after.CountersFit := by
  cases findInodeInDir_iff.mp returns with
  | notDir other => exact fit
  | failed isDir scan => exact fit.keep (spaceKept_setStore fs _)
  | found isDir scan =>
      exact fit.keep ((spaceKept_setStore fs _).trans (spaceKept_igetInode _ _))
  | missing isDir scan noCreate => exact fit.keep (spaceKept_setStore fs _)
  | @created last bb entry ino searched taken isDir scan creates allocated =>
      exact ((fit.keep (spaceKept_setStore fs searched)).alloc allocated).keep
        ((spaceKept_igetInode taken ino).trans (spaceKept_putEntry _ bb entry ino name last))

/-- The counters agree, and fit. -/
structure Counted (fs : FileSystem) (blocks : Nat → Finset Nat) : Prop where
  agree : fs.CountersAgree blocks
  fit : fs.CountersFit

theorem Counted.keep (counted : fs.Counted blocks) (kept : fs.SpaceKept after) :
    after.Counted blocks :=
  ⟨kept.agree_iff.mpr counted.agree, counted.fit.keep kept⟩

theorem findPathLoop_counted {rounds : Nat} (counted : fs.Counted blocks)
    (spare : PathSpare fuel rounds fs file path inode isEnd)
    (returns : findPathLoop fuel rounds fs file path inode isEnd = some (found, after, file')) :
    after.Counted blocks := by
  induction rounds generalizing fs file path inode isEnd with
  | zero => cases returns
  | succ rounds ih =>
      rw [PathSpare] at spare
      cases findPathLoop_step returns with
      | ended noName => exact counted
      | missing isName search =>
          simp only [isName] at spare
          exact ⟨(findInodeInDir_agree_iff counted.fit counted.agree search).mpr spare.1,
            counted.fit.searched search⟩
      | @entered name rest last parent ref middle _ next _ _ isName search behind =>
          simp only [isName, search] at spare
          have searched : middle.Counted blocks :=
            ⟨(findInodeInDir_agree_iff counted.fit counted.agree search).mpr spare.1,
              counted.fit.searched search⟩
          exact ih (searched.keep (spaceKept_setInode middle ref _)) spare.2 behind

theorem findInodeByPath_counted (counted : fs.Counted blocks)
    (spare : fs.OpenSpare fuel file path)
    (returns : fs.findInodeByPath fuel file path = some (found, after, file')) :
    after.Counted blocks :=
  findPathLoop_counted (counted.keep (spaceKept_igetInode fs 2)) spare returns

theorem spaceCall_counted {op : SpaceOp} {result : Int} (counted : fs.Counted blocks)
    (meets : fs.SpaceMeets op) (returns : fs.spaceCall op = some (result, after)) :
    after.Counted blocks := by
  cases op with
  | create fuel file path =>
      obtain ⟨⟨found, last, file'⟩, search, isResult⟩ := Option.map_eq_some_iff.mp returns
      cases isResult
      exact findInodeByPath_counted counted meets search
  | write file data size =>
      rw [spaceCall, Option.some.injEq, Prod.mk.injEq] at returns
      exact returns.2 ▸ counted.keep (spaceKept_write fs file data size)
  | unlink fuel ram file path =>
      obtain ⟨⟨err, last, file'⟩, unlinks, isResult⟩ := Option.map_eq_some_iff.mp returns
      cases isResult
      obtain ⟨inode, middle, held, search, kept⟩ := spaceKept_stepped.ext2Unlink unlinks
      exact (findInodeByPath_counted counted meets search).keep kept

/-- For a path of one name it is enough that an inode is spare. -/
theorem openSpare_name (single : igetName path true = some (name, [], isEnd))
    (spare : (fs.igetInode 2).2.SpareInode) : fs.OpenSpare fuel file path := by
  unfold OpenSpare
  rcases look : fs.igetInode 2 with ⟨inode, found⟩
  rw [look] at spare
  dsimp only
  rw [PathSpare]
  simp only [single]
  cases inode with
  | none => exact trivial
  | some parent =>
      refine ⟨fun _ _ _ _ _ _ _ => spare, ?_⟩
      split
      · cases path.length with
        | zero => exact trivial
        | succ rounds => exact trivial
      · exact trivial

/-- A directory with "ab" and two unused entries on a disk of one group, whose blocks are all in
use and whose inodes are free from inode 33 on. -/
def spaceSample : FileSystem :=
  let block : Region := fun x => if x = 21 then 0#8 else creationBlock x
  { sample 4096 with
    store :=
      { BlockStore.zeroed with
        device := { BlockStore.zeroed.device with bytes := fun a => block ((a : Int) - 409600) } }
    inodeCount := 512
    groupInode := 512
    freeInode := 480
    groups := fun group =>
      { (sample 4096).groups group with
        freeInode := 480
        inodeBitmapSize := 64
        pBlockBitmap := fun _ => 255#8
        pInodeBitmap := fun x => if x < 4 then 255#8 else 0#8
        inodeData := fun slot =>
          if slot = 1 then creationInode else (sample 4096).inode ⟨group, slot⟩ } }

theorem spaceSample_agree : spaceSample.CountersAgree (fun _ => Finset.range 32768) := by
  constructor
  · refine ⟨?_, rfl⟩
    intro group _
    refine (pointing_none ?_).symm
    intro bit _ isFree
    have inByte : bit % 8 < 8 := Nat.mod_lt _ (by decide)
    have isSet : spaceSample.blockBit group bit = true :=
      (BitVec.getLsbD_allOnes (i := bit % 8) (v := 8)).trans (decide_eq_true inByte)
    change some (spaceSample.blockBit group bit) = some false at isFree
    rw [isSet] at isFree
    cases isFree
  · refine ⟨?_, rfl⟩
    intro group inTable
    rw [Nat.lt_one_iff.mp (Finset.mem_range.mp inTable)]
    decide +kernel

theorem spaceSample_fit : spaceSample.CountersFit :=
  ⟨fun _ => (by decide : 480 < 65536), by decide⟩

theorem spaceSample_spare : spaceSample.SpareInode := by
  intro group k first
  have isGroup : group = 0 := Nat.lt_one_iff.mp first.inTable
  have size : (spaceSample.groups group).inodeBitmapSize = 64 := rfl
  have word := first.word
  rw [size] at word
  subst isGroup
  rcases (by omega : k = 0 ∨ k = 1) with isFirst | isSecond
  · exfalso
    rw [isFirst] at first
    exact first.free (by decide)
  · rw [isSecond]
    exact ⟨Finset.mem_range.mpr Nat.zero_lt_one, Finset.mem_range.mpr (by decide : 33 < 512),
      by decide +kernel⟩

def spacePath (letter : BitVec 8) : CString := [47#8, letter]

theorem space_openSpare (letter : BitVec 8) (single : igetName (spacePath letter) true =
    some ([letter], [], true)) : spaceSample.OpenSpare 8 creationFile (spacePath letter) := by
  apply openSpare_name single
  rw [igetInode_cached (by decide) (by decide) (by decide)]
  exact spaceSample_spare

end FileSystem

end MangoOS
