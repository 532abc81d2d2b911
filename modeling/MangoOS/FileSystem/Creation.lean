/-
Creating a file in a directory (fs/ext2.c).

`find_inode_in_dir` writes the number from `alloc_inode`, which is not that of the inode taken,
over the first unused entry, whatever its length, and without an inode it writes 0 there.  Then
it puts the block read last on the dirty list.
-/

import MangoOS.FileSystem.DirtyList
import MangoOS.FileSystem.NewEntry

namespace MangoOS

open Intrusive

/-- The directory has `n` blocks. -/
structure DirBlocks (inode : Inode) (blockSize n : Nat) : Prop where
  ends : inode.iSize ≤ dirPos blockSize n
  more : ∀ j, j < n → dirPos blockSize j < inode.iSize

theorem DirBlocks.unique {inode : Inode} {blockSize n other : Nat}
    (blocks : DirBlocks inode blockSize n) (again : DirBlocks inode blockSize other) :
    n = other := by
  rcases Nat.lt_trichotomy n other with less | same | more
  · exact absurd (again.more n less) (Nat.not_lt.mpr blocks.ends)
  · exact same
  · exact absurd (blocks.more other more) (Nat.not_lt.mpr again.ends)

theorem DirBlocks.before {inode : Inode} {blockSize n r : Nat}
    (blocks : DirBlocks inode blockSize n) (inDir : InDir inode blockSize r) : r < n := by
  by_contra beyond
  exact Nat.not_lt.mpr blocks.ends (inDir n (Nat.not_lt.mp beyond))

/-- Where nothing matches the search ends behind the last block. -/
theorem EndsWithout.behind {inode : Inode} {blockSize n other : Nat} {name : CString}
    {store searched : BlockStore} {outcome : DirScan}
    (without : EndsWithout inode blockSize name store searched other outcome)
    (blocks : DirBlocks inode blockSize n)
    (passes : ∀ j, j < n → SearchPasses inode blockSize name store j) :
    searched = dirStore inode blockSize store n ∧ ∃ last seen, outcome = .missing last seen ∧
      Remembers inode blockSize store n last seen := by
  have inDir : ∀ j, j < other → dirPos blockSize j < inode.iSize :=
    fun j less => (without.passes j less).1
  rcases without.ends with ⟨ends, isSearched, missing⟩ | ⟨more, unserved, _⟩
  · have same := blocks.unique ⟨ends, inDir⟩
    rw [← same] at isSearched missing
    exact ⟨isSearched, missing⟩
  · exfalso
    rcases Nat.lt_trichotomy other n with less | same | beyond
    · obtain ⟨_, data, block, _⟩ := passes other less
      rw [unserved] at block
      cases block
    · rw [same] at more
      exact Nat.not_lt.mpr blocks.ends more
    · exact Nat.not_lt.mpr blocks.ends (inDir n beyond)

namespace FileSystem

/-! ### What creating a file is for -/

/-- The blocks of the directory, which `read_block` reads whole, are chains of entries, and every
entry in use has an inode. -/
structure SoundDir (fs : FileSystem) (dir : InodeRef) : Prop where
  whole : fs.blockSize = 8 * sectorSize
  blocks : ∀ r, InDir (fs.inode dir) fs.blockSize r →
    ∃ data, dirBlock (fs.inode dir) fs.blockSize fs.store r = some data ∧
      ChainedBlock data fs.blockSize
  inodes : ∀ r bb store k, InDir (fs.inode dir) fs.blockSize r →
    dirRead (fs.inode dir) fs.blockSize fs.store r = (some bb, store) →
      entryAt (store.buffers bb).data k < fs.blockSize →
        (store.buffers bb).data.word (entryAt (store.buffers bb).data k) ≠ 0 →
          ((fs.setStore store).igetInode
            ((store.buffers bb).data.word (entryAt (store.buffers bb).data k))).1 ≠ none

/-- An unused entry of the directory has room for the name, and an inode is free. -/
def CanCreate (fs : FileSystem) (dir : InodeRef) (name : CString) : Prop :=
  (∃ r data k, InDir (fs.inode dir) fs.blockSize r ∧
    dirBlock (fs.inode dir) fs.blockSize fs.store r = some data ∧
    entryAt data k < fs.blockSize ∧ data.word (entryAt data k) = 0 ∧
    8 + name.length ≤ recLen data (entryAt data k)) ∧
  ¬ fs.InodesFull

/-- The file is created: inode `number` is taken, the first unused entry, entry `k` of block
`r`, has become its entry, and the directory is intact. -/
structure Created (fs after : FileSystem) (file' : File) (dir : InodeRef) (name : CString)
    (number r bb : Nat) (data : Region) (k : Nat) : Prop where
  isNew : 1 ≤ number ∧ number ≤ fs.inodeCount ∧ fs.Takes after number
  ino : file'.ino = number
  reuses : FirstUnused (fs.inode dir) fs.blockSize fs.store r bb data k
  block : (after.store.buffers bb).blockNo =
    (fs.inode dir).iBlock (blockIndex (dirPos fs.blockSize r) fs.blockSize)
  chained : ChainedBlock (after.store.buffers bb).data fs.blockSize
  kept : ∀ live m, BlockHas data fs.blockSize live m →
    BlockHas (after.store.buffers bb).data fs.blockSize live m
  found : BlockHas (after.store.buffers bb).data fs.blockSize name number
  entry : EntryOf (after.store.buffers bb).data fs.blockSize name number (entryAt data k)
  others : ∀ j cc other, j ≠ r → InDir (fs.inode dir) fs.blockSize j →
    (dirRead (fs.inode dir) fs.blockSize fs.store j).1 = some cc →
      dirBlock (fs.inode dir) fs.blockSize fs.store j = some other →
        (after.store.buffers cc).blockNo =
            (fs.inode dir).iBlock (blockIndex (dirPos fs.blockSize j) fs.blockSize) →
          (after.store.buffers cc).data = other
  dirty : ∀ nodes : List Nat, Ring fs.dirty none (nodes.map some) →
    ∃ marked : List Nat, Ring after.dirty none (marked.map some) ∧
      ∀ cc, cc ∈ marked ↔ cc ∈ nodes ∨ cc = bb

/-- The bitmaps and counters are as they were. -/
structure Untouched (fs after : FileSystem) : Prop where
  blockBits : ∀ group, (after.groups group).pBlockBitmap = (fs.groups group).pBlockBitmap
  inodeBits : ∀ group, (after.groups group).pInodeBitmap = (fs.groups group).pInodeBitmap
  groupBlocks : ∀ group, (after.groups group).freeBlock = (fs.groups group).freeBlock
  groupInodes : ∀ group, (after.groups group).freeInode = (fs.groups group).freeInode
  usedBlock : after.usedBlock = fs.usedBlock
  freeBlock : after.freeBlock = fs.freeBlock
  freeInode : after.freeInode = fs.freeInode

/-- NULL is returned, and apart from reading the directory nothing has happened to it. -/
structure Refused (fs after : FileSystem) (found : Option InodeRef) (dir : InodeRef) : Prop where
  isNull : found = none
  untouched : fs.Untouched after
  directory : ∃ n, DirBlocks (fs.inode dir) fs.blockSize n ∧
    after.store.buffers = (dirStore (fs.inode dir) fs.blockSize fs.store n).buffers

/-- `find_inode_in_dir` creates the file if it can be created, and else it does nothing. -/
def Creates (fs : FileSystem) (file : File) (dir : InodeRef) (name : CString) : Prop :=
  ∃ fuel found after file',
    fs.findInodeInDir fuel file dir name true = some (found, after, file') ∧
      (fs.CanCreate dir name → ∃ number r bb data k,
        fs.Created after file' dir name number r bb data k) ∧
      (¬ fs.CanCreate dir name → fs.Refused after found dir)

/-- The file cannot be created, no inode is found, no entry begins with the name, and what is
written over the first unused entry stands there already. -/
structure NothingToWrite (fs : FileSystem) (dir : InodeRef) (name : CString) : Prop where
  cannot : ¬ fs.CanCreate dir name
  noInode : fs.NoInode
  written : ∃ n r bb data k, DirBlocks (fs.inode dir) fs.blockSize n ∧
    (∀ j, j < n → SearchPasses (fs.inode dir) fs.blockSize name fs.store j) ∧
    FirstUnused (fs.inode dir) fs.blockSize fs.store r bb data k ∧
    AlreadyWritten ((dirStore (fs.inode dir) fs.blockSize fs.store n).buffers bb).data
      (entryAt data k) name

/-! ### What the steps leave alone -/

variable {fs middle after taken : FileSystem} {file file' : File} {dir : InodeRef}
  {name : CString} {searched : BlockStore} {fuel ino number r bb entry k : Nat} {data : Region}
  {found : Option InodeRef}

theorem Untouched.refl (fs : FileSystem) : fs.Untouched fs :=
  ⟨fun _ => rfl, fun _ => rfl, fun _ => rfl, fun _ => rfl, rfl, rfl, rfl⟩

theorem Untouched.trans (first : fs.Untouched middle) (second : middle.Untouched after) :
    fs.Untouched after :=
  ⟨fun group => (second.blockBits group).trans (first.blockBits group),
    fun group => (second.inodeBits group).trans (first.inodeBits group),
    fun group => (second.groupBlocks group).trans (first.groupBlocks group),
    fun group => (second.groupInodes group).trans (first.groupInodes group),
    second.usedBlock.trans first.usedBlock, second.freeBlock.trans first.freeBlock,
    second.freeInode.trans first.freeInode⟩

theorem untouched_setStore (fs : FileSystem) (store : BlockStore) :
    fs.Untouched (fs.setStore store) :=
  ⟨fun _ => rfl, fun _ => rfl, fun _ => rfl, fun _ => rfl, rfl, rfl, rfl⟩

theorem untouched_igetInode (fs : FileSystem) (ino : Nat) :
    fs.Untouched (fs.igetInode ino).2 := by
  rcases igetInode_changes fs ino with same | ⟨store, inodeData, inodeBegin, loaded⟩
  · rw [same]
    exact .refl fs
  · rw [loaded]
    apply (untouched_setStore fs store).trans
    exact ⟨setGroup_field Group.pBlockBitmap rfl, setGroup_field Group.pInodeBitmap rfl,
      setGroup_field Group.freeBlock rfl, setGroup_field Group.freeInode rfl, rfl, rfl, rfl⟩

theorem Untouched.not_takes (untouched : fs.Untouched after) : ¬ fs.Takes after number := by
  intro takes
  have isSet := takes.2 ((number - 1) / fs.groupInode) ((number - 1) % fs.groupInode)
  rw [decide_eq_true ⟨rfl, rfl⟩, Bool.true_or] at isSet
  apply takes.1
  unfold InodeUsed
  unfold inodeBit at isSet ⊢
  rw [← untouched.inodeBits]
  exact isSet

/-! ### What a call comes to -/

theorem untouched_putEntry (fs : FileSystem) (bb entry ino : Nat) (name : CString) (last : Nat) :
    fs.Untouched ((fs.putEntry bb entry ino name).markDirty last) :=
  ⟨fun _ => rfl, fun _ => rfl, fun _ => rfl, fun _ => rfl, rfl, rfl, rfl⟩

theorem putEntry_data (fs : FileSystem) (bb entry ino : Nat) (name : CString) (last : Nat) :
    (((fs.putEntry bb entry ino name).markDirty last).store.buffers bb).data =
      writeEntry (fs.store.buffers bb).data entry ino name := by
  change ((fs.store.setBuffer bb _).buffers bb).data = _
  rw [BlockStore.setBuffer_buffers, if_pos rfl]

/-- A buffer that has the entry already is as it was. -/
theorem putEntry_buffers
    (same : writeEntry (fs.store.buffers bb).data entry ino name = (fs.store.buffers bb).data)
    (last : Nat) :
    ((fs.putEntry bb entry ino name).markDirty last).store.buffers = fs.store.buffers := by
  change (fs.store.setBuffer bb _).buffers = _
  rw [same]
  exact Function.update_eq_self bb fs.store.buffers

/-- A call that returns has found the inode of an entry, or it has written over the first unused
entry. -/
theorem SoundDir.outcome (sound : fs.SoundDir dir) (isDir : sIsDir (fs.inode dir).iMode = true)
    (creates : file.mode &&& oCreat = oCreat)
    (returns : fs.findInodeInDir fuel file dir name true = some (found, after, file')) :
    (found ≠ none ∧ fs.Untouched after) ∨
      ∃ n last bb entry cc ino taken, DirBlocks (fs.inode dir) fs.blockSize n ∧
        (∀ j, j < n → SearchPasses (fs.inode dir) fs.blockSize name fs.store j) ∧
        Remembers (fs.inode dir) fs.blockSize fs.store n last (some (bb, entry)) ∧
        (fs.setStore (dirStore (fs.inode dir) fs.blockSize fs.store n)).allocInode fuel =
          some (ino, taken) ∧
        found = (taken.igetInode ino).1 ∧
        after = ((taken.igetInode ino).2.putEntry bb entry ino name).markDirty cc := by
  cases findInodeInDir_iff.mp returns with
  | notDir other =>
      rw [isDir] at other
      cases other
  | failed _ scan =>
      rcases scanDir_stops scan with ⟨n, without⟩ | ⟨_, _, _, _, _, _, _, hit⟩
      · rcases without.ends with ⟨_, _, _, _, missing, _⟩ | ⟨more, unserved, _⟩
        · cases missing
        · obtain ⟨data, block, _⟩ := sound.blocks n (.of_passes without.passes more)
          rw [unserved] at block
          cases block
      · cases hit
  | @found bb entry searched _ scan =>
      rcases scanDir_stops scan with ⟨n, without⟩ | ⟨n, cc, data, k, first, read, isData, hit⟩
      · exact absurd rfl without.notFound
      · rw [DirScan.found.injEq] at hit
        obtain ⟨rfl, rfl⟩ := hit
        rw [← isData] at first ⊢
        exact Or.inl ⟨sound.inodes n bb searched k (.of_passes first.passes first.more) read
          first.inside (entryMatches_inUse first.isMatch),
          (untouched_setStore fs searched).trans (untouched_igetInode _ _)⟩
  | missing _ _ noCreate => exact absurd ⟨creates, rfl⟩ noCreate
  | @created cc bb entry ino searched taken _ scan _ allocated =>
      rcases scanDir_stops scan with ⟨n, without⟩ | ⟨_, _, _, _, _, _, _, hit⟩
      · rcases without.ends with ⟨ends, isSearched, last, seen, missing, remembers⟩ | ⟨_, _, failed⟩
        · rw [DirScan.missing.injEq] at missing
          rw [← missing.2] at remembers
          rw [isSearched] at allocated
          exact Or.inr ⟨n, last, bb, entry, cc, ino, taken,
            ⟨ends, fun j less => (without.passes j less).1⟩, without.passes, remembers, allocated,
            rfl, rfl⟩
        · cases failed
      · cases hit

/-- The number in the new entry is never that of the inode taken. -/
theorem SoundDir.not_created (sound : fs.SoundDir dir)
    (isDir : sIsDir (fs.inode dir).iMode = true) (creates : file.mode &&& oCreat = oCreat)
    (returns : fs.findInodeInDir fuel file dir name true = some (found, after, file')) :
    ¬ fs.Created after file' dir name number r bb data k := by
  intro created
  obtain ⟨positive, _, takes⟩ := created.isNew
  rcases sound.outcome isDir creates returns with
    ⟨_, untouched⟩ |
    ⟨n, last, dd, entry, cc, ino, taken, blocks, _, remembers, allocated, _, isAfter⟩
  · exact untouched.not_takes takes
  · have isSeen := created.reuses.seen remembers (blocks.before created.reuses.inDir)
    rw [Option.some.injEq, Prod.mk.injEq] at isSeen
    obtain ⟨sameBuffer, sameEntry⟩ := isSeen
    have rest : taken.Untouched after := by
      rw [isAfter]
      exact (untouched_igetInode taken ino).trans (untouched_putEntry _ _ _ _ _ _)
    rcases allocInode_cases allocated with ⟨_, same, _⟩ | ⟨group, isTaken⟩
    · rw [same] at rest
      exact ((untouched_setStore fs _).trans rest).not_takes takes
    · have sets : (fs.setStore (dirStore (fs.inode dir) fs.blockSize fs.store n)).Takes
          ((fs.setStore (dirStore (fs.inode dir) fs.blockSize fs.store n)).takeInode group ino)
          number := by
        refine ⟨takes.1, ?_⟩
        intro g bit
        rw [← isTaken]
        unfold inodeBit
        rw [← rest.inodeBits]
        exact takes.2 g bit
      have above := sets.above (by omega)
      have holds := created.entry.holds
      rw [isAfter, ← sameBuffer, putEntry_data, sameEntry, writeEntry_word] at holds
      have le : ino % 4294967296 ≤ ino := Nat.mod_le _ _
      omega

/-- A creation does what it is for if and only if there is nothing to do and nothing to
write. -/
theorem findInodeInDir_creates_iff (sound : fs.SoundDir dir)
    (isDir : sIsDir (fs.inode dir).iMode = true) (creates : file.mode &&& oCreat = oCreat)
    (short : name.length < 64) :
    fs.Creates file dir name ↔ fs.NothingToWrite dir name := by
  constructor
  · rintro ⟨fuel, found, after, file', returns, can, cannot⟩
    have notCan : ¬ fs.CanCreate dir name := by
      intro isAble
      obtain ⟨number, r, bb, data, k, created⟩ := can isAble
      exact sound.not_created isDir creates returns created
    have refused := cannot notCan
    rcases sound.outcome isDir creates returns with
      ⟨notNull, _⟩ |
      ⟨n, last, bb, entry, cc, ino, taken, blocks, passes, remembers, allocated, _, isAfter⟩
    · exact absurd refused.isNull notNull
    · have rest : taken.Untouched after := by
        rw [isAfter]
        exact (untouched_igetInode taken ino).trans (untouched_putEntry _ _ _ _ _ _)
      rcases allocInode_cases allocated with ⟨zero, same, noInode⟩ | ⟨group, isTaken⟩
      · refine ⟨notCan, noInode, ?_⟩
        rcases remembers.seen with ⟨none, _⟩ | ⟨r, dd, data, k, _, first, isSeen⟩
        · cases none
        · rw [Option.some.injEq, Prod.mk.injEq] at isSeen
          refine ⟨n, r, dd, data, k, blocks, passes, first, ?_⟩
          obtain ⟨other, again, buffers⟩ := refused.directory
          rw [← blocks.unique again] at buffers
          apply (writeEntry_same_iff (by omega)).mp
          have written := congrArg Buffer.data (congrFun buffers dd)
          rw [isAfter, zero, igetInode_invalid (Or.inl Nat.zero_lt_one), same, isSeen.1,
            putEntry_data, isSeen.2] at written
          exact written
      · -- a bit that is taken is counted
        rw [isTaken] at rest
        have counted := rest.freeInode.symm.trans refused.untouched.freeInode
        change (fs.freeInode + 4294967295) % 4294967296 = fs.freeInode at counted
        omega
  · rintro ⟨cannot, noInode, n, r, bb, data, k, blocks, passes, first, written⟩
    have misses : SearchMisses (fs.inode dir) fs.blockSize name fs.store :=
      ⟨n, Or.inl blocks.ends, passes⟩
    obtain ⟨fuel, outcome, searched, scan⟩ := scanDir_returns (Or.inl blocks.ends) passes
    rcases scanDir_stops scan with ⟨other, without⟩ | ⟨_, _, _, _, hit, _⟩
    · obtain ⟨isSearched, last, seen, missing, remembers⟩ := without.behind blocks passes
      have before := blocks.before first.inDir
      obtain ⟨cc, isLast⟩ : ∃ cc, last = some cc := by
        obtain ⟨_, other, block, _⟩ := passes (n - 1) (by omega)
        obtain ⟨cc, store, read, _⟩ := dirBlock_eq_some block
        exact ⟨cc, (remembers.last (n - 1) (by omega)).trans (congrArg Prod.fst read)⟩
      rw [missing, first.seen remembers before, isLast] at scan
      have puts := findInodeInDir_iff.mpr (.created isDir scan ⟨creates, rfl⟩
        (NoInode.allocInode (show (fs.setStore searched).NoInode from noInode) fuel))
      rw [igetInode_invalid (Or.inl Nat.zero_lt_one)] at puts
      refine ⟨fuel, _, _, _, puts, fun can => absurd can cannot, fun _ => ⟨rfl, ?_, n, blocks, ?_⟩⟩
      · exact (untouched_setStore fs searched).trans (untouched_putEntry _ _ _ _ _ _)
      · rw [isSearched]
        exact putEntry_buffers written.writes cc
    · exact absurd misses hit.not_misses

section Written

variable {last : Nat} (isDir : sIsDir (fs.inode dir).iMode = true)
  (creates : file.mode &&& oCreat = oCreat) (short : name.length < 64)
  (scan : scanDir (fs.inode dir) fs.blockSize name fuel fuel 0 fs.store none none =
    some (.missing (some last) (some (bb, entryAt data k)), searched))
  (allocated : (fs.setStore searched).allocInode fuel = some (ino, taken))
  (word : ino < 4294967296)
  (held : ((taken.igetInode ino).2.store.buffers bb).data = data)
  (chained : ChainedBlock data fs.blockSize) (inside : entryAt data k < fs.blockSize)
include isDir creates short scan allocated word held chained inside

/-- The block is intact behind a creation if and only if a chain with the entries in use begins
right behind the new name. -/
theorem findInodeInDir_intact_iff (unused : data.word (entryAt data k) = 0)
    (absent : ∀ m, ¬ BlockHas data fs.blockSize name m) :
    ∃ after file', fs.findInodeInDir fuel file dir name true =
        some ((taken.igetInode ino).1, after, file') ∧
      ((ChainedBlock (after.store.buffers bb).data fs.blockSize ∧
          ∀ live m, BlockHas data fs.blockSize live m →
            BlockHas (after.store.buffers bb).data fs.blockSize live m) ↔
        Rejoins data fs.blockSize k name) := by
  refine ⟨_, _, findInodeInDir_iff.mpr (.created isDir scan ⟨creates, rfl⟩ allocated), ?_⟩
  rw [putEntry_data, held]
  exact (writeEntry_replaced data _ word (by omega)).intact_iff chained inside unused absent

/-- An entry of just the right length takes the name without harm to the others. -/
theorem findInodeInDir_fits (unused : data.word (entryAt data k) = 0)
    (absent : ∀ m, ¬ BlockHas data fs.blockSize name m) (inUse : ino ≠ 0)
    (length : recLen data (entryAt data k) = 8 + name.length) :
    ∃ after file', fs.findInodeInDir fuel file dir name true =
        some ((taken.igetInode ino).1, after, file') ∧
      (ChainedBlock (after.store.buffers bb).data fs.blockSize ∧
        ∀ live m, BlockHas data fs.blockSize live m →
          BlockHas (after.store.buffers bb).data fs.blockSize live m) ∧
      BlockHas (after.store.buffers bb).data fs.blockSize name ino := by
  refine ⟨_, _, findInodeInDir_iff.mpr (.created isDir scan ⟨creates, rfl⟩ allocated), ?_⟩
  rw [putEntry_data, held]
  have replaced := writeEntry_replaced data (entryAt data k) word
    (by omega : name.length < 256)
  exact ⟨(replaced.intact_iff chained inside unused absent).mpr (.of_length chained inside length),
    replaced.has_new chained inside inUse⟩

end Written

/-- A block with "ab", an unused entry that was "c", and "a". -/
def creationBlock : Region := fun x =>
  if x = 0 then 12#8 else if x = 4 then 12#8 else if x = 6 then 2#8 else if x = 8 then 97#8
  else if x = 9 then 98#8 else if x = 16 then 9#8 else if x = 18 then 1#8
  else if x = 20 then 99#8 else if x = 21 then 13#8 else if x = 25 then 235#8
  else if x = 26 then 15#8 else if x = 27 then 1#8 else if x = 29 then 97#8 else 0#8

def creationStore : BlockStore :=
  { BlockStore.zeroed with
    device :=
      { BlockStore.zeroed.device with bytes := fun a => creationBlock ((a : Int) - 409600) } }

def creationInode : Inode := { (sample 4096).inode ⟨0, 0⟩ with iMode := 0o040755 }

/-- A directory of this block on a disk of one group; `bitmap` is its inode bitmap. -/
def creationSample (bitmap : Region) : FileSystem :=
  { sample 4096 with
    store := creationStore
    inodeCount := 512
    groupInode := 512
    groups := fun group =>
      { (sample 4096).groups group with
        inodeBitmapSize := 64
        pInodeBitmap := bitmap
        inodeData := fun _ => creationInode } }

/-- A file that is opened with `O_CREAT`. -/
def creationFile : File := { lookupFile with mode := 64 }

/-- What the search for "c" sees in the block. -/
structure CreationBlock (data : Region) : Prop where
  places : entryAt data 1 = 12 ∧ entryAt data 2 = 21 ∧ entryAt data 3 = 4096
  names : nameLen data 0 = 2 ∧ nameLen data 12 = 1 ∧ nameLen data 21 = 1
  lengths : recLen data 0 = 12 ∧ recLen data 12 = 9 ∧ recLen data 21 = 4075
  numbers : data.word (0 : Nat) = 12 ∧ data.word (12 : Nat) = 0 ∧ data.word (21 : Nat) = 13
  letter : data (20 : Nat) = 99#8
  noMatch : entryMatches data 0 [99#8] = false ∧ entryMatches data 12 [99#8] = false ∧
    entryMatches data 21 [99#8] = false

theorem creation_read : ∃ bb after, dirRead creationInode 4096 creationStore 0 = (some bb, after) ∧
    CreationBlock (after.buffers bb).data := by
  have facts : (dirRead creationInode 4096 creationStore 0).1.map (fun bb =>
      let data := ((dirRead creationInode 4096 creationStore 0).2.buffers bb).data
      ([entryAt data 1, entryAt data 2, entryAt data 3, nameLen data 0, nameLen data 12,
        nameLen data 21, recLen data 0, recLen data 12, recLen data 21, data.word (0 : Nat),
        data.word (12 : Nat), data.word (21 : Nat)], data (20 : Nat),
        [entryMatches data 0 [99#8], entryMatches data 12 [99#8],
          entryMatches data 21 [99#8]])) =
      some ([12, 21, 4096, 2, 1, 1, 12, 9, 4075, 12, 0, 13], 99#8, [false, false, false]) := by
    decide +kernel
  obtain ⟨bb, isBuffer, facts⟩ := Option.map_eq_some_iff.mp facts
  simp only [Prod.mk.injEq, List.cons.injEq, and_true] at facts
  obtain ⟨⟨p1, p2, p3, n0, n12, n21, l0, l12, l21, w0, w12, w21⟩, letter, m0, m12, m21⟩ := facts
  exact ⟨bb, _, Prod.ext isBuffer rfl, ⟨p1, p2, p3⟩, ⟨n0, n12, n21⟩, ⟨l0, l12, l21⟩,
    ⟨w0, w12, w21⟩, letter, m0, m12, m21⟩

theorem CreationBlock.place (block : CreationBlock data) (inside : entryAt data k < 4096) :
    k = 0 ∧ entryAt data k = 0 ∨ k = 1 ∧ entryAt data k = 12 ∨ k = 2 ∧ entryAt data k = 21 := by
  obtain ⟨second, third, ends⟩ := block.places
  have less : k < 3 := by
    by_contra beyond
    have le : entryAt data 3 ≤ entryAt data k := entryAt_mono (Nat.not_lt.mp beyond)
    omega
  rcases (by omega : k = 0 ∨ k = 1 ∨ k = 2) with here | here | here
  · subst here
    exact Or.inl ⟨rfl, rfl⟩
  · subst here
    exact Or.inr (Or.inl ⟨rfl, second⟩)
  · subst here
    exact Or.inr (Or.inr ⟨rfl, third⟩)

theorem CreationBlock.chained (block : CreationBlock data) : ChainedBlock data 4096 := by
  obtain ⟨second, third, ends⟩ := block.places
  obtain ⟨firstName, secondName, thirdName⟩ := block.names
  obtain ⟨firstLen, secondLen, thirdLen⟩ := block.lengths
  refine ⟨3, ends, ?_⟩
  intro k less
  have inside : entryAt data k < 4096 := by
    have le : entryAt data k ≤ entryAt data 2 := entryAt_mono (by omega)
    omega
  rcases block.place inside with ⟨_, place⟩ | ⟨_, place⟩ | ⟨_, place⟩
  · rw [place]
    omega
  · rw [place]
    omega
  · rw [place]
    omega

theorem CreationBlock.noHit (block : CreationBlock data) : ¬ BlockHit data 4096 [99#8] := by
  rintro ⟨k, inside, isMatch⟩
  obtain ⟨first, second, third⟩ := block.noMatch
  rcases block.place inside with ⟨_, place⟩ | ⟨_, place⟩ | ⟨_, place⟩
  · rw [place, first] at isMatch
    cases isMatch
  · rw [place, second] at isMatch
    cases isMatch
  · rw [place, third] at isMatch
    cases isMatch

theorem creation_first {r : Nat} (inDir : InDir creationInode 4096 r) : r = 0 := by
  by_contra more
  have second := inDir 1 (by omega)
  exact absurd second (by decide)

theorem creationSample_inode (bitmap : Region) (store : BlockStore) {n : Nat} (lower : 1 ≤ n)
    (upper : n ≤ 32) : (((creationSample bitmap).setStore store).igetInode n).1 ≠ none := by
  have block : (4 + (n - 1) % 512 * 128 % 4294967296 / 4096) % 4294967296 = 4 := by omega
  have away : ((creationSample bitmap).setStore store).inodeAway n < 5 := by
    change uint32 (((4 + (n - 1) % 512 * 128 % 4294967296 / 4096) % 4294967296 : Nat) - (4 : Int)) < 5
    rw [block]
    decide
  rw [igetInode_cached lower (by omega : n ≤ 512) ⟨show (4 : Int) ≠ -1 by decide, away⟩]
  exact Option.some_ne_none _

theorem creationSample_sound (bitmap : Region) : (creationSample bitmap).SoundDir ⟨0, 0⟩ := by
  obtain ⟨bb, after, read, block⟩ := creation_read
  constructor
  · rfl
  · intro r inDir
    rw [creation_first inDir]
    exact ⟨_, dirBlock_some read, block.chained⟩
  · intro r cc store k inDir isRead inside inUse
    have same := read.symm.trans ((creation_first inDir) ▸ isRead)
    rw [Prod.mk.injEq, Option.some.injEq] at same
    obtain ⟨rfl, rfl⟩ := same
    obtain ⟨first, second, third⟩ := block.numbers
    rcases block.place inside with ⟨_, place⟩ | ⟨_, place⟩ | ⟨_, place⟩
    · rw [place, first]
      exact creationSample_inode bitmap after (by decide) (by decide)
    · rw [place] at inUse
      exact absurd second inUse
    · rw [place, third]
      exact creationSample_inode bitmap after (by decide) (by decide)

/-- With a full bitmap "c" cannot be created again, and nothing happens. -/
theorem findInodeInDir_creates_full :
    (creationSample (fun _ => 255#8)).Creates creationFile ⟨0, 0⟩ [99#8] := by
  apply (findInodeInDir_creates_iff (creationSample_sound _) (by decide) (by decide)
    (by decide)).mpr
  obtain ⟨bb, after, read, block⟩ := creation_read
  obtain ⟨second, third, ends⟩ := block.places
  have passes : SearchPasses creationInode 4096 [99#8] creationStore 0 :=
    ⟨by decide, _, dirBlock_some read, block.noHit, block.chained.free⟩
  refine ⟨?_, ?_, 1, 0, bb, (after.buffers bb).data, 1, ⟨by decide, ?_⟩, ?_, ?_, ?_⟩
  · intro can
    apply can.2
    intro n _ _
    have inByte : (n - 1) % 512 % 8 < 8 := Nat.mod_lt _ (by decide)
    exact (BitVec.getLsbD_allOnes (i := (n - 1) % 512 % 8) (v := 8)).trans (decide_eq_true inByte)
  · intro group _ j _
    apply word_full
    intro bit _ _
    have inByte : bit % 8 < 8 := Nat.mod_lt _ (by decide)
    exact (BitVec.getLsbD_allOnes (i := bit % 8) (v := 8)).trans (decide_eq_true inByte)
  · intro j less
    rw [Nat.lt_one_iff.mp less]
    decide
  · intro j less
    rw [Nat.lt_one_iff.mp less]
    exact passes
  · refine ⟨?_, congrArg Prod.fst read, dirBlock_some read, ⟨Nat.zero_le 1, ?_, ?_, ?_⟩, ?_⟩
    · intro j le
      rw [Nat.le_zero.mp le]
      decide
    · rw [second]
      decide
    · rw [second]
      exact block.numbers.2.1
    · intro j _ less
      rw [Nat.lt_one_iff.mp less, entryAt, block.numbers.1]
      decide
    · intro j other less
      exact absurd less (Nat.not_lt_zero j)
  · have searched : dirStore creationInode 4096 creationStore 1 = after := congrArg Prod.snd read
    change AlreadyWritten ((dirStore creationInode 4096 creationStore 1).buffers bb).data _ _
    rw [searched, second]
    refine ⟨block.numbers.2.1, block.lengths.2.1, block.names.2.1, ?_⟩
    intro j less
    rw [Nat.lt_one_iff.mp less]
    exact block.letter

/-- Inodes 1 to 32 are in use and the entry has room, but "c" is not created. -/
theorem findInodeInDir_creates_not :
    (creationSample (fun x => if x < 4 then 255#8 else 0#8)).SoundDir ⟨0, 0⟩ ∧
      (∀ r data number, InDir creationInode 4096 r →
        dirBlock creationInode 4096 creationStore r = some data →
          ¬ BlockHas data 4096 [99#8] number) ∧
      (creationSample (fun x => if x < 4 then 255#8 else 0#8)).CanCreate ⟨0, 0⟩ [99#8] ∧
      ¬ (creationSample (fun x => if x < 4 then 255#8 else 0#8)).Creates creationFile ⟨0, 0⟩
        [99#8] := by
  obtain ⟨bb, after, read, block⟩ := creation_read
  obtain ⟨second, third, ends⟩ := block.places
  have isBlock := dirBlock_some read
  have can : (creationSample (fun x => if x < 4 then 255#8 else 0#8)).CanCreate ⟨0, 0⟩
      [99#8] := by
    refine ⟨⟨0, _, 1, ?_, isBlock, ?_, ?_, ?_⟩, ?_⟩
    · intro j le
      rw [Nat.le_zero.mp le]
      decide
    · rw [second]
      decide
    · rw [second]
      exact block.numbers.2.1
    · rw [second, block.lengths.2.1]
      decide
    · intro full
      have used := full 33 (by decide) (by decide)
      revert used
      unfold InodeUsed
      decide
  refine ⟨creationSample_sound _, ?_, can, ?_⟩
  · intro r data number inDir isData has
    rw [creation_first inDir, isBlock, Option.some.injEq] at isData
    rw [← isData] at has
    exact block.noHit has.hit
  · rintro ⟨fuel, found, after, file', returns, creates, _⟩
    obtain ⟨number, r, bb, data, k, created⟩ := creates can
    exact (creationSample_sound _).not_created (by decide) (by decide) returns created

end FileSystem

end MangoOS
