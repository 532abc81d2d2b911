/-
What `ext2_unlink` leaves of a name (fs/ext2.c).

`ulink_inode` sets its pointer to the matching entry to 0 instead of the inode number in the
entry.  No step behind the walk writes to a block, so as long as the cache has room a directory
reads afterwards as it did before.
-/

import MangoOS.FileSystem.DirLookup

namespace MangoOS

/-! ### A cache with room -/

namespace BlockStore

variable {store middle after : BlockStore} {blockSize bno bb : Nat}

/-- Buckets only grow, and a cache that has no full bucket in the end has written nothing. -/
structure Grows (store after : BlockStore) : Prop where
  size : ∀ bno, (store.heads (hashBh bno)).size ≤ (after.heads (hashBh bno)).size
  bytes : (∀ bno, (after.heads (hashBh bno)).size < 100) →
    after.device.bytes = store.device.bytes

theorem Grows.refl (store : BlockStore) : Grows store store :=
  ⟨fun _ => Int.le_refl _, fun _ => rfl⟩

theorem Grows.trans (first : Grows store middle) (second : Grows middle after) :
    Grows store after := by
  refine ⟨fun bno => Int.le_trans (first.size bno) (second.size bno), ?_⟩
  intro room
  rw [second.bytes room]
  exact first.bytes fun bno => Int.lt_of_le_of_lt (second.size bno) (room bno)

theorem load_heads (store : BlockStore) (blockSize bno bb : Nat) :
    (store.load blockSize bno bb).2.heads = store.heads := by
  unfold load
  by_cases valid : (store.buffers bb).bState ≠ 1
  · rw [if_pos valid]
    generalize isFirst : (if (store.buffers bb).bState = 2 then
      store.flush (sectorOf blockSize bno) bb else (1, store)) = first
    have same : first.2.heads = store.heads := by
      rw [← isFirst]
      by_cases marked : (store.buffers bb).bState = 2
      · rw [if_pos marked]
        rfl
      · rw [if_neg marked]
    obtain ⟨count, flushed⟩ := first
    dsimp only at same ⊢
    by_cases failed : count ≤ 0
    · rw [if_pos failed]
      exact same
    · rw [if_neg failed, ← same]
      change (if (flushed.fill (sectorOf blockSize bno) bb).1 ≤ 0 then _ else _ :
        Option Nat × BlockStore).2.heads = _
      by_cases failed : (flushed.fill (sectorOf blockSize bno) bb).1 ≤ 0
      · rw [if_pos failed]
        rfl
      · rw [if_neg failed]
        rfl
  · rw [if_neg valid]

/-- A call of `bget_block` adds at most one buffer to a bucket. -/
theorem bgetBlock_size (store : BlockStore) (bno other : Nat) :
    (store.heads (hashBh other)).size ≤ ((store.bgetBlock bno).2.heads (hashBh other)).size ∧
      ((store.bgetBlock bno).2.heads (hashBh other)).size ≤
        (store.heads (hashBh other)).size + 1 := by
  by_cases full : (store.heads (hashBh bno)).size ≥ 100
  · have same : (store.bgetBlock bno).2.heads = store.heads := by
      cases found : store.bgetFound bno with
      | inl bb => simp [bgetBlock, full, found]
      | inr oldest => simp [bgetBlock, full, found]
    rw [same]
    omega
  · by_cases same : hashBh other = hashBh bno
    · have added : ((store.bgetBlock bno).2.heads (hashBh other)).size =
          (store.heads (hashBh other)).size + 1 := by
        simp [bgetBlock, full, same]
      omega
    · have kept : (store.bgetBlock bno).2.heads (hashBh other) = store.heads (hashBh other) := by
        simp [bgetBlock, full, same]
      rw [kept]
      omega

theorem readBlock_size (store : BlockStore) (blockSize bno other : Nat) :
    (store.heads (hashBh other)).size ≤
        ((store.readBlock blockSize bno).2.heads (hashBh other)).size ∧
      ((store.readBlock blockSize bno).2.heads (hashBh other)).size ≤
        (store.heads (hashBh other)).size + 1 := by
  change _ ≤ ((((store.bgetBlock bno).2.load blockSize bno (store.bgetBlock bno).1).2).heads _).size ∧
    ((((store.bgetBlock bno).2.load blockSize bno (store.bgetBlock bno).1).2).heads _).size ≤ _
  rw [load_heads]
  exact bgetBlock_size store bno other

/-- A bucket with room writes nothing, and a buffer that it hands out shows the disk. -/
theorem readBlock_room (blockSize : Nat) (room : (store.heads (hashBh bno)).size < 100) :
    (store.readBlock blockSize bno).2.device.bytes = store.device.bytes ∧
      ∀ bb, (store.readBlock blockSize bno).1 = some bb →
        ((store.readBlock blockSize bno).2.buffers bb).data.Agree
          (store.device.sectors (sectorOf blockSize bno)) 0 4096 := by
  have notFull : ¬ (store.heads (hashBh bno)).size ≥ 100 := by omega
  by_cases whole : min (store.device.served store.device.transfers) 8 = 8
  · have count : Device.outcome 8 8 = 8 := rfl
    refine ⟨by simp [readBlock, load, bgetBlock, notFull, fill, Device.devRead, whole, count], ?_⟩
    intro bb served x lower upper
    have isMade : bb = store.made := by
      simpa [readBlock, load, bgetBlock, notFull, fill, Device.devRead, whole, count]
        using served.symm
    have inside : x < 8 * sectorSize := by
      change x < 4096
      exact upper
    simp [isMade, readBlock, load, bgetBlock, notFull, fill, Device.devRead, whole, count,
      Region.copy, lower, inside]
  · have count : Device.outcome (min (store.device.served store.device.transfers) 8) 8 = -11 :=
      if_pos (by omega)
    refine ⟨by simp [readBlock, load, bgetBlock, notFull, fill, Device.devRead, count], ?_⟩
    intro bb served
    simp [readBlock, load, bgetBlock, notFull, fill, Device.devRead, count] at served

theorem grows_readBlock (store : BlockStore) (blockSize bno : Nat) :
    Grows store (store.readBlock blockSize bno).2 := by
  refine ⟨fun other => (readBlock_size store blockSize bno other).1, ?_⟩
  intro room
  have before := (readBlock_size store blockSize bno bno).1
  exact (readBlock_room blockSize (Int.lt_of_le_of_lt before (room bno))).1

theorem grows_bgetBlock (store : BlockStore) (bno : Nat) : Grows store (store.bgetBlock bno).2 :=
  ⟨fun other => (bgetBlock_size store bno other).1, fun _ => by rw [bgetBlock_device]⟩

end BlockStore

/-! ### The blocks of a directory on the disk -/

variable {data other : Region} {blockSize : Nat} {name : CString} {inode : Inode}
  {store : BlockStore}

/-- The rounds of a search only add to the buckets, one buffer a round. -/
theorem dirStore_size (inode : Inode) (blockSize : Nat) (store : BlockStore) (r bno : Nat) :
    ((dirStore inode blockSize store r).heads (hashBh bno)).size ≤
      (store.heads (hashBh bno)).size + r := by
  induction r with
  | zero => exact Int.le_of_eq (Int.add_zero _).symm
  | succ r ih =>
      have step := (BlockStore.readBlock_size (dirStore inode blockSize store r) blockSize
        (inode.iBlock (blockIndex (dirPos blockSize r) blockSize)) bno).2
      rw [dirStore]
      omega

/-- In a cache with room for its blocks a search reads what the disk holds. -/
theorem dirBlock_disk {r : Nat} (room : ∀ bno, (store.heads (hashBh bno)).size + r < 100)
    (block : dirBlock inode blockSize store r = some data) :
    data.Agree (store.device.sectors (BlockStore.sectorOf blockSize
      (inode.iBlock (blockIndex (dirPos blockSize r) blockSize)))) 0 4096 := by
  have free : ∀ j, j ≤ r → ∀ bno,
      ((dirStore inode blockSize store j).heads (hashBh bno)).size < 100 := by
    intro j le bno
    have size := dirStore_size inode blockSize store j bno
    have here := room bno
    omega
  have bytes : ∀ j, j ≤ r →
      (dirStore inode blockSize store j).device.bytes = store.device.bytes := by
    intro j le
    induction j with
    | zero => rfl
    | succ j ih =>
        rw [dirStore, (BlockStore.readBlock_room blockSize (free j (by omega) _)).1]
        exact ih (by omega)
  obtain ⟨bb, after, read, isData⟩ := dirBlock_eq_some block
  have served := (BlockStore.readBlock_room blockSize (free r (Nat.le_refl r)
    (inode.iBlock (blockIndex (dirPos blockSize r) blockSize)))).2 bb (congrArg Prod.fst read)
  have same : (dirStore inode blockSize store r).device.sectors = store.device.sectors := by
    funext sector
    unfold Device.sectors
    rw [bytes r (Nat.le_refl r)]
  rw [same, show (BlockStore.readBlock _ _ _).2 = after from congrArg Prod.snd read, isData]
    at served
  exact served

/-- In a chained block the places of the entries depend on the block's bytes only. -/
theorem entryAt_congr (chained : ChainedBlock other blockSize) (agree : data.Agree other 0 blockSize)
    {k : Nat} (inside : entryAt other k < blockSize) :
    entryAt data k = entryAt other k ∧
      entryAt other k + (8 + nameLen other (entryAt other k)) ≤ blockSize := by
  obtain ⟨n, ends, room⟩ := chained
  have before : k < n := by
    by_contra beyond
    have le : entryAt other n ≤ entryAt other k := entryAt_mono (Nat.not_lt.mp beyond)
    omega
  have fits : ∀ j, j < n →
      entryAt other j + (8 + nameLen other (entryAt other j)) ≤ blockSize := by
    intro j less
    have long := room j less
    have le : entryAt other (j + 1) ≤ entryAt other n := entryAt_mono less
    rw [entryAt] at le
    omega
  have places : ∀ j, j < n → entryAt data j = entryAt other j := by
    intro j
    induction j with
    | zero => exact fun _ => rfl
    | succ j ih =>
        intro less
        have place := ih (by omega)
        have header := fits j (by omega)
        have length : recLen data (entryAt other j) = recLen other (entryAt other j) := by
          unfold recLen Region.half
          rw [agree _ (by omega) (by omega), agree _ (by omega) (by omega)]
        rw [entryAt, entryAt, place, length]
  exact ⟨places k before, fits k before⟩

/-- An entry of a chained block is an entry of every copy of the block. -/
theorem ExactEntry.hit {k : Nat} (exact : ExactEntry other blockSize name k)
    (chained : ChainedBlock other blockSize) (agree : data.Agree other 0 blockSize) :
    BlockHit data blockSize name := by
  obtain ⟨place, fits⟩ := entryAt_congr chained agree exact.inside
  rw [exact.length] at fits
  refine ⟨k, by rw [place]; exact exact.inside, ?_⟩
  rw [place]
  have word : data.word (entryAt other k) = other.word (entryAt other k) :=
    Region.word_congr fun x lower upper => agree x (by omega) (by omega)
  unfold entryMatches
  rw [Bool.and_eq_true, decide_eq_true_iff, List.all_eq_true, word]
  refine ⟨exact.inUse, ?_⟩
  intro i member
  have less := List.mem_range.mp member
  rw [beq_iff_eq, agree _ (by omega) (by omega)]
  exact exact.bytes i less

namespace FileSystem

/-- Block `i` of a directory as the disk holds it, where the search looks for it. -/
def diskBlock (fs : FileSystem) (dir : Inode) (i : Nat) : Region :=
  fs.store.device.sectors (BlockStore.sectorOf fs.blockSize
    (dir.iBlock (blockIndex (i * fs.blockSize) fs.blockSize)))

/-- Every block of the directory is a chain of entries. -/
def ChainedDir (fs : FileSystem) (dir : Inode) : Prop :=
  ∀ i, i * fs.blockSize < dir.iSize → ChainedBlock (fs.diskBlock dir i) fs.blockSize

/-- Entry `k` of block `i` of the directory is in use and has the name. -/
structure NamedEntry (fs : FileSystem) (dir : Inode) (name : CString) (i k : Nat) : Prop where
  inDir : i * fs.blockSize < dir.iSize
  exact : ExactEntry (fs.diskBlock dir i) fs.blockSize name k

/-- The file system behind the loop of `ext2_unlink`. -/
def freed (fs : FileSystem) (file : File) (ref : InodeRef) : FileSystem :=
  (unlinkLoop (fs.inode ref) (file.ino / fs.groupInode) (fs.inode ref).iBlocks 0 fs ⟨0, 0, 0⟩).2

/-- The inode whose length bounds the search of `ulink_inode`. -/
def searchedInode (fs : FileSystem) (file : File) (ref : InodeRef) : Inode :=
  (fs.freed file ref).inode file.inode

/-- What `ext2_unlink` is to do to the directory of a path; `fs` is the file system and `file`
the file when the inode `ref` of the path has been found. -/
structure RemovesName (ram : Ram) (fs after : FileSystem) (file : File) (ref : InodeRef)
    (dir : Inode) (path name : CString) : Prop where
  /-- A search for the name comes to the end of the directory. -/
  gone : ∃ fuel last empty searched,
    scanDir dir fs.blockSize name fuel fuel 0 after.store none none =
      some (.missing last empty, searched)
  others : ∀ other r data k, other ≠ name →
    FirstMatch dir fs.blockSize other fs.store r data k →
    nameLen data (entryAt data k) = other.length →
    ∃ n found l, FirstMatch dir fs.blockSize other after.store n found l ∧
      found.word (entryAt found l) = data.word (entryAt data k)
  /-- The blocks that `ulink_inode` searches are blocks of the directory. -/
  ownBlocks : ∀ parent, (fs.searchedInode file ref).parent = some parent → ∀ r,
    dirPos fs.blockSize r < (fs.searchedInode file ref).iSize →
      dirPos fs.blockSize r < dir.iSize ∧
        ((fs.freed file ref).inode parent).iBlock (blockIndex (dirPos fs.blockSize r) fs.blockSize) =
          dir.iBlock (blockIndex (dirPos fs.blockSize r) fs.blockSize)
  noNull : 0 < (fs.searchedInode file ref).iSize →
    ∃ parent, (fs.searchedInode file ref).parent = some parent ∧
      ∀ fuel bb a, (bb, a) ∈ ulinkHeaders ram (path.drop (getNameIndex path))
        (fs.searchedInode file ref) ((fs.freed file ref).inode parent) fuel fuel 0
        (fs.freed file ref) → a ≠ 0

variable {start fs after : FileSystem} {dir : Inode} {path : CString} {i k : Nat}

/-- The caches only grow, and unless one is full the disk is as it was. -/
structure Quiet (fs after : FileSystem) : Prop where
  blockSize : after.blockSize = fs.blockSize
  store : BlockStore.Grows fs.store after.store

theorem quiet_stepped : Stepped Quiet where
  refl := fun fs => ⟨rfl, .refl fs.store⟩
  trans := fun first second =>
    ⟨second.blockSize.trans first.blockSize, first.store.trans second.store⟩
  read := fun fs bno => ⟨rfl, BlockStore.grows_readBlock fs.store fs.blockSize bno⟩
  get := fun fs bno => ⟨rfl, BlockStore.grows_bgetBlock fs.store bno⟩
  clear := fun _ _ => ⟨rfl, fun _ => Int.le_refl _, fun _ => rfl⟩
  bit := fun fs _ _ => ⟨rfl, .refl fs.store⟩

/-- A search that comes to the end has passed every block of the directory. -/
theorem EndsWithout.passes_block {n : Nat} {outcome : DirScan} {last : Option Nat}
    {seen : Option (Nat × Nat)} {searched : BlockStore}
    (without : EndsWithout dir blockSize name store searched n outcome)
    (missing : outcome = .missing last seen) (inDir : i * blockSize < dir.iSize) :
    dirPos blockSize i = i * blockSize ∧ SearchPasses dir blockSize name store i := by
  have ends : dir.iSize ≤ dirPos blockSize n := by
    rcases without.ends with ⟨ends, _⟩ | ⟨_, _, failed⟩
    · exact ends
    · rw [failed] at missing
      cases missing
  have word : dirPos blockSize n < 4294967296 := Nat.mod_lt _ (by decide)
  have before : i < n := by
    by_contra beyond
    have le : n * blockSize ≤ i * blockSize := Nat.mul_le_mul_right blockSize (Nat.not_lt.mp beyond)
    have less : dirPos blockSize n ≤ n * blockSize := Nat.mod_le _ _
    omega
  exact ⟨Nat.mod_eq_of_lt (by omega), without.passes i before⟩

/-- The name of an entry on the disk is found as long as the cache has room for the search. -/
theorem NamedEntry.not_gone (named : fs.NamedEntry dir name i k) (chained : fs.ChainedDir dir)
    (small : fs.blockSize ≤ 4096) (bytes : store.device.bytes = fs.store.device.bytes)
    (room : ∀ bno, (store.heads (hashBh bno)).size + i < 100) {fuel : Nat} {last : Option Nat}
    {empty : Option (Nat × Nat)} {searched : BlockStore} :
    scanDir dir fs.blockSize name fuel fuel 0 store none none ≠
      some (.missing last empty, searched) := by
  intro returns
  rcases scanDir_stops returns with ⟨n, without⟩ | ⟨_, _, _, _, _, _, _, found⟩
  · obtain ⟨isPos, _, data, block, noHit, _⟩ :=
      EndsWithout.passes_block without rfl named.inDir
    have agree := dirBlock_disk room block
    have same : store.device.sectors = fs.store.device.sectors := by
      funext sector
      unfold Device.sectors
      rw [bytes]
    rw [isPos, same] at agree
    apply noHit
    apply named.exact.hit (chained i named.inDir)
    intro x lower upper
    exact agree x lower (by omega)
  · cases found

/-- Whenever it returns 0 a lookup of the name does not come to nothing, as long as the cache has
room for it. -/
theorem ext2Unlink_removes_never {fuel : Nat} {ram : Ram} {file found after' : File}
    {ref : InodeRef}
    (search : start.findInodeByPath fuel file path = some (some ref, fs, found))
    (returns : start.ext2Unlink fuel ram file path = some (0, after, after'))
    (whole : fs.blockSize = 8 * sectorSize) (chained : fs.ChainedDir dir)
    (named : fs.NamedEntry dir name i k)
    (room : ∀ bno, (after.store.heads (hashBh bno)).size + i < 100) :
    ¬ RemovesName ram fs after found ref dir path name := by
  intro removes
  obtain ⟨_, middle, _, isFound, quiet⟩ := quiet_stepped.ext2Unlink returns
  rw [search, Option.some.injEq, Prod.mk.injEq, Prod.mk.injEq] at isFound
  rw [← isFound.2.1] at quiet
  have bytes := quiet.store.bytes fun bno => by
    have here := room bno
    omega
  obtain ⟨fuel, last, empty, searched, missing⟩ := removes.gone
  have small : fs.blockSize ≤ 4096 := by
    rw [whole]
    decide
  exact named.not_gone chained small bytes room missing

/-! ### The only file of a directory -/

/-- The disk with the file /a, whose entry says how long its name is. -/
def nameSample : FileSystem :=
  let fs := unlinkSample (fun _ => 0#8)
  let bytes := Function.update fs.store.device.bytes 204806 1#8
  { fs with store := { fs.store with device := { fs.store.device with bytes := bytes } } }

/-- Its root directory. -/
def nameDir : Inode := nameSample.inode ⟨0, 1⟩

theorem nameSample_search :
    ∃ fs found, nameSample.findInodeByPath 4 unlinkFile unlinkPath =
        some (some ⟨0, 11⟩, fs, found) ∧
      fs.blockSize = 4096 ∧ fs.ChainedDir nameDir ∧ fs.NamedEntry nameDir [97#8] 0 0 := by
  have finds : (nameSample.findInodeByPath 4 unlinkFile unlinkPath).map (fun result =>
      (result.1, result.2.1.blockSize, recLen (result.2.1.diskBlock nameDir 0) 0,
        nameLen (result.2.1.diskBlock nameDir 0) 0,
        (result.2.1.diskBlock nameDir 0).word (0 : Nat),
        result.2.1.diskBlock nameDir 0 (8 : Nat))) =
      some (some ⟨0, 11⟩, 4096, 4096, 1, 12, 97#8) := by decide +kernel
  obtain ⟨⟨ref, fs, found⟩, search, facts⟩ := Option.map_eq_some_iff.mp finds
  simp only [Prod.mk.injEq] at facts
  obtain ⟨isRef, blockSize, length, nameLength, number, letter⟩ := facts
  subst isRef
  have second : entryAt (fs.diskBlock nameDir 0) 1 = 4096 := by
    rw [entryAt, entryAt, length]
  refine ⟨fs, found, search, blockSize, ?_, ?_, ?_, ?_, ?_, ?_⟩
  · intro i inDir
    have isFirst : i = 0 := by
      rw [blockSize] at inDir
      change i * 4096 < 4096 at inDir
      omega
    subst isFirst
    refine ⟨1, by rw [second, blockSize], ?_⟩
    intro k less
    rw [Nat.lt_one_iff.mp less, entryAt, nameLength, length]
    decide
  · rw [Nat.zero_mul]
    decide
  · rw [entryAt, blockSize]
    decide
  · rw [entryAt, number]
    decide
  · exact nameLength
  · intro i less
    rw [Nat.lt_one_iff.mp less]
    exact letter

theorem hashBh_bounds (bno : Nat) : -10 < hashBh bno ∧ hashBh bno < 10 := by
  unfold hashBh bufferHashSize
  exact ⟨Int.lt_tmod_of_pos _ (by decide), Int.tmod_lt_of_pos _ (by decide)⟩

theorem nameSample_returns :
    ∃ after file, nameSample.ext2Unlink 4 unlinkRam unlinkFile unlinkPath =
        some (0, after, file) ∧
      ∀ bno, (after.store.heads (hashBh bno)).size < 100 := by
  have result : (nameSample.ext2Unlink 4 unlinkRam unlinkFile unlinkPath).map (fun result =>
      (result.1, (List.range 19).all fun hash : Nat =>
        (result.2.1.store.heads ((hash : Int) - 9)).size < 100)) = some (0, true) := by
    decide +kernel
  obtain ⟨⟨err, after, file⟩, returns, facts⟩ := Option.map_eq_some_iff.mp result
  simp only [Prod.mk.injEq] at facts
  obtain ⟨isZero, room⟩ := facts
  subst isZero
  refine ⟨after, file, returns, ?_⟩
  intro bno
  obtain ⟨lower, upper⟩ := hashBh_bounds bno
  have here := List.all_eq_true.mp room (hashBh bno + 9).toNat
    (List.mem_range.mpr (by omega))
  rw [show (((hashBh bno + 9).toNat : Int) - 9) = hashBh bno by omega] at here
  exact of_decide_eq_true here

theorem ext2Unlink_removes_single :
    ∃ fs found after file,
      nameSample.findInodeByPath 4 unlinkFile unlinkPath = some (some ⟨0, 11⟩, fs, found) ∧
      nameSample.ext2Unlink 4 unlinkRam unlinkFile unlinkPath = some (0, after, file) ∧
      ¬ RemovesName unlinkRam fs after found ⟨0, 11⟩ nameDir unlinkPath [97#8] := by
  obtain ⟨fs, found, search, blockSize, chained, named⟩ := nameSample_search
  obtain ⟨after, file, returns, room⟩ := nameSample_returns
  refine ⟨fs, found, after, file, search, returns, ?_⟩
  exact ext2Unlink_removes_never search returns blockSize chained named (by simpa using room)

/-- The name is still there when `ext2_unlink` has returned 0, in a directory that nothing is
wrong with. -/
theorem ext2Unlink_removes_not :
    ∃ fs found after file,
      nameSample.findInodeByPath 4 unlinkFile unlinkPath = some (some ⟨0, 11⟩, fs, found) ∧
      fs.ChainedDir nameDir ∧ fs.NamedEntry nameDir [97#8] 0 0 ∧
      nameSample.ext2Unlink 4 unlinkRam unlinkFile unlinkPath = some (0, after, file) ∧
      ¬ RemovesName unlinkRam fs after found ⟨0, 11⟩ nameDir unlinkPath [97#8] := by
  obtain ⟨fs, found, search, blockSize, chained, named⟩ := nameSample_search
  obtain ⟨after, file, returns, room⟩ := nameSample_returns
  refine ⟨fs, found, after, file, search, chained, named, returns, ?_⟩
  intro removes
  obtain ⟨_, middle, _, isFound, quiet⟩ := quiet_stepped.ext2Unlink returns
  rw [search, Option.some.injEq, Prod.mk.injEq, Prod.mk.injEq] at isFound
  rw [← isFound.2.1] at quiet
  obtain ⟨fuel, last, empty, searched, missing⟩ := removes.gone
  exact named.not_gone chained (by omega) (quiet.store.bytes room) (by simpa using room) missing

end FileSystem

end MangoOS
