/-
Writing to a file and reading it back.

`ext2_write` stops after the first block, and a write is only seen by later reads
if the cache still finds its buffer.
-/

import MangoOS.FileSystem.Position
import MangoOS.FileSystem.View

namespace MangoOS

open BlockStore

/-- The blocks read to find block `index` of a file, and that block.  No file of less than
2^32 bytes needs the third level. -/
def walk (view : Nat → Region) (iBlock : Nat → Nat) (index : Nat) : List Nat × Nat :=
  if index < 12 then ([], iBlock index)
  else if index < 1036 then
    ([iBlock 12], (view (iBlock 12)).word (index - 12 : Nat))
  else
    let table := (view (iBlock 13)).word ((index - 1036) / 1024 : Nat)
    ([iBlock 13, table], (view table).word ((index - 1036) % 1024 : Nat))

/-- What the blocks up to block `last` of a file are found in. -/
def treeBlocks (view : Nat → Region) (iBlock : Nat → Nat) (last : Nat) : Set Nat :=
  { bno | ∃ index, index ≤ last ∧
    (bno ∈ (walk view iBlock index).1 ∨ bno = (walk view iBlock index).2) }

theorem walk_congr {view view' : Nat → Region} {iBlock : Nat → Nat} {index : Nat}
    (same : ∀ bno, bno ∈ (walk view iBlock index).1 → view' bno = view bno) :
    walk view' iBlock index = walk view iBlock index := by
  unfold walk at same ⊢
  by_cases direct : index < 12
  · rw [if_pos direct, if_pos direct]
  · rw [if_neg direct] at same ⊢
    rw [if_neg direct]
    by_cases single : index < 1036
    · rw [if_pos single] at same ⊢
      rw [if_pos single, same _ (List.mem_singleton_self _)]
    · rw [if_neg single] at same ⊢
      rw [if_neg single]
      have first := same (iBlock 13) (List.mem_cons_self ..)
      have second := same _ (List.mem_cons_of_mem _ (List.mem_singleton_self _))
      simp only [first, second]

section Lookup

variable {store after : BlockStore} {blocks : Set Nat} {k bno bb index : Nat}

theorem readEntry_calm (calm : store.Calm (k + 1) blocks) (member : bno ∈ blocks)
    (offset : Nat) (inside : offset + 4 ≤ 4096) :
    ∃ after, readEntry store 4096 bno offset =
        (some ((store.delivered 4096 bno).word offset), after) ∧
      Unmoved store after k blocks := by
  obtain ⟨bb, after, reads, shows⟩ := calm.read member
  refine ⟨after, ?_, shows.toUnmoved⟩
  have same : (after.buffers bb).data.word offset =
      (store.delivered 4096 bno).word offset := by
    apply Region.word_congr
    intro x lower upper
    exact shows.data x (by omega) (by omega)
  unfold readEntry
  rw [reads, ← same]

theorem igetBno_calm (calm : store.Calm (k + 2) blocks) (inode : Inode)
    (shallow : index < 1049612)
    (path : ∀ bno, bno ∈ (walk (store.delivered 4096) inode.iBlock index).1 → bno ∈ blocks) :
    ∃ after, igetBno store 4096 inode index =
        ((walk (store.delivered 4096) inode.iBlock index).2, after) ∧
      Unmoved store after k blocks := by
  unfold walk at path ⊢
  unfold igetBno
  by_cases direct : index < 12
  · rw [if_pos direct, if_pos direct]
    exact ⟨store, rfl, (calm.mono (by omega)).unmoved⟩
  · rw [if_neg direct] at path ⊢
    rw [if_neg direct]
    by_cases single : index < 1036
    · rw [if_pos single] at path ⊢
      rw [if_pos single]
      obtain ⟨after, reads, unmoved⟩ := readEntry_calm calm
        (path _ (List.mem_singleton_self _)) (index - 12) (by omega)
      refine ⟨after, ?_, unmoved.mono (by omega)⟩
      rw [reads]
    · rw [if_neg single] at path ⊢
      rw [if_neg single, if_pos shallow]
      have quotient : (index - 1036) / 1024 < 1024 := by omega
      have remainder : (index - 1036) % 1024 < 1024 := Nat.mod_lt _ (by decide)
      obtain ⟨middle, first, unmoved⟩ := readEntry_calm calm
        (path _ (List.mem_cons_self ..)) ((index - 1036) / 1024) (by omega)
      obtain ⟨after, second, still⟩ := readEntry_calm unmoved.calm
        (path _ (List.mem_cons_of_mem _ (List.mem_singleton_self _)))
        ((index - 1036) % 1024) (by omega)
      refine ⟨after, ?_, unmoved.trans still⟩
      have sameTable := unmoved.same _ (path _ (List.mem_cons_of_mem _ (List.mem_singleton_self _)))
      simp only [first, second, sameTable]

end Lookup

/-! ### Reading inside one block -/

section Reading

variable {fs : FileSystem} {file : File} {pos : Nat}

/-- The block of a file that holds byte `pos`. -/
def FileSystem.blockOf (fs : FileSystem) (file : File) (pos : Nat) : Nat :=
  (walk (fs.store.delivered 4096) (fs.inode file.inode).iBlock (pos / 4096)).2

/-- The blocks of a file up to the block its end lies in. -/
def FileSystem.fileBlocks (fs : FileSystem) (file : File) : Set Nat :=
  treeBlocks (fs.store.delivered 4096) (fs.inode file.inode).iBlock
    ((fs.inode file.inode).iSize / 4096)

theorem seek_pos (fs : FileSystem) (file : File) (low : pos < 2147483648) :
    (ext2Seek fs file pos).2.pos = pos := by
  rw [ext2Seek_snd]
  exact int32_of_range (by omega) (by omega)

theorem seek_curBlock (file : File) (block : fs.blockSize = 4096) (low : pos < 2147483648) :
    (ext2Seek fs file pos).2.curBlock = (pos / 4096 : Nat) := by
  rw [ext2Seek_snd, block, int32_of_range (by omega) (by omega)]
  change (pos : Int).tdiv (4096 : Nat) = _
  exact Int.tdiv_eq_ediv_of_nonneg (Int.natCast_nonneg pos)

theorem readSize_fits {iSize size : Nat} (low : pos + size < 4294967296)
    (short : size ≤ 49152) (fits : pos + size ≤ iSize) : readSize iSize pos size = size := by
  unfold readSize
  have notLong : ¬ (size : Int) > 49152 := by omega
  have sum : uint32 ((pos : Int) + size) = pos + size := by
    unfold uint32
    omega
  simp only [if_neg notLong, sum]
  rw [if_neg (by omega)]

theorem readLoop_within {store after : BlockStore} {bno bb : Nat} (inode : Inode) (file : File)
    (data : Region) {begin size : Nat} (positive : 0 < size) (short : size + begin ≤ 4096)
    (reads : store.readBlock 4096 bno = (some bb, after)) :
    ext2ReadLoop inode 4096 size size store file data begin bno 0 size =
      (true, after, { file with pos := int32 (file.pos + size) },
        data.copy 0 (after.buffers bb).data begin size) := by
  cases size with
  | zero => omega
  | succ n =>
      rw [ext2ReadLoop, if_pos (by omega), reads]
      exact if_pos (by omega)

theorem ext2Read_calm {blocks : Set Nat} (block : fs.blockSize = 4096)
    (isPos : file.pos = pos) (isBlock : file.curBlock = (pos / 4096 : Nat))
    (calm : fs.store.Calm 3 blocks)
    (path : ∀ bno, bno ∈ (walk (fs.store.delivered 4096) (fs.inode file.inode).iBlock
      (pos / 4096)).1 → bno ∈ blocks)
    (member : fs.blockOf file pos ∈ blocks) (data : Region) {size : Nat} (positive : 0 < size)
    (short : size ≤ 4096 - pos % 4096) (low : pos + size < 4294967296)
    (fits : pos + size ≤ (fs.inode file.inode).iSize) :
    (ext2Read fs file data size).count = size ∧
    ∀ x : Nat, x < size → (ext2Read fs file data size).data x =
      fs.store.delivered 4096 (fs.blockOf file pos) (pos % 4096 + x : Nat) := by
  obtain ⟨middle, isBno, unmoved⟩ :=
    igetBno_calm calm (fs.inode file.inode) (by omega : pos / 4096 < 1049612) path
  obtain ⟨bb, after, reads, shows⟩ := unmoved.calm.read member
  have isSize := readSize_fits low (by omega) fits
  have index : uint32 file.curBlock = pos / 4096 := by
    rw [isBlock]
    unfold uint32
    omega
  have start : file.pos.tmod (4096 : Nat) = (pos % 4096 : Nat) := by
    rw [isPos]
    exact Int.tmod_eq_emod_of_nonneg (Int.natCast_nonneg pos)
  have remainder : pos % 4096 < 4096 := Nat.mod_lt _ (by decide)
  have loop := readLoop_within (fs.inode file.inode) file data positive
    (by omega : size + pos % 4096 ≤ 4096) reads
  have result : ext2Read fs file data size =
      { count := if true then (size : Int) else 0
        fs := fs.setStore after
        file := { file with pos := int32 (file.pos + size) }
        data := data.copy 0 (after.buffers bb).data (pos % 4096 : Nat) size } := by
    have found : igetBno fs.store fs.blockSize (fs.inode file.inode) (uint32 file.curBlock) =
        (fs.blockOf file pos, middle) := by
      rw [block, index]
      exact isBno
    apply ext2Read_eq _ found
    · rw [block, start, Int.toNat_natCast]
      exact loop
    · rw [isPos]
      exact isSize
  rw [result]
  refine ⟨rfl, ?_⟩
  intro x inside
  have same := unmoved.same _ member
  change (data.copy 0 (after.buffers bb).data (pos % 4096 : Nat) size) x = _
  rw [Region.copy_inside _ _ (by omega) (by omega), ← same]
  have place : ((pos % 4096 : Nat) : Int) + ((x : Int) - 0) = (pos % 4096 + x : Nat) := by omega
  rw [place]
  exact shows.data _ (by omega) (by omega)

end Reading

/-! ### Writing inside one block -/

/-- What a write of `size` bytes to block `bno` that ends in the block has done. -/
structure Wrote (fs after : FileSystem) (ref : InodeRef) (bno pos size : Nat) (data : Region)
    (k : Nat) (blocks : Set Nat) : Prop where
  blockSize : after.blockSize = 4096
  iBlock : (after.inode ref).iBlock = (fs.inode ref).iBlock
  iSize : (after.inode ref).iSize = uint32 ((fs.inode ref).iSize + size)
  calm : after.store.Calm k blocks
  others : ∀ other, other ∈ blocks →
    (fs.store.heads (hashBh bno)).size < 100 ∨ other ≠ bno →
      after.store.delivered 4096 other = fs.store.delivered 4096 other
  inside : 100 ≤ (fs.store.heads (hashBh bno)).size →
    (after.store.delivered 4096 bno).Agree
      ((fs.store.delivered 4096 bno).copy (pos % 4096 : Nat) data 0 size) 0 4096

theorem ext2Write_calm {fs : FileSystem} {file : File} {pos size k : Nat} {blocks : Set Nat}
    (block : fs.blockSize = 4096) (isPos : file.pos = pos) (shallow : pos < 4294967296)
    (calm : fs.store.Calm (k + 3) blocks)
    (path : ∀ bno, bno ∈ (walk (fs.store.delivered 4096) (fs.inode file.inode).iBlock
      (pos / 4096)).1 → bno ∈ blocks)
    (member : fs.blockOf file pos ∈ blocks) (data : Region) (positive : 0 < size)
    (short : size ≤ 4096 - pos % 4096) :
    (ext2Write fs file data size).1 = size ∧
    (ext2Write fs file data size).2.2 = { file with pos := int32 (pos + size) } ∧
    Wrote fs (ext2Write fs file data size).2.1 file.inode (fs.blockOf file pos) pos size data k
      blocks := by
  obtain ⟨middle, isBno, unmoved⟩ :=
    igetBno_calm calm (fs.inode file.inode) (by omega : pos / 4096 < 1049612) path
  obtain ⟨bb, after, reads, shows⟩ := unmoved.calm.read member
  have index : uint32 (file.pos.tdiv (4096 : Nat)) = pos / 4096 := by
    rw [isPos, Int.tdiv_eq_ediv_of_nonneg (Int.natCast_nonneg pos)]
    unfold uint32
    omega
  have start : file.pos.tmod (4096 : Nat) = (pos % 4096 : Nat) := by
    rw [isPos]
    exact Int.tmod_eq_emod_of_nonneg (Int.natCast_nonneg pos)
  have remainder : pos % 4096 < 4096 := Nat.mod_lt _ (by decide)
  have some : (size : Int) > 0 := by omega
  have fits : (size : Int) ≤ (4096 : Nat) - (pos % 4096 : Nat) := by omega
  have wrote : ext2Write fs file data size =
      ((size : Int), ext2WriteSize ((fs.setStore (after.setBuffer bb
        { after.buffers bb with
          data := (after.buffers bb).data.copy (pos % 4096 : Nat) data 0 size })).markDirty bb)
        { file with pos := int32 (file.pos + size) } size,
        { file with pos := int32 (file.pos + size) }) := by
    have found : middle.readBlock 4096 (walk (fs.store.delivered 4096)
        (fs.inode file.inode).iBlock (pos / 4096)).2 = (Option.some bb, after) := reads
    unfold ext2Write
    rw [block, start, index, isBno]
    simp only [if_pos some, found, if_pos fits]
  have change := shows.change ((after.buffers bb).data.copy (pos % 4096 : Nat) data 0 size)
  obtain ⟨isCalm, others, inside⟩ := change
  rw [wrote]
  refine ⟨rfl, by rw [isPos], ⟨block, ?_, ?_, ?_, ?_, ?_⟩⟩
  · change ((FileSystem.setInode _ file.inode _).inode file.inode).iBlock = _
    rw [FileSystem.inode_setInode]
    rfl
  · change ((FileSystem.setInode _ file.inode _).inode file.inode).iSize = _
    rw [FileSystem.inode_setInode]
    rfl
  · exact ⟨isCalm.reliable, isCalm.linked, isCalm.steady⟩
  · intro bno inBlocks cold
    refine (others bno inBlocks ?_).trans (unmoved.same bno inBlocks)
    rcases cold with room | different
    · have same := unmoved.full _ member
      exact Or.inl (by omega)
    · exact Or.inr different
  · intro full
    have isData := inside ((unmoved.full _ member).mpr full) member
    change (BlockStore.delivered (after.setBuffer bb _) 4096 (fs.blockOf file pos)).Agree _ 0 4096
    rw [isData]
    rw [← unmoved.same _ member]
    exact shows.data.copy _ _ _ _

/-! ### Reading back -/

/-- Byte `offset` of a file, with the number of bytes read. -/
def readByte (fs : FileSystem) (file : File) (offset : Nat) : Int × BitVec 8 :=
  let result := ext2Read fs (ext2Seek fs file offset).2 (fun _ => 0#8) 1
  (result.count, result.data 0)

theorem readByte_eq {fs : FileSystem} {file : File} {offset : Nat} {count : Int} {byte : BitVec 8}
    (isCount : (ext2Read fs (ext2Seek fs file offset).2 (fun _ => 0#8) 1).count = count)
    (isByte : (ext2Read fs (ext2Seek fs file offset).2 (fun _ => 0#8) 1).data 0 = byte) :
    readByte fs file offset = (count, byte) := by
  simp only [readByte, isCount, isByte]

/-- A write reports its size, is read back as it was, and changes nothing else. -/
structure WriteThenRead (fs : FileSystem) (file : File) (pos size : Nat) (data : Region)
    (wrote : Int × FileSystem × File) : Prop where
  count : wrote.1 = size
  position : wrote.2.2.pos = (pos + size : Nat)
  back : ∀ buf, (ext2Read wrote.2.1 (ext2Seek wrote.2.1 wrote.2.2 pos).2 buf size).count = size ∧
    (ext2Read wrote.2.1 (ext2Seek wrote.2.1 wrote.2.2 pos).2 buf size).data.Agree data 0 size
  outside : ∀ offset, offset < (fs.inode file.inode).iSize → offset < 2147483648 →
    offset < pos ∨ pos + size ≤ offset →
      readByte wrote.2.1 wrote.2.2 offset = readByte fs file offset

/-- The disk is reliable and the blocks of the file keep their views through a write and a
read; one whose bucket is full is used once. -/
structure Untroubled (fs : FileSystem) (file : File) (pos : Nat) : Prop where
  blockSize : fs.blockSize = 4096
  length : (fs.inode file.inode).iSize < 4294967296
  calm : fs.store.Calm 6 (fs.fileBlocks file)
  alone : 100 ≤ (fs.store.heads (hashBh (fs.blockOf file pos))).size →
    ∀ index, index ≤ (fs.inode file.inode).iSize / 4096 →
      fs.blockOf file pos ∉
        (walk (fs.store.delivered 4096) (fs.inode file.inode).iBlock index).1 ∧
      (index ≠ pos / 4096 → fs.blockOf file pos ≠
        (walk (fs.store.delivered 4096) (fs.inode file.inode).iBlock index).2)

/-- The write stays in its block and in range, and its block is found again or holds the
data already. -/
def ReadsBack (fs : FileSystem) (file : File) (pos size : Nat) (data : Region) : Prop :=
  size ≤ 4096 - pos % 4096 ∧ pos + size < 2147483648 ∧
    (fs.inode file.inode).iSize + size < 4294967296 ∧
    (100 ≤ (fs.store.heads (hashBh (fs.blockOf file pos))).size ∨
      ∀ x : Nat, x < size →
        fs.store.device.sectors (sectorOf 4096 (fs.blockOf file pos)) (pos % 4096 + x : Nat) =
          data x)

section ReadBack

variable {fs after : FileSystem} {file : File} {pos size : Nat} {data : Region}

theorem fileBlocks_path (fs : FileSystem) (file : File) {index : Nat}
    (within : index ≤ (fs.inode file.inode).iSize / 4096) :
    (∀ bno, bno ∈ (walk (fs.store.delivered 4096) (fs.inode file.inode).iBlock index).1 →
      bno ∈ fs.fileBlocks file) ∧
    (walk (fs.store.delivered 4096) (fs.inode file.inode).iBlock index).2 ∈
      fs.fileBlocks file :=
  ⟨fun _ member => ⟨index, within, Or.inl member⟩, index, within, Or.inr rfl⟩

theorem blockOf_mem {place : Nat} (within : place ≤ (fs.inode file.inode).iSize) :
    fs.blockOf file place ∈ fs.fileBlocks file :=
  (fileBlocks_path fs file (Nat.div_le_div_right within)).2

theorem read_sought {blocks : Set Nat} (block : fs.blockSize = 4096)
    (calm : fs.store.Calm 3 blocks) {place : Nat}
    (path : ∀ bno, bno ∈ (walk (fs.store.delivered 4096) (fs.inode file.inode).iBlock
      (place / 4096)).1 → bno ∈ blocks)
    (member : fs.blockOf file place ∈ blocks) (buf : Region) {count : Nat} (positive : 0 < count)
    (short : count ≤ 4096 - place % 4096) (low : place < 2147483648)
    (fits : place + count ≤ (fs.inode file.inode).iSize) :
    (ext2Read fs (ext2Seek fs file place).2 buf count).count = count ∧
    ∀ x : Nat, x < count → (ext2Read fs (ext2Seek fs file place).2 buf count).data x =
      fs.store.delivered 4096 (fs.blockOf file place) (place % 4096 + x : Nat) := by
  have remainder : place % 4096 < 4096 := Nat.mod_lt _ (by decide)
  have sameInode := seek_inode fs file place
  have sameBlock : fs.blockOf (ext2Seek fs file place).2 place = fs.blockOf file place := by
    unfold FileSystem.blockOf
    rw [sameInode]
  rw [← sameBlock]
  apply ext2Read_calm block (seek_pos fs file low) (seek_curBlock file block low)
  · exact calm
  · rw [sameInode]
    exact path
  · rw [sameBlock]
    exact member
  · exact positive
  · exact short
  · omega
  · rw [sameInode]
    exact fits

theorem Wrote.walk_eq {k : Nat} (settled : Untroubled fs file pos)
    (wrote : Wrote fs after file.inode (fs.blockOf file pos) pos size data k (fs.fileBlocks file)) {index : Nat}
    (within : index ≤ (fs.inode file.inode).iSize / 4096) :
    walk (after.store.delivered 4096) (after.inode file.inode).iBlock index =
      walk (fs.store.delivered 4096) (fs.inode file.inode).iBlock index := by
  rw [wrote.iBlock]
  apply walk_congr
  intro bno member
  apply wrote.others bno ((fileBlocks_path fs file within).1 bno member)
  by_cases room : (fs.store.heads (hashBh (fs.blockOf file pos))).size < 100
  · exact Or.inl room
  · right
    intro same
    exact (settled.alone (by omega) index within).1 (same ▸ member)

theorem Wrote.read {k : Nat} (settled : Untroubled fs file pos)
    (wrote : Wrote fs after file.inode (fs.blockOf file pos) pos size data (k + 3)
      (fs.fileBlocks file)) {place : Nat}
    {sought : File} (sameInode : sought.inode = file.inode) (buf : Region) {count : Nat}
    (positive : 0 < count) (short : count ≤ 4096 - place % 4096)
    (low : place < 2147483648) (within : place ≤ (fs.inode file.inode).iSize)
    (fits : place + count ≤ (after.inode file.inode).iSize) :
    (ext2Read after (ext2Seek after sought place).2 buf count).count = count ∧
    ∀ x : Nat, x < count →
      (ext2Read after (ext2Seek after sought place).2 buf count).data x =
        after.store.delivered 4096 (fs.blockOf file place) (place % 4096 + x : Nat) := by
  have near : place / 4096 ≤ (fs.inode file.inode).iSize / 4096 := Nat.div_le_div_right within
  have same := wrote.walk_eq settled near
  obtain ⟨path, member⟩ := fileBlocks_path fs file near
  have isBlock : after.blockOf sought place = fs.blockOf file place := by
    unfold FileSystem.blockOf
    rw [sameInode, same]
  rw [← isBlock]
  apply read_sought wrote.blockSize (wrote.calm.mono (by omega)) _ _ buf positive short low
  · rw [sameInode]
    exact fits
  · rw [sameInode, same]
    exact path
  · rw [isBlock]
    exact member

theorem write_sought (settled : Untroubled fs file pos) (low : pos < 2147483648)
    (within : pos ≤ (fs.inode file.inode).iSize) (data : Region) (positive : 0 < size)
    (short : size ≤ 4096 - pos % 4096) :
    (ext2Write fs (ext2Seek fs file pos).2 data size).1 = size ∧
    (ext2Write fs (ext2Seek fs file pos).2 data size).2.2.pos = int32 (pos + size) ∧
    (ext2Write fs (ext2Seek fs file pos).2 data size).2.2.inode = file.inode ∧
    Wrote fs (ext2Write fs (ext2Seek fs file pos).2 data size).2.1 file.inode
      (fs.blockOf file pos) pos size data 3 (fs.fileBlocks file) := by
  have near : pos / 4096 ≤ (fs.inode file.inode).iSize / 4096 := Nat.div_le_div_right within
  obtain ⟨path, member⟩ := fileBlocks_path fs file near
  have sameInode := seek_inode fs file pos
  have sameBlock : fs.blockOf (ext2Seek fs file pos).2 pos = fs.blockOf file pos := by
    unfold FileSystem.blockOf
    rw [sameInode]
  have isPos := seek_pos fs file low
  have result := ext2Write_calm (k := 3) settled.blockSize isPos (by omega) settled.calm
    (by rw [sameInode]; exact path) (by rw [sameBlock]; exact member) data positive short
  rw [sameInode, sameBlock] at result
  obtain ⟨count, moved, wrote⟩ := result
  refine ⟨count, ?_, ?_, wrote⟩
  · exact congrArg File.pos moved
  · exact (congrArg File.inode moved).trans sameInode

theorem write_position (settled : Untroubled fs file pos) (data : Region) (positive : 0 < size)
    (wrote : (ext2Write fs (ext2Seek fs file pos).2 data size).2.2.pos = (pos + size : Nat)) :
    pos + size < 2147483648 ∧ size ≤ 4096 - pos % 4096 := by
  have moved := (ext2Write_move fs (ext2Seek fs file pos).2 data size
    settled.calm.reliable).1
  rw [if_pos (by omega)] at moved
  have ends : int32 ((ext2Seek fs file pos).2.pos +
      if (size : Int) ≤ fs.blockSize - (ext2Seek fs file pos).2.pos.tmod fs.blockSize then
        (size : Int)
      else fs.blockSize - (ext2Seek fs file pos).2.pos.tmod fs.blockSize) = (pos + size : Nat) :=
    (congrArg File.pos moved).symm.trans wrote
  have low : pos + size < 2147483648 := by
    have upper := (int32_bounds ((ext2Seek fs file pos).2.pos +
      if (size : Int) ≤ fs.blockSize - (ext2Seek fs file pos).2.pos.tmod fs.blockSize then
        (size : Int)
      else fs.blockSize - (ext2Seek fs file pos).2.pos.tmod fs.blockSize)).2
    omega
  have isPos : (ext2Seek fs file pos).2.pos = pos := seek_pos fs file (by omega)
  have start : (pos : Int).tmod (4096 : Nat) = (pos % 4096 : Nat) :=
    Int.tmod_eq_emod_of_nonneg (Int.natCast_nonneg pos)
  rw [isPos, settled.blockSize, start] at ends
  refine ⟨low, ?_⟩
  by_cases fits : (size : Int) ≤ (4096 : Nat) - (pos % 4096 : Nat)
  · omega
  · rw [if_neg fits, int32_of_range (by omega) (by omega)] at ends
    omega

theorem ext2Read_count (fs : FileSystem) (file : File) (data : Region) (size : Int) :
    (ext2Read fs file data size).count = readSize (fs.inode file.inode).iSize file.pos size ∨
      (ext2Read fs file data size).count = 0 := by
  obtain ⟨⟨bno, found⟩, isBno⟩ : ∃ result, igetBno fs.store fs.blockSize (fs.inode file.inode)
      (uint32 file.curBlock) = result := ⟨_, rfl⟩
  obtain ⟨⟨done, store, after, moved⟩, loop⟩ : ∃ result, ext2ReadLoop (fs.inode file.inode)
      fs.blockSize (readSize (fs.inode file.inode).iSize file.pos size)
      (readSize (fs.inode file.inode).iSize file.pos size).toNat found file data
      (file.pos.tmod fs.blockSize) bno 0
      (readSize (fs.inode file.inode).iSize file.pos size) = result := ⟨_, rfl⟩
  rw [ext2Read_eq rfl isBno loop]
  cases done with
  | true => exact Or.inl rfl
  | false => exact Or.inr rfl

/-- A file that has become shorter than the write is not read back whole. -/
theorem readSize_short {iSize : Nat} (low : pos + size < 2147483648) (short : size ≤ 49152)
    (less : iSize < size) : readSize iSize pos size ≠ size := by
  unfold readSize
  have notLong : ¬ (size : Int) > 49152 := by omega
  have sum : uint32 ((pos : Int) + size) = pos + size := by
    unfold uint32
    omega
  simp only [if_neg notLong, sum]
  rw [if_pos (by omega), int32_of_range (by omega) (by omega)]
  omega

theorem read_whole {sought : File} {buf : Region} (positive : 0 < size) (short : size ≤ 49152)
    (low : pos + size < 2147483648)
    (whole : (ext2Read after (ext2Seek after sought pos).2 buf size).count = size) :
    size ≤ (after.inode sought.inode).iSize := by
  by_contra less
  rcases ext2Read_count after (ext2Seek after sought pos).2 buf size with counted | failed
  · rw [whole, seek_inode, seek_pos _ _ (by omega)] at counted
    exact readSize_short low short (by omega) counted.symm
  · rw [whole] at failed
    omega

theorem Wrote.outside {k place : Nat} (settled : Untroubled fs file pos)
    (wrote : Wrote fs after file.inode (fs.blockOf file pos) pos size data k (fs.fileBlocks file))
    (within : place ≤ (fs.inode file.inode).iSize)
    (outside : place < pos ∨ pos + size ≤ place) :
    after.store.delivered 4096 (fs.blockOf file place) (place % 4096 : Nat) =
      fs.store.delivered 4096 (fs.blockOf file place) (place % 4096 : Nat) := by
  have near : place / 4096 ≤ (fs.inode file.inode).iSize / 4096 := Nat.div_le_div_right within
  have member := blockOf_mem within
  have remainder : place % 4096 < 4096 := Nat.mod_lt _ (by decide)
  by_cases elsewhere : (fs.store.heads (hashBh (fs.blockOf file pos))).size < 100 ∨
      fs.blockOf file place ≠ fs.blockOf file pos
  · rw [wrote.others _ member elsewhere]
  · have full : 100 ≤ (fs.store.heads (hashBh (fs.blockOf file pos))).size := by omega
    have same : fs.blockOf file place = fs.blockOf file pos := by
      by_contra different
      exact elsewhere (Or.inr different)
    have sameIndex : place / 4096 = pos / 4096 := by
      by_contra different
      exact (settled.alone full _ near).2 different same.symm
    rw [same, wrote.inside full _ (by omega) (by omega)]
    exact Region.copy_outside _ _ (by omega)

theorem writeThenRead_iff (settled : Untroubled fs file pos)
    (within : pos ≤ (fs.inode file.inode).iSize) (positive : 1 ≤ size) (upper : size ≤ 49152)
    (data : Region) :
    WriteThenRead fs file pos size data (ext2Write fs (ext2Seek fs file pos).2 data size) ↔
      ReadsBack fs file pos size data := by
  have target := blockOf_mem within
  have position := write_position settled data positive
  have sought := fun low short => write_sought settled low within data positive short
  generalize ext2Write fs (ext2Seek fs file pos).2 data size = result at position sought ⊢
  constructor
  · intro holds
    obtain ⟨low, short⟩ := position holds.position
    obtain ⟨_, _, sameInode, wrote⟩ := sought (by omega) short
    have long : (fs.inode file.inode).iSize + size < 4294967296 := by
      have whole := read_whole positive upper low (holds.back (fun _ => 0#8)).1
      have length := settled.length
      rw [sameInode, wrote.iSize] at whole
      unfold uint32 at whole
      omega
    refine ⟨short, low, long, ?_⟩
    by_cases full : 100 ≤ (fs.store.heads (hashBh (fs.blockOf file pos))).size
    · exact Or.inl full
    · right
      intro x inside
      have room : (fs.store.heads (hashBh (fs.blockOf file pos))).size < 100 := by omega
      have grown : pos + size ≤ (result.2.1.inode file.inode).iSize := by
        rw [wrote.iSize]
        unfold uint32
        omega
      have reads := (wrote.read settled sameInode (fun _ => 0#8) positive short (by omega)
        within grown).2 x inside
      rw [(holds.back _).2 x (by omega) (by omega), wrote.others _ target (Or.inl room),
        delivered_room room] at reads
      exact reads.symm
  · intro ⟨short, low, long, found⟩
    obtain ⟨count, moved, sameInode, wrote⟩ := sought (by omega) short
    have isSize : (result.2.1.inode file.inode).iSize = (fs.inode file.inode).iSize + size := by
      rw [wrote.iSize]
      unfold uint32
      omega
    have remainder : pos % 4096 < 4096 := Nat.mod_lt _ (by decide)
    refine ⟨count, ?_, ?_, ?_⟩
    · rw [moved, int32_of_range (by omega) (by omega)]
      rfl
    · intro buf
      obtain ⟨isCount, isData⟩ := wrote.read settled sameInode buf positive short (by omega)
        within (by rw [isSize]; omega)
      refine ⟨isCount, ?_⟩
      intro x above below
      obtain ⟨x, rfl⟩ := Int.eq_ofNat_of_zero_le above
      rw [isData x (by omega)]
      rcases found with full | holds
      · rw [wrote.inside full _ (by omega) (by omega), Region.copy_inside _ _ (by omega) (by omega)]
        congr 1
        omega
      · by_cases full : 100 ≤ (fs.store.heads (hashBh (fs.blockOf file pos))).size
        · rw [wrote.inside full _ (by omega) (by omega),
            Region.copy_inside _ _ (by omega) (by omega)]
          congr 1
          omega
        · have room : (fs.store.heads (hashBh (fs.blockOf file pos))).size < 100 := by omega
          rw [wrote.others _ target (Or.inl room), delivered_room room]
          exact holds x (by omega)
    · intro offset inFile reachable outside
      have one : offset % 4096 < 4096 := Nat.mod_lt _ (by decide)
      have near := fileBlocks_path fs file (Nat.div_le_div_right (le_of_lt inFile))
      obtain ⟨newCount, newData⟩ := wrote.read settled sameInode (fun _ => 0#8) (by decide : 0 < 1)
        (by omega) reachable (le_of_lt inFile) (by rw [isSize]; omega)
      obtain ⟨oldCount, oldData⟩ := read_sought settled.blockSize (settled.calm.mono (by decide))
        near.1 near.2 (fun _ => 0#8) (by decide : 0 < 1) (by omega) reachable (by omega)
      have new := newData 0 (by decide)
      have old := oldData 0 (by decide)
      rw [Nat.add_zero, wrote.outside settled (le_of_lt inFile) outside] at new
      rw [Nat.add_zero] at old
      rw [Int.natCast_one] at newCount oldCount new old
      rw [Int.natCast_zero] at new old
      rw [readByte_eq newCount new, readByte_eq oldCount old]

end ReadBack

private theorem sample_settled {pos : Nat} :
    Untroubled FileState.sample.fs FileState.sample.file pos := by
  refine ⟨rfl, by decide, ⟨BlockStore.zeroed_reliable, ?_, ?_⟩, ?_⟩
  · intro hash _ _ bb member
    cases member
  · intro bno ⟨index, within, found⟩
    have direct : index < 12 := by
      have last : (10000 : Nat) / 4096 = 2 := by decide
      change index ≤ 10000 / 4096 at within
      omega
    unfold walk at found
    rw [if_pos direct] at found
    rcases found with tree | isBlock
    · cases tree
    · refine ⟨?_, Or.inl (by decide : (0 : Int) + (6 : Nat) < 100)⟩
      change bno = 100 + index at isBlock
      omega
  · intro full
    change (100 : Int) ≤ 0 at full
    omega

/-- Zeros over zeros. -/
theorem writeThenRead_zeros :
    WriteThenRead FileState.sample.fs FileState.sample.file 5000 100 (fun _ => 0#8)
      (ext2Write FileState.sample.fs
        (ext2Seek FileState.sample.fs FileState.sample.file 5000).2 (fun _ => 0#8) (100 : Nat)) :=
  (writeThenRead_iff sample_settled (by decide) (by decide) (by decide) _).mpr
    ⟨by decide, by decide, by decide, Or.inr fun _ _ => rfl⟩

/-- Ones over zeros: the read shows the zeros. -/
theorem writeThenRead_lost :
    ¬ WriteThenRead FileState.sample.fs FileState.sample.file 5000 100 (fun _ => 1#8)
      (ext2Write FileState.sample.fs
        (ext2Seek FileState.sample.fs FileState.sample.file 5000).2 (fun _ => 1#8)
        (100 : Nat)) := by
  intro holds
  have first := (holds.back (fun _ => 0#8)).2 0 (by decide) (by decide)
  revert first
  decide +kernel

end MangoOS
