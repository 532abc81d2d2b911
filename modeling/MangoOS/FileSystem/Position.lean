/-
The two copies of a file's position over runs of opens, seeks, reads and writes.

`ext2_read` finds its data by `cur_block`, `ext2_write` by `pos / block_size`.
-/

import MangoOS.FileSystem.Ext2
import MangoOS.Library.Blocks

namespace MangoOS

open BlockStore

structure FileState where
  fs : FileSystem
  file : File

inductive FileOp
  | «open» (found : Option InodeRef)
  | append
  | seek (offset : Nat)
  | read (data : Region) (size : Int)
  | write (data : Region) (size : Int)
  /-- The inode's size changes through another file. -/
  | resize (iSize : Nat)

/-- The size of an inode changes. -/
def FileSystem.resize (fs : FileSystem) (ref : InodeRef) (iSize : Nat) : FileSystem :=
  fs.setInode ref { fs.inode ref with iSize := iSize }

namespace FileState

def step (s : FileState) : FileOp → FileState
  | .open found => { s with file := (ext2Open s.fs s.file found).2 }
  | .append => { s with file := sysOpenAppend s.fs s.file }
  | .seek offset => { s with file := (ext2Seek s.fs s.file offset).2 }
  | .read data size =>
      let result := ext2Read s.fs s.file data size
      { fs := result.fs, file := result.file }
  | .write data size =>
      let (_, fs, file) := ext2Write s.fs s.file data size
      { fs := fs, file := file }
  | .resize iSize => { s with fs := s.fs.resize s.file.inode iSize }

section Steps

variable (s : FileState) (data : Region) (size : Int)

theorem step_open (found : Option InodeRef) :
    s.step (.open found) = { s with file := (ext2Open s.fs s.file found).2 } := rfl

theorem step_append : s.step .append = { s with file := sysOpenAppend s.fs s.file } := rfl

theorem step_seek (offset : Nat) :
    s.step (.seek offset) = { s with file := (ext2Seek s.fs s.file offset).2 } := rfl

theorem step_read :
    s.step (.read data size) =
      { fs := (ext2Read s.fs s.file data size).fs
        file := (ext2Read s.fs s.file data size).file } := rfl

theorem step_write :
    s.step (.write data size) =
      { fs := (ext2Write s.fs s.file data size).2.1
        file := (ext2Write s.fs s.file data size).2.2 } := rfl

theorem step_resize (iSize : Nat) :
    s.step (.resize iSize) = { s with fs := s.fs.resize s.file.inode iSize } := rfl

end Steps

/-- Sizes are of type `int`. -/
def Legal : FileOp → Prop
  | .read _ size => -2147483648 ≤ size ∧ size < 2147483648
  | .write _ size => -2147483648 ≤ size ∧ size < 2147483648
  | _ => True

/-- Reading and writing start in the same block. -/
def Coherent (s : FileState) : Prop := s.file.curBlock = s.file.pos.tdiv s.fs.blockSize

instance (s : FileState) : Decidable s.Coherent :=
  inferInstanceAs (Decidable (s.file.curBlock = s.file.pos.tdiv s.fs.blockSize))

/-- A read of `n` bytes that is cut neither by its size nor by the end of file. -/
def MeetsRead (blockSize pos n : Int) : Prop :=
  n ≤ 0 ∨ (pos + n).tdiv blockSize = pos.tdiv blockSize ∨
    blockSize - pos.tmod blockSize < n ∧
      (n ≤ blockSize ∧ pos + n < 2147483648 ∨ pos + n ≤ 2147483648 - blockSize)

/-- The calls that keep the two copies together.  Appending finds the end of file in the
block of the position, a read does not stop exactly at the end of its first block, and a
write ends inside the block in which it starts. -/
def Meets (s : FileState) : FileOp → Prop
  | .open _ => True
  | .append =>
      (int32 (s.fs.inode s.file.inode).iSize).tdiv s.fs.blockSize =
        s.file.pos.tdiv s.fs.blockSize
  | .seek _ => True
  | .read _ size =>
      MeetsRead s.fs.blockSize s.file.pos
        (readSize (s.fs.inode s.file.inode).iSize s.file.pos size)
  | .write _ size =>
      size ≤ 0 ∨ (s.file.pos + size).tdiv s.fs.blockSize = s.file.pos.tdiv s.fs.blockSize
  | .resize _ => True

end FileState

/-- Runs from a successful `ext2_open` on a reliable disk, in blocks that the 8 sectors of
`read_block` do not overrun. -/
inductive FileRun (allowed : FileState → FileOp → Prop) : FileState → Prop
  | start (fs : FileSystem) (file : File) (inode : InodeRef)
      (reliable : fs.store.device.Reliable) (good : BlockSize fs.blockSize)
      (whole : 8 * sectorSize ≤ fs.blockSize) (opened : (ext2Open fs file (some inode)).1 = 0) :
      FileRun allowed { fs := fs, file := (ext2Open fs file (some inode)).2 }
  | call {s : FileState} (run : FileRun allowed s) (op : FileOp) (legal : FileState.Legal op)
      (permitted : allowed s op) : FileRun allowed (s.step op)

/-! ### Where the calls leave the file -/

variable {store : BlockStore} {blockSize : Nat}

theorem readEntry_some (reliable : store.device.Reliable) (blockSize bno offset : Nat) :
    ∃ entry after, readEntry store blockSize bno offset = (some entry, after) ∧
      after.device.Reliable := by
  obtain ⟨bb, after, reads, still⟩ := readBlock_some blockSize bno reliable
  refine ⟨(after.buffers bb).data.word offset, after, ?_, still⟩
  unfold readEntry
  rw [reads]

theorem igetBno_reliable (reliable : store.device.Reliable) (blockSize : Nat) (inode : Inode)
    (index : Nat) :
    (igetBno store blockSize inode index).2.device.Reliable := by
  unfold igetBno
  by_cases direct : index < 12
  · rw [if_pos direct]
    exact reliable
  · rw [if_neg direct]
    by_cases single : index < 1036
    · obtain ⟨_, first, reads, still⟩ :=
        readEntry_some reliable blockSize (inode.iBlock 12) (index - 12)
      rw [if_pos single, reads]
      exact still
    · rw [if_neg single]
      by_cases double : index < 1049612
      · obtain ⟨curBno, first, reads, still⟩ :=
          readEntry_some reliable blockSize (inode.iBlock 13) ((index - 1036) / 1024)
        obtain ⟨_, second, readsMore, stillMore⟩ :=
          readEntry_some still blockSize curBno ((index - 1036) % 1024)
        simp only [if_pos double, reads, readsMore]
        exact stillMore
      · obtain ⟨curBno, first, reads, still⟩ := readEntry_some reliable blockSize
          (inode.iBlock 14) ((index - 1049612) / 1048576)
        obtain ⟨nextBno, second, readsMore, stillMore⟩ := readEntry_some still blockSize
          curBno ((index - 1049612) % 1048576 / 1024)
        obtain ⟨_, third, readsLast, stillLast⟩ := readEntry_some stillMore blockSize
          nextBno ((index - 1049612) % 1048576 % 1024)
        simp only [if_neg double, reads, readsMore, readsLast]
        exact stillLast

/-- The file after `bytes` more bytes and `blocks` more blocks. -/
def File.advance (file : File) (bytes blocks : Int) : File :=
  { file with pos := int32 (file.pos + bytes), curBlock := int32 (file.curBlock + blocks) }

theorem File.advance_advance (file : File) (bytes blocks moreBytes moreBlocks : Int) :
    (file.advance bytes blocks).advance moreBytes moreBlocks =
      file.advance (bytes + moreBytes) (blocks + moreBlocks) := by
  unfold File.advance
  simp only [int32_add, Int.add_assoc]

/-- Both numbers of the file are those of a C `int`. -/
def File.InRange (file : File) : Prop :=
  int32 file.pos = file.pos ∧ int32 file.curBlock = file.curBlock

theorem File.InRange.advance_zero {file : File} (range : file.InRange) :
    file.advance 0 0 = file := by
  unfold File.advance
  rw [Int.add_zero, Int.add_zero, range.1, range.2]

theorem File.advance_inRange (file : File) (bytes blocks : Int) :
    (file.advance bytes blocks).InRange := by
  have pos := int32_add (file.pos + bytes) 0
  have cur := int32_add (file.curBlock + blocks) 0
  rw [Int.add_zero, Int.add_zero] at pos cur
  exact ⟨pos, cur⟩

section ReadLoop

variable {inode : Inode} {size rSize : Int} {file : File}

private theorem readLoop_last (reliable : store.device.Reliable) (range : file.InRange)
    (more : 0 < rSize) (data : Region) (begin pos : Int) (bno fuel : Nat)
    (fits : size ≤ blockSize - begin) :
    ∃ after moved, ext2ReadLoop inode blockSize size (fuel + 1) store file data begin bno pos
        rSize = (true, after, file.advance rSize 0, moved) ∧ after.device.Reliable := by
  obtain ⟨bb, after, reads, still⟩ := readBlock_some blockSize bno reliable
  refine ⟨after, data.copy pos (after.buffers bb).data begin rSize, ?_, still⟩
  rw [ext2ReadLoop, if_pos more]
  simp only [reads]
  rw [if_pos fits, File.advance, Int.add_zero, range.2]

private theorem readLoop_next (reliable : store.device.Reliable) (more : 0 < rSize)
    (inode : Inode) (file : File) (data : Region) (begin pos : Int) (bno fuel : Nat)
    (far : ¬ size ≤ blockSize - begin) :
    ∃ after moved next, after.device.Reliable ∧
      ext2ReadLoop inode blockSize size (fuel + 1) store file data begin bno pos rSize =
        ext2ReadLoop inode blockSize size fuel after (file.advance (blockSize - begin) 1) moved
          0 next (pos + (blockSize - begin)) (rSize - (blockSize - begin)) := by
  obtain ⟨bb, middle, reads, still⟩ := readBlock_some blockSize bno reliable
  have kept := igetBno_reliable still blockSize inode (uint32 (int32 (file.curBlock + 1)))
  refine ⟨(igetBno middle blockSize inode (uint32 (int32 (file.curBlock + 1)))).2,
    data.copy pos (middle.buffers bb).data begin (blockSize - begin),
    (igetBno middle blockSize inode (uint32 (int32 (file.curBlock + 1)))).1, kept, ?_⟩
  rw [ext2ReadLoop, if_pos more]
  simp only [reads]
  rw [if_neg far]
  rfl

/-- A read of more than a block's size only takes whole blocks after its first round. -/
private theorem readLoop_whole (inode : Inode) (positive : 0 < blockSize)
    (large : (blockSize : Int) < size) (fuel : Nat) (store : BlockStore) (file : File)
    (data : Region) (bno : Nat) (pos rSize : Int) (reliable : store.device.Reliable)
    (range : file.InRange) (enough : rSize ≤ fuel) :
    ∃ count after moved, ext2ReadLoop inode blockSize size fuel store file data 0 bno pos rSize =
        (true, after, file.advance (count * blockSize) count, moved) ∧
      after.device.Reliable ∧ 0 ≤ count ∧ rSize ≤ count * blockSize ∧
      (count = 0 ∨ count * blockSize - blockSize < rSize) := by
  induction fuel generalizing store file data bno pos rSize with
  | zero =>
      refine ⟨0, store, data, ?_, reliable, Int.le_refl 0, ?_, Or.inl rfl⟩
      · rw [ext2ReadLoop, Int.zero_mul, range.advance_zero]
      · rw [Int.zero_mul]
        exact enough
  | succ fuel ih =>
      by_cases more : 0 < rSize
      · have far : ¬ size ≤ (blockSize : Int) - 0 := by omega
        obtain ⟨after, moved, next, still, round⟩ :=
          readLoop_next reliable more inode file data 0 pos bno fuel far
        obtain ⟨count, last, rest, loop, kept, nonneg, covers, least⟩ :=
          ih after (file.advance (blockSize - 0) 1) moved next (pos + (blockSize - 0))
            (rSize - (blockSize - 0)) still (file.advance_inRange _ _) (by omega)
        have scaled : (1 + count) * (blockSize : Int) = blockSize - 0 + count * blockSize := by
          rw [Int.add_mul, Int.one_mul, Int.sub_zero]
        refine ⟨1 + count, last, rest, ?_, kept, by omega, by omega, ?_⟩
        · rw [round, loop, File.advance_advance, scaled]
        · right
          rcases least with isZero | least
          · subst isZero
            rw [Int.zero_mul] at scaled
            omega
          · omega
      · refine ⟨0, store, data, ?_, reliable, Int.le_refl 0, ?_, Or.inl rfl⟩
        · rw [ext2ReadLoop, if_neg more, Int.zero_mul, range.advance_zero]
        · rw [Int.zero_mul]
          omega

end ReadLoop

/-- Where `ext2_read` leaves the position, `n` being the size it reads. -/
inductive ReadMove (file : File) (blockSize n : Int) : File → Prop
  | none (empty : n ≤ 0) : ReadMove file blockSize n file
  | inside (some : 0 < n) (fits : n ≤ blockSize - file.pos.tmod blockSize) :
      ReadMove file blockSize n (file.advance n 0)
  | across (far : blockSize - file.pos.tmod blockSize < n) (fits : n ≤ blockSize) :
      ReadMove file blockSize n (file.advance n 1)
  | whole (count : Int) (far : blockSize - file.pos.tmod blockSize < n) (large : blockSize < n)
      (nonneg : 0 ≤ count) (covers : n - (blockSize - file.pos.tmod blockSize) ≤ count * blockSize)
      (least : count * blockSize - blockSize < n - (blockSize - file.pos.tmod blockSize)) :
      ReadMove file blockSize n
        (file.advance (blockSize - file.pos.tmod blockSize + count * blockSize) (1 + count))

theorem ext2Read_move (fs : FileSystem) (file : File) (data : Region) (size : Int)
    (reliable : fs.store.device.Reliable) (range : file.InRange) (positive : 0 < fs.blockSize) :
    ReadMove file fs.blockSize (readSize (fs.inode file.inode).iSize file.pos size)
        (ext2Read fs file data size).file ∧
      ∃ store, (ext2Read fs file data size).fs = fs.setStore store ∧ store.device.Reliable := by
  generalize isSize : readSize (fs.inode file.inode).iSize file.pos size = n
  obtain ⟨⟨bno, found⟩, isBno⟩ : ∃ result, igetBno fs.store fs.blockSize (fs.inode file.inode)
      (uint32 file.curBlock) = result := ⟨_, rfl⟩
  have reliableFound : found.device.Reliable := by
    have still := igetBno_reliable reliable fs.blockSize (fs.inode file.inode)
      (uint32 file.curBlock)
    rw [isBno] at still
    exact still
  have offset := Int.tmod_lt_of_pos file.pos (by omega : (0 : Int) < fs.blockSize)
  by_cases empty : n ≤ 0
  · have noFuel : n.toNat = 0 := by omega
    rw [ext2Read_eq isSize isBno (by rw [noFuel, ext2ReadLoop])]
    exact ⟨ReadMove.none empty, found, rfl, reliableFound⟩
  · have more : 0 < n := by omega
    obtain ⟨fuel, isFuel⟩ : ∃ fuel, n.toNat = fuel + 1 := ⟨n.toNat - 1, by omega⟩
    by_cases fits : n ≤ fs.blockSize - file.pos.tmod fs.blockSize
    · obtain ⟨after, moved, loop, still⟩ :=
        readLoop_last reliableFound range more data _ 0 bno fuel fits
      rw [← isFuel] at loop
      rw [ext2Read_eq isSize isBno loop]
      exact ⟨ReadMove.inside more fits, after, rfl, still⟩
    · obtain ⟨middle, moved, next, still, round⟩ :=
        readLoop_next reliableFound more (fs.inode file.inode) file data _ 0 bno fuel fits
      rw [← isFuel] at round
      have inRange := file.advance_inRange (fs.blockSize - file.pos.tmod fs.blockSize) 1
      by_cases large : (fs.blockSize : Int) < n
      · obtain ⟨count, after, rest, loop, kept, nonneg, covers, least⟩ :=
          readLoop_whole (fs.inode file.inode) positive large fuel middle _ moved next _
            (n - (fs.blockSize - file.pos.tmod fs.blockSize)) still inRange (by omega)
        rw [ext2Read_eq isSize isBno (round.trans loop), File.advance_advance]
        refine ⟨ReadMove.whole count (by omega) large nonneg covers ?_, after, rfl, kept⟩
        rcases least with isZero | least
        · rw [isZero, Int.zero_mul] at covers
          omega
        · exact least
      · have rest : 0 < n - (fs.blockSize - file.pos.tmod fs.blockSize) := by omega
        have fitsNext : n ≤ (fs.blockSize : Int) - 0 := by omega
        obtain ⟨left, isLeft⟩ : ∃ left, fuel = left + 1 := ⟨fuel - 1, by omega⟩
        obtain ⟨after, filled, loop, kept⟩ :=
          readLoop_last still inRange rest moved 0
            (0 + (fs.blockSize - file.pos.tmod fs.blockSize)) next left fitsNext
        have total : (fs.blockSize : Int) - file.pos.tmod fs.blockSize +
            (n - (fs.blockSize - file.pos.tmod fs.blockSize)) = n := by omega
        rw [← isLeft] at loop
        rw [ext2Read_eq isSize isBno (round.trans loop), File.advance_advance, total]
        exact ⟨ReadMove.across (by omega) (by omega), after, rfl, kept⟩

/-! ### When the two copies stay together -/

section Together

variable {file after : File} {size n : Int}

theorem readSize_bounds (iSize : Nat) (pos : Int) (lower : -2147483648 ≤ size) :
    -2147483648 ≤ readSize iSize pos size ∧ readSize iSize pos size < 2147483648 := by
  have bounds := int32_bounds ((iSize : Int) - pos)
  unfold readSize
  dsimp only
  split <;> split <;> omega

private theorem whole_iff (good : BlockSize size) (range : file.InRange) {count : Int}
    (together : file.curBlock = file.pos.tdiv size) (small : n < 2147483648)
    (far : size - file.pos.tmod size < n) (large : size < n) (nonneg : 0 ≤ count)
    (covers : n - (size - file.pos.tmod size) ≤ count * size)
    (least : count * size - size < n - (size - file.pos.tmod size)) :
    int32 (file.curBlock + (1 + count)) =
        (int32 (file.pos + (size - file.pos.tmod size + count * size))).tdiv size ↔
      FileState.MeetsRead size file.pos n := by
  have positive := good.positive
  have most := good.most
  have bounds := int32_bounds file.pos
  rw [range.1] at bounds
  obtain ⟨edge, otherBlock⟩ := good.block_end far
  obtain ⟨total, whole⟩ := good.divides
  have sum : (file.pos.tdiv size + (1 + count)) * size =
      (file.pos.tdiv size + 1) * size + count * size := by
    rw [← Int.add_mul, Int.add_assoc]
  have twice : 2 * total * size = 4294967296 := by
    rw [Int.mul_assoc, whole]
    rfl
  have limit : (file.pos.tdiv size + (1 + count)) * size ≤ 2 * total * size := by
    have below : file.pos.tdiv size + count < 2 * total := by
      apply Int.lt_of_mul_lt_mul_right _ (Int.le_of_lt positive)
      have part : (file.pos.tdiv size + count) * size =
          (file.pos.tdiv size + 1) * size + count * size - size := by
        rw [Int.add_mul, Int.add_mul, Int.one_mul]
        omega
      omega
    exact Int.mul_le_mul_of_nonneg_right (by omega) (Int.le_of_lt positive)
  have total_move : file.pos + (size - file.pos.tmod size + count * size) =
      (file.pos.tdiv size + (1 + count)) * size := by omega
  have whole_count : 0 ≤ count * size := Int.mul_nonneg nonneg (Int.le_of_lt positive)
  rw [together, good.far_move _ _ (by omega) (by omega) (by omega) (by omega)
    (Or.inr total_move.symm)]
  constructor
  · intro fits
    have below : file.pos.tdiv size + (1 + count) < total := by
      apply Int.lt_of_mul_lt_mul_right _ (Int.le_of_lt positive)
      omega
    have scaled : (file.pos.tdiv size + (1 + count) + 1) * size ≤ total * size :=
      Int.mul_le_mul_of_nonneg_right (by omega) (Int.le_of_lt positive)
    rw [Int.add_mul, Int.one_mul] at scaled
    exact Or.inr (Or.inr ⟨far, Or.inr (by omega)⟩)
  · rintro (empty | sameBlock | ⟨_, fits⟩)
    · omega
    · exact False.elim (otherBlock sameBlock)
    · omega

private theorem across_iff (good : BlockSize size) (range : file.InRange)
    (together : file.curBlock = file.pos.tdiv size)
    (far : size - file.pos.tmod size < n) (fits : n ≤ size) :
    int32 (file.curBlock + 1) = (int32 (file.pos + n)).tdiv size ↔
      FileState.MeetsRead size file.pos n := by
  have positive := good.positive
  have most := good.most
  have bounds := int32_bounds file.pos
  rw [range.1] at bounds
  obtain ⟨edge, otherBlock⟩ := good.block_end far
  have offset := Int.tmod_lt_of_pos file.pos positive
  have place := (tdiv_eq_iff positive).mp (rfl : file.pos.tdiv size = file.pos.tdiv size)
  have part := tmod_eq_sub file.pos size
  rw [together, good.far_move _ _ (by omega) (by omega) (by omega) (by omega) (by omega)]
  constructor
  · intro below
    exact Or.inr (Or.inr ⟨far, Or.inl ⟨fits, below⟩⟩)
  · rintro (empty | sameBlock | ⟨_, below⟩)
    · omega
    · exact False.elim (otherBlock sameBlock)
    · omega

theorem ReadMove.together_iff (move : ReadMove file size n after) (good : BlockSize size)
    (range : file.InRange) (small : n < 2147483648)
    (together : file.curBlock = file.pos.tdiv size) :
    after.curBlock = after.pos.tdiv size ↔ FileState.MeetsRead size file.pos n := by
  have bounds := int32_bounds file.pos
  rw [range.1] at bounds
  cases move with
  | none empty => exact ⟨fun _ => Or.inl empty, fun _ => together⟩
  | inside some fits =>
      change int32 (file.curBlock + 0) = (int32 (file.pos + n)).tdiv size ↔ _
      rw [Int.add_zero, range.2, together, eq_comm,
        good.short_move bounds.1 bounds.2 some fits]
      constructor
      · intro sameBlock
        exact Or.inr (Or.inl sameBlock)
      · rintro (empty | sameBlock | ⟨far, _⟩)
        · omega
        · exact sameBlock
        · omega
  | across far fits => exact across_iff good range together far fits
  | whole count far large nonneg covers least =>
      exact whole_iff good range together small far large nonneg covers least

/-- A write only moves `pos`, at most to the end of its block. -/
theorem write_together_iff (good : BlockSize size) (range : file.InRange)
    (together : file.curBlock = file.pos.tdiv size) (some : 0 < n) :
    file.curBlock =
        (int32 (file.pos + if n ≤ size - file.pos.tmod size then n
          else size - file.pos.tmod size)).tdiv size ↔
      (file.pos + n).tdiv size = file.pos.tdiv size := by
  have bounds := int32_bounds file.pos
  rw [range.1] at bounds
  have offset := Int.tmod_lt_of_pos file.pos good.positive
  by_cases fits : n ≤ size - file.pos.tmod size
  · rw [if_pos fits, together, eq_comm, good.short_move bounds.1 bounds.2 some fits]
  · obtain ⟨edge, otherBlock⟩ := good.block_end (Int.not_le.mp fits)
    rw [if_neg fits, together, eq_comm,
      good.short_move bounds.1 bounds.2 (by omega) (Int.le_refl _), edge]
    constructor
    · intro same
      rw [Int.mul_tdiv_cancel _ (by have positive := good.positive; omega)] at same
      omega
    · intro same
      exact False.elim (otherBlock same)

end Together

theorem ext2Write_move (fs : FileSystem) (file : File) (data : Region) (size : Int)
    (reliable : fs.store.device.Reliable) :
    (ext2Write fs file data size).2.2 =
        (if 0 < size then
          { file with
            pos := int32 (file.pos + if size ≤ fs.blockSize - file.pos.tmod fs.blockSize then size
              else fs.blockSize - file.pos.tmod fs.blockSize) }
        else file) ∧
      (ext2Write fs file data size).2.1.blockSize = fs.blockSize ∧
      (ext2Write fs file data size).2.1.store.device.Reliable := by
  obtain ⟨⟨bno, found⟩, isBno⟩ : ∃ result, igetBno fs.store fs.blockSize (fs.inode file.inode)
      (uint32 (file.pos.tdiv fs.blockSize)) = result := ⟨_, rfl⟩
  have reliableFound : found.device.Reliable := by
    have still := igetBno_reliable reliable fs.blockSize (fs.inode file.inode)
      (uint32 (file.pos.tdiv fs.blockSize))
    rw [isBno] at still
    exact still
  obtain ⟨bb, after, reads, still⟩ := readBlock_some fs.blockSize bno reliableFound
  by_cases some : 0 < size
  · simp only [ext2Write, isBno, reads, gt_iff_lt, if_pos some]
    exact ⟨trivial, rfl, still⟩
  · simp only [ext2Write, isBno, gt_iff_lt, if_neg some]
    exact ⟨trivial, rfl, reliableFound⟩

/-! ### Steps and runs -/

/-- What every run keeps: the disk, the block size and numbers a C `int` can hold. -/
structure FileState.Sound (s : FileState) : Prop where
  reliable : s.fs.store.device.Reliable
  good : BlockSize s.fs.blockSize
  range : s.file.InRange

variable {s : FileState}

theorem FileState.Sound.positive (sound : s.Sound) : 0 < s.fs.blockSize := by
  have positive := sound.good.positive
  omega

private theorem tdiv_inRange {size : Int} (good : BlockSize size) (pos : Int) :
    int32 ((int32 pos).tdiv size) = (int32 pos).tdiv size := by
  have bounds := int32_bounds pos
  have least := good.least
  have quotient : ((int32 pos).tdiv size).natAbs = (int32 pos).natAbs / size.natAbs :=
    Int.natAbs_tdiv (int32 pos) size
  by_cases zero : int32 pos = 0
  · rw [zero, Int.zero_tdiv]
    exact int32_of_range (by decide) (by decide)
  · have smaller := Nat.div_lt_self (n := (int32 pos).natAbs) (k := size.natAbs)
      (by omega) (by omega)
    apply int32_of_range
    · omega
    · omega

/-- What a successful `ext2_open` leaves. -/
private def File.opened (file : File) (inode : InodeRef) : File :=
  { file with inode := inode, pos := 0, startBlock := 0, curBlock := 0 }

private theorem ext2Open_cases (fs : FileSystem) (file : File) (found : Option InodeRef) :
    (ext2Open fs file found).1 ≠ 0 ∧ (ext2Open fs file found).2 = file ∨
      ∃ inode, (ext2Open fs file found).2 = file.opened inode := by
  cases found with
  | none =>
      left
      simp [ext2Open, enotexist]
  | some inode =>
      by_cases isDir : sIsDir (fs.inode inode).iMode = true
      · left
        simp [ext2Open, isDir, enotexist]
      · right
        refine ⟨inode, ?_⟩
        simp [ext2Open, isDir, File.opened]

private theorem FileState.Sound.setFile (sound : s.Sound) {file : File}
    (range : file.InRange) : FileState.Sound { s with file := file } :=
  ⟨sound.reliable, sound.good, range⟩

private theorem ReadMove.inRange {file after : File} {size n : Int} (range : file.InRange)
    (move : ReadMove file size n after) : after.InRange := by
  cases move with
  | none empty => exact range
  | inside some fits => exact file.advance_inRange _ _
  | across far fits => exact file.advance_inRange _ _
  | whole count far large nonneg covers least => exact file.advance_inRange _ _

/-- Every call, whether it keeps the copies together or not, keeps the rest in order. -/
theorem FileState.Sound.step (sound : s.Sound) (op : FileOp) : (s.step op).Sound := by
  cases op with
  | «open» found =>
      apply sound.setFile
      rcases ext2Open_cases s.fs s.file found with ⟨_, same⟩ | ⟨inode, opened⟩
      · rw [same]
        exact sound.range
      · rw [opened]
        have zero : int32 0 = 0 := int32_of_range (by decide) (by decide)
        exact ⟨zero, zero⟩
  | append =>
      apply sound.setFile
      unfold sysOpenAppend
      exact ⟨int32_int32 _, sound.range.2⟩
  | seek offset =>
      apply sound.setFile
      unfold ext2Seek
      exact ⟨int32_int32 _, tdiv_inRange sound.good _⟩
  | read data size =>
      obtain ⟨move, store, isFs, still⟩ :=
        ext2Read_move s.fs s.file data size sound.reliable sound.range sound.positive
      rw [step_read, isFs]
      exact ⟨still, sound.good, move.inRange sound.range⟩
  | write data size =>
      obtain ⟨isFile, sameSize, still⟩ := ext2Write_move s.fs s.file data size sound.reliable
      rw [step_write]
      refine ⟨still, ?_, ?_⟩
      · rw [sameSize]
        exact sound.good
      · rw [isFile]
        by_cases some : 0 < size
        · rw [if_pos some]
          exact ⟨int32_int32 _, sound.range.2⟩
        · rw [if_neg some]
          exact sound.range
  | resize iSize => exact ⟨sound.reliable, sound.good, sound.range⟩

/-- From a state in which the copies agree, a call leaves them so exactly if it meets the
condition. -/
theorem FileState.Sound.step_iff (sound : s.Sound) (coherent : s.Coherent) {op : FileOp}
    (legal : FileState.Legal op) : (s.step op).Coherent ↔ s.Meets op := by
  have together : s.file.curBlock = s.file.pos.tdiv s.fs.blockSize := coherent
  cases op with
  | «open» found =>
      refine ⟨fun _ => trivial, fun _ => ?_⟩
      rw [step_open]
      rcases ext2Open_cases s.fs s.file found with ⟨_, same⟩ | ⟨inode, opened⟩
      · rw [same]
        exact coherent
      · rw [opened]
        simp [FileState.Coherent, File.opened]
  | append =>
      rw [step_append]
      simp only [FileState.Coherent, FileState.Meets, sysOpenAppend, together]
      exact eq_comm
  | seek offset =>
      rw [step_seek]
      simp [FileState.Coherent, FileState.Meets, ext2Seek]
  | read data size =>
      obtain ⟨move, store, isFs, _⟩ :=
        ext2Read_move s.fs s.file data size sound.reliable sound.range sound.positive
      have small := (readSize_bounds (s.fs.inode s.file.inode).iSize s.file.pos legal.1).2
      rw [step_read, isFs]
      exact move.together_iff sound.good sound.range small together
  | write data size =>
      obtain ⟨isFile, sameSize, _⟩ := ext2Write_move s.fs s.file data size sound.reliable
      rw [step_write, FileState.Coherent, isFile, sameSize]
      by_cases some : 0 < size
      · rw [if_pos some]
        have stays := write_together_iff sound.good sound.range together some
        simp only [stays, FileState.Meets]
        omega
      · rw [if_neg some]
        exact ⟨fun _ => Or.inl (by omega), fun _ => together⟩
  | resize iSize =>
      rw [step_resize]
      exact ⟨fun _ => trivial, fun _ => coherent⟩

theorem FileRun.invariant (run : FileRun FileState.Meets s) : s.Sound ∧ s.Coherent := by
  induction run with
  | start fs file inode reliable good _ opened =>
      rcases ext2Open_cases fs file (some inode) with ⟨failed, _⟩ | ⟨inode, isFile⟩
      · exact False.elim (failed opened)
      · rw [isFile]
        have zero : int32 0 = 0 := int32_of_range (by decide) (by decide)
        exact ⟨⟨reliable, good, zero, zero⟩, (Int.zero_tdiv _).symm⟩
  | call run op legal permitted ih =>
      obtain ⟨sound, coherent⟩ := ih
      exact ⟨sound.step op, (sound.step_iff coherent legal).mpr permitted⟩

/-- The two copies agree in every state of every run whose calls meet the condition, and
the next call leaves them so exactly if it meets it too. -/
theorem run_positions (run : FileRun FileState.Meets s) :
    s.Coherent ∧ ∀ op, FileState.Legal op → ((s.step op).Coherent ↔ s.Meets op) := by
  obtain ⟨sound, coherent⟩ := run.invariant
  exact ⟨coherent, fun op legal => sound.step_iff coherent legal⟩

/-- A file of 10000 bytes that has just been opened. -/
def FileState.sample : FileState where
  fs := FileSystem.sample 10000
  file :=
    { pos := 0
      mode := 0
      startBlock := 0
      curBlock := 0
      ino := 12
      inode := { group := 0, slot := 11 }
      ref := 1 }

private theorem sample_run (allowed : FileState → FileOp → Prop) :
    FileRun allowed FileState.sample :=
  FileRun.start FileState.sample.fs FileState.sample.file { group := 0, slot := 11 }
    BlockStore.zeroed_reliable ⟨by decide, by decide, 524288, by decide⟩ (by decide) (by decide)

/-- 100 bytes written in the second block. -/
theorem run_positions_written :
    ∃ s, s = (FileState.sample.step (.seek 5000)).step (.write (fun _ => 1#8) 100) ∧
      s.file.pos = 5100 ∧ s.file.curBlock = 1 ∧
      s.Coherent ∧ ∀ op, FileState.Legal op → ((s.step op).Coherent ↔ s.Meets op) := by
  have sought := (sample_run FileState.Meets).call (.seek 5000) trivial trivial
  have meets : (FileState.sample.step (.seek 5000)).Meets (.write (fun _ => 1#8) 100) := by
    right
    decide +kernel
  have written := sought.call (.write (fun _ => 1#8) 100) ⟨by decide, by decide⟩ meets
  exact ⟨_, rfl, by decide +kernel, by decide +kernel, run_positions written⟩

/-- Opened with `O_APPEND`, the file is at its end in `pos` and at its start in
`cur_block`. -/
theorem positions_append :
    FileRun (fun _ _ => True) (FileState.sample.step .append) ∧
      (FileState.sample.step .append).file.pos = 10000 ∧
      (FileState.sample.step .append).file.curBlock = 0 ∧
      ¬ (FileState.sample.step .append).Coherent :=
  ⟨(sample_run _).call .append trivial trivial, by decide +kernel, by decide +kernel,
    by decide +kernel⟩

end MangoOS
