/-
The size of a file over sequences of seeks and writes.

`ext2_write` adds every size it writes to `i_size`, also where it writes over bytes the
file has already.
-/

import MangoOS.FileSystem.Position

namespace MangoOS

namespace FileState

/-- `i_size` of the file's inode. -/
def iSize (s : FileState) : Nat := (s.fs.inode s.file.inode).iSize

/-- `read_block` delivers the block in which the position lies. -/
def Readable (s : FileState) : Prop :=
  let (bno, store) := igetBno s.fs.store s.fs.blockSize (s.fs.inode s.file.inode)
    (uint32 (s.file.pos.tdiv s.fs.blockSize))
  (store.readBlock s.fs.blockSize bno).1 ≠ none

/-- The ends of the writes that returned their size, the last one first. -/
def endsAfter (s : FileState) (data : Region) (size : Int) (ends : List Int) : List Int :=
  if (ext2Write s.fs s.file data size).1 = size then (s.file.pos + size) :: ends else ends

/-- The write starts at the end of the file, has no bytes to write or finds no block to
write them to. -/
def Appends (s : FileState) (size : Int) : Prop :=
  size = 0 ∨ 0 < size ∧ (s.Readable → s.file.pos = s.iSize)

end FileState

/-- Sequences of calls of `ext2_seek` and `ext2_write` on one file, every write at a position
that is not behind the end of the file, in blocks that the 8 sectors of `read_block` do not
overrun. -/
inductive SizeRun (allowed : FileState → Int → Prop) (start : FileState) :
    FileState → List Int → Prop
  | start (whole : 8 * sectorSize ≤ start.fs.blockSize) : SizeRun allowed start start []
  | seek {s : FileState} {ends : List Int} (run : SizeRun allowed start s ends) (offset : Nat)
      (legal : offset < 4294967296) : SizeRun allowed start (s.step (.seek offset)) ends
  | write {s : FileState} {ends : List Int} (run : SizeRun allowed start s ends) (data : Region)
      (size : Int) (legal : -2147483648 ≤ size ∧ size < 2147483648)
      (within : s.file.pos ≤ s.iSize) (permitted : allowed s size) :
      SizeRun allowed start (s.step (.write data size)) (s.endsAfter data size ends)

/-- The larger of the first size and the ends of the writes. -/
def furthest (first : Nat) (ends : List Int) : Int := ends.foldr max first

section Steps

variable (s : FileState) (data : Region) {size : Int}

theorem step_seek_iSize (offset : Nat) : (s.step (.seek offset)).iSize = s.iSize := by
  rw [FileState.step_seek]
  simp only [FileState.iSize, seek_inode]

theorem ext2Write_unreadable (some : 0 < size) (unreadable : ¬ s.Readable) :
    ∃ store, ext2Write s.fs s.file data size = (0, s.fs.setStore store, s.file) := by
  obtain ⟨⟨bno, found⟩, isBno⟩ : ∃ result, igetBno s.fs.store s.fs.blockSize
      (s.fs.inode s.file.inode) (uint32 (s.file.pos.tdiv s.fs.blockSize)) = result := ⟨_, rfl⟩
  obtain ⟨⟨read, store⟩, reads⟩ : ∃ result, found.readBlock s.fs.blockSize bno = result :=
    ⟨_, rfl⟩
  have isNone : read = none := by
    simpa only [FileState.Readable, isBno, reads, ne_eq, not_not] using unreadable
  rw [isNone] at reads
  exact ⟨store, by simp only [ext2Write, isBno, reads, gt_iff_lt, if_pos some]⟩

/-- What is written adds to the size, wherever it is written. -/
theorem ext2Write_grows (found : 0 < size → s.Readable) :
    ∃ fs file, ext2Write s.fs s.file data size = (size, ext2WriteSize fs file size, file) ∧
      fs.inode = s.fs.inode ∧ file.inode = s.file.inode ∧
      (file.pos = s.file.pos ∨ file.pos < 2147483648) := by
  obtain ⟨⟨bno, middle⟩, isBno⟩ : ∃ result, igetBno s.fs.store s.fs.blockSize
      (s.fs.inode s.file.inode) (uint32 (s.file.pos.tdiv s.fs.blockSize)) = result := ⟨_, rfl⟩
  obtain ⟨⟨read, store⟩, reads⟩ : ∃ result, middle.readBlock s.fs.blockSize bno = result :=
    ⟨_, rfl⟩
  by_cases some : 0 < size
  · have isSome : read ≠ none := by
      simpa only [FileState.Readable, isBno, reads] using found some
    obtain ⟨bb, isBuffer⟩ := Option.ne_none_iff_exists'.mp isSome
    rw [isBuffer] at reads
    let begin := s.file.pos.tmod s.fs.blockSize
    let count := if size ≤ s.fs.blockSize - begin then size else s.fs.blockSize - begin
    let written := store.setBuffer bb
      { store.buffers bb with data := (store.buffers bb).data.copy begin data 0 count }
    refine ⟨(s.fs.setStore written).markDirty bb,
      { s.file with pos := int32 (s.file.pos + count) }, ?_, rfl, rfl,
      Or.inr (int32_bounds (s.file.pos + count)).2⟩
    simp only [ext2Write, isBno, reads, gt_iff_lt, if_pos some, written, count, begin]
  · refine ⟨s.fs.setStore middle, s.file, ?_, rfl, rfl, Or.inl rfl⟩
    simp only [ext2Write, isBno, gt_iff_lt, if_neg some]

theorem endsAfter_grows (found : 0 < size → s.Readable) (ends : List Int) :
    s.endsAfter data size ends = (s.file.pos + size) :: ends ∧
      (s.step (.write data size)).iSize = uint32 (s.iSize + size) := by
  obtain ⟨fs, file, wrote, sameInode, sameRef, _⟩ := ext2Write_grows s data found
  refine ⟨?_, ?_⟩
  · rw [FileState.endsAfter, wrote]
    exact if_pos rfl
  · rw [FileState.step_write, wrote]
    change ((FileSystem.setInode _ file.inode _).inode file.inode).iSize = _
    rw [FileSystem.inode_setInode]
    change uint32 ((fs.inode file.inode).iSize + size) = _
    rw [sameInode, sameRef]
    rfl

theorem endsAfter_unreadable (some : 0 < size) (unreadable : ¬ s.Readable) (ends : List Int) :
    s.endsAfter data size ends = ends ∧ (s.step (.write data size)).iSize = s.iSize := by
  obtain ⟨store, failed⟩ := ext2Write_unreadable s data some unreadable
  refine ⟨?_, ?_⟩
  · rw [FileState.endsAfter, failed]
    exact if_neg (by omega)
  · rw [FileState.step_write, failed]
    rfl

/-- A write that fails leaves the size and the position alone. -/
theorem step_write_failed (some : size ≠ 0) (failed : (ext2Write s.fs s.file data size).1 = 0) :
    (s.step (.write data size)).iSize = s.iSize ∧
      (s.step (.write data size)).file.pos = s.file.pos := by
  by_cases found : 0 < size → s.Readable
  · obtain ⟨fs, file, wrote, _⟩ := ext2Write_grows s data found
    rw [wrote] at failed
    exact False.elim (some failed)
  · rw [Classical.not_imp] at found
    obtain ⟨store, unwritten⟩ := ext2Write_unreadable s data found.1 found.2
    rw [FileState.step_write, unwritten]
    exact ⟨rfl, rfl⟩

theorem step_write_pos (size : Int) (range : s.file.pos < 2147483648) :
    (s.step (.write data size)).file.pos < 2147483648 := by
  rw [FileState.step_write]
  by_cases found : 0 < size → s.Readable
  · obtain ⟨fs, file, wrote, _, _, moved⟩ := ext2Write_grows s data found
    rw [wrote]
    rcases moved with same | below
    · rw [same]
      exact range
    · exact below
  · rw [Classical.not_imp] at found
    obtain ⟨store, unwritten⟩ := ext2Write_unreadable s data found.1 found.2
    rw [unwritten]
    exact range

end Steps

section Law

variable {start s : FileState} {ends : List Int} {size : Int}

/-- In a state in which the law holds, a write keeps it exactly if it appends. -/
theorem write_law_iff (law : (s.iSize : Int) = furthest start.iSize ends)
    (word : s.iSize < 4294967296) (range : s.file.pos < 2147483648)
    (legal : -2147483648 ≤ size ∧ size < 2147483648) (within : s.file.pos ≤ s.iSize)
    (data : Region) :
    ((s.step (.write data size)).iSize : Int) =
        furthest start.iSize (s.endsAfter data size ends) ↔
      s.Appends size := by
  by_cases found : 0 < size → s.Readable
  · obtain ⟨isEnds, isSize⟩ := endsAfter_grows s data found ends
    have most : furthest start.iSize ((s.file.pos + size) :: ends) =
        max (s.file.pos + size) s.iSize := by
      rw [law]
      rfl
    rw [isEnds, isSize, most]
    unfold FileState.Appends uint32
    constructor
    · intro same
      by_cases empty : size = 0
      · exact Or.inl empty
      · exact Or.inr ⟨by omega, fun _ => by omega⟩
    · rintro (empty | ⟨some, atEnd⟩)
      · omega
      · have same := atEnd (found some)
        omega
  · rw [Classical.not_imp] at found
    obtain ⟨isEnds, isSize⟩ := endsAfter_unreadable s data found.1 found.2 ends
    rw [isEnds, isSize]
    exact ⟨fun _ => Or.inr ⟨found.1, fun readable => absurd readable found.2⟩, fun _ => law⟩

theorem SizeRun.position {allowed : FileState → Int → Prop} (run : SizeRun allowed start s ends)
    (range : start.file.pos < 2147483648) : s.file.pos < 2147483648 := by
  induction run with
  | start => exact range
  | seek run offset legal ih =>
      rw [FileState.step_seek, ext2Seek_snd]
      exact (int32_bounds _).2
  | write run data size legal within permitted ih => exact step_write_pos _ data size ih

theorem SizeRun.word {allowed : FileState → Int → Prop} (run : SizeRun allowed start s ends)
    (word : start.iSize < 4294967296) : s.iSize < 4294967296 := by
  induction run with
  | start => exact word
  | seek run offset legal ih =>
      rw [step_seek_iSize]
      exact ih
  | @write s ends run data size legal within permitted ih =>
      by_cases found : 0 < size → s.Readable
      · rw [(endsAfter_grows s data found ends).2]
        unfold uint32
        omega
      · rw [Classical.not_imp] at found
        rw [(endsAfter_unreadable s data found.1 found.2 ends).2]
        exact ih

theorem SizeRun.law (run : SizeRun FileState.Appends start s ends)
    (word : start.iSize < 4294967296) (range : start.file.pos < 2147483648) :
    (s.iSize : Int) = furthest start.iSize ends := by
  induction run with
  | start => rfl
  | seek run offset legal ih =>
      rw [step_seek_iSize]
      exact ih
  | write run data size legal within permitted ih =>
      exact (write_law_iff ih (run.word word) (run.position range) legal within data).mpr permitted

/-- In every run whose writes append, the size is the larger of the first size and the ends
of the writes, and the next write leaves it so exactly if it appends too.  A write that
fails never changes the size or the position. -/
theorem run_size (run : SizeRun FileState.Appends start s ends)
    (word : start.iSize < 4294967296) (range : start.file.pos < 2147483648) :
    (s.iSize : Int) = furthest start.iSize ends ∧
      (∀ data size, -2147483648 ≤ size ∧ size < 2147483648 → s.file.pos ≤ s.iSize →
        (((s.step (.write data size)).iSize : Int) =
            furthest start.iSize (s.endsAfter data size ends) ↔ s.Appends size)) ∧
      ∀ (t : FileState) (data : Region) (size : Int), size ≠ 0 →
        (ext2Write t.fs t.file data size).1 = 0 →
        (t.step (.write data size)).iSize = t.iSize ∧
          (t.step (.write data size)).file.pos = t.file.pos := by
  have law := run.law word range
  refine ⟨law, ?_, ?_⟩
  · intro data size legal within
    exact write_law_iff law (run.word word) (run.position range) legal within data
  · intro t data size some failed
    exact step_write_failed t data some failed

/-- 100 bytes at the end of a file of 10000 bytes. -/
theorem run_size_appended :
    ∃ s, s = (FileState.sample.step (.seek 10000)).step (.write (fun _ => 1#8) 100) ∧
      (s.iSize : Int) = furthest FileState.sample.iSize
        ((FileState.sample.step (.seek 10000)).endsAfter (fun _ => 1#8) 100 []) := by
  have first : SizeRun FileState.Appends FileState.sample FileState.sample [] :=
    SizeRun.start (by decide)
  have sought := first.seek 10000 (by decide)
  have written := sought.write (fun _ => 1#8) 100 ⟨by decide, by decide⟩ (by decide +kernel)
    (Or.inr ⟨by decide, fun _ => by decide +kernel⟩)
  exact ⟨_, rfl, (run_size written (by decide) (by decide)).1⟩

/-- The same bytes at the start of the file. -/
theorem run_size_overwritten :
    ¬ ∀ (start s : FileState) (ends : List Int), SizeRun (fun _ _ => True) start s ends →
      start.iSize < 4294967296 → start.file.pos < 2147483648 →
        (s.iSize : Int) = furthest start.iSize ends := by
  intro law
  have first : SizeRun (fun _ _ => True) FileState.sample FileState.sample [] :=
    SizeRun.start (by decide)
  have written := first.write (fun _ => 1#8) 100 ⟨by decide, by decide⟩ (by decide) trivial
  have holds := law _ _ _ written (by decide) (by decide)
  revert holds
  decide +kernel

end Law

end MangoOS
