/-
What one call of `ext2_read` delivers.

Its loop compares the whole size with the room in the block, not what is left of it:
a read of more than a block only stops where a block ends.
-/

import MangoOS.FileSystem.Position
import MangoOS.FileSystem.BlockTree

namespace MangoOS

/-- For the next `k` blocks of a file, `iget_bno` returns the block in its place and
`read_block` delivers what it holds. -/
def BlockStore.ServesFile (inode : Inode) (place : Nat → Nat) (content : Nat → Region) :
    (k : Nat) → BlockStore → Prop
  | 0, _ => True
  | k + 1, store =>
      ∀ index, index < 1048576 → ∃ found bb after,
        igetBno store 4096 inode index = (place index, found) ∧
        found.readBlock 4096 (place index) = (some bb, after) ∧
        (after.buffers bb).data.Agree (content (place index)) 0 4096 ∧
        ServesFile inode place content k after

theorem BlockStore.ServesFile.mono {inode : Inode} {place : Nat → Nat} {content : Nat → Region}
    {k fewer : Nat} {store : BlockStore} (serves : store.ServesFile inode place content k)
    (le : fewer ≤ k) : store.ServesFile inode place content fewer := by
  induction fewer generalizing k store with
  | zero => trivial
  | succ fewer ih =>
      obtain ⟨more, rfl⟩ : ∃ more, k = more + 1 := ⟨k - 1, by omega⟩
      intro index below
      obtain ⟨found, bb, after, looked, reads, agree, rest⟩ := serves index below
      exact ⟨found, bb, after, looked, reads, agree, ih rest (by omega)⟩

/-- Four calls of `read_block` are enough for a block of the file. -/
theorem BlockStore.Serves.file {content : Nat → Region} {k : Nat} {store : BlockStore}
    (serves : store.Serves content (4 * k)) (inode : Inode) :
    store.ServesFile inode (unscaledBno content inode.iBlock) content k := by
  induction k generalizing store with
  | zero => trivial
  | succ k ih =>
      intro index below
      have enough : store.Serves content (4 * k + 1 + 3) := serves
      obtain ⟨found, looked, still⟩ :=
        igetBno_serves enough inode (by omega : index < 1074791436)
      obtain ⟨bb, after, reads, agree, rest⟩ :=
        still (unscaledBno content inode.iBlock index)
      exact ⟨found, bb, after, looked, reads, agree, ih rest⟩

open BlockStore (Serves ServesFile sectorOf)

/-- The bytes of a file. -/
def fileBytes (place : Nat → Nat) (content : Nat → Region) : Region :=
  fun x => content (place (x / 4096).toNat) (x % 4096)

/-- The number of bytes a read of `size` bytes has to deliver. -/
def readCount (iSize : Nat) (pos size : Int) : Int :=
  max 0 (min (min size 49152) (iSize - pos))

/-- The read returns the number of bytes it delivers, and it delivers those that stand in
the file from the position on. -/
structure ReadsExactly (iSize : Nat) (bytes : Region) (file : File) (data : Region) (size : Int)
    (result : ReadResult) : Prop where
  count : result.count = readCount iSize file.pos size
  position : result.file.pos = file.pos + readCount iSize file.pos size
  read : ∀ x, 0 ≤ x → x < readCount iSize file.pos size →
    result.data x = bytes (file.pos + x)
  beyond : ∀ x, x < 0 ∨ readCount iSize file.pos size ≤ x → result.data x = data x

/-- The position is not behind the end of the file, the read ends below 2^31, and it is one
of at most a block's size or ends where a block ends. -/
def ReadEnds (iSize : Nat) (pos size : Int) : Prop :=
  pos ≤ iSize ∧ pos + readCount iSize pos size < 2147483648 ∧
    (readCount iSize pos size ≤ 4096 ∨ (pos + readCount iSize pos size) % 4096 = 0)

/-! ### The size and the position -/

section Ends

variable {iSize : Nat} {pos size n : Int} {file after : File}

theorem readSize_eq (lower : 0 ≤ pos) (upper : pos < 2147483648) (nonneg : 0 ≤ size)
    (word : iSize < 4294967296) :
    readSize iSize pos size = min (min size 49152) (iSize - pos) := by
  have cut : (if size > 49152 then 49152 else size) = min size 49152 := by omega
  have sum : uint32 (pos + min size 49152) = pos + min size 49152 := by
    unfold uint32
    omega
  unfold readSize
  simp only [cut]
  by_cases behind : uint32 (pos + min size 49152) > iSize
  · rw [if_pos behind, int32_of_range (by omega) (by omega)]
    omega
  · rw [if_neg behind]
    omega

theorem ReadMove.exact_iff (move : ReadMove file 4096 n after) (range : file.InRange)
    (lower : 0 ≤ file.pos) (nonneg : 0 ≤ n) (short : n ≤ 49152) :
    after.pos = file.pos + n ↔
      file.pos + n < 2147483648 ∧ (n ≤ 4096 ∨ (file.pos + n) % 4096 = 0) := by
  have bounds := int32_bounds file.pos
  have begin : file.pos.tmod 4096 = file.pos % 4096 := Int.tmod_eq_emod_of_nonneg lower
  rw [range.1] at bounds
  have exact : ∀ total, int32 total = file.pos + n → 0 ≤ total → total ≤ file.pos + n + 4096 →
      total = file.pos + n ∧ file.pos + n < 2147483648 := by
    intro total same low high
    have inside := int32_bounds total
    unfold int32 at same inside
    omega
  cases move with
  | none empty =>
      have isZero : n = 0 := by omega
      rw [isZero, Int.add_zero]
      exact ⟨fun _ => ⟨by omega, Or.inl (by omega)⟩, fun _ => rfl⟩
  | inside some fits =>
      change int32 (file.pos + n) = file.pos + n ↔ _
      constructor
      · intro same
        exact ⟨(exact _ same (by omega) (by omega)).2, Or.inl (by omega)⟩
      · intro ⟨below, _⟩
        exact int32_of_range (by omega) below
  | across far fits =>
      change int32 (file.pos + n) = file.pos + n ↔ _
      constructor
      · intro same
        exact ⟨(exact _ same (by omega) (by omega)).2, Or.inl fits⟩
      · intro ⟨below, _⟩
        exact int32_of_range (by omega) below
  | whole count far large nonneg covers least =>
      change int32 (file.pos + (4096 - file.pos.tmod 4096 + count * 4096)) = file.pos + n ↔ _
      constructor
      · intro same
        obtain ⟨total, below⟩ := exact _ same (by omega) (by omega)
        exact ⟨below, Or.inr (by omega)⟩
      · intro ⟨below, ends⟩
        rw [int32_of_range (by omega) (by omega)]
        omega

end Ends

/-! ### The bytes -/

section Bytes

variable {inode : Inode} {place : Nat → Nat} {content : Nat → Region} {store found : BlockStore}
  {file : File} {index bno : Nat} {size : Int}

theorem fileBytes_block {piece : Region} (agree : piece.Agree (content (place index)) 0 4096)
    {begin x : Int} (lower : 0 ≤ begin + x) (upper : begin + x < 4096) :
    piece (begin + x) = fileBytes place content (4096 * index + begin + x) := by
  have quotient : ((4096 * (index : Int) + begin + x) / 4096).toNat = index := by omega
  have remainder : (4096 * (index : Int) + begin + x) % 4096 = begin + x := by omega
  unfold fileBytes
  rw [quotient, remainder]
  exact agree _ lower upper

theorem readLoop_finish (serves : ServesFile inode place content 1 store)
    (isBno : igetBno store 4096 inode index = (bno, found)) (below : index < 1048576)
    {begin rSize : Int} (fits : size ≤ 4096 - begin) (more : 0 < rSize) (lower : 0 ≤ begin)
    (inside : begin + rSize ≤ 4096) (file : File) (data : Region) (pos : Int) (fuel : Nat) :
    ∃ after moved, ext2ReadLoop inode 4096 size (fuel + 1) found file data begin bno pos rSize =
      (true, after, moved,
        data.copy pos (fileBytes place content) (4096 * index + begin) rSize) := by
  obtain ⟨ready, bb, after, looked, reads, agree, _⟩ := serves index below
  rw [isBno, Prod.mk.injEq] at looked
  obtain ⟨rfl, rfl⟩ := looked
  have piece : data.copy pos (after.buffers bb).data begin rSize =
      data.copy pos (fileBytes place content) (4096 * index + begin) rSize := by
    apply Region.copy_congr
    intro x above under
    exact fileBytes_block agree (by omega) (by omega)
  refine ⟨after, { file with pos := int32 (file.pos + rSize) }, ?_⟩
  rw [ext2ReadLoop, if_pos more, reads, ← piece]
  exact if_pos fits

theorem readLoop_round {k : Nat} (serves : ServesFile inode place content (k + 1) store)
    (isBno : igetBno store 4096 inode index = (bno, found)) (below : index < 1048575)
    (isBlock : file.curBlock = index) {begin rSize : Int} (far : ¬ size ≤ 4096 - begin)
    (more : 0 < rSize) (lower : 0 ≤ begin) (data : Region) (pos : Int)
    (fuel : Nat) :
    ∃ (after : BlockStore) (next : File) (bno' : Nat) (found' : BlockStore),
      ServesFile inode place content k after ∧
      igetBno after 4096 inode (index + 1) = (bno', found') ∧ next.curBlock = (index + 1 : Nat) ∧
      ext2ReadLoop inode 4096 size (fuel + 1) found file data begin bno pos rSize =
        ext2ReadLoop inode 4096 size fuel found' next
          (data.copy pos (fileBytes place content) (4096 * index + begin) (4096 - begin)) 0 bno'
          (pos + (4096 - begin)) (rSize - (4096 - begin)) := by
  obtain ⟨ready, bb, after, looked, reads, agree, still⟩ := serves index (by omega)
  rw [isBno, Prod.mk.injEq] at looked
  obtain ⟨rfl, rfl⟩ := looked
  have isNext : int32 (file.curBlock + 1) = (index + 1 : Nat) := by
    rw [isBlock]
    exact int32_of_range (by omega) (by omega)
  have asIndex : uint32 ((index + 1 : Nat) : Int) = index + 1 := by
    unfold uint32
    omega
  have piece : data.copy pos (after.buffers bb).data begin (4096 - begin) =
      data.copy pos (fileBytes place content) (4096 * index + begin) (4096 - begin) := by
    apply Region.copy_congr
    intro x above under
    exact fileBytes_block agree (by omega) (by omega)
  obtain ⟨⟨bno', found'⟩, isBno'⟩ : ∃ result, igetBno after 4096 inode (index + 1) = result :=
    ⟨_, rfl⟩
  refine ⟨after,
    { file with pos := int32 (file.pos + (4096 - begin)), curBlock := (index + 1 : Nat) }, bno',
    found', still, isBno', rfl, ?_⟩
  rw [ext2ReadLoop, if_pos more, reads, ← piece]
  refine (if_neg far).trans ?_
  simp only [isNext, asIndex, isBno']
  rfl

/-- Whole blocks, when the size is more than a block's. -/
theorem readLoop_blocks (large : 4096 < size) (count fuel : Nat) (store found : BlockStore)
    (file : File) (data : Region) (bno index : Nat) (pos : Int)
    (serves : ServesFile inode place content count store)
    (isBno : igetBno store 4096 inode index = (bno, found)) (isBlock : file.curBlock = index)
    (below : index + count < 1048576) (enough : 4096 * count ≤ fuel) :
    ∃ after moved, ext2ReadLoop inode 4096 size fuel found file data 0 bno pos (4096 * count) =
      (true, after, moved,
        data.copy pos (fileBytes place content) (4096 * index) (4096 * count)) := by
  induction count generalizing fuel store found file data bno index pos with
  | zero =>
      refine ⟨found, file, ?_⟩
      have empty : (4096 : Int) * (0 : Nat) = 0 := by omega
      rw [empty, Region.copy_none]
      cases fuel with
      | zero => rfl
      | succ fuel => rw [ext2ReadLoop, if_neg (by omega)]
  | succ count ih =>
      obtain ⟨fuel, rfl⟩ : ∃ left, fuel = left + 1 := ⟨fuel - 1, by omega⟩
      obtain ⟨after, next, bno', found', still, isBno', isNext, round⟩ :=
        readLoop_round serves isBno (by omega) isBlock (by omega : ¬ size ≤ 4096 - 0)
          (by omega : 0 < 4096 * ((count + 1 : Nat) : Int)) (Int.le_refl 0) data pos fuel
      have rest : 4096 * ((count + 1 : Nat) : Int) - (4096 - 0) = 4096 * count := by omega
      obtain ⟨last, moved, loop⟩ := ih fuel after found' next _ bno' (index + 1)
        (pos + (4096 - 0)) still isBno' isNext (by omega) (by omega)
      have join := Region.copy_join data (fileBytes place content) pos (4096 * (index : Int) + 0)
        (by omega : (0 : Int) ≤ 4096 - 0) (by omega : (0 : Int) ≤ 4096 * count)
      have start : 4096 * (index : Int) + 0 + (4096 - 0) = 4096 * (index + 1 : Nat) := by omega
      have total : (4096 : Int) - 0 + 4096 * count = 4096 * (count + 1 : Nat) := by omega
      rw [start, total, Int.add_zero] at join
      refine ⟨last, moved, ?_⟩
      rw [round, rest, loop, Int.add_zero, join]

end Bytes

/-! ### The whole call -/

section Call

variable {fs : FileSystem} {file : File} {place : Nat → Nat} {content : Nat → Region}
  {size n : Int}

/-- Nothing is read at the end of the file or behind it. -/
theorem ext2Read_empty (isSize : readSize (fs.inode file.inode).iSize file.pos size = n)
    (empty : n ≤ 0) (data : Region) :
    (ext2Read fs file data size).count = n ∧ (ext2Read fs file data size).data = data := by
  obtain ⟨⟨bno, found⟩, isBno⟩ : ∃ result, igetBno fs.store fs.blockSize (fs.inode file.inode)
      (uint32 file.curBlock) = result := ⟨_, rfl⟩
  have noFuel : n.toNat = 0 := by omega
  rw [ext2Read_eq isSize isBno (by rw [noFuel, ext2ReadLoop])]
  exact ⟨rfl, rfl⟩

theorem ext2Read_bytes (block : fs.blockSize = 4096)
    (serves : fs.store.ServesFile (fs.inode file.inode) place content 12)
    (lower : 0 ≤ file.pos) (upper : file.pos < 2147483648)
    (together : file.curBlock = file.pos.tdiv 4096)
    (isSize : readSize (fs.inode file.inode).iSize file.pos size = n) (nonneg : 0 ≤ n)
    (short : n ≤ 49152) (ends : n ≤ 4096 ∨ (file.pos + n) % 4096 = 0) (data : Region) :
    (ext2Read fs file data size).count = n ∧
      (ext2Read fs file data size).data =
        data.copy 0 (fileBytes place content) file.pos n := by
  by_cases empty : n = 0
  · rw [empty, Region.copy_none]
    rw [empty] at isSize
    exact ext2Read_empty isSize (Int.le_refl 0) data
  have quotient : file.pos.tdiv 4096 = file.pos / 4096 := Int.tdiv_eq_ediv_of_nonneg lower
  have begin : file.pos.tmod 4096 = file.pos % 4096 := Int.tmod_eq_emod_of_nonneg lower
  obtain ⟨index, isIndex⟩ : ∃ index : Nat, file.pos / 4096 = index :=
    ⟨(file.pos / 4096).toNat, by omega⟩
  have isBlock : file.curBlock = index := by omega
  have asIndex : uint32 file.curBlock = index := by
    rw [isBlock]
    unfold uint32
    omega
  obtain ⟨⟨bno, found⟩, isBno⟩ : ∃ result,
      igetBno fs.store 4096 (fs.inode file.inode) index = result := ⟨_, rfl⟩
  suffices loops : ∃ after moved, ext2ReadLoop (fs.inode file.inode) 4096 n n.toNat found file data
      (file.pos.tmod 4096) bno 0 n =
        (true, after, moved, data.copy 0 (fileBytes place content) file.pos n) by
    obtain ⟨after, moved, loop⟩ := loops
    have looked : igetBno fs.store fs.blockSize (fs.inode file.inode) (uint32 file.curBlock) =
        (bno, found) := by
      rw [block, asIndex]
      exact isBno
    have called : ext2ReadLoop (fs.inode file.inode) fs.blockSize n n.toNat found file data
        (file.pos.tmod fs.blockSize) bno 0 n =
          (true, after, moved, data.copy 0 (fileBytes place content) file.pos n) := by
      rw [block]
      exact loop
    rw [ext2Read_eq isSize looked called]
    exact ⟨rfl, rfl⟩
  have start : 4096 * (index : Int) + file.pos.tmod 4096 = file.pos := by omega
  obtain ⟨fuel, isFuel⟩ : ∃ fuel, n.toNat = fuel + 1 := ⟨n.toNat - 1, by omega⟩
  rw [isFuel]
  by_cases fits : n ≤ 4096 - file.pos.tmod 4096
  · have last := readLoop_finish (serves.mono (by decide)) isBno (by omega) fits
      (by omega : 0 < n) (by omega) (by omega) file data 0 fuel
    rwa [start] at last
  obtain ⟨middle, next, bno', found', still, isBno', isNext, round⟩ :=
    readLoop_round serves isBno (by omega) isBlock fits (by omega : 0 < n) (by omega) data 0 fuel
  rw [round]
  have edge : 4096 * (index : Int) + file.pos.tmod 4096 + (4096 - file.pos.tmod 4096) =
      4096 * (index + 1 : Nat) := by omega
  have taken : 0 ≤ 4096 - file.pos.tmod 4096 := by omega
  by_cases small : n ≤ 4096
  · obtain ⟨left, rfl⟩ : ∃ left, fuel = left + 1 := ⟨fuel - 1, by omega⟩
    obtain ⟨after, moved, loop⟩ := readLoop_finish (still.mono (by decide)) isBno' (by omega)
      (by omega : n ≤ 4096 - 0) (by omega : 0 < n - (4096 - file.pos.tmod 4096))
      (Int.le_refl 0) (by omega) next
      (data.copy 0 (fileBytes place content) (4096 * index + file.pos.tmod 4096)
        (4096 - file.pos.tmod 4096)) (0 + (4096 - file.pos.tmod 4096)) left
    have total : 4096 - file.pos.tmod 4096 + (n - (4096 - file.pos.tmod 4096)) = n := by omega
    have joined := Region.copy_join data (fileBytes place content) 0
      (4096 * (index : Int) + file.pos.tmod 4096) taken
      (by omega : 0 ≤ n - (4096 - file.pos.tmod 4096))
    rw [edge, total, start] at joined
    refine ⟨after, moved, ?_⟩
    rw [loop, Int.add_zero, start, joined]
  · obtain ⟨count, isCount⟩ : ∃ count : Nat,
        n - (4096 - file.pos.tmod 4096) = 4096 * count :=
      ⟨((n - (4096 - file.pos.tmod 4096)) / 4096).toNat, by omega⟩
    obtain ⟨after, moved, loop⟩ := readLoop_blocks (by omega : 4096 < n) count fuel middle found'
      next (data.copy 0 (fileBytes place content) (4096 * index + file.pos.tmod 4096)
        (4096 - file.pos.tmod 4096)) bno' (index + 1) (0 + (4096 - file.pos.tmod 4096))
      (still.mono (by omega)) isBno' isNext (by omega) (by omega)
    have total : 4096 - file.pos.tmod 4096 + 4096 * (count : Int) = n := by omega
    have joined := Region.copy_join data (fileBytes place content) 0
      (4096 * (index : Int) + file.pos.tmod 4096) taken (by omega : (0 : Int) ≤ 4096 * count)
    rw [edge, total, start] at joined
    refine ⟨after, moved, ?_⟩
    rw [isCount, loop, start, joined]

/-- A read is exact if and only if it starts in the file and stops where it has to. -/
theorem ext2Read_exact_iff (block : fs.blockSize = 4096) (reliable : fs.store.device.Reliable)
    (serves : fs.store.ServesFile (fs.inode file.inode) place content 12)
    (length : (fs.inode file.inode).iSize < 4294967296)
    (lower : 0 ≤ file.pos) (upper : file.pos < 2147483648)
    (together : file.curBlock = file.pos.tdiv 4096) (nonneg : 0 ≤ size) (data : Region) :
    ReadsExactly (fs.inode file.inode).iSize (fileBytes place content) file data size
        (ext2Read fs file data size) ↔
      ReadEnds (fs.inode file.inode).iSize file.pos size := by
  have isSize := readSize_eq lower upper nonneg length
  have range : file.InRange := by
    have quotient : file.pos.tdiv 4096 = file.pos / 4096 := Int.tdiv_eq_ediv_of_nonneg lower
    exact ⟨int32_of_range (by omega) upper, int32_of_range (by omega) (by omega)⟩
  by_cases within : file.pos ≤ (fs.inode file.inode).iSize
  · have isCount : min (min size 49152) ((fs.inode file.inode).iSize - file.pos) =
        readCount (fs.inode file.inode).iSize file.pos size := by
      unfold readCount
      omega
    have short : readCount (fs.inode file.inode).iSize file.pos size ≤ 49152 := by
      unfold readCount
      omega
    have more : 0 ≤ readCount (fs.inode file.inode).iSize file.pos size := by
      unfold readCount
      omega
    rw [isCount] at isSize
    have moves := (ext2Read_move fs file data size reliable range (by omega)).1
    rw [isSize, block] at moves
    have exact := moves.exact_iff range lower more short
    constructor
    · intro reads
      obtain ⟨below, ends⟩ := exact.mp reads.position
      exact ⟨within, below, ends⟩
    · intro ⟨_, below, ends⟩
      obtain ⟨count, bytes⟩ :=
        ext2Read_bytes block serves lower upper together isSize more short ends data
      refine ⟨count, exact.mpr ⟨below, ends⟩, ?_, ?_⟩
      · intro x above under
        rw [bytes, Region.copy_inside _ _ above (by omega), Int.sub_zero]
      · intro x outside
        rw [bytes, Region.copy_outside _ _ (by omega)]
  · constructor
    · intro reads
      have counted := reads.count
      rw [(ext2Read_empty isSize (by omega) data).1] at counted
      unfold readCount at counted
      omega
    · intro ⟨start, _⟩
      omega

end Call

/-- What the disk holds under the file of 10000 bytes. -/
def sampleContent (bno : Nat) : Region :=
  FileState.sample.fs.store.device.sectors (sectorOf 4096 bno)

/-- The blocks of that file. -/
def samplePlace : Nat → Nat :=
  unscaledBno sampleContent (FileState.sample.fs.inode FileState.sample.file.inode).iBlock

private theorem sample_serves :
    FileState.sample.fs.store.ServesFile (FileState.sample.fs.inode FileState.sample.file.inode)
      samplePlace sampleContent 12 := by
  have roomy : FileState.sample.fs.store.Roomy (4 * 12) := by
    refine ⟨BlockStore.zeroed_reliable, ?_⟩
    intro hash
    change (0 : Int) + (4 * 12 : Nat) ≤ 100
    decide
  exact roomy.serves.file _

/-- Two whole blocks. -/
theorem ext2Read_exact_blocks :
    ReadsExactly (FileState.sample.fs.inode FileState.sample.file.inode).iSize
      (fileBytes samplePlace sampleContent) FileState.sample.file (fun _ => 1#8) 8192
      (ext2Read FileState.sample.fs FileState.sample.file (fun _ => 1#8) 8192) :=
  (ext2Read_exact_iff rfl BlockStore.zeroed_reliable sample_serves (by decide) (by decide)
    (by decide) (by decide) (by decide) _).mpr ⟨by decide, by decide, Or.inr (by decide)⟩

/-- 5000 bytes from the start: the position moves on by two blocks. -/
theorem ext2Read_overrun :
    ¬ ∀ (fs : FileSystem) (file : File) (place : Nat → Nat) (content : Nat → Region) (size : Int)
        (data : Region), fs.blockSize = 4096 → fs.store.device.Reliable →
      fs.store.ServesFile (fs.inode file.inode) place content 12 →
      (fs.inode file.inode).iSize < 4294967296 → 0 ≤ file.pos → file.pos < 2147483648 →
      file.curBlock = file.pos.tdiv 4096 → 0 ≤ size →
      ReadsExactly (fs.inode file.inode).iSize (fileBytes place content) file data size
        (ext2Read fs file data size) := by
  intro exact
  have reads := exact FileState.sample.fs FileState.sample.file _ _ 5000 (fun _ => 1#8) rfl
    BlockStore.zeroed_reliable sample_serves (by decide) (by decide) (by decide) (by decide)
    (by decide)
  have moved : (ext2Read FileState.sample.fs FileState.sample.file (fun _ => 1#8) 5000).file.pos =
      8192 := by decide +kernel
  have position := reads.position
  rw [moved] at position
  revert position
  decide

end MangoOS
