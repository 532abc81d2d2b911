/-
Where `load_kernel` finds `/boot/kernel`, and what it puts at 0x20000.

It takes four times the exponent of the block size for the sectors of a block, which is right for
blocks of 2048 and of 4096 bytes.  Of a file it reads the sectors from its first block on.
-/

import MangoOS.Boot.LoadKernel

namespace MangoOS

namespace Boot

/-! ### A directory up to a name -/

def HoldsEntry (width : Nat) (mem : ByteMemory) (a : Nat) (e : DirEntry) : Prop :=
  longAt width mem a = e.inode ∧ wordAt width mem (a + 4) = e.recLen ∧
    byteAt width mem (a + 6) = e.name.length ∧ HoldsText width mem (a + 8) e.name

/-- Some entries lie at an address and one behind them. -/
def HoldsUpTo (width : Nat) (mem : ByteMemory) : (a : Nat) → List DirEntry → DirEntry → Prop
  | a, [], e => HoldsEntry width mem a e
  | a, d :: before, e => HoldsEntry width mem a d ∧ HoldsUpTo width mem (a + d.recLen) before e

/-- The entry is the first one of its name, and the search gets to it. -/
def Reaches (name : List (BitVec 8)) (before : List DirEntry) (e : DirEntry) : Prop :=
  e.name = name ∧ ∀ d ∈ before, d.name ≠ name ∧ (d.name.length = name.length ∨ d.inode < 65536)

/-- The bytes up to the end of the last name. -/
def extent : List DirEntry → DirEntry → Nat
  | [], e => 8 + e.name.length
  | d :: before, e => d.recLen + extent before e

section Search

variable {width a b place size : Nat} {mem other : ByteMemory} {name text : List (BitVec 8)}
  {d e : DirEntry} {before : List DirEntry}

theorem wordAt_move (same : ∀ i, i < size → byteAt width other (b + i) = byteAt width mem (a + i))
    {k : Nat} (inside : k + 2 ≤ size) :
    wordAt width other (b + k) = wordAt width mem (a + k) := by
  unfold wordAt
  rw [Nat.add_assoc, Nat.add_assoc, same k (by omega), same (k + 1) (by omega)]

theorem longAt_move (same : ∀ i, i < size → byteAt width other (b + i) = byteAt width mem (a + i))
    {k : Nat} (inside : k + 4 ≤ size) :
    longAt width other (b + k) = longAt width mem (a + k) := by
  unfold longAt
  rw [Nat.add_assoc, Nat.add_assoc, wordAt_move same (by omega : k + 2 ≤ size),
    wordAt_move same (by omega : k + 2 + 2 ≤ size)]

theorem HoldsText.move (holds : HoldsText width mem a text)
    (same : ∀ i, i < text.length → byteAt width other (b + i) = byteAt width mem (a + i)) :
    HoldsText width other b text := by
  induction text generalizing a b with
  | nil => exact trivial
  | cons c text ih =>
      refine ⟨(same 0 (Nat.succ_pos _)).trans holds.1, ih holds.2 ?_⟩
      intro i inside
      rw [Nat.add_assoc, Nat.add_assoc]
      exact same (1 + i) (by rw [List.length_cons]; omega)

theorem HoldsEntry.move (holds : HoldsEntry width mem a e)
    (same : ∀ i, i < 8 + e.name.length → byteAt width other (b + i) = byteAt width mem (a + i)) :
    HoldsEntry width other b e := by
  obtain ⟨inode, recLen, length, entryText⟩ := holds
  have first : longAt width other b = longAt width mem a :=
    longAt_move same (by omega : 0 + 4 ≤ 8 + e.name.length)
  refine ⟨first.trans inode, (wordAt_move same (by omega)).trans recLen,
    (same 6 (by omega)).trans length, entryText.move ?_⟩
  intro i inside
  rw [Nat.add_assoc, Nat.add_assoc]
  exact same (8 + i) (by omega)

theorem HoldsUpTo.move (holds : HoldsUpTo width mem a before e)
    (same : ∀ i, i < extent before e → byteAt width other (b + i) = byteAt width mem (a + i)) :
    HoldsUpTo width other b before e := by
  induction before generalizing a b with
  | nil => exact HoldsEntry.move holds same
  | cons d before ih =>
      have behind : 8 ≤ extent before e := by
        cases before with
        | nil => exact Nat.le_add_right _ _
        | cons next before =>
            have room := next.room
            rw [extent]
            omega
      rw [extent] at same
      have room := d.room
      refine ⟨HoldsEntry.move holds.1 fun i inside => same i (by omega), ih holds.2 ?_⟩
      intro i inside
      rw [Nat.add_assoc, Nat.add_assoc]
      exact same (d.recLen + i) (by omega)

/-- One round of the search at an entry with another name. -/
theorem searchLoop32_next (at32 : HoldsText segment32 mem place name)
    (holds : HoldsEntry segment32 mem a d) (short : name.length < 256) (other : d.name ≠ name)
    (passes : d.name.length = name.length ∨ d.inode < 65536) (fuel : Nat) :
    searchLoop32 mem name.length place (fuel + 1) a =
      searchLoop32 mem name.length place fuel ((a + d.recLen) % segment32) := by
  obtain ⟨inode, recLen, length, entryText⟩ := holds
  have byte : name.length % 256 = name.length := Nat.mod_eq_of_lt short
  have onward : ∀ {eax : Nat}, eax < 65536 → nextDir32 mem eax a = (a + d.recLen) % segment32 := by
    intro eax small
    unfold nextDir32
    rw [recLen, setLow_small small]
  rw [searchLoop32]
  simp only [inode, length, if_neg d.inode_ne]
  by_cases sameLength : d.name.length = name.length
  · rw [if_neg (fun different => different (sameLength.trans byte.symm)),
      compare_entry at32 entryText sameLength, if_neg other, if_pos (by decide)]
    rw [onward (by decide)]
  · rw [if_pos (fun same => sameLength (same.trans byte)), onward (passes.resolve_left sameLength)]

theorem searchLoop32_found (at32 : HoldsText segment32 mem place name)
    (holds : HoldsEntry segment32 mem a e) (same : e.name = name) (fuel : Nat) :
    searchLoop32 mem name.length place (fuel + 1) a = some e.inode := by
  obtain ⟨inode, recLen, length, entryText⟩ := holds
  have byte : e.name.length = name.length % 256 := by
    rw [← same]
    exact (Nat.mod_eq_of_lt e.name_lt).symm
  rw [searchLoop32]
  simp only [inode, length, if_neg e.inode_ne]
  rw [if_neg (fun different => different byte), compare_entry at32 entryText (by rw [same]),
    if_pos same, if_neg (fun different => different rfl)]

theorem searchLoop32_reaches (at32 : HoldsText segment32 mem place name)
    (holds : HoldsUpTo segment32 mem a before e) (reaches : Reaches name before e) {fuel : Nat}
    (enough : before.length < fuel) :
    searchLoop32 mem name.length place fuel a = some e.inode := by
  obtain ⟨fuel, rfl⟩ := Nat.exists_eq_succ_of_ne_zero (Nat.ne_zero_of_lt enough)
  induction before generalizing a fuel with
  | nil => exact searchLoop32_found at32 holds reaches.1 fuel
  | cons d before ih =>
      have short : name.length < 256 := by
        rw [← reaches.1]
        exact e.name_lt
      obtain ⟨other, passes⟩ := reaches.2 d List.mem_cons_self
      rw [List.length_cons] at enough
      obtain ⟨fuel, rfl⟩ := Nat.exists_eq_succ_of_ne_zero (by omega : fuel ≠ 0)
      rw [searchLoop32_next at32 holds.1 short other passes]
      apply ih (holds.2.move ?_) ⟨reaches.1, fun x member => reaches.2 x
        (List.mem_cons_of_mem _ member)⟩ fuel (by omega)
      intro i _
      exact byteAt_congr (Nat.mod_mod _ _) i

end Search

/-! ### What is on the disk -/

/-- An Ext2 file system with blocks of 2048 or 4096 bytes, and the numbers that the loader takes
from its superblock and its first group descriptor. -/
structure BootVolume where
  bytes : ByteMemory
  log : Nat
  inodeSize : Nat
  table : Nat
  logByte : byteAt segment32 bytes 1048 = log
  log_cases : log = 1 ∨ log = 2
  inodeWord : wordAt segment32 bytes 1112 = inodeSize
  tableWord : wordAt segment32 bytes (1024 * 2 ^ log + 8) = table
  whole : inodeSize ∣ 1024 * 2 ^ log
  room : 128 ≤ inodeSize

namespace BootVolume

def blockSize (v : BootVolume) : Nat := 1024 * 2 ^ v.log

def blockSectors (v : BootVolume) : Nat := 4 * v.log

/-- Where inode `n` lies. -/
def inodePlace (v : BootVolume) (n : Nat) : Nat := v.blockSize * v.table + v.inodeSize * (n - 1)

/-- The block of the table that inode `n` is in. -/
def inodeBlock (v : BootVolume) (n : Nat) : Nat := (n - 1) / (v.blockSize / v.inodeSize)

/-- Inode `n` has `count` sectors from block `first` on, and all of these are near enough for the
registers of 16 bits. -/
structure File (v : BootVolume) (n first count : Nat) : Prop where
  number : 0 < n
  word : n < 65536
  near : (v.table + v.inodeBlock n) * v.blockSectors < 65536
  firstBlock : wordAt segment32 v.bytes (v.inodePlace n + 0x28) = first
  first_lt : first < 32768
  sectors : wordAt segment32 v.bytes (v.inodePlace n + 0x1c) = count
  positive : 0 < count

/-- The sectors from block `first` on are a directory with a name for inode `n`. -/
def Lists (v : BootVolume) (first count : Nat) (name : List (BitVec 8)) (n : Nat) : Prop :=
  ∃ before e, HoldsUpTo segment32 v.bytes (v.blockSize * first) before e ∧
    Reaches name before e ∧ e.inode = n ∧ extent before e ≤ 512 * count

variable {v : BootVolume} {n first count : Nat}

theorem File.count_lt (file : v.File n first count) : count < 65536 := by
  rw [← file.sectors]
  exact wordAt_lt ..

theorem blockSize_cases (v : BootVolume) :
    v.log = 1 ∧ v.blockSize = 2048 ∧ v.blockSectors = 4 ∨
      v.log = 2 ∧ v.blockSize = 4096 ∧ v.blockSectors = 8 := by
  unfold blockSize blockSectors
  rcases v.log_cases with one | two
  · left
    rw [one]
    decide
  · right
    rw [two]
    decide

theorem blockSize_sectors (v : BootVolume) : v.blockSize = 512 * v.blockSectors := by
  rcases v.blockSize_cases with ⟨_, size, sectors⟩ | ⟨_, size, sectors⟩ <;> rw [size, sectors]

theorem small (v : BootVolume) : v.blockSize ≤ 4096 ∧ v.blockSectors ≤ 8 := by
  rcases v.blockSize_cases with ⟨_, size, sectors⟩ | ⟨_, size, sectors⟩ <;> omega

theorem blockSectors_pos (v : BootVolume) : 0 < v.blockSectors := by
  rcases v.blockSize_cases with ⟨_, _, sectors⟩ | ⟨_, _, sectors⟩ <;> omega

theorem inodeSize_le (v : BootVolume) : v.inodeSize ≤ v.blockSize :=
  Nat.le_of_dvd (by rcases v.blockSize_cases with ⟨_, size, _⟩ | ⟨_, size, _⟩ <;> omega) v.whole

theorem items (v : BootVolume) : v.inodeSize * (v.blockSize / v.inodeSize) = v.blockSize :=
  Nat.mul_div_cancel' v.whole

theorem items_pos (v : BootVolume) : 0 < v.blockSize / v.inodeSize :=
  Nat.div_pos v.inodeSize_le (Nat.lt_of_lt_of_le (by decide) v.room)

/-- The inode lies in its block of the table, behind the items before it. -/
theorem inodePlace_eq (v : BootVolume) (n : Nat) :
    v.inodePlace n = v.blockSize * (v.table + v.inodeBlock n) +
      v.inodeSize * ((n - 1) % (v.blockSize / v.inodeSize)) := by
  have items := v.items
  have parts := Nat.div_add_mod (n - 1) (v.blockSize / v.inodeSize)
  unfold inodePlace inodeBlock
  generalize (n - 1) / (v.blockSize / v.inodeSize) = block at *
  generalize (n - 1) % (v.blockSize / v.inodeSize) = item at *
  rw [← parts, Nat.mul_add v.inodeSize, ← Nat.mul_assoc, items, Nat.mul_add v.blockSize,
    Nat.add_assoc]

theorem item_inside (v : BootVolume) (n : Nat) :
    v.inodeSize * ((n - 1) % (v.blockSize / v.inodeSize)) + v.inodeSize ≤ v.blockSize := by
  have below := Nat.mod_lt (n - 1) v.items_pos
  rw [← Nat.mul_succ]
  exact (Nat.mul_le_mul_left _ below).trans_eq v.items

end BootVolume

/-! ### Registers of 16 bits -/

theorem div16_word {ax word : Nat} (positive : 0 < word) (small : ax < 65536) :
    div16 0 ax word = some (ax / word, ax % word) := by
  have quotient := Nat.div_le_self ax word
  unfold div16
  rw [Nat.mul_zero, Nat.zero_add]
  exact if_neg (by omega)

theorem imul16_word {ax word : Nat} (left : ax < 32768) (right : word < 32768) :
    65536 * (imul16 ax word).1 + (imul16 ax word).2 = ax * word := by
  have small : ax * word < 4294967296 :=
    (Nat.mul_lt_mul'' left right).trans (by decide)
  have product : (signed16 ax * signed16 word % 4294967296).toNat = ax * word := by
    unfold signed16
    rw [if_pos left, if_pos right, ← Int.natCast_mul]
    omega
  unfold imul16
  dsimp only
  rw [product]
  omega

theorem imul16_low {ax word : Nat} (left : ax < 32768) (right : word < 32768)
    (small : ax * word < 65536) : imul16 ax word = (0, ax * word) := by
  have whole := imul16_word left right
  have low : (imul16 ax word).2 < 65536 := by
    unfold imul16
    exact Nat.mod_lt _ (by decide)
  apply Prod.ext
  · dsimp only
    omega
  · dsimp only
    omega

/-! ### The steps of `load_kernel` -/

/-- The file system lies in the partition, which does not end at the last sector numbers. -/
structure OnDisk (v : BootVolume) (sectors : Sectors) (s : Loader) : Prop where
  disk : sectors.bytes s.partStart = v.bytes
  near : s.partStart + 0x50000 ≤ 2 ^ 32

/-- The variables are set. -/
structure Ready (v : BootVolume) (sectors : Sectors) (s : Loader) : Prop extends
    OnDisk v sectors s where
  blockSize : s.blockSize = v.blockSize
  inodeSize : s.inodeSize = v.inodeSize
  sectorNum : s.sectorNum = v.blockSectors
  startBlock : s.startBlock = v.table * v.blockSectors

/-- Sectors of a file at 0x20000, over what the block of its inode has left there. -/
structure Content (v : BootVolume) (first count : Nat) (before after : ByteMemory) : Prop where
  bytes : ∀ i, i < 512 * count → after (0x20000 + i) = v.bytes (v.blockSize * first + i)
  outside : ∀ x, x < 0x20000 ∨ 0x20000 + v.blockSize ≤ x ∧ 0x20000 + 512 * count ≤ x →
    after x = before x

section Steps

variable {v : BootVolume} {sectors : Sectors} {s t : Loader} {ecx ebx n first count : Nat}

theorem OnDisk.readDisk (disk : OnDisk v sectors s) (positive : 0 < ecx) (word : ecx < 65536)
    (near : ebx + ecx ≤ 0x50000) :
    ∃ drive, Boot.readDisk sectors s ecx ebx 0x20000 =
      some { s with
        mem := s.mem.overlay 0x20000 (512 * ecx) (fun i => v.bytes (512 * ebx + i))
        drive := drive } := by
  have partition := disk.near
  have fits : 0x20000 + 512 * ecx ≤ segment32 := by
    unfold segment32
    omega
  obtain ⟨drive, reads, _⟩ := readDisk_eq sectors s positive word
    (by omega : ebx + s.partStart + ecx ≤ 2 ^ 32) (by decide : 0x10000 ≤ 0x20000) fits
  refine ⟨drive, reads.trans ?_⟩
  have bytes : sectors.bytes (ebx + s.partStart) = fun i => v.bytes (512 * ebx + i) := by
    funext i
    rw [← disk.disk, sectors.bytes_next, Nat.add_comm]
  rw [bytes]

/-- A byte of the memory after such a transfer. -/
theorem byteAt_overlay {mem : ByteMemory} {bytes : Nat → BitVec 8} {size i : Nat}
    (inside : i < size) (small : size ≤ 0x2000000) :
    byteAt segment32 (mem.overlay 0x20000 size bytes) (0x20000 + i) = (bytes i).toNat := by
  have place : (0x20000 + i) % segment32 = 0x20000 + i := Nat.mod_eq_of_lt (by
    unfold segment32
    omega)
  unfold byteAt
  rw [place, ByteMemory.overlay_inside inside]

theorem byteAt_volume {mem : ByteMemory} {a : Nat} (small : a < segment32) :
    byteAt segment32 mem a = (mem a).toNat := by
  unfold byteAt
  rw [Nat.mod_eq_of_lt small]

theorem Ready.inodeItem (ready : Ready v sectors s) (file : v.File n first count) :
    Boot.inodeItem s n = some (v.inodeBlock n, (n - 1) % (v.blockSize / v.inodeSize)) := by
  have positive := file.number
  have word := file.word
  have size : 0 < v.inodeSize := Nat.lt_of_lt_of_le (by decide) v.room
  have block := v.small.1
  have index : (n + 65535) % 65536 = n - 1 := by omega
  have whole : v.blockSize % v.inodeSize = 0 := Nat.mod_eq_zero_of_dvd v.whole
  unfold Boot.inodeItem
  rw [ready.blockSize, ready.inodeSize, div16_word size (by omega), Option.bind_some, whole, index]
  exact div16_word v.items_pos (by omega)

theorem Ready.tableSector (ready : Ready v sectors s) (file : v.File n first count) :
    Boot.tableSector s (v.inodeBlock n) = (v.table + v.inodeBlock n) * v.blockSectors := by
  have near := file.near
  rw [Nat.add_mul] at near ⊢
  have sectorsSmall : v.blockSectors < 32768 := v.small.2.trans_lt (by decide)
  have block : v.inodeBlock n < 32768 := by
    rcases v.blockSize_cases with ⟨_, _, sectors⟩ | ⟨_, _, sectors⟩ <;> rw [sectors] at near <;>
      omega
  unfold Boot.tableSector
  rw [ready.sectorNum, imul16_low block sectorsSmall (by omega), ready.startBlock]
  dsimp only
  omega

/-- A block of the file system at 0x20000 is read as on the disk. -/
theorem overlay_same (v : BootVolume) (mem : ByteMemory) {start size : Nat}
    (small : size ≤ 0x2000000) (near : start + size ≤ segment32) :
    ∀ i, i < size →
      byteAt segment32 (mem.overlay 0x20000 size (fun i => v.bytes (start + i))) (0x20000 + i) =
        byteAt segment32 v.bytes (start + i) := by
  intro i inside
  rw [byteAt_overlay inside small, byteAt_volume (by omega)]

/-- The words of the inode, where `read_blocks` looks for them. -/
theorem inode_word (mem : ByteMemory) (file : v.File n first count) {k : Nat}
    (inside : k + 2 ≤ 128) :
    wordAt segment32 (mem.overlay 0x20000 v.blockSize
        (fun i => v.bytes (v.blockSize * (v.table + v.inodeBlock n) + i)))
      (uint32 (0x20000 + (v.inodeSize * ((n - 1) % (v.blockSize / v.inodeSize)) : Nat)) + k) =
        wordAt segment32 v.bytes (v.inodePlace n + k) := by
  have item := v.item_inside n
  have room := v.room
  have near := file.near
  have place : v.blockSize * (v.table + v.inodeBlock n) =
      512 * ((v.table + v.inodeBlock n) * v.blockSectors) := by
    rw [v.blockSize_sectors, Nat.mul_assoc, Nat.mul_comm v.blockSectors]
  have size := v.small.1
  have sized : v.blockSize * (v.table + v.inodeBlock n) + v.blockSize ≤ segment32 := by
    rw [place]
    unfold segment32
    omega
  rw [v.inodePlace_eq]
  generalize v.inodeSize * ((n - 1) % (v.blockSize / v.inodeSize)) = offset at *
  have edi : uint32 (0x20000 + (offset : Nat)) = 0x20000 + offset := by
    unfold uint32
    omega
  rw [edi, Nat.add_assoc, Nat.add_assoc]
  exact wordAt_move (overlay_same v mem (by omega) sized) (by omega)

/-- The content is read from the first block on. -/
theorem Ready.readContent (ready : Ready v sectors s) (file : v.File n first count)
    (mem : ByteMemory) (table : s.mem = mem.overlay 0x20000 v.blockSize
      (fun i => v.bytes (v.blockSize * (v.table + v.inodeBlock n) + i))) (high : ecx < 65536) :
    Boot.readContent sectors s ecx ((n - 1) % (v.blockSize / v.inodeSize)) =
      Boot.readDisk sectors s count (first * v.blockSectors) 0x20000 := by
  have word := file.word
  have small := v.small
  have inodeSmall := v.inodeSize_le
  have index : (n - 1) % (v.blockSize / v.inodeSize) < 32768 := by
    have below := Nat.mod_lt (n - 1) v.items_pos
    have few := Nat.div_le_self v.blockSize v.inodeSize
    omega
  have offset := imul16_word (by omega : v.inodeSize < 32768) index
  have start := imul16_word file.first_lt (by omega : v.blockSectors < 32768)
  unfold Boot.readContent
  dsimp only
  rw [ready.inodeSize, offset, ready.sectorNum, table, inode_word mem file (by decide),
    inode_word mem file (by decide), file.firstBlock, file.sectors, start, setLow_small high]

theorem Content.overlay (v : BootVolume) (mem : ByteMemory) (table : Nat → BitVec 8)
    (first count : Nat) :
    Content v first count mem ((mem.overlay 0x20000 v.blockSize table).overlay 0x20000 (512 * count)
      (fun i => v.bytes (512 * (first * v.blockSectors) + i))) := by
  have place : 512 * (first * v.blockSectors) = v.blockSize * first := by
    rw [v.blockSize_sectors, Nat.mul_comm first, Nat.mul_assoc]
  constructor
  · intro i inside
    rw [ByteMemory.overlay_inside inside, place]
  · rintro x (below | ⟨aboveTable, above⟩)
    · rw [ByteMemory.overlay_outside (Or.inl below), ByteMemory.overlay_outside (Or.inl below)]
    · rw [ByteMemory.overlay_outside (Or.inr above), ByteMemory.overlay_outside (Or.inr aboveTable)]

theorem Ready.readDisk (ready : Ready v sectors s) (positive : 0 < ecx) (word : ecx < 65536)
    (near : ebx + ecx ≤ 0x50000) :
    ∃ t, Boot.readDisk sectors s ecx ebx 0x20000 = some t ∧ Ready v sectors t ∧
      t.mem = s.mem.overlay 0x20000 (512 * ecx) (fun i => v.bytes (512 * ebx + i)) := by
  obtain ⟨drive, reads⟩ := ready.toOnDisk.readDisk positive word near
  exact ⟨_, reads, ⟨⟨ready.disk, ready.near⟩, ready.blockSize, ready.inodeSize, ready.sectorNum,
    ready.startBlock⟩, rfl⟩

/-- `read_blocks` with the number of an inode. -/
theorem Ready.readBlocks (ready : Ready v sectors s) (file : v.File n first count)
    (high : ecx < 65536) :
    ∃ t, Boot.readBlocks sectors s ecx n = some t ∧ Ready v sectors t ∧
      Content v first count s.mem t.mem := by
  have small := v.small
  have near := file.near
  have word := file.count_lt
  have firstSector : first * v.blockSectors ≤ 32767 * 8 :=
    Nat.mul_le_mul (Nat.le_of_lt_succ file.first_lt) small.2
  have place : 512 * ((v.table + v.inodeBlock n) * v.blockSectors) =
      v.blockSize * (v.table + v.inodeBlock n) := by
    rw [v.blockSize_sectors, Nat.mul_comm (v.table + _), Nat.mul_assoc]
  obtain ⟨withTable, table, readyTable, mem⟩ := ready.readDisk v.blockSectors_pos
    (by omega : v.blockSectors < 65536)
    (by omega : (v.table + v.inodeBlock n) * v.blockSectors + v.blockSectors ≤ 0x50000)
  rw [place, ← v.blockSize_sectors] at mem
  obtain ⟨t, content, readyContent, memContent⟩ := readyTable.readDisk file.positive file.count_lt
    (by omega : first * v.blockSectors + count ≤ 0x50000)
  rw [mem] at memContent
  refine ⟨t, ?_, readyContent, memContent ▸ Content.overlay v s.mem _ first count⟩
  unfold Boot.readBlocks
  rw [Nat.mod_eq_of_lt file.word, ready.inodeItem file, Option.bind_some]
  dsimp only
  rw [ready.tableSector file, ready.sectorNum, setLow_small high, table, Option.bind_some,
    readyTable.readContent file s.mem mem (by omega)]
  exact content

theorem OnDisk.loadSuper (disk : OnDisk v sectors s) (fresh : s.sectorNum = 0)
    (high : ecx < 65536) :
    ∃ t, Boot.loadSuper sectors s ecx = some (t, v.blockSectors) ∧ OnDisk v sectors t ∧
      t.blockSize = v.blockSize ∧ t.inodeSize = v.inodeSize ∧ t.sectorNum = v.blockSectors ∧
      t.mem = s.mem.overlay 0x20000 512 (fun i => v.bytes (1024 + i)) := by
  have same := overlay_same v s.mem (by decide : 512 ≤ 0x2000000)
    (by decide : 1024 + 512 ≤ segment32)
  have log : byteAt segment32 (s.mem.overlay 0x20000 512 fun i => v.bytes (1024 + i)) 0x20018 =
      v.log :=
    (same 0x18 (by decide)).trans v.logByte
  have inode : wordAt segment32 (s.mem.overlay 0x20000 512 fun i => v.bytes (1024 + i)) 0x20058 =
      v.inodeSize :=
    (wordAt_move same (by decide : 0x58 + 2 ≤ 512)).trans v.inodeWord
  obtain ⟨drive, reads⟩ := disk.readDisk (by decide : 0 < 1) (by decide)
    (by decide : 2 + 1 ≤ 0x50000)
  have sizes : 1024 * 2 ^ (v.log % 32) % 65536 = v.blockSize ∧
      setLow 256 0 (v.log * 4 % 256) = v.blockSectors ∧
        setLow 256 1 (v.log * 4 % 256) = v.blockSectors := by
    unfold BootVolume.blockSize BootVolume.blockSectors
    rcases v.log_cases with one | two
    · rw [one]
      decide
    · rw [two]
      decide
  refine ⟨{ s with
      mem := s.mem.overlay 0x20000 512 (fun i => v.bytes (1024 + i))
      drive := drive
      blockSize := v.blockSize
      inodeSize := v.inodeSize
      sectorNum := v.blockSectors }, ?_, ⟨disk.disk, disk.near⟩, rfl, rfl, rfl, rfl⟩
  unfold Boot.loadSuper
  dsimp only
  rw [setLow_small high, reads, Option.bind_some, log, inode, fresh, sizes.1, sizes.2.1, sizes.2.2]

theorem OnDisk.loadGroup (disk : OnDisk v sectors s) (near : v.table * v.blockSectors < 65536)
    (blockSize : s.blockSize = v.blockSize) (inodeSize : s.inodeSize = v.inodeSize)
    (sectorNum : s.sectorNum = v.blockSectors) :
    ∃ t, Boot.loadGroup sectors s v.blockSectors = some t ∧ Ready v sectors t ∧
      t.mem = s.mem.overlay 0x20000 v.blockSize (fun i => v.bytes (v.blockSize + i)) := by
  have small := v.small
  have blockRoom : 16 ≤ v.blockSize := by
    rcases v.blockSize_cases with ⟨_, size, _⟩ | ⟨_, size, _⟩ <;> omega
  have same := overlay_same v s.mem (by omega : v.blockSize ≤ 0x2000000)
    (by unfold segment32; omega : v.blockSize + v.blockSize ≤ segment32)
  have table : wordAt segment32 (s.mem.overlay 0x20000 v.blockSize
      fun i => v.bytes (v.blockSize + i)) 0x20008 = v.table :=
    (wordAt_move same (by omega : 8 + 2 ≤ v.blockSize)).trans v.tableWord
  have table_lt : v.table < 32768 := by
    rcases v.blockSize_cases with ⟨_, _, sectors⟩ | ⟨_, _, sectors⟩ <;> rw [sectors] at near <;>
      omega
  obtain ⟨drive, reads⟩ := disk.readDisk v.blockSectors_pos (by omega : v.blockSectors < 65536)
    (by omega : v.blockSectors + v.blockSectors ≤ 0x50000)
  rw [← v.blockSize_sectors] at reads
  refine ⟨{ s with
      mem := s.mem.overlay 0x20000 v.blockSize (fun i => v.bytes (v.blockSize + i))
      drive := drive
      startBlock := v.table * v.blockSectors }, ?_,
    ⟨⟨disk.disk, disk.near⟩, blockSize, inodeSize, sectorNum, rfl⟩, rfl⟩
  unfold Boot.loadGroup
  rw [reads, Option.bind_some]
  dsimp only
  rw [table, Nat.mod_eq_of_lt (by omega : v.blockSectors < 65536),
    imul16_low table_lt (by omega) near]

end Steps

/-! ### The kernel -/

/-- `kernel`, the name in `/boot`. -/
def kernelName : List (BitVec 8) := [107, 101, 114, 110, 101, 108]

/-- `/boot/kernel` is inode `n`, with `count` sectors from block `first` on. -/
structure KernelPath (v : BootVolume) (n first count : Nat) where
  rootFirst : Nat
  rootCount : Nat
  root : v.File 2 rootFirst rootCount
  dir : Nat
  boot : v.Lists rootFirst rootCount bootName dir
  dirFirst : Nat
  dirCount : Nat
  dirFile : v.File dir dirFirst dirCount
  kernel : v.Lists dirFirst dirCount kernelName n
  file : v.File n first count

/-- What `load_kernel` is called with: the two names lie in the loader's data, and the upper half of
`ecx` is clear. -/
structure Started (v : BootVolume) (sectors : Sectors) (s : Loader) (ecx dirName fileName : Nat) :
    Prop extends OnDisk v sectors s where
  fresh : s.sectorNum = 0
  high : ecx < 65536
  dirText : HoldsText segment32 s.mem dirName bootName
  dirLow : dirName + 4 ≤ 0x20000
  fileText : HoldsText segment32 s.mem fileName kernelName
  fileLow : fileName + 6 ≤ 0x20000

/-- The bytes of the disk from a block on. -/
def BootVolume.content (v : BootVolume) (first : Nat) : ByteMemory :=
  fun i => v.bytes (v.blockSize * first + i)

section Kernel

variable {v : BootVolume} {sectors : Sectors} {s t : Loader} {name : List (BitVec 8)}
  {ecx place dir dirFirst dirCount n first count : Nat}

theorem HoldsText.kept {mem other : ByteMemory} {text : List (BitVec 8)}
    (holds : HoldsText segment32 mem place text) (low : place + text.length ≤ 0x20000)
    (same : ∀ x, x < 0x20000 → other x = mem x) : HoldsText segment32 other place text := by
  apply holds.move
  intro i inside
  rw [byteAt_volume (by unfold segment32; omega), byteAt_volume (by unfold segment32; omega),
    same _ (by omega)]

/-- Addresses that 65535 sectors from 0x20000 on do not reach. -/
def Far (x : Nat) : Prop := x < 0x20000 ∨ 0x2020000 ≤ x

theorem overlay_far {mem : ByteMemory} {size x : Nat} {bytes : Nat → BitVec 8} (far : Far x)
    (small : size ≤ 0x2000000) : mem.overlay 0x20000 size bytes x = mem x := by
  unfold Far at far
  exact ByteMemory.overlay_outside (by omega)

theorem Content.far {before after : ByteMemory} {x : Nat}
    (content : Content v first count before after) (file : v.File n first count) (far : Far x) :
    after x = before x := by
  have small := v.small
  have word := file.count_lt
  unfold Far at far
  exact content.outside x (by omega)

/-- A directory at 0x20000 is searched as on the disk. -/
theorem Content.find {before after : ByteMemory}
    (content : Content v dirFirst dirCount before after) (dirFile : v.File dir dirFirst dirCount)
    (lists : v.Lists dirFirst dirCount name n)
    (text : HoldsText segment32 after place name) :
    n ≠ 0 ∧ ∃ least, ∀ fuel, least ≤ fuel → findInode32 fuel after name.length place = some n := by
  obtain ⟨entries, e, holds, reaches, rfl, inside⟩ := lists
  refine ⟨e.inode_ne, entries.length + 1, fun fuel enough => ?_⟩
  have small := v.small
  have word := dirFile.count_lt
  have start : v.blockSize * dirFirst ≤ 4096 * 32767 :=
    Nat.mul_le_mul small.1 (Nat.le_of_lt_succ dirFile.first_lt)
  apply searchLoop32_reaches text (holds.move ?_) reaches enough
  intro i inExtent
  rw [byteAt_volume (by unfold segment32; omega), byteAt_volume (by unfold segment32; omega),
    content.bytes i (by omega)]

theorem Ready.readNamed (ready : Ready v sectors s) {before : ByteMemory}
    (content : Content v dirFirst dirCount before s.mem) (dirFile : v.File dir dirFirst dirCount)
    (lists : v.Lists dirFirst dirCount name n) (text : HoldsText segment32 s.mem place name)
    (file : v.File n first count) :
    ∃ t least, (∀ fuel, least ≤ fuel →
        Boot.readNamed sectors fuel s name.length place = some (t, true)) ∧
      Ready v sectors t ∧ Content v first count s.mem t.mem := by
  obtain ⟨nonzero, least, found⟩ := content.find dirFile lists text
  obtain ⟨t, reads, readyAfter, contentAfter⟩ := ready.readBlocks file (by decide : 0 < 65536)
  refine ⟨t, least, fun fuel enough => ?_, readyAfter, contentAfter⟩
  unfold Boot.readNamed
  rw [found fuel enough, Option.bind_some, if_neg nonzero, reads]
  rfl

/-- The kernel's sectors come to 0x20000. -/
theorem loadKernel_content (path : KernelPath v n first count) {dirName fileName : Nat}
    (started : Started v sectors s ecx dirName fileName) :
    ∃ fuel t, Boot.loadKernel sectors fuel s ecx dirName fileName = some (t, true) ∧
      (∀ i, i < 512 * count → t.mem (0x20000 + i) = v.content first i) ∧
      ∀ x, Far x → t.mem x = s.mem x := by
  obtain ⟨super, loadsSuper, diskSuper, blockSize, inodeSize, sectorNum, memSuper⟩ :=
    started.toOnDisk.loadSuper started.fresh started.high
  have tableNear : v.table * v.blockSectors < 65536 :=
    (Nat.mul_le_mul_right _ (Nat.le_add_right _ _)).trans_lt path.root.near
  obtain ⟨group, loadsGroup, readyGroup, memGroup⟩ :=
    diskSuper.loadGroup tableNear blockSize inodeSize sectorNum
  have farGroup : ∀ x, Far x → group.mem x = s.mem x := by
    intro x far
    rw [memGroup, memSuper, overlay_far far (v.small.1.trans (by decide)),
      overlay_far far (by decide)]
  obtain ⟨root, readsRoot, readyRoot, contentRoot⟩ := readyGroup.readBlocks path.root
    (v.small.2.trans_lt (by decide) : v.blockSectors < 65536)
  have farRoot : ∀ x, Far x → root.mem x = s.mem x := fun x far =>
    (contentRoot.far path.root far).trans (farGroup x far)
  obtain ⟨dir, leastDir, namedDir, readyDir, contentDir⟩ := readyRoot.readNamed contentRoot
    path.root path.boot (started.dirText.kept started.dirLow fun x low => farRoot x (Or.inl low))
    path.dirFile
  have farDir : ∀ x, Far x → dir.mem x = s.mem x := fun x far =>
    (contentDir.far path.dirFile far).trans (farRoot x far)
  obtain ⟨t, leastFile, namedFile, _, contentFile⟩ := readyDir.readNamed contentDir path.dirFile
    path.kernel (started.fileText.kept started.fileLow fun x low => farDir x (Or.inl low)) path.file
  refine ⟨leastDir + leastFile, t, ?_, contentFile.bytes, fun x far =>
    (contentFile.far path.file far).trans (farDir x far)⟩
  unfold Boot.loadKernel
  rw [loadsSuper, Option.bind_some]
  dsimp only
  rw [loadsGroup, Option.bind_some, readsRoot, Option.bind_some]
  have first := namedDir _ (Nat.le_add_right leastDir leastFile)
  have second := namedFile _ (Nat.le_add_left leastFile leastDir)
  rw [show (4 : Nat) = bootName.length from rfl, first, Option.bind_some]
  exact second

end Kernel

/-! ### A small disk -/

/-- The bytes of a disk that are not 0: superblock, group descriptor, the inodes 2, 11 and 12, the
directories `/` and `/boot`, and a kernel with one segment of two bytes. -/
def smallBytes : List (Nat × List (BitVec 8)) :=
  [(1048, [1]), (1112, [128]), (2056, [2]),
    (4252, [4]), (4264, [3]), (5404, [4]), (5416, [4]), (5532, [4]), (5544, [5]),
    (6144, [11, 0, 0, 0, 12, 0, 4, 2]), (6152, bootName),
    (8192, [12, 0, 0, 0, 16, 0, 6, 1]), (8200, kernelName),
    (10268, [52]), (10284, [1]), (10296, [84]), (10300, [0, 0, 3]), (10308, [2]),
    (10324, [0xFA, 0xF4])]

def bytesAt (pieces : List (Nat × List (BitVec 8))) : ByteMemory := fun a =>
  ((pieces.find? fun piece => piece.1 ≤ a ∧ a < piece.1 + piece.2.length).map
    fun piece => piece.2.getD (a - piece.1) 0).getD 0

def smallVolume : BootVolume where
  bytes := bytesAt smallBytes
  log := 1
  inodeSize := 128
  table := 2
  logByte := by decide +kernel
  log_cases := Or.inl rfl
  inodeWord := by decide +kernel
  tableWord := by decide +kernel
  whole := by decide
  room := by decide

def smallDisk : Sectors := fun sector k => bytesAt smallBytes (512 * sector + k)

/-- The loader with its two names. -/
def smallLoader : Loader where
  mem := bytesAt [(0x9000, bootName), (0x9010, kernelName)]
  drive := ⟨fun _ => 0, fun _ => 0, []⟩
  blockSize := 0
  inodeSize := 0
  sectorNum := 0
  startBlock := 0
  partStart := 0

def smallPath : KernelPath smallVolume 12 5 4 where
  rootFirst := 3
  rootCount := 4
  root := ⟨by decide, by decide, by decide, by decide +kernel, by decide, by decide +kernel,
    by decide⟩
  dir := 11
  boot := by
    refine ⟨[], ⟨11, 12, bootName, by decide, by decide, by decide, by decide, by decide,
      by decide⟩, ⟨by decide +kernel, by decide +kernel, by decide +kernel, by decide +kernel⟩,
      ⟨rfl, ?_⟩, rfl,
      by decide⟩
    intro d member
    cases member
  dirFirst := 4
  dirCount := 4
  dirFile := ⟨by decide, by decide, by decide, by decide +kernel, by decide, by decide +kernel,
    by decide⟩
  kernel := by
    refine ⟨[], ⟨12, 16, kernelName, by decide, by decide, by decide, by decide, by decide,
      by decide⟩, ⟨by decide +kernel, by decide +kernel, by decide +kernel, by decide +kernel⟩,
      ⟨rfl, ?_⟩, rfl, by decide⟩
    intro d member
    cases member
  file := ⟨by decide, by decide, by decide, by decide +kernel, by decide, by decide +kernel,
    by decide⟩

theorem smallStarted : Started smallVolume smallDisk smallLoader 0 0x9000 0x9010 where
  disk := by
    funext k
    change bytesAt smallBytes (512 * (0 + k / 512) + k % 512) = bytesAt smallBytes k
    rw [Nat.zero_add, Nat.div_add_mod]
  near := by decide
  fresh := rfl
  high := by decide
  dirText := by decide +kernel
  dirLow := by decide
  fileText := by decide +kernel
  fileLow := by decide

theorem loadKernel_onlyReads_small :
    ∃ fuel t, loadKernel smallDisk fuel smallLoader 0 0x9000 0x9010 = some (t, true) ∧
      OnlyReads smallLoader t := by
  obtain ⟨fuel, t, returns, _, _⟩ := loadKernel_content smallPath smallStarted
  exact ⟨fuel, t, returns, loadKernel_onlyReads returns⟩

theorem loadKernel_blocks1024_empty :
    ∃ super, loadSuper (fun _ _ => 0) smallLoader 0 = some (super, 0) ∧ super.sectorNum = 0 ∧
      (∃ first, readSec (fun _ _ => 0) super 0 (uint32 super.partStart) 0x20000 = some first ∧
        readSec (fun _ _ => 0) first (uint32 (0 - 1)) (uint32 (uint32 super.partStart + 1))
          (0x20000 + 512) = none) ∧
      OverLoader (0x20000 + 512) (setLow 65536 (uint32 (0 - 1)) 256) ∧
      loadKernel (fun _ _ => 0) 8 smallLoader 0 0x9000 0x9010 = none :=
  loadKernel_blocks1024 rfl (by decide) (by decide) rfl

end Boot

end MangoOS
