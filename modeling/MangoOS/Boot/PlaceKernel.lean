/-
`place_kernel` and `memcpy` of boot/loader.S, and the way of the kernel from the disk to its
addresses.

A copy over the loader itself has no result.  `setup_page` has mapped every address to itself.
-/

import MangoOS.Boot.KernelFile
import MangoOS.Kernel.LoadElf
import MangoOS.Memory.ByteCopy

namespace MangoOS

namespace Boot

def memcpyLoop : (rounds esi edi : Nat) → ByteMemory → ByteMemory
  | 0, _, _, mem => mem
  | rounds + 1, esi, edi, mem =>
      memcpyLoop rounds (uint32 (esi + 1)) (uint32 (edi + 1))
        (mem.setByte edi (byteAt segment32 mem esi))

def memcpy (mem : ByteMemory) (dest src size : Nat) : Option ByteMemory :=
  if Loadable dest (loopCount size) then some (memcpyLoop (loopCount size) src dest mem) else none

/-- One round of `place_loop`. -/
def placePhead (mem : ByteMemory) (esi : Nat) : Option ByteMemory :=
  let eax := longAt segment32 mem (esi + 0x10)
  if eax = 0 then some mem
  else
    memcpy mem (longAt segment32 mem (esi + 0x08))
      (uint32 (longAt segment32 mem (esi + 0x04) + 0x20000)) eax

def placeLoop : (rounds esi : Nat) → ByteMemory → Option ByteMemory
  | 0, _, mem => some mem
  | rounds + 1, esi, mem =>
      (placePhead mem esi).bind fun mem => placeLoop rounds (uint32 (esi + 0x20)) mem

def placeKernel (mem : ByteMemory) : Option ByteMemory :=
  placeLoop (loopCount (wordAt segment32 mem 0x2002c))
    (uint32 (longAt segment32 mem 0x2001c + 0x20000)) mem

/-- From `load_kernel` to the jump into the kernel; `display_mem` is what is shown on the screen. -/
def enterKernel (sectors : Sectors) (fuel : Nat) (s : Loader) (ecx dirName fileName memSize : Nat)
    (displayMem : ByteMemory → ByteMemory) : Option ByteMemory :=
  (loadKernel sectors fuel s ecx dirName fileName).bind fun (s, _) =>
    placeKernel (setupPage memSize (displayMem s.mem))

/-! ### One copy -/

theorem memcpyLoop_eq (rounds : Nat) {esi edi : Nat} (mem : ByteMemory)
    (source : esi + rounds ≤ segment32) (target : edi + rounds ≤ segment32) :
    memcpyLoop rounds esi edi mem = kmemcpyLoop mem edi esi rounds := by
  unfold segment32 at source target
  induction rounds generalizing esi edi mem with
  | zero => rfl
  | succ rounds ih =>
      rw [memcpyLoop, kmemcpyLoop, byteAt_volume (by unfold segment32; omega)]
      cases rounds with
      | zero => rfl
      | succ rounds =>
          have nextSource : uint32 (esi + 1) = esi + 1 := by
            unfold uint32
            omega
          have nextTarget : uint32 (edi + 1) = edi + 1 := by
            unfold uint32
            omega
          rw [nextSource, nextTarget]
          exact ih _ (by omega) (by omega)

/-- Two ranges that do not meet. -/
def Apart (a size b other : Nat) : Prop := a + size ≤ b ∨ b + other ≤ a

theorem memcpy_eq (mem : ByteMemory) {dest src size : Nat} (positive : 0 < size)
    (loadable : Loadable dest size) (source : src + size ≤ segment32)
    (apart : Apart dest size src size) :
    memcpy mem dest src size = some (mem.overlay dest size (fun i => mem (src + i))) := by
  have rounds : loopCount size = size := if_neg (by omega)
  unfold memcpy
  rw [rounds, if_pos loadable, memcpyLoop_eq size mem source loadable.2, Option.some.injEq]
  funext x
  by_cases inside : dest ≤ x ∧ x < dest + size
  · obtain ⟨i, rfl⟩ := Nat.exists_eq_add_of_le inside.1
    rw [kmemcpyLoop_inside mem dest src size apart (by omega),
      ByteMemory.overlay_inside (by omega)]
  · rw [kmemcpyLoop_outside mem dest src size (by omega),
      ByteMemory.overlay_outside (by omega)]

/-! ### The program headers of a file -/

def phead (file : ByteMemory) (i : Nat) : ElfPhead := elfPhead file (file.word 0x1c + 32 * i)

def pheadCount (file : ByteMemory) : Nat := half file 0x2c

/-- Where header `i` puts its segment. -/
def Target (file : ByteMemory) (i x : Nat) : Prop :=
  (phead file i).pVaddr ≤ x ∧ x < (phead file i).pVaddr + (phead file i).pFilesz

/-- The first `size` bytes of the file are enough, and no segment is put over a header or a segment
that is still to be read at 0x20000. -/
structure Placeable (file : ByteMemory) (size : Nat) : Prop where
  positive : 0 < pheadCount file
  head : 0x34 ≤ size
  headers : file.word 0x1c + 32 * pheadCount file ≤ size
  sources : ∀ i, i < pheadCount file → (phead file i).pOffset + (phead file i).pFilesz ≤ size
  targets : ∀ i, i < pheadCount file → (phead file i).pFilesz ≠ 0 →
    Loadable (phead file i).pVaddr (phead file i).pFilesz
  overHeader : ∀ i j, i < j → j < pheadCount file →
    Apart (phead file i).pVaddr (phead file i).pFilesz (0x20000 + (file.word 0x1c + 32 * j)) 32
  overSource : ∀ i j, i ≤ j → j < pheadCount file →
    Apart (phead file i).pVaddr (phead file i).pFilesz (0x20000 + (phead file j).pOffset)
      (phead file j).pFilesz

/-- The memory with the segments of the first `count` headers, the last one on top. -/
def placed (file mem : ByteMemory) : (count : Nat) → ByteMemory
  | 0 => mem
  | i + 1 =>
      (placed file mem i).overlay (phead file i).pVaddr (phead file i).pFilesz
        (fun k => file ((phead file i).pOffset + k))

section Placed

variable {file mem : ByteMemory} {size count i k x : Nat}

theorem placed_outside (outside : ∀ i, i < count → ¬ Target file i x) :
    placed file mem count x = mem x := by
  induction count with
  | zero => rfl
  | succ i ih =>
      have away := outside i (Nat.lt_succ_self i)
      unfold Target at away
      rw [placed, ByteMemory.overlay_outside (by omega)]
      exact ih fun j below => outside j (Nat.lt_succ_of_lt below)

theorem placed_inside (below : i < count) (inside : k < (phead file i).pFilesz)
    (last : ∀ j, i < j → j < count → ¬ Target file j ((phead file i).pVaddr + k)) :
    placed file mem count ((phead file i).pVaddr + k) = file ((phead file i).pOffset + k) := by
  induction count with
  | zero => omega
  | succ j ih =>
      rw [placed]
      by_cases here : i = j
      · subst here
        exact ByteMemory.overlay_inside inside
      · have away := last j (by omega) (Nat.lt_succ_self j)
        unfold Target at away
        rw [ByteMemory.overlay_outside (by omega)]
        exact ih (by omega) fun later above less => last later above (Nat.lt_succ_of_lt less)

/-- Bytes of the file that no segment has been put over yet. -/
theorem placed_source (loaded : ∀ k, k < size → mem (0x20000 + k) = file k)
    (apart : ∀ i, i < count → Apart (phead file i).pVaddr (phead file i).pFilesz (0x20000 + k) x)
    {b : Nat} (inside : b < x) (fits : k + x ≤ size) :
    placed file mem count (0x20000 + k + b) = file (k + b) := by
  rw [placed_outside, Nat.add_assoc, loaded _ (by omega)]
  intro i below target
  have away := apart i below
  unfold Target at target
  unfold Apart at away
  omega

theorem longAt_eq_word (mem : ByteMemory) {a : Nat} (small : a + 4 ≤ segment32) :
    longAt segment32 mem a = mem.word a := by
  unfold longAt wordAt ByteMemory.word
  rw [byteAt_volume (by omega), byteAt_volume (by omega), byteAt_volume (by omega),
    byteAt_volume (by omega), Nat.add_assoc a 2 1]
  omega

theorem fileAddress {offset : Nat} (small : 0x20000 + offset < segment32) :
    uint32 (offset + 0x20000) = 0x20000 + offset := by
  unfold segment32 at small
  unfold uint32
  omega

/-- One round puts one segment in its place. -/
theorem Placeable.round (placeable : Placeable file size) (small : 0x20000 + size ≤ segment32)
    (loaded : ∀ k, k < size → mem (0x20000 + k) = file k) (below : i < pheadCount file) :
    placePhead (placed file mem i) (0x20000 + (file.word 0x1c + 32 * i)) =
      some (placed file mem (i + 1)) := by
  have rows : 32 * i + 32 ≤ 32 * pheadCount file := Nat.mul_le_mul_left 32 below
  have inFile : file.word 0x1c + 32 * i + 32 ≤ size := by
    rw [Nat.add_assoc]
    exact (Nat.add_le_add_left rows _).trans placeable.headers
  have header : ∀ b, b < 32 →
      placed file mem i (0x20000 + (file.word 0x1c + 32 * i) + b) =
        file (file.word 0x1c + 32 * i + b) := fun b inside =>
    placed_source loaded (fun j earlier => placeable.overHeader j i earlier below) inside inFile
  have field : ∀ b, b + 4 ≤ 32 →
      longAt segment32 (placed file mem i) (0x20000 + (file.word 0x1c + 32 * i) + b) =
        file.word (file.word 0x1c + 32 * i + b) := by
    intro b inside
    have place : 0x20000 + (file.word 0x1c + 32 * i) + b + 4 ≤ segment32 := by
      generalize file.word 0x1c + 32 * i = start at inFile ⊢
      omega
    rw [longAt_eq_word _ place]
    apply ByteMemory.word_move
    intro k byte
    rw [Nat.add_assoc _ b k, Nat.add_assoc _ b k]
    exact header (b + k) (by omega)
  have filesz : longAt segment32 (placed file mem i) (0x20000 + (file.word 0x1c + 32 * i) + 0x10) =
      (phead file i).pFilesz := field 16 (by decide)
  have vaddr : longAt segment32 (placed file mem i) (0x20000 + (file.word 0x1c + 32 * i) + 0x08) =
      (phead file i).pVaddr := field 8 (by decide)
  have offset : longAt segment32 (placed file mem i) (0x20000 + (file.word 0x1c + 32 * i) + 0x04) =
      (phead file i).pOffset := field 4 (by decide)
  unfold placePhead
  dsimp only
  rw [filesz, vaddr, offset]
  by_cases empty : (phead file i).pFilesz = 0
  · rw [if_pos empty, placed, empty, ByteMemory.overlay_zero]
  · have source := placeable.sources i below
    have room : 0x20000 + (phead file i).pOffset + (phead file i).pFilesz ≤ segment32 := by omega
    have start := fileAddress (by omega : 0x20000 + (phead file i).pOffset < segment32)
    have bytes : ∀ k, k < (phead file i).pFilesz →
        placed file mem i (0x20000 + (phead file i).pOffset + k) =
          file ((phead file i).pOffset + k) := fun k inside =>
      placed_source loaded
        (fun j earlier => placeable.overSource j i (Nat.le_of_lt earlier) below) inside source
    rw [if_neg empty, start,
      memcpy_eq _ (Nat.pos_of_ne_zero empty) (placeable.targets i below empty) room
        (placeable.overSource i i (Nat.le_refl i) below), placed,
      ByteMemory.overlay_congr bytes]

/-- The loop from header `i` on. -/
theorem Placeable.run (placeable : Placeable file size) (small : 0x20000 + size < segment32)
    (loaded : ∀ k, k < size → mem (0x20000 + k) = file k) {rounds : Nat}
    (left : i + rounds = pheadCount file) :
    placeLoop rounds (uint32 ((file.word 0x1c + 32 * i : Nat) + 0x20000)) (placed file mem i) =
      some (placed file mem (pheadCount file)) := by
  induction rounds generalizing i with
  | zero => rw [placeLoop, ← left, Nat.add_zero]
  | succ rounds ih =>
      have below : i < pheadCount file := by omega
      have rows : 32 * i + 32 ≤ 32 * pheadCount file := Nat.mul_le_mul_left 32 below
      have inFile : file.word 0x1c + 32 * i + 32 ≤ size := by
        rw [Nat.add_assoc]
        exact (Nat.add_le_add_left rows _).trans placeable.headers
      have next : uint32 ((0x20000 + (file.word 0x1c + 32 * i) : Nat) + 0x20) =
          uint32 ((file.word 0x1c + 32 * (i + 1) : Nat) + 0x20000) := by
        rw [Nat.mul_succ, ← Nat.add_assoc (file.word 0x1c)]
        generalize file.word 0x1c + 32 * i = start
        unfold uint32
        omega
      have address : uint32 ((file.word 0x1c + 32 * i : Nat) + 0x20000) =
          0x20000 + (file.word 0x1c + 32 * i) := fileAddress (by omega)
      rw [placeLoop, address, placeable.round (Nat.le_of_lt small) loaded below,
        Option.bind_some, next]
      exact ih (by omega)

theorem placeKernel_eq (placeable : Placeable file size) (small : 0x20000 + size < segment32)
    (loaded : ∀ k, k < size → mem (0x20000 + k) = file k) :
    placeKernel mem = some (placed file mem (pheadCount file)) := by
  have head := placeable.head
  have positive := placeable.positive
  have table : longAt segment32 mem 0x2001c = file.word 0x1c := by
    rw [longAt_eq_word mem (by decide)]
    apply ByteMemory.word_move
    intro k byte
    rw [← loaded (0x1c + k) (by omega), ← Nat.add_assoc]
  have count : wordAt segment32 mem 0x2002c = pheadCount file := by
    have first : mem 0x2002c = file 0x2c := loaded 0x2c (by omega)
    have second : mem 0x2002d = file 0x2d := loaded 0x2d (by omega)
    unfold wordAt pheadCount half
    rw [byteAt_volume (by decide), byteAt_volume (by decide), first, second]
  have rounds : loopCount (pheadCount file) = pheadCount file := if_neg (by omega)
  have run := placeable.run small loaded (Nat.zero_add (pheadCount file))
  unfold placeKernel
  rw [table, count, rounds]
  exact run

end Placed

/-! ### From the disk -/

section Enter

variable {v : BootVolume} {sectors : Sectors} {s : Loader} {file mem : ByteMemory}
  {ecx dirName fileName memSize n first count x : Nat}

/-- The directory and as many tables as it can hold. -/
def LoaderTable (x : Nat) : Prop := kernelPageDir ≤ x ∧ x < 0x601000

theorem setupPage_outside (small : memSize < 4294967296) (positive : 0 < memSize)
    (outside : ¬ LoaderTable x) : setupPage memSize mem x = mem x := by
  have few := tableCount_le small
  have enough : memSize ≤ tableCount memSize * 0x400000 := size_le_tables
  unfold LoaderTable kernelPageDir at outside
  have tables : loopCount (tableCount memSize) = tableCount memSize := if_neg (by omega)
  have entries : loopCount (uint32 ((tableCount memSize : Int) * 1024)) =
      tableCount memSize * 1024 := by
    have same : uint32 ((tableCount memSize : Int) * 1024) = tableCount memSize * 1024 := by
      unfold uint32
      omega
    rw [same]
    exact if_neg (by omega)
  unfold setupPage
  simp only [tables, entries]
  unfold kernelPageDir pageTableBase
  rw [stosLoop_outside _ (by omega) (by omega), stosLoop_outside _ (by omega) (by omega)]

/-- The first `count` sectors of a file hold what is placed, they lie below the screen, and no
segment is put over the tables of the loader. -/
structure Bootable (file : ByteMemory) (count : Nat) : Prop where
  placeable : Placeable file (512 * count)
  low : 512 * count ≤ 0x98000
  besides : ∀ i x, i < pheadCount file → Target file i x → ¬ LoaderTable x

end Enter

theorem smallBootable : Bootable (smallVolume.content 5) 4 := by
  have one : pheadCount (smallVolume.content 5) = 1 := by decide +kernel
  have table : (smallVolume.content 5).word 0x1c = 52 := by decide +kernel
  have offset : (phead (smallVolume.content 5) 0).pOffset = 84 := by decide +kernel
  have vaddr : (phead (smallVolume.content 5) 0).pVaddr = 0x30000 := by decide +kernel
  have filesz : (phead (smallVolume.content 5) 0).pFilesz = 2 := by decide +kernel
  refine ⟨⟨by omega, by decide, by omega, ?_, ?_, ?_, ?_⟩, by decide, ?_⟩
  · intro i below
    obtain rfl : i = 0 := by omega
    omega
  · intro i below _
    obtain rfl : i = 0 := by omega
    rw [vaddr, filesz]
    decide
  · intro i j less below
    omega
  · intro i j less below
    obtain rfl : j = 0 := by omega
    obtain rfl : i = 0 := by omega
    unfold Apart
    omega
  · intro i x below target table
    obtain rfl : i = 0 := by omega
    unfold Target at target
    unfold LoaderTable kernelPageDir at table
    omega

end Boot

end MangoOS
