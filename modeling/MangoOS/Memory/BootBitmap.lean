/-
`bitmap_init` (mm/bitmap.c): the bitmap that the boot memory layout leaves.

The loader stores the layout at 0x10000, 1024 bytes below `BITMAP_START`; what lies
behind those 1024 bytes of the layout is the bitmap itself.
-/

import Mathlib.Algebra.BigOperators.Group.List.Basic
import Mathlib.Algebra.Order.Ring.Int
import MangoOS.Library.ByteMemory
import MangoOS.Library.Words
import MangoOS.Memory.Bitmap
import MangoOS.Memory.Pages

namespace MangoOS

def freeMemStart : Int := 0x601000

/-- A `mem_layout_t`. -/
structure MemLayout where
  start : Int
  size : Int
  type : Nat
  deriving DecidableEq, Repr

/-- The memory from 0x10000 on: `low` up to the bitmap, then the bitmap. -/
def layoutMemory (low : ByteMemory) (bitmap : BitMap) : ByteMemory :=
  fun k => if k < 1024 then low k else bitmap.base (k - 1024)

/-- A `long long` in memory. -/
def ByteMemory.long (mem : ByteMemory) (a : Nat) : Int :=
  ((mem.word a + 4294967296 * mem.word (a + 4) : Nat) + 9223372036854775808 : Int) %
    18446744073709551616 - 9223372036854775808

/-- `layout[i]`. -/
def ByteMemory.layout (mem : ByteMemory) (i : Nat) : MemLayout where
  start := mem.long (20 * i)
  size := mem.long (20 * i + 8)
  type := mem.word (20 * i + 16)

/-- `kmemset` over the bytes of the bitmap. -/
def BitMap.memset (bitmap : BitMap) (value : BitVec 8) : (first count : Nat) → BitMap
  | _, 0 => bitmap
  | first, count + 1 =>
      BitMap.memset { bitmap with base := Function.update bitmap.base first value } value
        (first + 1) count

def bitmapSetBytes (bitmap : BitMap) (sbytes nbytes : Int) (used : Bool) : BitMap :=
  if nbytes ≤ 0 then bitmap
  else bitmap.memset (if used then 0xff#8 else 0#8) sbytes.toNat nbytes.toNat

namespace MemLayout

/-- `start` of a region: its first page, above the kernel. -/
def firstPage (layout : MemLayout) : Nat :=
  if layout.start < freeMemStart then
    uint32 ((freeMemStart + (pageSize - 1)).tdiv pageSize)
  else uint32 ((layout.start + (pageSize - 1)).tdiv pageSize)

/-- `end` of a region: the page its end lies in. -/
def endPage (layout : MemLayout) : Nat :=
  uint32 ((layout.start + layout.size).tdiv pageSize)

/-- The first byte of whole bits. -/
def firstByte (layout : MemLayout) : Nat :=
  if layout.firstPage % 8 ≠ 0 then (layout.firstPage + 7) / 8 else layout.firstPage / 8

/-- Only memory that can be used and reaches beyond the kernel is marked free. -/
def Marked (layout : MemLayout) : Prop :=
  layout.type = 1 ∧ freeMemStart < layout.start + layout.size

instance (layout : MemLayout) : Decidable layout.Marked := by
  unfold Marked
  infer_instance

end MemLayout

/-- One round of `bitmap_init`, for a region that is marked free. -/
def bitmapFreeRegion (bitmap : BitMap) (layout : MemLayout) : BitMap :=
  let start := layout.firstPage
  let bitmap :=
    if start % 8 ≠ 0 then bitmapSetBits bitmap (int32 start) false (8 - start % 8) true
    else bitmap
  let «end» := layout.endPage
  let bitmap :=
    if «end» % 8 ≠ 0 then bitmapSetBits bitmap (int32 «end») false («end» % 8) false
    else bitmap
  bitmapSetBytes bitmap (int32 layout.firstByte)
    (int32 («end» / 8 - layout.firstByte : Int)) false

/-- The body of the loop of `bitmap_init`. -/
def bitmapRegion (bitmap : BitMap) (layout : MemLayout) : BitMap :=
  if layout.type ≠ 1 then bitmap
  else if layout.start + layout.size ≤ freeMemStart then bitmap
  else bitmapFreeRegion bitmap layout

/-- The loop of `bitmap_init` from `layout[i]` on; the second component is `nsize`. -/
def bitmapInitLoop (low : ByteMemory) : (fuel i nsize : Nat) → BitMap → Option (BitMap × Nat)
  | 0, _, _, _ => none
  | fuel + 1, i, nsize, bitmap =>
      let layout := (layoutMemory low bitmap).layout i
      let nsize := uint32 (nsize + layout.size)
      let bitmap := bitmapRegion bitmap layout
      if ((layoutMemory low bitmap).layout (i + 1)).start ≠ 0 then
        bitmapInitLoop low fuel (i + 1) nsize bitmap
      else some (bitmap, nsize)

/-- `bitmap.nbits`, from the sum of the sizes. -/
def bitmapPages (nsize : Nat) : Nat :=
  if nsize % pageSize = 0 then nsize / pageSize
  else uint32 (nsize + pageSize - 1) / pageSize

def bitmapInit (fuel : Nat) (low : ByteMemory) (bitmap : BitMap) : Option BitMap :=
  let bitmap := bitmapSetBytes bitmap 0 (128 * 1024) true
  (bitmapInitLoop low fuel 0 0 bitmap).map fun (bitmap, nsize) =>
    { bitmap with nbits := bitmapPages nsize }

/-! ### The bits of one region -/

theorem BitMap.memset_base (bitmap : BitMap) (value : BitVec 8) (first count byte : Nat) :
    (bitmap.memset value first count).base byte =
      if first ≤ byte ∧ byte < first + count then value else bitmap.base byte := by
  induction count generalizing bitmap first with
  | zero => rw [BitMap.memset, if_neg (by omega)]
  | succ count ih =>
      rw [BitMap.memset, ih]
      by_cases isFirst : byte = first
      · rw [if_neg (by omega), if_pos (by omega), isFirst]
        exact Function.update_self first value bitmap.base
      · simp only [Function.update_of_ne isFirst]
        by_cases inside : first ≤ byte ∧ byte < first + (count + 1)
        · rw [if_pos (by omega), if_pos inside]
        · rw [if_neg (by omega), if_neg inside]

theorem bitmapSetBytes_used (bitmap : BitMap) (sbytes : Nat) (nbytes : Int) (used : Bool)
    (p : Nat) :
    (bitmapSetBytes bitmap sbytes nbytes used).used p =
      if (8 * sbytes : Int) ≤ p ∧ (p : Int) < 8 * (sbytes + nbytes) then used
      else bitmap.used p := by
  unfold bitmapSetBytes
  by_cases nothing : nbytes ≤ 0
  · rw [if_pos nothing, if_neg (by omega)]
  · rw [if_neg nothing]
    unfold BitMap.used
    rw [BitMap.memset_base, Int.toNat_natCast]
    by_cases inside : (8 * sbytes : Int) ≤ p ∧ (p : Int) < 8 * (sbytes + nbytes)
    · rw [if_pos (by omega), if_pos inside]
      have inByte : p % 8 < 8 := Nat.mod_lt p (by decide)
      cases used with
      | false => simp
      | true =>
          have ones : ∀ i, i < 8 → (0xff#8).getLsbD i = true := by decide
          exact ones (p % 8) inByte
    · rw [if_neg (by omega), if_neg inside]

namespace MemLayout

variable {layout : MemLayout} {p : Nat}

/-- A region of memory below 4 GB. -/
structure Below (layout : MemLayout) : Prop where
  start : 0 ≤ layout.start
  size : 0 ≤ layout.size
  finish : layout.start + layout.size ≤ 4294967296

theorem Below.firstPage_eq (below : layout.Below) :
    (layout.firstPage : Int) = (max layout.start freeMemStart + 4095) / 4096 := by
  have start := below.start
  have size := below.size
  have finish := below.finish
  unfold firstPage freeMemStart uint32 pageSize
  split
  · rw [Int.tdiv_eq_ediv_of_nonneg (by omega)]
    omega
  · rw [Int.tdiv_eq_ediv_of_nonneg (by omega)]
    omega

theorem Below.endPage_eq (below : layout.Below) :
    (layout.endPage : Int) = (layout.start + layout.size) / 4096 := by
  have start := below.start
  have size := below.size
  have finish := below.finish
  unfold endPage uint32 pageSize
  rw [Int.tdiv_eq_ediv_of_nonneg (by omega)]
  omega

/-- The whole pages of a region that may be used. -/
def Whole (layout : MemLayout) (p : Nat) : Prop :=
  layout.firstPage ≤ p ∧ p < layout.endPage

/-- The pages that are cleared with the bits around the ends of a region. -/
def Rounded (layout : MemLayout) (p : Nat) : Prop :=
  layout.firstPage % 8 ≠ 0 ∧ layout.firstPage ≤ p ∧ p < 8 * ((layout.firstPage + 7) / 8) ∨
    layout.endPage % 8 ≠ 0 ∧ 8 * (layout.endPage / 8) ≤ p ∧ p < layout.endPage

private theorem cleared_iff {set : Bool} {c : Prop} [Decidable c] :
    (if c then false else set) = false ↔ set = false ∨ c := by
  by_cases inside : c
  · simp [inside]
  · simp [inside]

/-- The leading bits of a region, up to the next whole byte. -/
private theorem leading_used (bitmap : BitMap) (first p : Nat) (small : first ≤ 1048576) :
    (if first % 8 ≠ 0 then bitmapSetBits bitmap (int32 first) false (8 - first % 8) true
      else bitmap).used p = false ↔
      bitmap.used p = false ∨ first % 8 ≠ 0 ∧ first ≤ p ∧ p < 8 * ((first + 7) / 8) := by
  by_cases partly : first % 8 ≠ 0
  · rw [if_pos partly, int32_of_range (by omega) (by omega),
      bitmapSetBits_used bitmap first (8 - first % 8) p false (by omega), cleared_iff]
    have same : first ≤ p ∧ p < first + (8 - first % 8) ↔
        first % 8 ≠ 0 ∧ first ≤ p ∧ p < 8 * ((first + 7) / 8) := by omega
    rw [same]
  · rw [if_neg partly]
    have none : ¬ (first % 8 ≠ 0 ∧ first ≤ p ∧ p < 8 * ((first + 7) / 8)) := by omega
    simp only [none, or_false]

/-- The trailing bits of a region, down to the last whole byte. -/
private theorem trailing_used (bitmap : BitMap) (last p : Nat) (small : last ≤ 1048576) :
    (if last % 8 ≠ 0 then bitmapSetBits bitmap (int32 last) false (last % 8) false
      else bitmap).used p = false ↔
      bitmap.used p = false ∨ last % 8 ≠ 0 ∧ 8 * (last / 8) ≤ p ∧ p < last := by
  by_cases partly : last % 8 ≠ 0
  · rw [if_pos partly, int32_of_range (by omega) (by omega),
      bitmapSetBits_used_down bitmap last (last % 8) p false (by omega) (by omega), cleared_iff]
    have same : last - last % 8 ≤ p ∧ p < last ↔
        last % 8 ≠ 0 ∧ 8 * (last / 8) ≤ p ∧ p < last := by omega
    rw [same]
  · rw [if_neg partly]
    have none : ¬ (last % 8 ≠ 0 ∧ 8 * (last / 8) ≤ p ∧ p < last) := by omega
    simp only [none, or_false]

/-- The whole pages are cleared, and what is rounded to bytes. -/
theorem bitmapFreeRegion_used (below : layout.Below) (bitmap : BitMap) (p : Nat) :
    (bitmapFreeRegion bitmap layout).used p = false ↔
      bitmap.used p = false ∨ layout.Whole p ∨ layout.Rounded p := by
  have start := below.start
  have size := below.size
  have finish := below.finish
  have first := below.firstPage_eq
  have last := below.endPage_eq
  have firstSmall : layout.firstPage ≤ 1048576 := by
    unfold freeMemStart at first
    omega
  have lastSmall : layout.endPage ≤ 1048576 := by omega
  have byte : layout.firstByte = (layout.firstPage + 7) / 8 := by
    unfold firstByte
    split <;> omega
  unfold bitmapFreeRegion
  simp only
  rw [int32_of_range (by omega : -2147483648 ≤ (layout.firstByte : Int)) (by omega),
    int32_of_range (by omega : -2147483648 ≤ ((layout.endPage : Int) / 8 - layout.firstByte))
      (by omega),
    bitmapSetBytes_used, cleared_iff, trailing_used _ _ p lastSmall,
    leading_used bitmap _ p firstSmall]
  -- the three pieces together
  have pieces : ((layout.firstPage % 8 ≠ 0 ∧ layout.firstPage ≤ p ∧
        p < 8 * ((layout.firstPage + 7) / 8)) ∨
      (layout.endPage % 8 ≠ 0 ∧ 8 * (layout.endPage / 8) ≤ p ∧ p < layout.endPage) ∨
      ((8 * layout.firstByte : Int) ≤ p ∧
        (p : Int) < 8 * (layout.firstByte + ((layout.endPage : Int) / 8 - layout.firstByte)))) ↔
      layout.Whole p ∨ layout.Rounded p := by
    unfold Whole Rounded
    rw [byte]
    omega
  rw [← pieces, or_assoc, or_assoc]

/-- A page that a scanned region clears. -/
def Clears (layout : MemLayout) (p : Nat) : Prop :=
  layout.Marked ∧ (layout.Whole p ∨ layout.Rounded p)

theorem bitmapRegion_used (below : layout.Marked → layout.Below) (bitmap : BitMap) (p : Nat) :
    (bitmapRegion bitmap layout).used p = false ↔ bitmap.used p = false ∨ layout.Clears p := by
  unfold bitmapRegion Clears Marked
  by_cases reserved : layout.type ≠ 1
  · rw [if_pos reserved]
    simp [reserved]
  · rw [if_neg reserved]
    by_cases low : layout.start + layout.size ≤ freeMemStart
    · rw [if_pos low]
      have notAbove : ¬ freeMemStart < layout.start + layout.size := by omega
      simp [notAbove]
    · have above : freeMemStart < layout.start + layout.size := by omega
      have usable : layout.type = 1 := not_not.mp reserved
      rw [if_neg low, bitmapFreeRegion_used (below ⟨usable, above⟩)]
      simp [above, usable]

/-- A page that lies whole inside a region of memory, above the kernel. -/
def Usable (layout : MemLayout) (p : Nat) : Prop :=
  layout.type = 1 ∧ freeMemStart ≤ 4096 * (p : Int) ∧ layout.start ≤ 4096 * (p : Int) ∧
    4096 * ((p : Int) + 1) ≤ layout.start + layout.size

theorem Below.usable_iff (below : layout.Below) :
    layout.Usable p ↔ layout.Marked ∧ layout.Whole p := by
  have first := below.firstPage_eq
  have last := below.endPage_eq
  unfold Usable Marked Whole
  unfold freeMemStart at first ⊢
  constructor
  · rintro ⟨usable, above, lower, upper⟩
    refine ⟨⟨usable, by omega⟩, by omega, by omega⟩
  · rintro ⟨⟨usable, beyond⟩, lower, upper⟩
    refine ⟨usable, by omega, by omega, by omega⟩

/-- Nothing below the last whole byte in front of `FREE_MEM_START` is cleared. -/
theorem Below.clears_above (below : layout.Below) (clears : layout.Clears p) :
    0 < p ∧ p < 1048576 := by
  have first := below.firstPage_eq
  have last := below.endPage_eq
  have finish := below.finish
  have start := below.start
  have size := below.size
  obtain ⟨⟨_, beyond⟩, pieces⟩ := clears
  unfold freeMemStart at first beyond
  unfold Whole Rounded at pieces
  omega

end MemLayout

/-! ### The whole layout -/

/-- What the loader leaves: the regions it was told, and clear memory behind them. -/
structure Loaded (low : ByteMemory) (regions : List MemLayout) : Prop where
  entries : ∀ i region, regions[i]? = some region → low.layout i = region
  clear : ∀ k, 20 * regions.length ≤ k → k < 1024 → low k = 0#8
  below : ∀ region, region ∈ regions → region.Below

/-- The regions the loop comes to: it ends in front of one that starts at 0. -/
def scanned : List MemLayout → List MemLayout
  | [] => []
  | region :: rest => region :: rest.takeWhile (fun region => region.start ≠ 0)

/-- The regions behind. -/
def missed : List MemLayout → List MemLayout
  | [] => []
  | _ :: rest => rest.dropWhile (fun region => region.start ≠ 0)

theorem scanned_missed (regions : List MemLayout) :
    scanned regions ++ missed regions = regions := by
  cases regions with
  | nil => rfl
  | cons region rest =>
      change region :: (rest.takeWhile _ ++ rest.dropWhile _) = region :: rest
      rw [List.takeWhile_append_dropWhile]

/-- The same where only the memory that is marked free has to lie below 4 GB. -/
structure Stored (low : ByteMemory) (regions : List MemLayout) : Prop where
  entries : ∀ i region, regions[i]? = some region → low.layout i = region
  clear : ∀ k, 20 * regions.length ≤ k → k < 1024 → low k = 0#8
  below : ∀ region, region ∈ scanned regions → region.Marked → region.Below

/-- The layout lies in front of the bitmap as long as it has 50 entries. -/
theorem layoutMemory_layout (low : ByteMemory) (bitmap : BitMap) {i : Nat} (few : i ≤ 50) :
    (layoutMemory low bitmap).layout i = low.layout i := by
  have word : ∀ a, a + 4 ≤ 1024 → (layoutMemory low bitmap).word a = low.word a := by
    intro a inside
    apply ByteMemory.word_congr
    intro x _ upper
    exact if_pos (by omega)
  have long : ∀ a, a + 8 ≤ 1024 → (layoutMemory low bitmap).long a = low.long a := by
    intro a inside
    unfold ByteMemory.long
    rw [word a (by omega), word (a + 4) (by omega)]
  unfold ByteMemory.layout
  rw [long (20 * i) (by omega), long (20 * i + 8) (by omega), word (20 * i + 16) (by omega)]

variable {low : ByteMemory} {regions : List MemLayout} {bitmap after : BitMap} {fuel : Nat}

theorem Loaded.scanned_below (loaded : Loaded low regions) (region : MemLayout)
    (member : region ∈ scanned regions) : region.Below := by
  apply loaded.below region
  rw [← scanned_missed regions]
  exact List.mem_append_left _ member

theorem Loaded.stored (loaded : Loaded low regions) : Stored low regions where
  entries := loaded.entries
  clear := loaded.clear
  below := fun region member _ => loaded.scanned_below region member

theorem Stored.ended (stored : Stored low regions) {i : Nat} (behind : regions.length ≤ i)
    (few : i ≤ 50) : low.layout i = { start := 0, size := 0, type := 0 } := by
  have word : ∀ a, 20 * i ≤ a → a + 4 ≤ 1024 → low.word a = 0 := by
    intro a lower upper
    unfold ByteMemory.word
    rw [stored.clear a (by omega) (by omega), stored.clear (a + 1) (by omega) (by omega),
      stored.clear (a + 2) (by omega) (by omega), stored.clear (a + 3) (by omega) (by omega)]
    rfl
  unfold ByteMemory.layout ByteMemory.long
  rw [word (20 * i) (by omega) (by omega), word (20 * i + 4) (by omega) (by omega),
    word (20 * i + 8) (by omega) (by omega), word (20 * i + 8 + 4) (by omega) (by omega),
    word (20 * i + 16) (by omega) (by omega)]
  rfl

/-- The sum of the sizes, as `uint`. -/
def sizeSum (regions : List MemLayout) : Int := (regions.map MemLayout.size).sum

/-- The loop from one region on: it handles that region and those behind it that do not
start at 0. -/
private theorem bitmapInitLoop_spec (stored : Stored low regions)
    (few : regions.length ≤ 50) (rest : List MemLayout) (region : MemLayout) (i nsize : Nat)
    (bitmap : BitMap) (fuel : Nat) (enough : rest.length < fuel)
    (here : low.layout i = region) (behind : regions.drop (i + 1) = rest)
    (inside : i + 1 + rest.length = regions.length) :
    bitmapInitLoop low fuel i nsize bitmap =
      some ((rest.takeWhile (fun region => region.start ≠ 0)).foldl bitmapRegion
          (bitmapRegion bitmap region),
        uint32 (nsize + sizeSum (region :: rest.takeWhile (fun region => region.start ≠ 0)))) := by
  induction rest generalizing region i nsize bitmap fuel with
  | nil =>
      obtain ⟨fuel, rfl⟩ : ∃ n, fuel = n + 1 := ⟨fuel - 1, by omega⟩
      have length : i + 1 = regions.length := inside
      rw [bitmapInitLoop]
      simp only [layoutMemory_layout low _ (by omega : i ≤ 50),
        layoutMemory_layout low _ (by omega : i + 1 ≤ 50),
        stored.ended (Nat.le_of_eq length.symm) (by omega), here]
      simp [sizeSum]
  | cons next rest ih =>
      obtain ⟨fuel, rfl⟩ : ∃ n, fuel = n + 1 := ⟨fuel - 1, by omega⟩
      have length : i + 1 + (rest.length + 1) = regions.length := inside
      have isNext : regions[i + 1]? = some next := by
        rw [← List.head?_drop, behind]
        rfl
      have entry := stored.entries (i + 1) next isNext
      have further : regions.drop (i + 1 + 1) = rest := by
        rw [← List.drop_drop, behind]
        rfl
      rw [bitmapInitLoop]
      simp only [layoutMemory_layout low _ (by omega : i ≤ 50),
        layoutMemory_layout low _ (by omega : i + 1 ≤ 50), here, entry]
      by_cases starts : next.start = 0
      · simp [starts, sizeSum]
      · rw [if_pos starts, ih next (i + 1) _ _ fuel (by rw [List.length_cons] at enough; omega)
          entry further (by omega)]
        simp [starts, sizeSum, uint32_add, Int.add_assoc]

private theorem bitmapInitLoop_start (stored : Stored low regions)
    (few : regions.length ≤ 50) (bitmap : BitMap) (enough : regions.length < fuel) :
    bitmapInitLoop low fuel 0 0 bitmap =
      some ((scanned regions).foldl bitmapRegion bitmap, uint32 (sizeSum (scanned regions))) := by
  cases regions with
  | nil =>
      obtain ⟨fuel, rfl⟩ : ∃ n, fuel = n + 1 := ⟨fuel - 1, by omega⟩
      simp only [bitmapInitLoop, layoutMemory_layout low _ (by decide : 0 ≤ 50),
        layoutMemory_layout low _ (by decide : 0 + 1 ≤ 50),
        stored.ended (Nat.le_refl 0) (by decide), stored.ended (Nat.zero_le 1) (by decide)]
      rfl
  | cons region rest =>
      have run := bitmapInitLoop_spec stored few rest region 0 0 bitmap fuel
        (by rw [List.length_cons] at enough; omega) (stored.entries 0 region rfl) rfl
        (by rw [List.length_cons]; omega)
      rw [run, Int.natCast_zero, Int.zero_add]
      rfl

/-- `bitmap_init` as one pass over the scanned regions. -/
theorem bitmapInit_spec (stored : Stored low regions) (few : regions.length ≤ 50)
    (bitmap : BitMap) (enough : regions.length < fuel) :
    bitmapInit fuel low bitmap = some
      { (scanned regions).foldl bitmapRegion (bitmapSetBytes bitmap 0 (128 * 1024) true) with
        nbits := bitmapPages (uint32 (sizeSum (scanned regions))) } := by
  have loop := bitmapInitLoop_start stored few (bitmapSetBytes bitmap 0 (128 * 1024) true) enough
  unfold bitmapInit
  change Option.map _ (bitmapInitLoop low fuel 0 0 (bitmapSetBytes bitmap 0 (128 * 1024) true)) = _
  rw [loop, Option.map_some]

theorem bitmapRegions_used (regions : List MemLayout)
    (below : ∀ region, region ∈ regions → region.Marked → region.Below) (bitmap : BitMap) (p : Nat) :
    (regions.foldl bitmapRegion bitmap).used p = false ↔
      bitmap.used p = false ∨ ∃ region, region ∈ regions ∧ region.Clears p := by
  induction regions generalizing bitmap with
  | nil => simp
  | cons region regions ih =>
      have inTail : ∀ other, other ∈ regions → other.Marked → other.Below :=
        fun other member => below other (List.mem_cons_of_mem region member)
      rw [List.foldl_cons, ih inTail,
        MemLayout.bitmapRegion_used (below region (List.mem_cons_self ..))]
      simp only [List.mem_cons, exists_eq_or_imp, or_assoc]

theorem bitmapInit_used (stored : Stored low regions) (few : regions.length ≤ 50)
    (enough : regions.length < fuel) (called : bitmapInit fuel low bitmap = some after)
    {p : Nat} (inside : p < 1048576) :
    after.used p = false ↔ ∃ region, region ∈ scanned regions ∧ region.Clears p := by
  rw [bitmapInit_spec stored few bitmap enough, Option.some.injEq] at called
  subst called
  change ((scanned regions).foldl bitmapRegion _).used p = false ↔ _
  have filled : (bitmapSetBytes bitmap ((0 : Nat) : Int) (128 * 1024) true).used p = true := by
    rw [bitmapSetBytes_used, if_pos (by omega)]
  rw [Int.natCast_zero] at filled
  rw [bitmapRegions_used _ stored.below, filled]
  simp

/-! ### Exact marking -/

/-- A page that lies whole in one region of memory above the kernel. -/
def UsablePage (regions : List MemLayout) (p : Nat) : Prop :=
  ∃ region, region ∈ regions ∧ region.Usable p

/-- The bitmap marks the pages that may be used as free, and no others. -/
def MarksExactly (regions : List MemLayout) (bitmap : BitMap) : Prop :=
  ∀ p, p < 1048576 → (bitmap.used p = false ↔ UsablePage regions p)

/-- No region that is missed has a page of its own to give. -/
def Reached (regions : List MemLayout) : Prop :=
  ∀ region, region ∈ missed regions → ∀ p, region.Usable p →
    ∃ other, other ∈ scanned regions ∧ other.Clears p

/-- What is cleared around the ends of a region may be used too. -/
def RoundsInside (regions : List MemLayout) : Prop :=
  ∀ region, region ∈ scanned regions → region.Marked → ∀ p, region.Rounded p →
    UsablePage regions p

private theorem usable_small (loaded : Loaded low regions) {p : Nat}
    (usable : UsablePage regions p) : p < 1048576 := by
  obtain ⟨region, member, _, _, _, upper⟩ := usable
  have finish := (loaded.below region member).finish
  omega

/-- Every usable page is cleared if no region is missed. -/
theorem usable_cleared (loaded : Loaded low regions) (reached : Reached regions) {p : Nat}
    (usable : UsablePage regions p) :
    ∃ region, region ∈ scanned regions ∧ region.Clears p := by
  obtain ⟨region, member, usable⟩ := usable
  have below := loaded.below region member
  rw [← scanned_missed regions] at member
  rcases List.mem_append.mp member with inScanned | inMissed
  · obtain ⟨marked, whole⟩ := below.usable_iff.mp usable
    exact ⟨region, inScanned, marked, Or.inl whole⟩
  · exact reached region inMissed p usable

/-- The marking is exact exactly where no region is missed and the rounding to bytes of the
bitmap stays within usable memory. -/
theorem bitmapInit_marksExactly_iff (loaded : Loaded low regions)
    (few : regions.length ≤ 50) (enough : regions.length < fuel) (bitmap : BitMap) :
    (∃ after, bitmapInit fuel low bitmap = some after ∧ MarksExactly regions after) ↔
      Reached regions ∧ RoundsInside regions := by
  constructor
  · rintro ⟨after, called, exactly⟩
    constructor
    · intro region member p usable
      have inRegions : region ∈ regions := by
        rw [← scanned_missed regions]
        exact List.mem_append_right _ member
      have usablePage : UsablePage regions p := ⟨region, inRegions, usable⟩
      have small := usable_small loaded usablePage
      have clear := (exactly p small).mpr usablePage
      exact (bitmapInit_used loaded.stored few enough called small).mp clear
    · intro region member marked p rounded
      have clears : region.Clears p := ⟨marked, Or.inr rounded⟩
      have small := ((loaded.scanned_below region member).clears_above clears).2
      have clear := (bitmapInit_used loaded.stored few enough called small).mpr ⟨region, member, clears⟩
      exact (exactly p small).mp clear
  · rintro ⟨reached, inside⟩
    refine ⟨_, bitmapInit_spec loaded.stored few bitmap enough, ?_⟩
    intro p small
    rw [bitmapInit_used loaded.stored few enough (bitmapInit_spec loaded.stored few bitmap enough) small]
    constructor
    · rintro ⟨region, member, marked, pieces⟩
      rcases pieces with whole | rounded
      · have usable := (loaded.scanned_below region member).usable_iff.mpr ⟨marked, whole⟩
        refine ⟨region, ?_, usable⟩
        rw [← scanned_missed regions]
        exact List.mem_append_left _ member
      · exact inside region member marked p rounded
    · intro usable
      exact usable_cleared loaded reached usable

/-- The area as the loader leaves it for one region of memory. -/
def oneRegion (start size : Nat) : ByteMemory :=
  ((ByteMemory.setWord (fun _ => 0#8) 0 start).setWord 8 size).setWord 16 1

theorem oneRegion_loaded {start size : Nat} (startSmall : start < 4294967296)
    (sizeSmall : size < 4294967296) (finish : start + size ≤ 4294967296) :
    Loaded (oneRegion start size) [{ start := start, size := size, type := 1 }] := by
  have words : (oneRegion start size).word 0 = start ∧ (oneRegion start size).word 4 = 0 ∧
      (oneRegion start size).word 8 = size ∧ (oneRegion start size).word 12 = 0 ∧
      (oneRegion start size).word 16 = 1 := by
    unfold oneRegion
    refine ⟨?_, ?_, ?_, ?_, ?_⟩
    · rw [ByteMemory.word_setWord_other _ _ (by decide), ByteMemory.word_setWord_other _ _
        (by decide), ByteMemory.word_setWord, Nat.mod_eq_of_lt startSmall]
    · rw [ByteMemory.word_setWord_other _ _ (by decide), ByteMemory.word_setWord_other _ _
        (by decide), ByteMemory.word_setWord_other _ _ (by decide)]
      rfl
    · rw [ByteMemory.word_setWord_other _ _ (by decide), ByteMemory.word_setWord,
        Nat.mod_eq_of_lt sizeSmall]
    · rw [ByteMemory.word_setWord_other _ _ (by decide), ByteMemory.word_setWord_other _ _
        (by decide), ByteMemory.word_setWord_other _ _ (by decide)]
      rfl
    · rw [ByteMemory.word_setWord]
  obtain ⟨startLow, startHigh, sizeLow, sizeHigh, type⟩ := words
  constructor
  · intro i region isRegion
    cases i with
    | zero =>
        rw [List.getElem?_cons_zero, Option.some.injEq] at isRegion
        rw [← isRegion]
        unfold ByteMemory.layout ByteMemory.long
        simp only [Nat.mul_zero, Nat.zero_add, Nat.reduceAdd, startLow, startHigh, sizeLow,
          sizeHigh, type, Nat.mul_zero, Nat.add_zero]
        rw [MemLayout.mk.injEq]
        exact ⟨by omega, by omega, rfl⟩
    | succ i => simp at isRegion
  · intro k behind _
    have outside : 20 ≤ k := behind
    unfold oneRegion
    rw [ByteMemory.setWord_other _ _ (by omega), ByteMemory.setWord_other _ _ (by omega),
      ByteMemory.setWord_other _ _ (by omega)]
  · intro region member
    rw [List.mem_singleton] at member
    subst member
    exact ⟨Int.natCast_nonneg _, Int.natCast_nonneg _, by simp only; omega⟩

/-- 128 MB as a small machine reports them above 1 MB. -/
theorem bitmapInit_marksExactly_small :
    (∃ after, bitmapInit 2 (oneRegion 0x100000 0x7ee0000) ⟨0, fun _ => 0#8⟩ = some after ∧
        MarksExactly [⟨0x100000, 0x7ee0000, 1⟩] after) ↔
      Reached [⟨0x100000, 0x7ee0000, 1⟩] ∧ RoundsInside [⟨0x100000, 0x7ee0000, 1⟩] :=
  bitmapInit_marksExactly_iff (oneRegion_loaded (by decide) (by decide) (by decide))
    (by decide) (by decide) _

/-- A region of the one page 0x602: page 0x604 behind it is marked free as well. -/
theorem marksExactly_onePage :
    Loaded (oneRegion 0x602000 0x1000) [⟨0x602000, 0x1000, 1⟩] ∧
      ¬ ∃ after, bitmapInit 2 (oneRegion 0x602000 0x1000) ⟨0, fun _ => 0#8⟩ = some after ∧
        MarksExactly [⟨0x602000, 0x1000, 1⟩] after := by
  have loaded : Loaded (oneRegion 0x602000 0x1000) [⟨0x602000, 0x1000, 1⟩] :=
    oneRegion_loaded (by decide) (by decide) (by decide)
  refine ⟨loaded, ?_⟩
  rintro ⟨after, called, exactly⟩
  have clears : MemLayout.Clears ⟨0x602000, 0x1000, 1⟩ 0x604 := by
    unfold MemLayout.Clears MemLayout.Marked MemLayout.Whole MemLayout.Rounded
    decide
  have clear := (bitmapInit_used loaded.stored (by decide) (by decide) called (by decide)).mpr
    ⟨_, List.mem_singleton_self _, clears⟩
  obtain ⟨region, member, _, _, _, upper⟩ := (exactly 0x604 (by decide)).mp clear
  rw [List.mem_singleton] at member
  subst member
  exact absurd upper (by decide)

/-! ### The bound of the scan -/

/-- Every page that was cleared is below `nbits`. -/
def ClearsBelow (bitmap : BitMap) : Prop :=
  ∀ p, p < 1048576 → bitmap.used p = false → (p : Int) < bitmap.nbits

/-- `count` calls of `alloc_pages(1)`. -/
def allocSingles : Nat → BitMap → List Nat × BitMap
  | 0, bitmap => ([], bitmap)
  | count + 1, bitmap =>
      let (addr, bitmap) := allocPages bitmap 1
      let (rest, bitmap) := allocSingles count bitmap
      (addr :: rest, bitmap)

/-- Repeated `alloc_pages(1)` comes to every usable page. -/
def HandsOutAll (regions : List MemLayout) (bitmap : BitMap) : Prop :=
  ∀ p, UsablePage regions p → ∃ count, p * pageSize ∈ (allocSingles count bitmap).1

/-- The regions end below the page count that their sizes add up to as `uint`, also where
their ends are rounded to bytes of the bitmap. -/
def EndsBelow (regions : List MemLayout) : Prop :=
  ∀ region, region ∈ scanned regions → region.Marked →
    (region.firstPage < region.endPage ∨ region.endPage % 8 ≠ 0 →
      region.endPage ≤ bitmapPages (uint32 (sizeSum (scanned regions)))) ∧
    (region.firstPage % 8 ≠ 0 →
      8 * ((region.firstPage + 7) / 8) ≤ bitmapPages (uint32 (sizeSum (scanned regions))))

theorem bitmapInit_clearsBelow_iff (loaded : Loaded low regions) (few : regions.length ≤ 50)
    (enough : regions.length < fuel) (called : bitmapInit fuel low bitmap = some after) :
    ClearsBelow after ↔ EndsBelow regions := by
  have nbits : after.nbits = bitmapPages (uint32 (sizeSum (scanned regions))) := by
    rw [bitmapInit_spec loaded.stored few bitmap enough, Option.some.injEq] at called
    rw [← called]
  have bits := fun p small =>
    bitmapInit_used (p := p) loaded.stored few enough called small
  unfold ClearsBelow EndsBelow
  rw [nbits]
  generalize bitmapPages (uint32 (sizeSum (scanned regions))) = limit
  constructor
  · intro allBelow region member marked
    have lastBelow : ∀ p, region.Whole p ∨ region.Rounded p → p < limit := by
      intro p pieces
      have clears : region.Clears p := ⟨marked, pieces⟩
      have small := ((loaded.scanned_below region member).clears_above clears).2
      have clear := (bits p small).mpr ⟨region, member, clears⟩
      exact Int.ofNat_lt.mp (allBelow p small clear)
    constructor
    · intro ends
      by_contra beyond
      have last := lastBelow (region.endPage - 1) (by
        unfold MemLayout.Whole MemLayout.Rounded
        omega)
      omega
    · intro partly
      by_contra beyond
      have last := lastBelow (8 * ((region.firstPage + 7) / 8) - 1) (by
        unfold MemLayout.Whole MemLayout.Rounded
        omega)
      omega
  · intro ends p small clear
    obtain ⟨region, member, marked, pieces⟩ := (bits p small).mp clear
    obtain ⟨whole, rounded⟩ := ends region member marked
    unfold MemLayout.Whole MemLayout.Rounded at pieces
    omega

/-- What `alloc_pages(1)` does: nothing is left, or the least clear page is taken. -/
theorem allocPages_one (bitmap : BitMap) (bounded : bitmap.nbits ≤ 1048576)
    (first : bitmap.used 0 = true) :
    (allocPages bitmap 1 = (0, bitmap) ∧
        ∀ p : Nat, (p : Int) < bitmap.nbits → bitmap.used p = true) ∨
      ∃ (q : Nat) (after : BitMap), allocPages bitmap 1 = (q * pageSize, after) ∧ 0 < q ∧
        bitmap.used q = false ∧ (∀ s, s < q → bitmap.used s = true) ∧
        after.nbits = bitmap.nbits ∧
        ∀ p, after.used p = if p = q then true else bitmap.used p := by
  have run_one : ∀ s : Nat, (s : Int) < bitmap.nbits → bitmap.used s = false →
      bitmap.FreeRun 1 s := by
    intro s below clear
    constructor
    · omega
    · intro p lower upper
      have same : p = s := by omega
      rw [same]
      exact clear
  have set_of_noRun : ∀ s : Nat, (s : Int) < bitmap.nbits → ¬ bitmap.FreeRun 1 s →
      bitmap.used s = true := by
    intro s below noRun
    cases set : bitmap.used s with
    | true => rfl
    | false => exact False.elim (noRun (run_one s below set))
  rcases bitmapAllocBits_spec bitmap 1 (Nat.le_refl 1) with ⟨q, result, run, least⟩ | ⟨result, noRun⟩
  · right
    have below := run.below
    have clear := run.clear q (Nat.le_refl q) (by omega)
    have positive : 0 < q := by
      rcases Nat.eq_zero_or_pos q with isZero | positive
      · rw [isZero, first] at clear
        cases clear
      · exact positive
    refine ⟨q, bitmapSetBits bitmap q true 1 true, ?_, positive, clear, ?_, by simp, ?_⟩
    · unfold allocPages
      rw [result]
      change ((if (q : Int) > 0 then uint32 (int32 ((q : Int) * (pageSize : Int))) else 0),
        _) = _
      have small : q * pageSize < 4294967296 := by
        unfold pageSize
        omega
      rw [if_pos (by omega), ← Int.natCast_mul, uint32_int32 small]
    · intro s earlier
      exact set_of_noRun s (by omega) (least s earlier)
    · intro p
      rw [bitmapSetBits_used bitmap q 1 p true (Nat.le_refl 1)]
      by_cases same : p = q
      · rw [if_pos same, if_pos (by omega)]
      · rw [if_neg same, if_neg (by omega)]
  · left
    constructor
    · unfold allocPages
      rw [result]
      rfl
    · intro p below
      exact set_of_noRun p below (noRun p)

/-- A clear page is handed out as soon as those below it are. -/
theorem allocSingles_reaches (count : Nat) (bitmap : BitMap) (bounded : bitmap.nbits ≤ 1048576)
    (first : bitmap.used 0 = true) (start p : Nat)
    (taken : ∀ s, s < start → bitmap.used s = true) (clear : bitmap.used p = false)
    (below : (p : Int) < bitmap.nbits) (enough : p < start + count) :
    p * pageSize ∈ (allocSingles count bitmap).1 := by
  induction count generalizing bitmap start with
  | zero =>
      rw [taken p (by omega)] at clear
      cases clear
  | succ count ih =>
      unfold allocSingles
      rcases allocPages_one bitmap bounded first with ⟨_, allSet⟩ | served
      · rw [allSet p below] at clear
        cases clear
      · obtain ⟨q, after, result, positive, clearQ, least, nbits, bits⟩ := served
        rw [result]
        by_cases isQ : p = q
        · rw [isQ]
          exact List.mem_cons_self ..
        · apply List.mem_cons_of_mem
          have startQ : start ≤ q := by
            by_contra before
            rw [taken q (by omega)] at clearQ
            cases clearQ
          apply ih after (by omega) ?_ (start + 1)
          · intro s earlier
            rw [bits]
            by_cases same : s = q
            · rw [if_pos same]
            · rw [if_neg same]
              exact least s (by omega)
          · rw [bits, if_neg isQ]
            exact clear
          · omega
          · omega
          · rw [bits, if_neg (by omega)]
            exact first

theorem allocSingles_clear (count : Nat) (bitmap : BitMap) (bounded : bitmap.nbits ≤ 1048576)
    (first : bitmap.used 0 = true) (p : Nat) (nonzero : p ≠ 0)
    (handed : p * pageSize ∈ (allocSingles count bitmap).1) : bitmap.used p = false := by
  induction count generalizing bitmap with
  | zero => cases handed
  | succ count ih =>
      have positive : 0 < pageSize := by decide
      unfold allocSingles at handed
      rcases allocPages_one bitmap bounded first with ⟨result, _⟩ | served
      · rw [result] at handed
        rcases List.mem_cons.mp handed with isZero | inRest
        · exact False.elim (Nat.mul_ne_zero nonzero (by omega) isZero)
        · exact ih bitmap bounded first inRest
      · obtain ⟨q, after, result, _, clearQ, _, nbits, bits⟩ := served
        rw [result] at handed
        rcases List.mem_cons.mp handed with isQ | inRest
        · rw [Nat.eq_of_mul_eq_mul_right positive isQ]
          exact clearQ
        · have stillFirst : after.used 0 = true := by
            rw [bits]
            split
            · rfl
            · exact first
          have clear := ih after (by omega) stillFirst inRest
          rw [bits] at clear
          split at clear
          · cases clear
          · exact clear

/-- All usable memory is handed out and none is cleared in vain exactly where the regions end
below the page count that their sizes add up to, and none is missed. -/
theorem bitmapInit_allocatable_iff (loaded : Loaded low regions) (few : regions.length ≤ 50)
    (enough : regions.length < fuel) (bitmap : BitMap) :
    (∃ after, bitmapInit fuel low bitmap = some after ∧ ClearsBelow after ∧
        HandsOutAll regions after) ↔ EndsBelow regions ∧ Reached regions := by
  have called := bitmapInit_spec loaded.stored few bitmap enough
  generalize isAfter : ({ (scanned regions).foldl bitmapRegion
    (bitmapSetBytes bitmap 0 (128 * 1024) true) with
      nbits := bitmapPages (uint32 (sizeSum (scanned regions))) } : BitMap) = after at called
  have belowIff := bitmapInit_clearsBelow_iff loaded few enough called
  have bits := fun p small => bitmapInit_used (p := p) loaded.stored few enough called small
  have bounded : after.nbits ≤ 1048576 := by
    rw [← isAfter]
    have small : uint32 (sizeSum (scanned regions)) < 4294967296 := by
      unfold uint32
      omega
    unfold bitmapPages pageSize
    generalize uint32 (sizeSum (scanned regions)) = total at small
    have wrapped : uint32 (total + (4096 : Nat) - 1) < 4294967296 := by
      unfold uint32
      omega
    simp only
    split
    · omega
    · omega
  have first : after.used 0 = true := by
    cases set : after.used 0 with
    | true => rfl
    | false =>
        obtain ⟨region, member, clears⟩ := (bits 0 (by decide)).mp set
        have above := ((loaded.scanned_below region member).clears_above clears).1
        cases above
  constructor
  · rintro ⟨other, isOther, allBelow, handsOut⟩
    rw [called, Option.some.injEq] at isOther
    subst isOther
    refine ⟨belowIff.mp allBelow, ?_⟩
    intro region member p usable
    have inRegions : region ∈ regions := by
      rw [← scanned_missed regions]
      exact List.mem_append_right _ member
    have usablePage : UsablePage regions p := ⟨region, inRegions, usable⟩
    have nonzero : p ≠ 0 := by
      have above := usable.2.1
      unfold freeMemStart at above
      omega
    obtain ⟨count, handed⟩ := handsOut p usablePage
    have clear := allocSingles_clear count after bounded first p nonzero handed
    exact (bits p (usable_small loaded usablePage)).mp clear
  · rintro ⟨ends, reached⟩
    have allBelow := belowIff.mpr ends
    refine ⟨after, called, allBelow, ?_⟩
    intro p usable
    have small := usable_small loaded usable
    have clear := (bits p small).mpr (usable_cleared loaded reached usable)
    refine ⟨p + 1, allocSingles_reaches (p + 1) after bounded first 0 p ?_ clear
      (allBelow p small clear) (by omega)⟩
    intro s earlier
    omega

theorem bitmapInit_allocatable_small :
    (∃ after, bitmapInit 2 (oneRegion 0x100000 0x7ee0000) ⟨0, fun _ => 0#8⟩ = some after ∧
        ClearsBelow after ∧ HandsOutAll [⟨0x100000, 0x7ee0000, 1⟩] after) ↔
      EndsBelow [⟨0x100000, 0x7ee0000, 1⟩] ∧ Reached [⟨0x100000, 0x7ee0000, 1⟩] :=
  bitmapInit_allocatable_iff (oneRegion_loaded (by decide) (by decide) (by decide))
    (by decide) (by decide) _

/-- One region from 16 MB to 32 MB with nothing in front of it: the sizes add up to 16 MB, and
its pages are all at or above that bound. -/
theorem allocatable_hole :
    Loaded (oneRegion 0x1000000 0x1000000) [⟨0x1000000, 0x1000000, 1⟩] ∧
      ¬ ∃ after, bitmapInit 2 (oneRegion 0x1000000 0x1000000) ⟨0, fun _ => 0#8⟩ = some after ∧
        ClearsBelow after ∧ HandsOutAll [⟨0x1000000, 0x1000000, 1⟩] after := by
  have loaded : Loaded (oneRegion 0x1000000 0x1000000) [⟨0x1000000, 0x1000000, 1⟩] :=
    oneRegion_loaded (by decide) (by decide) (by decide)
  refine ⟨loaded, ?_⟩
  rintro ⟨after, called, allBelow, _⟩
  have ends := (bitmapInit_clearsBelow_iff loaded (by decide) (by decide) called).mp allBelow
    _ (List.mem_singleton_self _) ⟨rfl, by decide⟩
  have bound := ends.1 (Or.inl (by decide))
  exact absurd bound (by decide)

end MangoOS
