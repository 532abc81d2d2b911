/-
The kernel heap (mm/memory.c).

Block headers live in the memory they describe: `mem_block_t` is packed into 17
bytes.  The loops take a fuel that only a list which never ends exhausts; the
result is then `none`.  An access through NULL hits low memory, as it does on the
machine, and is noted in `nullFollowed`.
-/

import MangoOS.Library.ByteMemory
import MangoOS.Memory.Bitmap

namespace MangoOS

structure Heap where
  mem : ByteMemory
  freeList : Nat
  nullFollowed : Bool

/-- The fields of a `mem_block_t`. -/
structure Header where
  used : Nat
  size : Nat
  isHead : Nat
  prev : Nat
  next : Nat
  deriving DecidableEq, Repr

/-- `USED`. -/
def usedMark : Nat := 0xAA99BB88

/-- `FREE`. -/
def freeMark : Nat := 0x88BB99AA

def memHsize : Nat := 17

/-- `8 * PAGE_SIZE`. -/
def chunkSize : Nat := 8 * pageSize

/-- Address arithmetic is done in `uint`. -/
def wrap (address : Nat) : Nat := address % 4294967296

theorem wrap_small {address : Nat} (small : address < 4294967296) :
    wrap address = address := Nat.mod_eq_of_lt small

@[simp] theorem wrap_zero : wrap 0 = 0 := rfl

@[simp] theorem wrap_usedMark : wrap usedMark = usedMark := by decide

@[simp] theorem wrap_freeMark : wrap freeMark = freeMark := by decide

namespace Heap

def header (heap : Heap) (a : Nat) : Header where
  used := heap.mem.word a
  size := heap.mem.word (a + 4)
  isHead := (heap.mem (a + 8)).toNat
  prev := heap.mem.word (a + 9)
  next := heap.mem.word (a + 13)

def setUsed (heap : Heap) (a value : Nat) : Heap :=
  { heap with mem := heap.mem.setWord a value }

def setSize (heap : Heap) (a value : Nat) : Heap :=
  { heap with mem := heap.mem.setWord (a + 4) value }

def setIsHead (heap : Heap) (a value : Nat) : Heap :=
  { heap with mem := heap.mem.setByte (a + 8) value }

def setPrev (heap : Heap) (a value : Nat) : Heap :=
  { heap with mem := heap.mem.setWord (a + 9) value }

def setNext (heap : Heap) (a value : Nat) : Heap :=
  { heap with mem := heap.mem.setWord (a + 13) value }

def setFreeList (heap : Heap) (first : Nat) : Heap :=
  { heap with freeList := first }

/-- A link that is dereferenced without a test. -/
def follow (heap : Heap) (link : Nat) : Heap :=
  { heap with nullFollowed := heap.nullFollowed || link == 0 }

/-- `mem_init`, given the result of `alloc_pages(8)`. -/
def memInit (heap : Heap) (page : Nat) : Heap :=
  let heap := heap.setFreeList page
  let heap := heap.setSize page chunkSize
  let heap := heap.setUsed page freeMark
  let heap := heap.setIsHead page 1
  let heap := heap.setPrev page 0
  heap.setNext page 0

/-! ### Allocation -/

/-- The search loop of `kmalloc`: the block found (0 if none) and `prev`. -/
def kmallocSearch (heap : Heap) (size : Nat) : (fuel current prev : Nat) → Option (Nat × Nat)
  | 0, _, _ => none
  | fuel + 1, current, prev =>
      if current = 0 then some (0, prev)
      else if (heap.header current).size ≥ size then some (current, prev)
      else kmallocSearch heap size fuel (heap.header current).next current

/-- The remainder of a block becomes a free block of its own. -/
def kmallocSplit (heap : Heap) (current size : Nat) : Heap :=
  let newBlock := wrap (current + size)
  let heap := heap.setSize newBlock ((heap.header current).size - size)
  let heap := heap.setPrev newBlock current
  let heap := heap.setNext newBlock (heap.header current).next
  let heap :=
    if (heap.header current).next ≠ 0 then heap.setPrev (heap.header current).next newBlock
    else heap
  let heap := heap.setUsed newBlock freeMark
  let heap := heap.setIsHead newBlock 0
  let heap := heap.setSize current size
  heap.setNext current newBlock

/-- The found block is marked and leaves the free list. -/
def kmallocTake (heap : Heap) (current : Nat) : Heap :=
  let heap := heap.setUsed current usedMark
  if (heap.header current).prev ≠ 0 then
    let heap := heap.setNext (heap.header current).prev (heap.header current).next
    if (heap.header current).next ≠ 0 then
      heap.setPrev (heap.header current).next (heap.header current).prev
    else heap
  else
    let heap := heap.setFreeList (heap.header current).next
    if (heap.header current).next ≠ 0 then heap.setPrev (heap.header current).next 0
    else heap

/-- `kmalloc` from a fresh chunk at `newBlock`; `prev` is where the search ended. -/
def kmallocGrow (heap : Heap) (newBlock prev size : Nat) : Heap :=
  let heap := heap.setSize newBlock size
  let heap := heap.setNext newBlock 0
  let heap := heap.setPrev newBlock 0
  let heap := heap.setUsed newBlock usedMark
  let heap := heap.setIsHead newBlock 1
  let freeBlock := wrap (newBlock + size)
  let heap := heap.setSize freeBlock (chunkSize - size)
  let heap := heap.follow prev
  let heap := heap.setNext freeBlock (heap.header prev).next
  let heap := heap.follow (heap.header prev).next
  let heap := heap.setPrev (heap.header prev).next freeBlock
  let heap := heap.setPrev freeBlock prev
  let heap := heap.setNext prev freeBlock
  let heap := heap.setUsed freeBlock freeMark
  heap.setIsHead freeBlock 0

/-- What a call of `kmalloc` did; `asked` tells whether it called `alloc_pages(8)`. -/
structure Kmalloc where
  heap : Heap
  payload : Nat
  asked : Bool

/-- `page` is what `alloc_pages(8)` returns if it is called. -/
def kmalloc (fuel : Nat) (heap : Heap) (size page : Nat) : Option Kmalloc :=
  let size := wrap (size + memHsize)
  if size < 8 ∨ size > chunkSize then
    some { heap := heap, payload := 0, asked := false }
  else
    (heap.kmallocSearch size fuel heap.freeList heap.freeList).bind fun (current, prev) =>
      if current ≠ 0 then
        let heap :=
          if (heap.header current).size > size + memHsize then heap.kmallocSplit current size
          else heap
        some { heap := heap.kmallocTake current, payload := current + memHsize, asked := false }
      else if page = 0 then some { heap := heap, payload := 0, asked := true }
      else
        some { heap := heap.kmallocGrow page prev size, payload := page + memHsize, asked := true }

/-! ### Release -/

/-- `current` takes in the block behind it, which leaves the free list. -/
def kfreeJoin (heap : Heap) (current nextBlock : Nat) : Heap :=
  let heap := heap.setSize current
    ((heap.header current).size + (heap.header nextBlock).size)
  let heap := heap.setNext current (heap.header nextBlock).next
  let heap := heap.follow (heap.header nextBlock).next
  let heap := heap.setPrev (heap.header nextBlock).next current
  heap.setUsed nextBlock 0

/-- The inner loop of `kfree`: merges what follows `current`.  The last component is
`flag`, which a chunk head behind the merged block sets. -/
def kfreeMerge : (fuel : Nat) → Heap → (current nextBlock : Nat) → Option (Heap × Nat × Bool)
  | 0, _, _, _ => none
  | fuel + 1, heap, current, nextBlock =>
      if (heap.header nextBlock).used = freeMark then
        let heap := heap.kfreeJoin current nextBlock
        let nextBlock := wrap (current + (heap.header current).size)
        if (heap.header nextBlock).isHead = 1 then some (heap, nextBlock, true)
        else kfreeMerge fuel heap current nextBlock
      else some (heap, current, false)

/-- Merged nodes are passed over and their links cleared. -/
def kfreeSkip : (fuel : Nat) → Heap → (current : Nat) → Option (Heap × Nat)
  | 0, _, _ => none
  | fuel + 1, heap, current =>
      if current ≠ 0 ∧ (heap.header current).used = 0 then
        let prev := current
        let current := (heap.header current).next
        let heap := heap.setNext prev 0
        let heap := heap.setPrev prev 0
        kfreeSkip fuel heap current
      else some (heap, current)

def kfreeWalk : (fuel : Nat) → Heap → (current : Nat) → Option Heap
  | 0, _, _ => none
  | fuel + 1, heap, current =>
      if current = 0 then some heap
      else
        (kfreeMerge fuel heap current (wrap (current + (heap.header current).size))).bind
          fun (heap, current, flag) =>
            if flag then kfreeWalk fuel heap current
            else
              (kfreeSkip fuel heap (heap.header current).next).bind fun (heap, current) =>
                kfreeWalk fuel heap current

/-- The last loop of `kfree`; the second component lists the chunks given to
`free_pages`. -/
def kfreeSweep : (fuel : Nat) → Heap → (current : Nat) → Option (Heap × List Nat)
  | 0, _, _ => none
  | fuel + 1, heap, current =>
      if current = 0 then some (heap, [])
      else
        let next := (heap.header current).next
        if (heap.header current).size = chunkSize then
          (kfreeSweep fuel (heap.setSize current 0) next).map fun (heap, given) =>
            (heap, current :: given)
        else kfreeSweep fuel heap next

/-- The block enters the list at its head. -/
def kfreeInsert (heap : Heap) (block : Nat) : Heap :=
  let heap := heap.setNext block heap.freeList
  let heap := heap.follow heap.freeList
  let heap := heap.setPrev heap.freeList block
  let heap := heap.setPrev block 0
  let heap := heap.setUsed block freeMark
  heap.setFreeList block

def kfree (fuel : Nat) (heap : Heap) (address : Nat) : Option (Heap × List Nat) :=
  if address = 0 then some (heap, [])
  else
    let block := wrap (address + (4294967296 - memHsize))
    let heap := heap.kfreeInsert block
    (kfreeWalk fuel heap heap.freeList).bind fun heap => kfreeSweep fuel heap heap.freeList

/-! ### Fuel -/

theorem kmallocSearch_more {heap : Heap} {size fuel more current prev : Nat}
    {result : Nat × Nat} (found : heap.kmallocSearch size fuel current prev = some result)
    (le : fuel ≤ more) : heap.kmallocSearch size more current prev = some result := by
  induction fuel generalizing more current prev with
  | zero => cases found
  | succ fuel ih =>
      obtain ⟨more, rfl⟩ : ∃ n, more = n + 1 := ⟨more - 1, by omega⟩
      rw [kmallocSearch] at found ⊢
      by_cases isNull : current = 0
      · rw [if_pos isNull] at found ⊢
        exact found
      · rw [if_neg isNull] at found ⊢
        by_cases fits : (heap.header current).size ≥ size
        · rw [if_pos fits] at found ⊢
          exact found
        · rw [if_neg fits] at found ⊢
          exact ih found (by omega)

theorem kmalloc_more {heap : Heap} {size page fuel more : Nat} {result : Kmalloc}
    (called : heap.kmalloc fuel size page = some result) (le : fuel ≤ more) :
    heap.kmalloc more size page = some result := by
  unfold kmalloc at called ⊢
  by_cases refused : wrap (size + memHsize) < 8 ∨ wrap (size + memHsize) > chunkSize
  · rw [if_pos refused] at called ⊢
    exact called
  · rw [if_neg refused] at called ⊢
    obtain ⟨found, search, rest⟩ := Option.bind_eq_some_iff.mp called
    rw [kmallocSearch_more search le, Option.bind_some]
    exact rest

theorem kfreeMerge_more {heap : Heap} {fuel more current nextBlock : Nat}
    {result : Heap × Nat × Bool}
    (merged : heap.kfreeMerge fuel current nextBlock = some result) (le : fuel ≤ more) :
    heap.kfreeMerge more current nextBlock = some result := by
  induction fuel generalizing more heap nextBlock with
  | zero => cases merged
  | succ fuel ih =>
      obtain ⟨more, rfl⟩ : ∃ n, more = n + 1 := ⟨more - 1, by omega⟩
      rw [kfreeMerge] at merged ⊢
      by_cases isFree : (heap.header nextBlock).used = freeMark
      · rw [if_pos isFree] at merged ⊢
        simp only at merged ⊢
        split at merged
        · rename_i isHead
          rw [if_pos isHead]
          exact merged
        · rename_i notHead
          rw [if_neg notHead]
          exact ih merged (by omega)
      · rw [if_neg isFree] at merged ⊢
        exact merged

theorem kfreeSkip_more {heap : Heap} {fuel more current : Nat} {result : Heap × Nat}
    (skipped : heap.kfreeSkip fuel current = some result) (le : fuel ≤ more) :
    heap.kfreeSkip more current = some result := by
  induction fuel generalizing more heap current with
  | zero => cases skipped
  | succ fuel ih =>
      obtain ⟨more, rfl⟩ : ∃ n, more = n + 1 := ⟨more - 1, by omega⟩
      rw [kfreeSkip] at skipped ⊢
      by_cases merged : current ≠ 0 ∧ (heap.header current).used = 0
      · rw [if_pos merged] at skipped ⊢
        exact ih skipped (by omega)
      · rw [if_neg merged] at skipped ⊢
        exact skipped

theorem kfreeWalk_more {heap : Heap} {fuel more current : Nat} {result : Heap}
    (walked : heap.kfreeWalk fuel current = some result) (le : fuel ≤ more) :
    heap.kfreeWalk more current = some result := by
  induction fuel generalizing more heap current with
  | zero => cases walked
  | succ fuel ih =>
      obtain ⟨more, rfl⟩ : ∃ n, more = n + 1 := ⟨more - 1, by omega⟩
      have inner : fuel ≤ more := by omega
      rw [kfreeWalk] at walked ⊢
      by_cases isNull : current = 0
      · rw [if_pos isNull] at walked ⊢
        exact walked
      · rw [if_neg isNull] at walked ⊢
        obtain ⟨⟨merged, reached, flag⟩, isMerged, rest⟩ := Option.bind_eq_some_iff.mp walked
        rw [kfreeMerge_more isMerged inner, Option.bind_some]
        cases flag with
        | true => exact ih rest inner
        | false =>
            obtain ⟨⟨skipped, next⟩, isSkipped, last⟩ := Option.bind_eq_some_iff.mp rest
            change ((merged.kfreeSkip more (merged.header reached).next).bind _) = _
            rw [kfreeSkip_more isSkipped inner, Option.bind_some]
            exact ih last inner

theorem kfreeSweep_more {heap : Heap} {fuel more current : Nat} {result : Heap × List Nat}
    (swept : heap.kfreeSweep fuel current = some result) (le : fuel ≤ more) :
    heap.kfreeSweep more current = some result := by
  induction fuel generalizing more heap current result with
  | zero => cases swept
  | succ fuel ih =>
      obtain ⟨more, rfl⟩ : ∃ n, more = n + 1 := ⟨more - 1, by omega⟩
      rw [kfreeSweep] at swept ⊢
      by_cases isNull : current = 0
      · rw [if_pos isNull] at swept ⊢
        exact swept
      · rw [if_neg isNull] at swept ⊢
        by_cases whole : (heap.header current).size = chunkSize
        · rw [if_pos whole] at swept ⊢
          obtain ⟨rest, isRest, isResult⟩ := Option.map_eq_some_iff.mp swept
          rw [ih isRest (by omega), Option.map_some, isResult]
        · rw [if_neg whole] at swept ⊢
          exact ih swept (by omega)

theorem kfree_more {heap : Heap} {address fuel more : Nat} {result : Heap × List Nat}
    (called : heap.kfree fuel address = some result) (le : fuel ≤ more) :
    heap.kfree more address = some result := by
  unfold kfree at called ⊢
  by_cases isNull : address = 0
  · rw [if_pos isNull] at called ⊢
    exact called
  · rw [if_neg isNull] at called ⊢
    obtain ⟨walked, isWalked, swept⟩ := Option.bind_eq_some_iff.mp called
    simp only
    rw [kfreeWalk_more isWalked le, Option.bind_some]
    exact kfreeSweep_more swept le

/-! ### Field access -/

/-- Two headers do not overlap. -/
def Apart (a b : Nat) : Prop := a + memHsize ≤ b ∨ b + memHsize ≤ a

theorem Apart.symm {a b : Nat} (apart : Apart a b) : Apart b a := Or.symm apart

theorem header_congr {heap other : Heap} {a : Nat}
    (same : ∀ x, a ≤ x → x < a + memHsize → other.mem x = heap.mem x) :
    other.header a = heap.header a := by
  unfold memHsize at same
  have word : ∀ offset, offset + 4 ≤ 17 →
      other.mem.word (a + offset) = heap.mem.word (a + offset) := by
    intro offset inside
    apply ByteMemory.word_congr
    intro x lower upper
    exact same x (by omega) (by omega)
  have used := word 0 (by omega)
  have size := word 4 (by omega)
  have prev := word 9 (by omega)
  have next := word 13 (by omega)
  have isHead := same (a + 8) (by omega) (by omega)
  rw [Nat.add_zero] at used
  unfold header
  rw [used, size, prev, next, isHead]

section Fields

variable (heap : Heap) (a value : Nat)

@[simp] theorem setUsed_header :
    (heap.setUsed a value).header a = { heap.header a with used := wrap value } := by
  simp only [header, setUsed, wrap, ByteMemory.word_setWord,
    ByteMemory.word_setWord_other _ _ (by omega : a + 4 + 4 ≤ a ∨ a + 4 ≤ a + 4),
    ByteMemory.word_setWord_other _ _ (by omega : a + 9 + 4 ≤ a ∨ a + 4 ≤ a + 9),
    ByteMemory.word_setWord_other _ _ (by omega : a + 13 + 4 ≤ a ∨ a + 4 ≤ a + 13),
    ByteMemory.setWord_other _ _ (by omega : a + 8 < a ∨ a + 4 ≤ a + 8)]

@[simp] theorem setSize_header :
    (heap.setSize a value).header a = { heap.header a with size := wrap value } := by
  simp only [header, setSize, wrap, ByteMemory.word_setWord,
    ByteMemory.word_setWord_other _ _ (by omega : a + 4 ≤ a + 4 ∨ a + 4 + 4 ≤ a),
    ByteMemory.word_setWord_other _ _ (by omega : a + 9 + 4 ≤ a + 4 ∨ a + 4 + 4 ≤ a + 9),
    ByteMemory.word_setWord_other _ _ (by omega : a + 13 + 4 ≤ a + 4 ∨ a + 4 + 4 ≤ a + 13),
    ByteMemory.setWord_other _ _ (by omega : a + 8 < a + 4 ∨ a + 4 + 4 ≤ a + 8)]

@[simp] theorem setIsHead_header :
    (heap.setIsHead a value).header a = { heap.header a with isHead := value % 256 } := by
  simp only [header, setIsHead, ByteMemory.setByte_same, BitVec.toNat_ofNat,
    ByteMemory.word_setByte_other _ _ (by omega : a + 4 ≤ a + 8 ∨ a + 8 < a),
    ByteMemory.word_setByte_other _ _ (by omega : a + 4 + 4 ≤ a + 8 ∨ a + 8 < a + 4),
    ByteMemory.word_setByte_other _ _ (by omega : a + 9 + 4 ≤ a + 8 ∨ a + 8 < a + 9),
    ByteMemory.word_setByte_other _ _ (by omega : a + 13 + 4 ≤ a + 8 ∨ a + 8 < a + 13)]

@[simp] theorem setPrev_header :
    (heap.setPrev a value).header a = { heap.header a with prev := wrap value } := by
  simp only [header, setPrev, wrap, ByteMemory.word_setWord,
    ByteMemory.word_setWord_other _ _ (by omega : a + 4 ≤ a + 9 ∨ a + 9 + 4 ≤ a),
    ByteMemory.word_setWord_other _ _ (by omega : a + 4 + 4 ≤ a + 9 ∨ a + 9 + 4 ≤ a + 4),
    ByteMemory.word_setWord_other _ _ (by omega : a + 13 + 4 ≤ a + 9 ∨ a + 9 + 4 ≤ a + 13),
    ByteMemory.setWord_other _ _ (by omega : a + 8 < a + 9 ∨ a + 9 + 4 ≤ a + 8)]

@[simp] theorem setNext_header :
    (heap.setNext a value).header a = { heap.header a with next := wrap value } := by
  simp only [header, setNext, wrap, ByteMemory.word_setWord,
    ByteMemory.word_setWord_other _ _ (by omega : a + 4 ≤ a + 13 ∨ a + 13 + 4 ≤ a),
    ByteMemory.word_setWord_other _ _ (by omega : a + 4 + 4 ≤ a + 13 ∨ a + 13 + 4 ≤ a + 4),
    ByteMemory.word_setWord_other _ _ (by omega : a + 9 + 4 ≤ a + 13 ∨ a + 13 + 4 ≤ a + 9),
    ByteMemory.setWord_other _ _ (by omega : a + 8 < a + 13 ∨ a + 13 + 4 ≤ a + 8)]

variable {a} {b : Nat}

@[simp] theorem setUsed_other (apart : Apart a b) :
    (heap.setUsed a value).header b = heap.header b := by
  unfold Apart memHsize at apart
  apply header_congr
  intro x lower upper
  unfold memHsize at upper
  exact ByteMemory.setWord_other _ _ (by omega)

@[simp] theorem setSize_other (apart : Apart a b) :
    (heap.setSize a value).header b = heap.header b := by
  unfold Apart memHsize at apart
  apply header_congr
  intro x lower upper
  unfold memHsize at upper
  exact ByteMemory.setWord_other _ _ (by omega)

@[simp] theorem setIsHead_other (apart : Apart a b) :
    (heap.setIsHead a value).header b = heap.header b := by
  unfold Apart memHsize at apart
  apply header_congr
  intro x lower upper
  unfold memHsize at upper
  exact ByteMemory.setByte_other _ _ (by omega)

@[simp] theorem setPrev_other (apart : Apart a b) :
    (heap.setPrev a value).header b = heap.header b := by
  unfold Apart memHsize at apart
  apply header_congr
  intro x lower upper
  unfold memHsize at upper
  exact ByteMemory.setWord_other _ _ (by omega)

@[simp] theorem setNext_other (apart : Apart a b) :
    (heap.setNext a value).header b = heap.header b := by
  unfold Apart memHsize at apart
  apply header_congr
  intro x lower upper
  unfold memHsize at upper
  exact ByteMemory.setWord_other _ _ (by omega)

end Fields

@[simp] theorem setUsed_freeList (heap : Heap) (a value : Nat) :
    (heap.setUsed a value).freeList = heap.freeList := rfl

@[simp] theorem setSize_freeList (heap : Heap) (a value : Nat) :
    (heap.setSize a value).freeList = heap.freeList := rfl

@[simp] theorem setIsHead_freeList (heap : Heap) (a value : Nat) :
    (heap.setIsHead a value).freeList = heap.freeList := rfl

@[simp] theorem setPrev_freeList (heap : Heap) (a value : Nat) :
    (heap.setPrev a value).freeList = heap.freeList := rfl

@[simp] theorem setNext_freeList (heap : Heap) (a value : Nat) :
    (heap.setNext a value).freeList = heap.freeList := rfl

@[simp] theorem setUsed_nullFollowed (heap : Heap) (a value : Nat) :
    (heap.setUsed a value).nullFollowed = heap.nullFollowed := rfl

@[simp] theorem setSize_nullFollowed (heap : Heap) (a value : Nat) :
    (heap.setSize a value).nullFollowed = heap.nullFollowed := rfl

@[simp] theorem setIsHead_nullFollowed (heap : Heap) (a value : Nat) :
    (heap.setIsHead a value).nullFollowed = heap.nullFollowed := rfl

@[simp] theorem setPrev_nullFollowed (heap : Heap) (a value : Nat) :
    (heap.setPrev a value).nullFollowed = heap.nullFollowed := rfl

@[simp] theorem setNext_nullFollowed (heap : Heap) (a value : Nat) :
    (heap.setNext a value).nullFollowed = heap.nullFollowed := rfl

@[simp] theorem follow_nullFollowed (heap : Heap) (link : Nat) :
    (heap.follow link).nullFollowed = (heap.nullFollowed || link == 0) := rfl

@[simp] theorem follow_freeList (heap : Heap) (link : Nat) :
    (heap.follow link).freeList = heap.freeList := rfl

@[simp] theorem setFreeList_header (heap : Heap) (first a : Nat) :
    (heap.setFreeList first).header a = heap.header a := rfl

@[simp] theorem setFreeList_freeList (heap : Heap) (first : Nat) :
    (heap.setFreeList first).freeList = first := rfl

@[simp] theorem setFreeList_nullFollowed (heap : Heap) (first : Nat) :
    (heap.setFreeList first).nullFollowed = heap.nullFollowed := rfl

@[simp] theorem follow_header (heap : Heap) (link a : Nat) :
    (heap.follow link).header a = heap.header a := rfl

theorem header_size_lt (heap : Heap) (a : Nat) : (heap.header a).size < 4294967296 :=
  ByteMemory.word_lt _ _

@[simp] theorem wrap_header_prev (heap : Heap) (a : Nat) :
    wrap (heap.header a).prev = (heap.header a).prev :=
  wrap_small (ByteMemory.word_lt _ _)

@[simp] theorem wrap_header_next (heap : Heap) (a : Nat) :
    wrap (heap.header a).next = (heap.header a).next :=
  wrap_small (ByteMemory.word_lt _ _)

end Heap

end MangoOS
