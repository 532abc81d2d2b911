/-
`kmalloc` out of the free list: which block it takes and what it leaves.

The first block in list order that fits is handed out.  What it has beyond the
request becomes a free block in its place, if a header fits in and something is
left over behind it.
-/

import MangoOS.Memory.HeapState

namespace MangoOS

open Intrusive

namespace Heap

/-- What handing out the block at `a`, which lay between `left` and `right` in the list,
leaves. -/
structure Served (heap after : Heap) (chunks : List Nat) (blocks : Set Nat)
    (left right : List Nat) (a size : Nat) : Prop where
  marked : (after.header a).used = usedMark
  large : size ≤ after.sizes a
  whole : heap.sizes a ≤ size + memHsize →
    after.Formed chunks blocks (left ++ right) ∧ after.sizes a = heap.sizes a
  divided : size + memHsize < heap.sizes a →
    after.Formed chunks (insert (a + size) blocks) (left ++ (a + size) :: right) ∧
      after.sizes a = size ∧ after.sizes (a + size) = heap.sizes a - size ∧
      (after.header (a + size)).used = freeMark
  others : ∀ x, x ∈ blocks → x ≠ a →
    after.sizes x = heap.sizes x ∧ (after.header x).used = (heap.header x).used ∧
      (after.header x).isHead = (heap.header x).isHead
  noNull : after.nullFollowed = heap.nullFollowed

variable {heap after : Heap} {chunks free left right : List Nat} {blocks : Set Nat}
variable {a size : Nat}

private theorem kmallocTake_served (formed : heap.Formed chunks blocks (left ++ a :: right))
    (large : size ≤ heap.sizes a) (tight : heap.sizes a ≤ size + memHsize) :
    Served heap (heap.kmallocTake a) chunks blocks left right a size := by
  have headers := kmallocTake_headers formed
  have sameSize : (heap.kmallocTake a).sizes a = heap.sizes a := by
    simp [sizes, headers.current]
  constructor
  · rw [headers.current]
  · rw [sameSize]
    exact large
  · intro _
    exact ⟨headers.formed formed, sameSize⟩
  · intro room
    omega
  · intro x inX notA
    simp [sizes, headers.rest x inX notA]
  · exact headers.nullFollowed

private theorem kmallocSplit_served (formed : heap.Formed chunks blocks (left ++ a :: right))
    (big : memHsize ≤ size) (room : size + memHsize < heap.sizes a) :
    Served heap ((heap.kmallocSplit a size).kmallocTake a) chunks blocks left right a size := by
  have member := (formed.freed a (by simp)).1
  have split := kmallocSplit_headers formed big room
  have formedSplit := split.formed formed big room
  have take := kmallocTake_headers formedSplit
  have inNew : a + size ∈ insert (a + size) blocks := Set.mem_insert _ _
  have newNe : a + size ≠ a := by
    have least := formed.tiling.positive
    omega
  have sameSize : ((heap.kmallocSplit a size).kmallocTake a).sizes a = size := by
    simp [sizes, take.current, split.current]
  constructor
  · rw [take.current]
  · exact Nat.le_of_eq sameSize.symm
  · intro tight
    omega
  · intro _
    refine ⟨take.formed formedSplit, sameSize, ?_, ?_⟩
    · simp [sizes, take.rest _ inNew newNe, split.created]
    · simp [take.rest _ inNew newNe, split.created]
  · intro x inX notA
    have inSplit : x ∈ insert (a + size) blocks := Set.mem_insert_of_mem _ inX
    simp [sizes, take.rest x inSplit notA, split.rest x inX notA]
  · exact take.nullFollowed.trans split.nullFollowed

/-- The search finds the first block in list order that fits. -/
theorem kmallocSearch_fit (formed : heap.Formed chunks blocks free)
    (fits : ∃ a, a ∈ free ∧ size ≤ heap.sizes a) {fuel : Nat} (enough : free.length < fuel) :
    ∃ left a right before, free = left ++ a :: right ∧
      (∀ x, x ∈ left → heap.sizes x < size) ∧ size ≤ heap.sizes a ∧
      heap.kmallocSearch size fuel heap.freeList heap.freeList = some (a, before) := by
  have search := kmallocSearch_spec [] formed size heap.freeList fuel enough
  rw [← formed.freeList_eq] at search
  rcases search with ⟨left, a, right, split, large, first, before, found⟩ | ⟨none, _⟩
  · exact ⟨left, a, right, before, split, first, large, found⟩
  · obtain ⟨a, listed, large⟩ := fits
    have tooSmall := none a listed
    omega

theorem kmalloc_found (formed : heap.Formed chunks blocks (left ++ a :: right))
    (limit : size + memHsize ≤ chunkSize) (large : size + memHsize ≤ heap.sizes a) (page : Nat)
    {fuel before : Nat}
    (found : heap.kmallocSearch (size + memHsize) fuel heap.freeList heap.freeList =
      some (a, before)) :
    ∃ after, heap.kmalloc fuel size page =
        some { heap := after, payload := a + memHsize, asked := false } ∧
      Served heap after chunks blocks left right a (size + memHsize) := by
  have small : chunkSize < 4294967296 := by decide
  have exactSize : wrap (size + memHsize) = size + memHsize := wrap_small (by omega)
  have least : 8 ≤ memHsize := by decide
  have accepted : ¬ (size + memHsize < 8 ∨ size + memHsize > chunkSize) := by omega
  have positive := formed.pos (formed.freed a (by simp)).1
  by_cases room : size + memHsize + memHsize < heap.sizes a
  · refine ⟨_, ?_, kmallocSplit_served formed (Nat.le_add_left _ _) room⟩
    change (heap.header a).size > size + memHsize + memHsize at room
    simp only [kmalloc, exactSize, if_neg accepted, found, Option.bind_some]
    rw [if_pos positive, if_pos room]
  · refine ⟨_, ?_, kmallocTake_served formed large (Nat.le_of_not_lt room)⟩
    change ¬ (heap.header a).size > size + memHsize + memHsize at room
    simp only [kmalloc, exactSize, if_neg accepted, found, Option.bind_some]
    rw [if_pos positive, if_neg room]

/-- Whatever `alloc_pages` would return, a request that some free block can hold is served
from the first such block, and the heap is well formed again. -/
theorem kmalloc_served (formed : heap.Formed chunks blocks free)
    (limit : size + memHsize ≤ chunkSize)
    (fits : ∃ a, a ∈ free ∧ size + memHsize ≤ heap.sizes a) (page : Nat) {fuel : Nat}
    (enough : free.length < fuel) :
    ∃ left a right after, free = left ++ a :: right ∧
      (∀ x, x ∈ left → heap.sizes x < size + memHsize) ∧ size + memHsize ≤ heap.sizes a ∧
      heap.kmalloc fuel size page =
        some { heap := after, payload := a + memHsize, asked := false } ∧
      Served heap after chunks blocks left right a (size + memHsize) := by
  obtain ⟨left, a, right, before, split, first, large, found⟩ :=
    kmallocSearch_fit formed fits enough
  subst split
  obtain ⟨after, called, served⟩ := kmalloc_found formed limit large page found
  exact ⟨left, a, right, after, rfl, first, large, called, served⟩

/-- The first request after `mem_init`, with the chunk at 0x601000. -/
theorem kmalloc_served_boot :
    ∃ left a right after, [6295552] = left ++ a :: right ∧
      (∀ x, x ∈ left → (zeroed.memInit 6295552).sizes x < 100 + memHsize) ∧
      100 + memHsize ≤ (zeroed.memInit 6295552).sizes a ∧
      (zeroed.memInit 6295552).kmalloc 2 100 0 =
        some { heap := after, payload := a + memHsize, asked := false } ∧
      Served (zeroed.memInit 6295552) after [6295552] {6295552} left right a
        (100 + memHsize) := by
  have chunk : Chunk 6295552 := ⟨by decide, by decide, by decide⟩
  apply kmalloc_served (memInit_well zeroed chunk).formed (by decide)
  · refine ⟨6295552, List.mem_singleton_self _, ?_⟩
    decide +kernel
  · decide

end Heap

end MangoOS
