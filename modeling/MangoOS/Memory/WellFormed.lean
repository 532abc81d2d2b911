/-
Well-formed heaps: blocks tile the chunks, and the free list passes through
exactly the blocks marked `FREE`.
-/

import MangoOS.Memory.Heap
import MangoOS.Library.Ring
import MangoOS.Library.Tiling

namespace MangoOS

open Intrusive

namespace Heap

/-- The free list as a ring through NULL, whose next link is `free_list`. -/
def links (heap : Heap) (last : Nat) : Links Nat where
  next := fun a => if a = 0 then heap.freeList else (heap.header a).next
  prev := fun a => if a = 0 then last else (heap.header a).prev

/-- The list at `free_list` passes through `free`, both ways, and ends in NULL. -/
def FreeList (heap : Heap) (free : List Nat) : Prop :=
  ∃ last, Ring (heap.links last) 0 free

def sizes (heap : Heap) (a : Nat) : Nat := (heap.header a).size

/-- Where a chunk may lie. -/
structure Chunk (chunk : Nat) : Prop where
  aligned : pageSize ∣ chunk
  positive : 0 < chunk
  below : chunk + chunkSize ≤ 4294967296

structure WellFormed (heap : Heap) (chunks : List Nat) (blocks : Set Nat) (free : List Nat) :
    Prop where
  chunk : ∀ c, c ∈ chunks → Chunk c
  tiling : Tiling chunkSize memHsize chunks blocks heap.sizes
  heads : ∀ a, a ∈ blocks → ((heap.header a).isHead = 1 ↔ a ∈ chunks)
  freed : ∀ a, a ∈ free → a ∈ blocks ∧ (heap.header a).used = freeMark
  taken : ∀ a, a ∈ blocks → a ∉ free → (heap.header a).used = usedMark
  listed : heap.FreeList free

/-- A well-formed heap whatever its blocks say about chunk heads. -/
structure Formed (heap : Heap) (chunks : List Nat) (blocks : Set Nat) (free : List Nat) :
    Prop where
  chunk : ∀ c, c ∈ chunks → Chunk c
  tiling : Tiling chunkSize memHsize chunks blocks heap.sizes
  freed : ∀ a, a ∈ free → a ∈ blocks ∧ (heap.header a).used = freeMark
  taken : ∀ a, a ∈ blocks → a ∉ free → (heap.header a).used = usedMark
  listed : heap.FreeList free

variable {heap after : Heap} {chunks free left right : List Nat} {blocks : Set Nat}
variable {a b size : Nat}

theorem WellFormed.formed (well : heap.WellFormed chunks blocks free) :
    heap.Formed chunks blocks free where
  chunk := well.chunk
  tiling := well.tiling
  freed := well.freed
  taken := well.taken
  listed := well.listed

theorem Formed.wellFormed (formed : heap.Formed chunks blocks free)
    (heads : ∀ a, a ∈ blocks → ((heap.header a).isHead = 1 ↔ a ∈ chunks)) :
    heap.WellFormed chunks blocks free where
  chunk := formed.chunk
  tiling := formed.tiling
  heads := heads
  freed := formed.freed
  taken := formed.taken
  listed := formed.listed

theorem Formed.headers_apart (formed : heap.Formed chunks blocks free)
    (inA : a ∈ blocks) (inB : b ∈ blocks) (different : a ≠ b) : Apart a b := by
  have bigA := formed.tiling.big a inA
  have bigB := formed.tiling.big b inB
  unfold Apart
  rcases formed.tiling.apart a b inA inB different with before | behind
  · left
    omega
  · right
    omega

/-- A block lies above the first page and below 2^32. -/
theorem Formed.bounds (formed : heap.Formed chunks blocks free) (member : a ∈ blocks) :
    pageSize ≤ a ∧ a + heap.sizes a ≤ 4294967296 := by
  obtain ⟨c, tile⟩ := formed.tiling.tiled a member
  have chunk := formed.chunk c tile.owned
  have aligned := Nat.le_of_dvd chunk.positive chunk.aligned
  have lower := tile.lower
  have upper := tile.upper
  have below := chunk.below
  omega

theorem Formed.pos (formed : heap.Formed chunks blocks free) (member : a ∈ blocks) :
    a ≠ 0 := by
  have bounds := formed.bounds member
  unfold pageSize at bounds
  omega

theorem Formed.zero_apart (formed : heap.Formed chunks blocks free)
    (member : a ∈ blocks) : Apart 0 a := by
  have bounds := formed.bounds member
  unfold pageSize at bounds
  unfold Apart memHsize
  omega

theorem Formed.next_eq (formed : heap.Formed chunks blocks (left ++ a :: right)) :
    (heap.header a).next = right.headD 0 := by
  have nonzero := formed.pos (formed.freed a (by simp)).1
  obtain ⟨last, ring⟩ := formed.listed
  have next := ring.next_of_split
  simpa [links, nonzero] using next

theorem Formed.prev_eq (formed : heap.Formed chunks blocks (left ++ a :: right)) :
    (heap.header a).prev = left.getLastD 0 := by
  have nonzero := formed.pos (formed.freed a (by simp)).1
  obtain ⟨last, ring⟩ := formed.listed
  have prev := ring.prev_of_split
  simpa [links, nonzero] using prev

theorem Formed.freeList_eq (formed : heap.Formed chunks blocks free) :
    heap.freeList = free.headD 0 := by
  obtain ⟨last, ring⟩ := formed.listed
  simpa [links] using ring.next_head

theorem Formed.free_nodup (formed : heap.Formed chunks blocks free) : free.Nodup := by
  obtain ⟨last, ring⟩ := formed.listed
  exact ring.nodes_nodup

private theorem headD_mem {items : List Nat} (nonzero : items.headD 0 ≠ 0) :
    items.headD 0 ∈ items := by
  cases items with
  | nil => exact False.elim (nonzero rfl)
  | cons item items => exact List.mem_cons_self ..

private theorem getLastD_mem {items : List Nat} (nonzero : items.getLastD 0 ≠ 0) :
    items.getLastD 0 ∈ items := by
  cases items with
  | nil => exact False.elim (nonzero rfl)
  | cons item items => simp [List.getLastD]

/-- The block behind a listed block in the list, if there is one. -/
theorem Formed.next_mem (formed : heap.Formed chunks blocks (left ++ a :: right))
    (nonzero : (heap.header a).next ≠ 0) :
    (heap.header a).next ∈ right ∧ (heap.header a).next ∈ blocks ∧
      (heap.header a).next ≠ a := by
  have isHead := formed.next_eq
  rw [isHead] at nonzero ⊢
  have member := headD_mem nonzero
  have listed := List.mem_append_right left (List.mem_cons_of_mem a member)
  refine ⟨member, (formed.freed _ listed).1, ?_⟩
  intro same
  have distinct := formed.free_nodup
  rw [same] at member
  exact (List.nodup_cons.mp (List.nodup_append.mp distinct).2.1).1 member

theorem Formed.prev_mem (formed : heap.Formed chunks blocks (left ++ a :: right))
    (nonzero : (heap.header a).prev ≠ 0) :
    (heap.header a).prev ∈ left ∧ (heap.header a).prev ∈ blocks ∧
      (heap.header a).prev ≠ a := by
  have isLast := formed.prev_eq
  rw [isLast] at nonzero ⊢
  have member := getLastD_mem nonzero
  have listed := List.mem_append_left (a :: right) member
  refine ⟨member, (formed.freed _ listed).1, ?_⟩
  intro same
  have distinct := formed.free_nodup
  rw [same] at member
  exact (List.nodup_append.mp distinct).2.2 a member a (List.mem_cons_self ..) rfl

theorem Formed.first_mem (formed : heap.Formed chunks blocks free)
    (nonempty : heap.freeList ≠ 0) : heap.freeList ∈ free := by
  rw [formed.freeList_eq] at nonempty ⊢
  exact headD_mem nonempty

theorem Formed.of_rest (formed : heap.Formed chunks blocks (left ++ a :: right))
    {other : Nat} (inRing : other ∈ 0 :: (left ++ right)) (notZero : other ≠ 0) :
    other ∈ blocks ∧ other ≠ a := by
  have inRest : other ∈ left ++ right := by simpa [notZero] using inRing
  have distinct := List.nodup_middle.mp formed.free_nodup
  refine ⟨(formed.freed other ?_).1, fun same => distinct.notMem (same ▸ inRest)⟩
  simp only [List.mem_append, List.mem_cons] at inRest ⊢
  tauto

end Heap

end MangoOS
