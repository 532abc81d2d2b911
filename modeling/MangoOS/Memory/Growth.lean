/-
`kmalloc` when no free block fits.

The new chunk is linked behind the block the search ended at, and the link of that
block is followed although it is NULL.
-/

import MangoOS.Memory.FirstFit

namespace MangoOS

open Intrusive

namespace Heap

variable {heap after : Heap} {chunks free left right : List Nat} {blocks : Set Nat}
variable {a page size : Nat}

/-- The stores of `kmallocGrow` before `prev` is used. -/
def growStart (heap : Heap) (newBlock size : Nat) : Heap :=
  let heap := heap.setSize newBlock size
  let heap := heap.setNext newBlock 0
  let heap := heap.setPrev newBlock 0
  let heap := heap.setUsed newBlock usedMark
  let heap := heap.setIsHead newBlock 1
  heap.setSize (wrap (newBlock + size)) (chunkSize - size)

/-- The second `prev->next` of `kmallocGrow`, which it dereferences. -/
def growLink (heap : Heap) (newBlock prev size : Nat) : Nat :=
  let heap := heap.growStart newBlock size
  ((heap.setNext (wrap (newBlock + size)) (heap.header prev).next).header prev).next

theorem kmallocGrow_nullFollowed (heap : Heap) (newBlock prev size : Nat) :
    (heap.kmallocGrow newBlock prev size).nullFollowed =
      (heap.nullFollowed || prev == 0 || heap.growLink newBlock prev size == 0) := rfl

/-- Clearing a word leaves a word that is clear as it is, wherever the two lie. -/
theorem word_setWord_zero {mem : ByteMemory} {b : Nat} (clear : mem.word b = 0) (a : Nat) :
    (mem.setWord a 0).word b = 0 := by
  have bytes : ∀ x, b ≤ x → x < b + 4 → mem x = 0#8 := by
    have first := (mem b).isLt
    have second := (mem (b + 1)).isLt
    have third := (mem (b + 2)).isLt
    have fourth := (mem (b + 3)).isLt
    unfold ByteMemory.word at clear
    intro x lower upper
    obtain rfl | rfl | rfl | rfl : x = b ∨ x = b + 1 ∨ x = b + 2 ∨ x = b + 3 := by omega
    all_goals apply BitVec.eq_of_toNat_eq; rw [BitVec.toNat_ofNat]; omega
  have unchanged : ∀ x, b ≤ x → x < b + 4 → mem.setWord a 0 x = mem x := by
    intro x lower upper
    simp [ByteMemory.setWord, bytes x lower upper]
  rw [ByteMemory.word_congr unchanged, clear]

/-- The last listed block has no next one, and the stores before leave it so. -/
theorem growLink_listed {p : Nat} (formed : heap.Formed chunks blocks (left ++ [p]))
    (fresh : Fresh chunks page) (big : memHsize ≤ size) (room : size ≤ chunkSize) :
    heap.growLink page p size = 0 := by
  have inP := (formed.freed p (by simp)).1
  have below := fresh.chunk.below
  have bounds := formed.bounds inP
  have bigP := formed.tiling.big p inP
  have outside := formed.fresh_outside fresh inP
  have last : heap.mem.word (p + 13) = 0 := formed.next_eq
  have firstPage : 17 ≤ pageSize := by decide
  have header : memHsize = 17 := rfl
  -- neither the new block's header nor the size of the rest touches the link
  have apart : page + 17 ≤ p ∨ p + 17 ≤ page := by omega
  have restSize : p + 13 + 4 ≤ wrap (page + size) + 4 ∨ wrap (page + size) + 4 + 4 ≤ p + 13 := by
    by_cases top : page + size = 4294967296
    · have wraps : wrap (page + size) = 0 := by rw [top]; rfl
      omega
    · have stays : wrap (page + size) = page + size := wrap_small (by omega)
      omega
  have started : (heap.growStart page size).mem.word (p + 13) = 0 := by
    rw [← last]
    unfold growStart setSize setIsHead setUsed setPrev setNext
    rw [ByteMemory.word_setWord_other _ _ restSize,
      ByteMemory.word_setByte_other _ _ (by omega),
      ByteMemory.word_setWord_other _ _ (by omega),
      ByteMemory.word_setWord_other _ _ (by omega),
      ByteMemory.word_setWord_other _ _ (by omega),
      ByteMemory.word_setWord_other _ _ (by omega)]
  change ((heap.growStart page size).mem.setWord (wrap (page + size) + 13)
    ((heap.growStart page size).mem.word (p + 13))).word (p + 13) = 0
  rw [started]
  exact word_setWord_zero started _

/-- With an empty list the link is what lies in low memory. -/
theorem growLink_null (fresh : Fresh chunks page) (room : size ≤ chunkSize) :
    heap.growLink page 0 size = (heap.header 0).next := by
  have below := fresh.chunk.below
  have aligned := Nat.le_of_dvd fresh.chunk.positive fresh.chunk.aligned
  have firstPage : 17 ≤ pageSize := by decide
  have started : (heap.growStart page size).mem.word 13 = heap.mem.word 13 := by
    have restSize : 13 + 4 ≤ wrap (page + size) + 4 ∨ wrap (page + size) + 4 + 4 ≤ 13 := by
      unfold wrap
      omega
    unfold growStart setSize setIsHead setUsed setPrev setNext
    rw [ByteMemory.word_setWord_other _ _ restSize,
      ByteMemory.word_setByte_other _ _ (by omega),
      ByteMemory.word_setWord_other _ _ (by omega),
      ByteMemory.word_setWord_other _ _ (by omega),
      ByteMemory.word_setWord_other _ _ (by omega),
      ByteMemory.word_setWord_other _ _ (by omega)]
  change ((heap.growStart page size).mem.setWord (wrap (page + size) + 13)
    ((heap.growStart page size).mem.word 13)).word 13 = heap.mem.word 13
  rw [started]
  by_cases top : wrap (page + size) = 0
  · rw [top, ByteMemory.word_setWord]
    exact Nat.mod_eq_of_lt (ByteMemory.word_lt _ _)
  · have away : 13 + 4 ≤ wrap (page + size) + 13 := by
      unfold wrap at top ⊢
      omega
    rw [ByteMemory.word_setWord_other _ _ (Or.inl away)]
    exact started

/-- No free block fits: the search ends behind the last one. -/
theorem kmallocSearch_miss (formed : heap.Formed chunks blocks free)
    (none : ∀ x, x ∈ free → heap.sizes x < size) {fuel : Nat} (enough : free.length < fuel) :
    heap.kmallocSearch size fuel heap.freeList heap.freeList =
      some (0, free.getLastD heap.freeList) := by
  have search := kmallocSearch_spec [] formed size heap.freeList fuel enough
  rw [← formed.freeList_eq] at search
  rcases search with ⟨left, a, right, split, large, _⟩ | ⟨_, missed⟩
  · have tooSmall := none a (by simp [split])
    omega
  · exact missed

theorem kmalloc_missed (formed : heap.Formed chunks blocks free)
    (limit : size + memHsize ≤ chunkSize)
    (none : ∀ x, x ∈ free → heap.sizes x < size + memHsize) (page : Nat) {fuel : Nat}
    (enough : free.length < fuel) :
    heap.kmalloc fuel size page =
      if page = 0 then some { heap := heap, payload := 0, asked := true }
      else some
        { heap := heap.kmallocGrow page (free.getLastD heap.freeList) (size + memHsize)
          payload := page + memHsize, asked := true } := by
  have small : chunkSize < 4294967296 := by decide
  have exactSize : wrap (size + memHsize) = size + memHsize := wrap_small (by omega)
  have least : 8 ≤ memHsize := by decide
  have accepted : ¬ (size + memHsize < 8 ∨ size + memHsize > chunkSize) := by omega
  have missed := kmallocSearch_miss formed none enough
  simp only [kmalloc, exactSize, if_neg accepted, missed, Option.bind_some]
  rw [if_neg (by exact fun different => different rfl)]

/-- The block the search ends at: none in an empty list, else the last one. -/
theorem Formed.searchEnd (formed : heap.Formed chunks blocks free) :
    free = [] ∧ free.getLastD heap.freeList = 0 ∨
      ∃ left p, free = left ++ [p] ∧ free.getLastD heap.freeList = p := by
  rcases List.eq_nil_or_concat free with isNil | ⟨left, p, split⟩
  · left
    refine ⟨isNil, ?_⟩
    rw [formed.freeList_eq, isNil]
    rfl
  · right
    refine ⟨left, p, by simpa using split, ?_⟩
    rw [split]
    simp

/-- Growth follows a NULL link from every well-formed heap. -/
theorem kmallocGrow_followsNull (formed : heap.Formed chunks blocks free)
    (fresh : Fresh chunks page) (big : memHsize ≤ size) (room : size ≤ chunkSize) :
    (heap.kmallocGrow page (free.getLastD heap.freeList) size).nullFollowed = true := by
  rw [kmallocGrow_nullFollowed]
  rcases formed.searchEnd with ⟨_, ends⟩ | ⟨left, p, split, ends⟩
  · rw [ends]
    simp
  · subst split
    rw [ends, growLink_listed formed fresh big room]
    simp

/-- What growing the heap by the chunk at `page` should leave; `size` counts the header. -/
structure Grown (heap after : Heap) (chunks : List Nat) (blocks : Set Nat) (free : List Nat)
    (page size : Nat) : Prop where
  noNull : after.nullFollowed = false
  outside : ∀ x, x < page ∨ page + chunkSize ≤ x →
    (∀ a, a ∈ free → x < a ∨ a + memHsize ≤ x) → after.mem x = heap.mem x
  marked : (after.header page).used = usedMark
  large : size ≤ after.sizes page
  rest :
    if size + memHsize ≤ chunkSize then
      after.Formed (page :: chunks) (insert page (insert (page + after.sizes page) blocks))
        (free ++ [page + after.sizes page])
    else after.Formed (page :: chunks) (insert page blocks) free

/-- `alloc_pages(8)` returns `page`: growth does what it should, or the heap stays. -/
def GrowsRight (heap : Heap) (chunks : List Nat) (blocks : Set Nat) (free : List Nat)
    (size page fuel : Nat) : Prop :=
  if page = 0 then
    heap.kmalloc fuel size page = some { heap := heap, payload := 0, asked := true }
  else ∃ after,
    heap.kmalloc fuel size page =
        some { heap := after, payload := page + memHsize, asked := true } ∧
      Grown heap after chunks blocks free page (size + memHsize)

private theorem growsRight_called (formed : heap.Formed chunks blocks free)
    (limit : size + memHsize ≤ chunkSize)
    (none : ∀ x, x ∈ free → heap.sizes x < size + memHsize) (fresh : Fresh chunks page)
    {fuel : Nat} (enough : free.length < fuel) :
    ¬ heap.GrowsRight chunks blocks free size page fuel := by
  have called := kmalloc_missed formed limit none page enough
  have positive := fresh.chunk.positive
  have nonzero : page ≠ 0 := by omega
  intro right
  unfold GrowsRight at right
  rw [if_neg nonzero] at right called
  obtain ⟨after, isAfter, grown⟩ := right
  rw [called, Option.some.injEq, Kmalloc.mk.injEq] at isAfter
  have followed := kmallocGrow_followsNull formed fresh (Nat.le_add_left memHsize size) limit
  have noNull := grown.noNull
  rw [← isAfter.1, followed] at noNull
  cases noNull

/-- Growth goes right exactly where there is none: when `alloc_pages` fails. -/
theorem kmalloc_growsRight_iff (formed : heap.Formed chunks blocks free)
    (limit : size + memHsize ≤ chunkSize)
    (none : ∀ x, x ∈ free → heap.sizes x < size + memHsize)
    (fresh : page = 0 ∨ Fresh chunks page) {fuel : Nat} (enough : free.length < fuel) :
    heap.GrowsRight chunks blocks free size page fuel ↔ page = 0 := by
  constructor
  · intro right
    by_contra nonzero
    exact growsRight_called formed limit none (fresh.resolve_left nonzero) enough right
  · intro isZero
    have called := kmalloc_missed formed limit none page enough
    unfold GrowsRight
    rw [if_pos isZero] at called ⊢
    exact called

/-- The heap of one chunk at 0x601000 that is handed out as a whole. -/
def takenWhole : Heap := (zeroed.memInit 6295552).kmallocTake 6295552

theorem takenWhole_formed : takenWhole.Formed [6295552] {6295552} [] := by
  have chunk : Chunk 6295552 := ⟨by decide, by decide, by decide⟩
  have formed : (zeroed.memInit 6295552).Formed [6295552] {6295552} ([] ++ 6295552 :: []) :=
    (memInit_well zeroed chunk).formed
  exact (kmallocTake_headers formed).formed formed

private theorem takenWhole_none (x : Nat) (listed : x ∈ ([] : List Nat)) :
    takenWhole.sizes x < 100 + memHsize := by cases listed

theorem kmalloc_growsRight_noPages :
    takenWhole.GrowsRight [6295552] {6295552} [] 100 0 1 ↔ 0 = 0 :=
  kmalloc_growsRight_iff takenWhole_formed (by decide) takenWhole_none (Or.inl rfl)
    (Nat.lt_succ_self 0)

/-- A second chunk at 0x609000 behind the full one. -/
theorem growsRight_secondChunk :
    takenWhole.Formed [6295552] {6295552} [] ∧ takenWhole.nullFollowed = false ∧
      Fresh [6295552] 6328320 ∧
      ¬ takenWhole.GrowsRight [6295552] {6295552} [] 100 6328320 1 := by
  have fresh : Fresh [6295552] 6328320 := by
    refine ⟨⟨by decide, by decide, by decide⟩, ?_⟩
    intro c owned
    rw [List.mem_singleton] at owned
    subst owned
    exact Or.inl (by decide)
  refine ⟨takenWhole_formed, by decide +kernel, fresh, ?_⟩
  exact growsRight_called takenWhole_formed (by decide) takenWhole_none fresh
    (Nat.lt_succ_self 0)

end Heap

end MangoOS
