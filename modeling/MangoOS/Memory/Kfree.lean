/-
`kfree` on well-formed heaps.

Inserting the block and joining it with the block behind it have one lemma each
for the headers they leave and one that the heap is well formed again.
-/

import MangoOS.Memory.WellFormed

namespace MangoOS

open Intrusive

namespace Heap

variable {heap after : Heap} {chunks free left right : List Nat} {blocks : Set Nat}
variable {a b size : Nat}

/-! ### Putting a block on the free list -/

structure InsertHeaders (heap after : Heap) (blocks : Set Nat) (b : Nat) : Prop where
  current : after.header b =
    { heap.header b with used := freeMark, prev := 0, next := heap.freeList }
  rest : ∀ x, x ∈ blocks → x ≠ b →
    after.header x = { heap.header x with
      prev := if x = heap.freeList then b else (heap.header x).prev }
  foreign : ∀ x, x = 0 ∨ Apart 0 x → (∀ y, y ∈ blocks → Apart y x) →
    (after.header x).used = (heap.header x).used ∧
      (after.header x).isHead = (heap.header x).isHead
  freeList : after.freeList = b
  nullFollowed : after.nullFollowed = (heap.nullFollowed || heap.freeList == 0)

theorem kfreeInsert_headers (well : heap.WellFormed chunks blocks free) (member : b ∈ blocks)
    (unlisted : b ∉ free) : InsertHeaders heap (heap.kfreeInsert b) blocks b := by
  have bounds := well.formed.bounds member
  have smallB : wrap b = b := by
    have big := well.tiling.big b member
    have least := well.tiling.positive
    exact wrap_small (by omega)
  by_cases isEmpty : heap.freeList = 0
  · have zeroB := well.formed.zero_apart member
    constructor
    · simp [kfreeInsert, isEmpty, zeroB]
    · intro x inX different
      have apartB := well.formed.headers_apart member inX different.symm
      have zeroX := well.formed.zero_apart inX
      have nonzero := well.formed.pos inX
      simp [kfreeInsert, isEmpty, apartB, zeroX, nonzero]
    · intro x low apart
      have apartB := apart b member
      rcases low with isZero | zeroX
      · subst x
        simp [kfreeInsert, isEmpty, apartB]
      · simp [kfreeInsert, isEmpty, apartB, zeroX]
    · simp [kfreeInsert]
    · simp [kfreeInsert]
  · have inFirst := (well.freed _ (well.formed.first_mem isEmpty)).1
    have firstNe : heap.freeList ≠ b := fun same => unlisted (same ▸ well.formed.first_mem isEmpty)
    have firstB := well.formed.headers_apart inFirst member firstNe
    have smallFirst : wrap heap.freeList = heap.freeList := by
      have firstBounds := well.formed.bounds inFirst
      have big := well.tiling.big _ inFirst
      have least := well.tiling.positive
      exact wrap_small (by omega)
    constructor
    · simp [kfreeInsert, firstB, smallFirst]
    · intro x inX different
      have apartB := well.formed.headers_apart member inX different.symm
      by_cases isFirst : x = heap.freeList
      · subst x
        simp [kfreeInsert, firstB.symm, smallB]
      · have firstX := well.formed.headers_apart inFirst inX (Ne.symm isFirst)
        simp [kfreeInsert, apartB, firstX, isFirst]
    · intro x _ apart
      have apartB := apart b member
      have apartFirst := apart _ inFirst
      simp [kfreeInsert, apartB, apartFirst]
    · simp [kfreeInsert]
    · simp [kfreeInsert]

theorem InsertHeaders.well (headers : InsertHeaders heap after blocks b)
    (well : heap.WellFormed chunks blocks free) (member : b ∈ blocks) (unlisted : b ∉ free) :
    after.WellFormed chunks blocks (b :: free) := by
  have positive := well.formed.pos member
  constructor
  · exact well.chunk
  · apply well.tiling.congr
    intro x inX
    by_cases isB : x = b
    · simp [sizes, isB, headers.current]
    · simp [sizes, headers.rest x inX isB]
  · intro x inX
    by_cases isB : x = b
    · rw [isB, headers.current]
      exact well.heads b member
    · rw [headers.rest x inX isB]
      exact well.heads x inX
  · intro x listed
    by_cases isB : x = b
    · rw [isB, headers.current]
      exact ⟨member, rfl⟩
    · obtain ⟨inX, free⟩ := well.freed x (List.mem_of_ne_of_mem isB listed)
      rw [headers.rest x inX isB]
      exact ⟨inX, free⟩
  · intro x inX notListed
    rw [List.mem_cons, not_or] at notListed
    rw [headers.rest x inX notListed.1]
    exact well.taken x inX notListed.2
  · obtain ⟨last, ring⟩ := well.listed
    have beforeNext : (heap.links last).next 0 = heap.freeList := by simp [links]
    have ofRing : ∀ other, other ∈ 0 :: free → other ≠ 0 → other ∈ blocks ∧ other ≠ b := by
      intro other inRing notZero
      have listed : other ∈ free := by simpa [notZero] using inRing
      exact ⟨(well.freed other listed).1, fun same => unlisted (same ▸ listed)⟩
    refine ⟨if heap.freeList = 0 then b else last, ?_⟩
    apply ring.insert_first
    · simpa [positive] using unlisted
    · simp [links, headers.freeList]
    · simp [links, positive, headers.current]
    · rw [beforeNext]
      simp [links, positive, headers.current]
    · rw [beforeNext]
      by_cases isEmpty : heap.freeList = 0
      · simp [links, isEmpty]
      · have inFirst := ofRing _ (List.mem_cons_of_mem 0 (well.formed.first_mem isEmpty)) isEmpty
        simp [links, isEmpty, headers.rest _ inFirst.1 inFirst.2]
    · intro other inRing notZero
      obtain ⟨inOther, notB⟩ := ofRing other inRing notZero
      simp [links, notZero, headers.rest other inOther notB]
    · intro other inRing notFirst
      rw [beforeNext] at notFirst
      by_cases isZero : other = 0
      · rw [isZero] at notFirst
        simp [links, isZero, notFirst.symm]
      · obtain ⟨inOther, notB⟩ := ofRing other inRing isZero
        simp [links, isZero, headers.rest other inOther notB, notFirst]

/-! ### Joining the first block with the one behind it -/

structure JoinHeaders (heap after : Heap) (blocks : Set Nat) (b m : Nat) : Prop where
  current : after.header b =
    { heap.header b with size := heap.sizes b + heap.sizes m, next := (heap.header m).next }
  rest : ∀ x, x ∈ blocks → x ≠ b → x ≠ m →
    after.header x = { heap.header x with
      prev := if x = (heap.header m).next then b else (heap.header x).prev }
  foreign : ∀ x, x = 0 ∨ Apart 0 x → (∀ y, y ∈ blocks → Apart y x) →
    (after.header x).used = (heap.header x).used ∧
      (after.header x).isHead = (heap.header x).isHead
  freeList : after.freeList = heap.freeList
  nullFollowed : after.nullFollowed = (heap.nullFollowed || (heap.header m).next == 0)

variable {m : Nat}

theorem kfreeJoin_headers (well : heap.WellFormed chunks blocks (left ++ b :: m :: right))
    (behind : m = b + heap.sizes b) :
    JoinHeaders heap (heap.kfreeJoin b m) blocks b m := by
  have inB := (well.freed b (by simp)).1
  have inM := (well.freed m (by simp)).1
  have distinct := (List.nodup_append.mp well.formed.free_nodup).2.1
  have different : b ≠ m := by
    intro same
    simp [same] at distinct
  have apart := well.formed.headers_apart inB inM different
  have boundsM := well.formed.bounds inM
  have positive := well.formed.pos inB
  have smallB : wrap b = b := wrap_small (by omega)
  have smallSize : wrap ((heap.header b).size + (heap.header m).size) =
      heap.sizes b + heap.sizes m := by
    change wrap (heap.sizes b + heap.sizes m) = _
    exact wrap_small (by omega)
  by_cases isLast : (heap.header m).next = 0
  · have zeroB := well.formed.zero_apart inB
    constructor
    · simp [kfreeJoin, apart, apart.symm, isLast, zeroB, smallSize]
    · intro x inX notB notM
      have apartB := well.formed.headers_apart inB inX (Ne.symm notB)
      have apartM := well.formed.headers_apart inM inX (Ne.symm notM)
      have zeroX := well.formed.zero_apart inX
      have nonzero := well.formed.pos inX
      simp [kfreeJoin, apart, isLast, zeroX, apartB, apartM, nonzero]
    · intro x low away
      have awayB := away b inB
      have awayM := away m inM
      rcases low with isZero | zeroX
      · subst x
        simp [kfreeJoin, apart, isLast, awayB, awayM]
      · simp [kfreeJoin, apart, isLast, zeroX, awayB, awayM]
    · simp [kfreeJoin]
    · simp [kfreeJoin, apart]
  · have wellM := well
    rw [List.append_cons] at wellM
    obtain ⟨inRight, inNext, nextNe⟩ := wellM.formed.next_mem isLast
    have nextB : (heap.header m).next ≠ b := by
      intro same
      rw [same] at inRight
      exact (List.nodup_cons.mp distinct).1 (List.mem_cons_of_mem m inRight)
    have apartNB := well.formed.headers_apart inNext inB nextB
    have apartNM := well.formed.headers_apart inNext inM nextNe
    constructor
    · simp [kfreeJoin, apart, apart.symm, smallSize, apartNB]
    · intro x inX notB notM
      have apartB := well.formed.headers_apart inB inX (Ne.symm notB)
      have apartM := well.formed.headers_apart inM inX (Ne.symm notM)
      by_cases isNext : x = (heap.header m).next
      · subst x
        simp [kfreeJoin, apart, apartB, apartM, smallB]
      · have nextX := well.formed.headers_apart inNext inX (Ne.symm isNext)
        simp [kfreeJoin, apart, apartB, apartM, nextX, isNext]
    · intro x _ away
      have awayB := away b inB
      have awayM := away m inM
      have awayNext := away _ inNext
      simp [kfreeJoin, apart, awayB, awayM, awayNext]
    · simp [kfreeJoin]
    · simp [kfreeJoin, apart]

theorem JoinHeaders.well (headers : JoinHeaders heap after blocks b m)
    (well : heap.WellFormed chunks blocks (left ++ b :: m :: right))
    (behind : m = b + heap.sizes b) (inner : m ∉ chunks) :
    after.WellFormed chunks (blocks \ {m}) (left ++ b :: right) := by
  have inB := (well.freed b (by simp)).1
  have inM := (well.freed m (by simp)).1
  have positive := well.formed.pos inB
  have wellM := well
  rw [List.append_cons] at wellM
  have notListedM : m ∉ left ++ b :: right := by
    have distinct := (List.nodup_middle.mp wellM.formed.free_nodup).notMem
    rw [← List.append_cons] at distinct
    exact distinct
  have listedB : b ∈ left ++ b :: right := by simp
  have different : b ≠ m := fun same => notListedM (same ▸ listedB)
  have listedBefore : ∀ x, x ∈ left ++ b :: m :: right ↔ x = m ∨ x ∈ left ++ b :: right := by
    intro x
    simp only [List.mem_append, List.mem_cons]
    tauto
  constructor
  · exact well.chunk
  · subst behind
    apply well.tiling.merge inB inM inner
    · simp [sizes, headers.current]
    · intro x inX notB notM
      simp [sizes, headers.rest x inX notB notM]
  · rintro x ⟨inX, notM⟩
    by_cases isB : x = b
    · rw [isB, headers.current]
      exact well.heads b inB
    · rw [headers.rest x inX isB notM]
      exact well.heads x inX
  · intro x listed
    have notM : x ≠ m := fun isM => notListedM (isM ▸ listed)
    obtain ⟨inX, free⟩ := well.freed x ((listedBefore x).mpr (Or.inr listed))
    refine ⟨⟨inX, notM⟩, ?_⟩
    by_cases isB : x = b
    · rw [isB, headers.current]
      exact (well.freed b (by simp)).2
    · rw [headers.rest x inX isB notM]
      exact free
  · rintro x ⟨inX, notM⟩ unlisted
    have notB : x ≠ b := fun isB => unlisted (isB ▸ listedB)
    rw [headers.rest x inX notB notM]
    apply well.taken x inX
    intro listed
    rcases (listedBefore x).mp listed with isM | rest
    · exact notM isM
    · exact unlisted rest
  · obtain ⟨last, ring⟩ := wellM.listed
    have nonzeroM := well.formed.pos inM
    have nextM := wellM.formed.next_eq
    have prevM : (heap.header m).prev = b := by
      rw [wellM.formed.prev_eq, List.getLastD_concat]
    have beforeNext : (heap.links last).next m = (heap.header m).next := by
      simp [links, nonzeroM]
    have beforePrev : (heap.links last).prev m = b := by
      simp [links, nonzeroM, prevM]
    refine ⟨if (heap.header m).next = 0 then b else last, ?_⟩
    rw [List.append_cons]
    apply ring.delete
    · rw [beforePrev, beforeNext]
      simp [links, positive, headers.current]
    · rw [beforePrev, beforeNext]
      by_cases isLast : (heap.header m).next = 0
      · simp [links, isLast]
      · obtain ⟨inRight, inNext, nextNe⟩ := wellM.formed.next_mem isLast
        have nextB : (heap.header m).next ≠ b := by
          intro same
          rw [same] at inRight
          have distinct := (List.nodup_append.mp well.formed.free_nodup).2.1
          exact (List.nodup_cons.mp distinct).1 (List.mem_cons_of_mem m inRight)
        simp [links, isLast, headers.rest _ inNext nextB nextNe]
    · intro other inRing notPrev
      rw [beforePrev] at notPrev
      by_cases isZero : other = 0
      · simp [links, isZero, headers.freeList]
      · obtain ⟨inOther, notM⟩ := wellM.formed.of_rest inRing isZero
        simp [links, isZero, headers.rest other inOther notPrev notM]
    · intro other inRing notNext
      rw [beforeNext] at notNext
      by_cases isZero : other = 0
      · rw [isZero] at notNext
        simp [links, isZero, notNext.symm]
      · obtain ⟨inOther, notM⟩ := wellM.formed.of_rest inRing isZero
        by_cases isB : other = b
        · simp [links, isB, positive, headers.current]
        · simp [links, isZero, headers.rest other inOther isB notM, notNext]

/-! ### Where a block ends -/

/-- The address behind a block, as `kfree` computes it. -/
def endOf (heap : Heap) (a : Nat) : Nat := wrap (a + heap.sizes a)

/-- Behind a block lies another block, or memory that no block reaches. -/
theorem WellFormed.endOf_cases (well : heap.WellFormed chunks blocks free)
    (member : a ∈ blocks) :
    heap.endOf a ∈ blocks ∨
      (heap.endOf a = 0 ∨ Apart 0 (heap.endOf a)) ∧
        ∀ y, y ∈ blocks → Apart y (heap.endOf a) := by
  obtain ⟨c, tile⟩ := well.tiling.tiled a member
  have chunk := well.chunk c tile.owned
  have below := chunk.below
  have least := well.tiling.positive
  have bounds := well.formed.bounds member
  have pageBig : memHsize ≤ pageSize := by decide
  by_cases isBlock : heap.endOf a ∈ blocks
  · exact Or.inl isBlock
  · right
    by_cases top : a + heap.sizes a = 4294967296
    · have isZero : heap.endOf a = 0 := by
        unfold endOf
        rw [top]
        rfl
      rw [isZero]
      refine ⟨Or.inl rfl, ?_⟩
      intro y inY
      exact (well.formed.zero_apart inY).symm
    · have exact_end : heap.endOf a = a + heap.sizes a := wrap_small (by omega)
      rw [exact_end] at isBlock ⊢
      have atEnd : a + heap.sizes a = c + chunkSize := by
        rcases tile.onward with finish | next
        · exact finish
        · exact False.elim (isBlock next)
      refine ⟨Or.inr (Or.inl (by omega)), ?_⟩
      intro y inY
      obtain ⟨d, tileY⟩ := well.tiling.tiled y inY
      have lowerY := tileY.lower
      have upperY := tileY.upper
      have bigY := well.tiling.big y inY
      unfold Apart
      by_cases sameChunk : c = d
      · subst d
        left
        omega
      · have apart := well.tiling.chunksApart c d tile.owned tileY.owned sameChunk
        rcases apart with before | behind
        · -- `d` is not the chunk right behind, so a page lies in between
          right
          have notStart : c + chunkSize ≠ d := by
            intro isStart
            rw [atEnd, isStart] at isBlock
            exact isBlock (well.tiling.starts d tileY.owned)
          obtain ⟨i, iEq⟩ := chunk.aligned
          obtain ⟨j, jEq⟩ := (well.chunk d tileY.owned).aligned
          have eight : chunkSize = pageSize * 8 := by decide
          have further : pageSize * (i + 8) < pageSize * j := by
            rw [Nat.mul_add, ← iEq, ← jEq, ← eight]
            omega
          have steps := Nat.lt_of_mul_lt_mul_left further
          have pages := Nat.mul_le_mul_left pageSize (Nat.succ_le_of_lt steps)
          rw [Nat.mul_succ, Nat.mul_add, ← iEq, ← jEq, ← eight] at pages
          omega
        · left
          omega

/-! ### The loops -/

theorem kfreeMerge_stop (current fuel : Nat) {nextBlock : Nat}
    (stop : (heap.header nextBlock).used ≠ freeMark) :
    heap.kfreeMerge (fuel + 1) current nextBlock = some (heap, current, false) := if_neg stop

theorem kfreeSkip_stop (fuel : Nat) {current : Nat}
    (stop : current ≠ 0 → (heap.header current).used ≠ 0) :
    heap.kfreeSkip (fuel + 1) current = some (heap, current) := by
  apply if_neg
  rintro ⟨nonzero, merged⟩
  exact stop nonzero merged

theorem WellFormed.onward_used
    (well : heap.WellFormed chunks blocks (left ++ a :: right)) :
    (heap.header a).next ≠ 0 → (heap.header (heap.header a).next).used ≠ 0 := by
  intro nonzero
  obtain ⟨inRight, _, _⟩ := well.formed.next_mem nonzero
  have listed := List.mem_append_right left (List.mem_cons_of_mem a inRight)
  rw [(well.freed _ listed).2]
  decide

/-- The walk changes nothing when no listed block has a free block behind it. -/
theorem kfreeWalk_quiet (left : List Nat)
    (well : heap.WellFormed chunks blocks (left ++ right)) (fuel : Nat)
    (enough : right.length < fuel)
    (quiet : ∀ x, x ∈ right → (heap.header (heap.endOf x)).used ≠ freeMark) :
    heap.kfreeWalk fuel (right.headD 0) = some heap := by
  induction right generalizing left fuel with
  | nil =>
      cases fuel with
      | zero => cases enough
      | succ fuel => rfl
  | cons a right ih =>
      cases fuel with
      | zero => cases enough
      | succ fuel =>
          rw [List.length_cons] at enough
          obtain ⟨inner, rfl⟩ : ∃ inner, fuel = inner + 1 := ⟨fuel - 1, by omega⟩
          have positive := well.formed.pos (well.freed a (by simp)).1
          have merged := kfreeMerge_stop a inner (quiet a (List.mem_cons_self ..))
          have skipped := kfreeSkip_stop inner well.onward_used
          have wellNext : heap.WellFormed chunks blocks ((left ++ [a]) ++ right) := by
            simpa using well
          have walked := ih (left ++ [a]) wellNext (inner + 1) (by omega)
            (fun x member => quiet x (List.mem_cons_of_mem a member))
          rw [← well.formed.next_eq] at walked
          rw [List.headD_cons, kfreeWalk, if_neg positive]
          change ((heap.kfreeMerge (inner + 1) a (heap.endOf a)).bind _) = _
          rw [merged, Option.bind_some]
          change ((heap.kfreeSkip (inner + 1) (heap.header a).next).bind _) = _
          rw [skipped, Option.bind_some]
          exact walked

/-- No chunk is given back when no listed block fills one. -/
theorem kfreeSweep_quiet (left : List Nat)
    (well : heap.WellFormed chunks blocks (left ++ right)) (fuel : Nat)
    (enough : right.length < fuel) (quiet : ∀ x, x ∈ right → heap.sizes x ≠ chunkSize) :
    heap.kfreeSweep fuel (right.headD 0) = some (heap, []) := by
  induction right generalizing left fuel with
  | nil =>
      cases fuel with
      | zero => cases enough
      | succ fuel => rfl
  | cons a right ih =>
      cases fuel with
      | zero => cases enough
      | succ fuel =>
          rw [List.length_cons] at enough
          have positive := well.formed.pos (well.freed a (by simp)).1
          have wellNext : heap.WellFormed chunks blocks ((left ++ [a]) ++ right) := by
            simpa using well
          have swept := ih (left ++ [a]) wellNext fuel (by omega)
            (fun x member => quiet x (List.mem_cons_of_mem a member))
          rw [← well.formed.next_eq] at swept
          have short : ¬ (heap.header a).size = chunkSize := quiet a (List.mem_cons_self ..)
          rw [List.headD_cons, kfreeSweep, if_neg positive, if_neg short]
          exact swept

/-! ### The whole call -/

theorem InsertHeaders.beyond (headers : InsertHeaders heap after blocks b)
    (well : heap.WellFormed chunks blocks free) (member : a ∈ blocks)
    (different : heap.endOf a ≠ b) :
    (after.header (heap.endOf a)).used = (heap.header (heap.endOf a)).used ∧
      (after.header (heap.endOf a)).isHead = (heap.header (heap.endOf a)).isHead := by
  rcases well.endOf_cases member with isBlock | ⟨low, away⟩
  · rw [headers.rest _ isBlock different]
    exact ⟨rfl, rfl⟩
  · exact headers.foreign _ low away

theorem JoinHeaders.beyond (headers : JoinHeaders heap after blocks b m)
    (well : heap.WellFormed chunks blocks free) (member : a ∈ blocks)
    (notB : heap.endOf a ≠ b) (notM : heap.endOf a ≠ m) :
    (after.header (heap.endOf a)).used = (heap.header (heap.endOf a)).used ∧
      (after.header (heap.endOf a)).isHead = (heap.header (heap.endOf a)).isHead := by
  rcases well.endOf_cases member with isBlock | ⟨low, away⟩
  · rw [headers.rest _ isBlock notB notM]
    exact ⟨rfl, rfl⟩
  · exact headers.foreign _ low away

/-- The releases that `kfree` handles: nothing free lies right in front of the block, and
what lies right behind it is not free or is the head of the list, inside the same chunk. -/
structure Releasable (heap : Heap) (free : List Nat) (b : Nat) : Prop where
  inFront : ∀ x, x ∈ free →
    heap.endOf x ≠ b ∧ (heap.header (heap.endOf x)).used ≠ freeMark
  behind : (heap.header (heap.endOf b)).used ≠ freeMark ∨
    heap.endOf b = heap.freeList ∧ heap.freeList ≠ 0 ∧
      (heap.header heap.freeList).isHead ≠ 1 ∧
      (heap.header (heap.endOf heap.freeList)).isHead ≠ 1
  notWhole : heap.sizes b ≠ chunkSize ∧ (∀ x, x ∈ free → heap.sizes x ≠ chunkSize) ∧
    (heap.endOf b = heap.freeList → heap.sizes b + heap.sizes heap.freeList ≠ chunkSize)

/-- What taking back the block at `b` leaves: the blocks in use are as they were. -/
structure TakesBack (heap after : Heap) (chunks : List Nat) (blocks : Set Nat)
    (free : List Nat) (blocksAfter : Set Nat) (freeAfter : List Nat) (b : Nat) : Prop where
  well : after.WellFormed chunks blocksAfter freeAfter
  listed : b ∈ freeAfter
  keeps : ∀ x, x ∈ blocks → x ∉ free → x ≠ b →
    x ∈ blocksAfter ∧ x ∉ freeAfter ∧ after.sizes x = heap.sizes x
  quiet : heap.nullFollowed = false → heap.freeList ≠ 0 →
    ((heap.header (heap.endOf b)).used = freeMark → (heap.header heap.freeList).next ≠ 0) →
    after.nullFollowed = false

private theorem endOf_congr (same : after.sizes a = heap.sizes a) :
    after.endOf a = heap.endOf a := by
  unfold endOf
  rw [same]

private theorem kfree_address (well : heap.WellFormed chunks blocks free) (inB : b ∈ blocks)
    (fuel : Nat) :
    heap.kfree fuel (b + memHsize) =
      (kfreeWalk fuel (heap.kfreeInsert b) (heap.kfreeInsert b).freeList).bind fun heap =>
        kfreeSweep fuel heap heap.freeList := by
  have bounds := well.formed.bounds inB
  have bigB := well.tiling.big b inB
  have least := well.tiling.positive
  have limit : memHsize ≤ 4294967296 := by decide
  have block : wrap (b + memHsize + (4294967296 - memHsize)) = b := by
    unfold wrap
    omega
  rw [kfree, if_neg (by omega), block]

/-- Nothing is merged: the block just enters the list. -/
private theorem kfree_apart (well : heap.WellFormed chunks blocks free) (inB : b ∈ blocks)
    (unlisted : b ∉ free)
    (inFront : ∀ x, x ∈ free →
      heap.endOf x ≠ b ∧ (heap.header (heap.endOf x)).used ≠ freeMark)
    (behind : (heap.header (heap.endOf b)).used ≠ freeMark)
    (notWhole : heap.sizes b ≠ chunkSize ∧ ∀ x, x ∈ free → heap.sizes x ≠ chunkSize)
    {fuel : Nat} (enough : free.length + 2 < fuel) :
    ∃ after, heap.kfree fuel (b + memHsize) = some (after, []) ∧
      TakesBack heap after chunks blocks free blocks (b :: free) b := by
  have headers := kfreeInsert_headers well inB unlisted
  have wellAfter := headers.well well inB unlisted
  have bigB := well.tiling.big b inB
  have least := well.tiling.positive
  have sameSizes : ∀ x, x ∈ blocks → (heap.kfreeInsert b).sizes x = heap.sizes x := by
    intro x inX
    by_cases isB : x = b
    · simp [sizes, isB, headers.current]
    · simp [sizes, headers.rest x inX isB]
  have endNe : heap.endOf b ≠ b := by
    have bounds := well.formed.bounds inB
    have positive := well.formed.pos inB
    unfold endOf wrap
    omega
  have quiet : ∀ x, x ∈ b :: free →
      ((heap.kfreeInsert b).header ((heap.kfreeInsert b).endOf x)).used ≠ freeMark := by
    intro x listed
    rcases List.mem_cons.mp listed with isB | inFree
    · rw [isB, endOf_congr (sameSizes b inB), (headers.beyond well inB endNe).1]
      exact behind
    · have inX := (well.freed x inFree).1
      obtain ⟨notB, notFree⟩ := inFront x inFree
      rw [endOf_congr (sameSizes x inX), (headers.beyond well inX notB).1]
      exact notFree
  have notFull : ∀ x, x ∈ b :: free → (heap.kfreeInsert b).sizes x ≠ chunkSize := by
    intro x listed
    rcases List.mem_cons.mp listed with isB | inFree
    · rw [isB, sameSizes b inB]
      exact notWhole.1
    · rw [sameSizes x (well.freed x inFree).1]
      exact notWhole.2 x inFree
  have longer : (b :: free).length < fuel := by
    rw [List.length_cons]
    omega
  have walked := kfreeWalk_quiet [] wellAfter fuel longer quiet
  have swept := kfreeSweep_quiet [] wellAfter fuel longer notFull
  rw [List.headD_cons] at walked swept
  refine ⟨heap.kfreeInsert b, ?_, ?_⟩
  · rw [kfree_address well inB, headers.freeList, walked, Option.bind_some, headers.freeList,
      swept]
  · constructor
    · exact wellAfter
    · exact List.mem_cons_self ..
    · intro x inX inUse notB
      refine ⟨inX, ?_, sameSizes x inX⟩
      rw [List.mem_cons, not_or]
      exact ⟨notB, inUse⟩
    · intro calm nonempty _
      rw [headers.nullFollowed, calm]
      simpa using nonempty

/-- The block joins the head of the list, which lies right behind it. -/
private theorem kfree_joined {m : Nat} {rest : List Nat}
    (well : heap.WellFormed chunks blocks (m :: rest)) (inB : b ∈ blocks)
    (unlisted : b ∉ m :: rest)
    (inFront : ∀ x, x ∈ m :: rest →
      heap.endOf x ≠ b ∧ (heap.header (heap.endOf x)).used ≠ freeMark)
    (behind : heap.endOf b = m) (inner : m ∉ chunks)
    (noHead : (heap.header (heap.endOf m)).isHead ≠ 1)
    (notWhole : heap.sizes b + heap.sizes m ≠ chunkSize ∧
      ∀ x, x ∈ m :: rest → heap.sizes x ≠ chunkSize)
    {fuel : Nat} (enough : (m :: rest).length + 2 < fuel) :
    ∃ after, heap.kfree fuel (b + memHsize) = some (after, []) ∧
      TakesBack heap after chunks blocks (m :: rest) (blocks \ {m}) (b :: rest) b := by
  have inM := (well.freed m (List.mem_cons_self ..)).1
  have markM := (well.freed m (List.mem_cons_self ..)).2
  have different : m ≠ b := fun same => unlisted (same ▸ List.mem_cons_self ..)
  have boundsB := well.formed.bounds inB
  have boundsM := well.formed.bounds inM
  have bigM := well.tiling.big m inM
  have least := well.tiling.positive
  have exactEnd : m = b + heap.sizes b := by
    have positive := well.formed.pos inM
    unfold endOf wrap at behind
    omega
  -- the block enters the list
  have insertHeaders := kfreeInsert_headers well inB unlisted
  have wellInsert := insertHeaders.well well inB unlisted
  have insertSizes : ∀ x, x ∈ blocks → (heap.kfreeInsert b).sizes x = heap.sizes x := by
    intro x inX
    by_cases isB : x = b
    · simp [sizes, isB, insertHeaders.current]
    · simp [sizes, insertHeaders.rest x inX isB]
  have behindInsert : m = b + (heap.kfreeInsert b).sizes b := by
    rw [insertSizes b inB]
    exact exactEnd
  -- and joins the block behind it
  have wellFirst : (heap.kfreeInsert b).WellFormed chunks blocks ([] ++ b :: m :: rest) :=
    wellInsert
  have joinHeaders := kfreeJoin_headers wellFirst behindInsert
  have wellJoin := joinHeaders.well wellFirst behindInsert inner
  have joinSizes : ∀ x, x ∈ blocks → x ≠ b → x ≠ m →
      ((heap.kfreeInsert b).kfreeJoin b m).sizes x = heap.sizes x := by
    intro x inX notB notM
    rw [← insertSizes x inX]
    simp [sizes, joinHeaders.rest x inX notB notM]
  have joinedSize : ((heap.kfreeInsert b).kfreeJoin b m).sizes b =
      heap.sizes b + heap.sizes m := by
    rw [← insertSizes b inB, ← insertSizes m inM]
    simp [sizes, joinHeaders.current]
  have joinedEnd : ((heap.kfreeInsert b).kfreeJoin b m).endOf b = heap.endOf m := by
    unfold endOf
    rw [joinedSize, exactEnd, Nat.add_assoc]
  have beyond : ∀ x, x ∈ m :: rest → heap.endOf x ≠ m →
      (((heap.kfreeInsert b).kfreeJoin b m).header (heap.endOf x)).used =
          (heap.header (heap.endOf x)).used ∧
        (((heap.kfreeInsert b).kfreeJoin b m).header (heap.endOf x)).isHead =
          (heap.header (heap.endOf x)).isHead := by
    intro x listed notM
    have inX := (well.freed x listed).1
    have notB := (inFront x listed).1
    have sameEnd := endOf_congr (insertSizes x inX)
    have inserted := insertHeaders.beyond well inX notB
    have joined := joinHeaders.beyond wellInsert inX (by rwa [sameEnd]) (by rwa [sameEnd])
    rw [sameEnd] at joined
    exact ⟨joined.1.trans inserted.1, joined.2.trans inserted.2⟩
  have endNotM : ∀ x, x ∈ m :: rest → heap.endOf x ≠ m := by
    intro x listed isM
    apply (inFront x listed).2
    rw [isM]
    exact markM
  have quiet : ∀ x, x ∈ b :: rest →
      (((heap.kfreeInsert b).kfreeJoin b m).header
        (((heap.kfreeInsert b).kfreeJoin b m).endOf x)).used ≠ freeMark := by
    intro x listed
    rcases List.mem_cons.mp listed with isB | inRest
    · have first : m ∈ m :: rest := List.mem_cons_self ..
      rw [isB, joinedEnd, (beyond m first (endNotM m first)).1]
      exact (inFront m first).2
    · have inFree : x ∈ m :: rest := List.mem_cons_of_mem m inRest
      have inX := (well.freed x inFree).1
      have notB : x ≠ b := fun isB => unlisted (isB ▸ inFree)
      have notM : x ≠ m := by
        intro isM
        exact (List.nodup_cons.mp well.formed.free_nodup).1 (isM ▸ inRest)
      rw [endOf_congr (joinSizes x inX notB notM), (beyond x inFree (endNotM x inFree)).1]
      exact (inFront x inFree).2
  have notFull : ∀ x, x ∈ b :: rest →
      ((heap.kfreeInsert b).kfreeJoin b m).sizes x ≠ chunkSize := by
    intro x listed
    rcases List.mem_cons.mp listed with isB | inRest
    · rw [isB, joinedSize]
      exact notWhole.1
    · have inFree : x ∈ m :: rest := List.mem_cons_of_mem m inRest
      have notB : x ≠ b := fun isB => unlisted (isB ▸ inFree)
      have notM : x ≠ m := by
        intro isM
        exact (List.nodup_cons.mp well.formed.free_nodup).1 (isM ▸ inRest)
      rw [joinSizes x (well.freed x inFree).1 notB notM]
      exact notWhole.2 x inFree
  have longer : (b :: rest).length + 2 < fuel := enough
  have swept := kfreeSweep_quiet [] wellJoin fuel (by omega) notFull
  rw [List.headD_cons] at swept
  have freeList : ((heap.kfreeInsert b).kfreeJoin b m).freeList = b :=
    joinHeaders.freeList.trans insertHeaders.freeList
  -- the walk merges once and then finds nothing more to merge
  have walked : kfreeWalk fuel (heap.kfreeInsert b) b =
      some ((heap.kfreeInsert b).kfreeJoin b m) := by
    obtain ⟨inner, rfl⟩ : ∃ inner, fuel = inner + 3 := ⟨fuel - 3, by omega⟩
    have positive := well.formed.pos inB
    have start : wrap (b + ((heap.kfreeInsert b).header b).size) = m := by
      change (heap.kfreeInsert b).endOf b = m
      rw [endOf_congr (insertSizes b inB)]
      exact behind
    have markInsert : ((heap.kfreeInsert b).header m).used = freeMark := by
      rw [insertHeaders.rest m inM different]
      exact markM
    have first : m ∈ m :: rest := List.mem_cons_self ..
    have noHeadJoin : (((heap.kfreeInsert b).kfreeJoin b m).header
        (wrap (b + (((heap.kfreeInsert b).kfreeJoin b m).header b).size))).isHead ≠ 1 := by
      change (((heap.kfreeInsert b).kfreeJoin b m).header
        (((heap.kfreeInsert b).kfreeJoin b m).endOf b)).isHead ≠ 1
      rw [joinedEnd, (beyond m first (endNotM m first)).2]
      exact noHead
    have stopped := kfreeMerge_stop b inner (quiet b (List.mem_cons_self ..))
    have merged : (heap.kfreeInsert b).kfreeMerge (inner + 2) b m =
        some ((heap.kfreeInsert b).kfreeJoin b m, b, false) := by
      rw [kfreeMerge, if_pos markInsert]
      simp only [if_neg noHeadJoin]
      exact stopped
    have wellSplit : ((heap.kfreeInsert b).kfreeJoin b m).WellFormed chunks (blocks \ {m})
        ([] ++ b :: rest) := wellJoin
    have skipped := kfreeSkip_stop (inner + 1) wellSplit.onward_used
    have wellRest : ((heap.kfreeInsert b).kfreeJoin b m).WellFormed chunks (blocks \ {m})
        ([b] ++ rest) := wellJoin
    have onward := kfreeWalk_quiet [b] wellRest (inner + 2)
      (by rw [List.length_cons] at longer; omega)
      (fun x member => quiet x (List.mem_cons_of_mem b member))
    rw [← wellSplit.formed.next_eq] at onward
    rw [kfreeWalk, if_neg positive, start, merged, Option.bind_some]
    change ((kfreeSkip (inner + 2) ((heap.kfreeInsert b).kfreeJoin b m)
      (((heap.kfreeInsert b).kfreeJoin b m).header b).next).bind _) = _
    rw [skipped, Option.bind_some]
    exact onward
  refine ⟨(heap.kfreeInsert b).kfreeJoin b m, ?_, ?_⟩
  · rw [kfree_address well inB, insertHeaders.freeList, walked, Option.bind_some, freeList,
      swept]
  · constructor
    · exact wellJoin
    · exact List.mem_cons_self ..
    · intro x inX inUse notB
      have notM : x ≠ m := fun isM => inUse (isM ▸ List.mem_cons_self ..)
      refine ⟨⟨inX, notM⟩, ?_, joinSizes x inX notB notM⟩
      rw [List.mem_cons, not_or]
      exact ⟨notB, fun inRest => inUse (List.mem_cons_of_mem m inRest)⟩
    · intro calm nonempty notLast
      have freeIsM := well.formed.freeList_eq
      rw [List.headD_cons] at freeIsM
      have nextNonzero := notLast (by rw [behind]; exact markM)
      rw [freeIsM] at nextNonzero nonempty
      rw [joinHeaders.nullFollowed, insertHeaders.nullFollowed, calm,
        insertHeaders.rest m inM different, freeIsM]
      simp [nextNonzero, nonempty]

/-- `kfree` of a block in use, where it is releasable, ends and gives no chunk back. -/
theorem kfree_spec (well : heap.WellFormed chunks blocks free) (inB : b ∈ blocks)
    (unlisted : b ∉ free) (releasable : heap.Releasable free b) {fuel : Nat}
    (enough : free.length + 2 < fuel) :
    ∃ after blocksAfter freeAfter, heap.kfree fuel (b + memHsize) = some (after, []) ∧
      TakesBack heap after chunks blocks free blocksAfter freeAfter b := by
  by_cases isFree : (heap.header (heap.endOf b)).used = freeMark
  · obtain ⟨isFirst, nonempty, notHead, noHead⟩ :=
      releasable.behind.resolve_left (fun notFree => notFree isFree)
    have firstIs := well.formed.freeList_eq
    cases free with
    | nil => exact False.elim (nonempty firstIs)
    | cons m rest =>
        rw [List.headD_cons] at firstIs
        have inM := (well.freed m (List.mem_cons_self ..)).1
        rw [firstIs] at isFirst notHead noHead
        have inner : m ∉ chunks := fun inChunks => notHead ((well.heads m inM).mpr inChunks)
        have whole := releasable.notWhole
        rw [firstIs] at whole
        obtain ⟨after, freed, back⟩ := kfree_joined well inB unlisted releasable.inFront
          isFirst inner noHead ⟨whole.2.2 isFirst, whole.2.1⟩ enough
        exact ⟨after, _, _, freed, back⟩
  · have whole := releasable.notWhole
    obtain ⟨after, freed, back⟩ := kfree_apart well inB unlisted releasable.inFront isFree
      ⟨whole.1, whole.2.1⟩ enough
    exact ⟨after, _, _, freed, back⟩

end Heap

end MangoOS
