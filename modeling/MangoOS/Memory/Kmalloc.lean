/-
`kmalloc` on well-formed heaps.

Each piece of the function has one lemma for the headers it leaves and one that
the heap is well formed again.
-/

import MangoOS.Memory.WellFormed

namespace MangoOS

open Intrusive

namespace Heap

variable {heap after : Heap} {chunks free left right : List Nat} {blocks : Set Nat}
variable {a b size : Nat}

/-! ### Splitting a free block -/

/-- A header written inside a block stays away from the other blocks. -/
theorem Formed.inside_apart (formed : heap.Formed chunks blocks free)
    (inA : a ∈ blocks) (inB : b ∈ blocks) (different : b ≠ a) {n : Nat} (lower : a ≤ n)
    (upper : n + memHsize ≤ a + heap.sizes a) : Apart n b := by
  have bigB := formed.tiling.big b inB
  unfold Apart
  rcases formed.tiling.apart a b inA inB different.symm with before | behind
  · left
    omega
  · right
    omega

theorem Formed.inside_unowned (formed : heap.Formed chunks blocks free) (member : a ∈ blocks)
    (big : memHsize ≤ size) (room : size + memHsize < heap.sizes a) : a + size ∉ blocks := by
  intro isBlock
  have least := formed.tiling.positive
  have apart := formed.tiling.apart a (a + size) member isBlock (by omega)
  have bigNew := formed.tiling.big (a + size) isBlock
  omega

/-- The headers that `kmallocSplit` leaves; `n` is the new block. -/
structure SplitHeaders (heap after : Heap) (blocks : Set Nat) (a size n : Nat) : Prop where
  start : n = a + size
  current : after.header a = { heap.header a with size := size, next := n }
  created : after.header n =
    { used := freeMark, size := heap.sizes a - size, isHead := 0, prev := a
      next := (heap.header a).next }
  rest : ∀ x, x ∈ blocks → x ≠ a →
    after.header x = { heap.header x with
      prev := if x = (heap.header a).next then n else (heap.header x).prev }
  freeList : after.freeList = heap.freeList
  nullFollowed : after.nullFollowed = heap.nullFollowed

theorem kmallocSplit_headers (formed : heap.Formed chunks blocks (left ++ a :: right))
    (big : memHsize ≤ size) (room : size + memHsize < heap.sizes a) :
    SplitHeaders heap (heap.kmallocSplit a size) blocks a size (a + size) := by
  have member := (formed.freed a (by simp)).1
  have bounds := formed.bounds member
  have start : wrap (a + size) = a + size := wrap_small (by omega)
  have apart : Apart (a + size) a := Or.inr (by omega)
  have smallA : wrap a = a := wrap_small (by omega)
  have smallSize : wrap size = size := wrap_small (by omega)
  have smallRest : wrap ((heap.header a).size - size) = (heap.header a).size - size :=
    wrap_small (by have small := heap.header_size_lt a; omega)
  have newApart : ∀ x, x ∈ blocks → x ≠ a → Apart (a + size) x := by
    intro x inX different
    exact formed.inside_apart member inX different (by omega) (by omega)
  by_cases isLast : (heap.header a).next = 0
  · constructor
    · rfl
    · simp [kmallocSplit, start, isLast, apart, smallSize]
    · simp [kmallocSplit, start, isLast, apart, apart.symm, smallA, smallRest, sizes]
    · intro x inX different
      have away := newApart x inX different
      have apartA := formed.headers_apart member inX different.symm
      have nonzero := formed.pos inX
      simp [kmallocSplit, start, isLast, apart, away, apartA, nonzero]
    · simp [kmallocSplit, start, isLast, apart]
    · simp [kmallocSplit, start, isLast, apart]
  · obtain ⟨_, inNext, nextNe⟩ := formed.next_mem isLast
    have nextA := formed.headers_apart inNext member nextNe
    have newNext := newApart _ inNext nextNe
    constructor
    · rfl
    · simp [kmallocSplit, start, isLast, apart, smallSize, nextA]
    · simp [kmallocSplit, start, isLast, apart, apart.symm, smallA, smallRest, sizes,
        newNext.symm]
    · intro x inX different
      have away := newApart x inX different
      have apartA := formed.headers_apart member inX different.symm
      by_cases isNext : x = (heap.header a).next
      · subst x
        simp [kmallocSplit, start, isLast, apart, newNext, nextA.symm]
      · have nextX := formed.headers_apart inNext inX (Ne.symm isNext)
        simp [kmallocSplit, start, isLast, apart, away, apartA, nextX, isNext]
    · simp [kmallocSplit, start, isLast, apart]
    · simp [kmallocSplit, start, isLast, apart]

theorem SplitHeaders.formed {n : Nat} (headers : SplitHeaders heap after blocks a size n)
    (formed : heap.Formed chunks blocks (left ++ a :: right))
    (big : memHsize ≤ size) (room : size + memHsize < heap.sizes a) :
    after.Formed chunks (insert n blocks) (left ++ a :: n :: right) := by
  have member := (formed.freed a (by simp)).1
  have positive := formed.pos member
  have start := headers.start
  have fresh : n ∉ blocks := start ▸ formed.inside_unowned member big room
  have nonzero : n ≠ 0 := by omega
  have notListed : n ∉ left ++ a :: right := fun listed => fresh (formed.freed n listed).1
  have different : n ≠ a := fun same => fresh (same.symm ▸ member)
  constructor
  · exact formed.chunk
  · rw [start]
    rw [start] at headers
    apply formed.tiling.split member big (by omega)
    · simp [sizes, headers.current]
    · simp [sizes, headers.created]
    · intro x inX isOther
      simp [sizes, headers.rest x inX isOther]
  · intro x listed
    by_cases isNew : x = n
    · rw [isNew, headers.created]
      exact ⟨Set.mem_insert _ _, rfl⟩
    · have old : x ∈ left ++ a :: right := by
        simp only [List.mem_append, List.mem_cons] at listed ⊢
        tauto
      obtain ⟨inX, free⟩ := formed.freed x old
      refine ⟨Set.mem_insert_of_mem _ inX, ?_⟩
      by_cases isA : x = a
      · rw [isA, headers.current]
        rw [isA] at free
        exact free
      · rw [headers.rest x inX isA]
        exact free
  · intro x inX unlisted
    rcases Set.mem_insert_iff.mp inX with isNew | old
    · exact False.elim (unlisted (by simp [isNew]))
    · have notA : x ≠ a := fun isA => unlisted (by simp [isA])
      have notOld : x ∉ left ++ a :: right := by
        intro inOld
        apply unlisted
        simp only [List.mem_append, List.mem_cons] at inOld ⊢
        tauto
      rw [headers.rest x old notA]
      exact formed.taken x old notOld
  · obtain ⟨last, ring⟩ := formed.listed
    have nextA := formed.next_eq
    have ofRing : ∀ other, other ∈ 0 :: ((left ++ [a]) ++ right) → other ≠ 0 →
        other ∈ blocks := by
      intro other inRing notZero
      apply (formed.freed other ?_).1
      simpa [notZero] using inRing
    have gap : Ring (heap.links last) 0 ((left ++ [a]) ++ right) := by simpa using ring
    refine ⟨if right = [] then n else last, ?_⟩
    have inserted : Ring (after.links (if right = [] then n else last)) 0
        ((left ++ [a]) ++ n :: right) := by
      apply gap.insert
      · simpa [nonzero] using notListed
      · simp [links, positive, headers.current]
      · simp [links, nonzero, headers.created]
      · simp [links, nonzero, headers.created, nextA]
      · cases right with
        | nil => simp [links]
        | cons y right =>
            have inY := (formed.freed y (by simp)).1
            have yNonzero := formed.pos inY
            have yNe : y ≠ a := by
              intro same
              have distinct := formed.free_nodup
              simp [same, List.nodup_append] at distinct
            simp [links, yNonzero, headers.rest y inY yNe, nextA]
      · intro other inRing notLast
        rw [List.getLastD_concat] at notLast
        by_cases isZero : other = 0
        · simp [links, isZero, headers.freeList]
        · simp [links, isZero, headers.rest other (ofRing other inRing isZero) notLast]
      · intro other inRing notNext
        by_cases isZero : other = 0
        · have nonempty : right ≠ [] := by
            intro isNil
            simp [isZero, isNil] at notNext
          simp [links, isZero, nonempty]
        · by_cases isA : other = a
          · simp [links, isA, positive, headers.current]
          · rw [← nextA] at notNext
            simp [links, isZero, headers.rest other (ofRing other inRing isZero) isA, notNext]
    simpa using inserted

theorem SplitHeaders.well {n : Nat} (headers : SplitHeaders heap after blocks a size n)
    (well : heap.WellFormed chunks blocks (left ++ a :: right))
    (big : memHsize ≤ size) (room : size + memHsize < heap.sizes a) :
    after.WellFormed chunks (insert n blocks) (left ++ a :: n :: right) := by
  have member := (well.freed a (by simp)).1
  have fresh : n ∉ blocks := headers.start ▸ well.formed.inside_unowned member big room
  apply (headers.formed well.formed big room).wellFormed
  intro x inX
  rcases Set.mem_insert_iff.mp inX with isNew | old
  · have notChunk : n ∉ chunks := fun inChunks => fresh (well.tiling.starts n inChunks)
    rw [isNew, headers.created]
    simp [notChunk]
  · by_cases isA : x = a
    · rw [isA, headers.current]
      exact well.heads a member
    · rw [headers.rest x old isA]
      exact well.heads x old

/-! ### Taking a block off the free list -/

structure TakeHeaders (heap after : Heap) (blocks : Set Nat) (a : Nat) : Prop where
  current : after.header a = { heap.header a with used := usedMark }
  rest : ∀ x, x ∈ blocks → x ≠ a →
    after.header x = { heap.header x with
      next := if x = (heap.header a).prev then (heap.header a).next else (heap.header x).next
      prev := if x = (heap.header a).next then (heap.header a).prev else (heap.header x).prev }
  freeList : after.freeList =
    if (heap.header a).prev = 0 then (heap.header a).next else heap.freeList
  nullFollowed : after.nullFollowed = heap.nullFollowed

theorem kmallocTake_headers (formed : heap.Formed chunks blocks (left ++ a :: right)) :
    TakeHeaders heap (heap.kmallocTake a) blocks a := by
  have member := (formed.freed a (by simp)).1
  by_cases isFirst : (heap.header a).prev = 0
  · by_cases isLast : (heap.header a).next = 0
    · constructor
      · simp [kmallocTake, isFirst, isLast]
      · intro x inX different
        have apartA := formed.headers_apart member inX different.symm
        have nonzero := formed.pos inX
        simp [kmallocTake, isFirst, isLast, apartA, nonzero]
      · simp [kmallocTake, isFirst, isLast]
      · simp [kmallocTake, isFirst, isLast]
    · obtain ⟨_, inNext, nextNe⟩ := formed.next_mem isLast
      have nextA := formed.headers_apart inNext member nextNe
      constructor
      · simp [kmallocTake, isFirst, isLast, nextA]
      · intro x inX different
        have apartA := formed.headers_apart member inX different.symm
        have nonzero := formed.pos inX
        by_cases isNext : x = (heap.header a).next
        · subst x
          simp [kmallocTake, isFirst, isLast, nextA.symm]
        · have nextX := formed.headers_apart inNext inX (Ne.symm isNext)
          simp [kmallocTake, isFirst, isLast, apartA, nextX, isNext, nonzero]
      · simp [kmallocTake, isFirst, isLast]
      · simp [kmallocTake, isFirst, isLast]
  · obtain ⟨inLeft, inPrev, prevNe⟩ := formed.prev_mem isFirst
    have prevA := formed.headers_apart inPrev member prevNe
    by_cases isLast : (heap.header a).next = 0
    · constructor
      · simp [kmallocTake, isFirst, isLast, prevA]
      · intro x inX different
        have apartA := formed.headers_apart member inX different.symm
        have nonzero := formed.pos inX
        by_cases isPrev : x = (heap.header a).prev
        · subst x
          simp [kmallocTake, isFirst, isLast, prevA, prevA.symm]
        · have prevX := formed.headers_apart inPrev inX (Ne.symm isPrev)
          simp [kmallocTake, isFirst, isLast, apartA, prevA, prevX, isPrev, nonzero]
      · simp [kmallocTake, isFirst, isLast, prevA]
      · simp [kmallocTake, isFirst, isLast, prevA]
    · obtain ⟨inRight, inNext, nextNe⟩ := formed.next_mem isLast
      have nextA := formed.headers_apart inNext member nextNe
      have prevNext : (heap.header a).prev ≠ (heap.header a).next := by
        intro same
        have distinct := formed.free_nodup
        rw [same] at inLeft
        exact (List.nodup_append.mp distinct).2.2 _ inLeft _
          (List.mem_cons_of_mem a inRight) rfl
      have apartPN := formed.headers_apart inPrev inNext prevNext
      constructor
      · simp [kmallocTake, isFirst, isLast, prevA, nextA]
      · intro x inX different
        have apartA := formed.headers_apart member inX different.symm
        by_cases isPrev : x = (heap.header a).prev
        · subst x
          simp [kmallocTake, isFirst, isLast, prevA, prevA.symm, apartPN.symm, prevNext]
        · have prevX := formed.headers_apart inPrev inX (Ne.symm isPrev)
          by_cases isNext : x = (heap.header a).next
          · subst x
            simp [kmallocTake, isFirst, isLast, prevA, nextA.symm, apartPN, isPrev]
          · have nextX := formed.headers_apart inNext inX (Ne.symm isNext)
            simp [kmallocTake, isFirst, isLast, apartA, prevA, prevX, nextX, isPrev, isNext]
      · simp [kmallocTake, isFirst, isLast, prevA]
      · simp [kmallocTake, isFirst, isLast, prevA]

theorem TakeHeaders.formed (headers : TakeHeaders heap after blocks a)
    (formed : heap.Formed chunks blocks (left ++ a :: right)) :
    after.Formed chunks blocks (left ++ right) := by
  have member := (formed.freed a (by simp)).1
  have positive := formed.pos member
  have notListed : a ∉ left ++ right := (List.nodup_middle.mp formed.free_nodup).notMem
  constructor
  · exact formed.chunk
  · apply formed.tiling.congr
    intro x inX
    by_cases isA : x = a
    · simp [sizes, isA, headers.current]
    · simp [sizes, headers.rest x inX isA]
  · intro x listed
    have notA : x ≠ a := fun isA => notListed (isA ▸ listed)
    have old : x ∈ left ++ a :: right := by
      simp only [List.mem_append, List.mem_cons] at listed ⊢
      tauto
    obtain ⟨inX, free⟩ := formed.freed x old
    rw [headers.rest x inX notA]
    exact ⟨inX, free⟩
  · intro x inX unlisted
    by_cases isA : x = a
    · rw [isA, headers.current]
    · have notOld : x ∉ left ++ a :: right := by
        intro inOld
        apply unlisted
        simp only [List.mem_append, List.mem_cons] at inOld ⊢
        tauto
      rw [headers.rest x inX isA]
      exact formed.taken x inX notOld
  · obtain ⟨last, ring⟩ := formed.listed
    have prevA := formed.prev_eq
    have nextA := formed.next_eq
    have beforeNext : (heap.links last).next a = (heap.header a).next := by
      simp [links, positive]
    have beforePrev : (heap.links last).prev a = (heap.header a).prev := by
      simp [links, positive]
    refine ⟨if (heap.header a).next = 0 then (heap.header a).prev else last, ?_⟩
    apply ring.delete
    · rw [beforePrev, beforeNext]
      by_cases isFirst : (heap.header a).prev = 0
      · simp [links, isFirst, headers.freeList]
      · obtain ⟨_, inPrev, prevNe⟩ := formed.prev_mem isFirst
        simp [links, isFirst, headers.rest _ inPrev prevNe]
    · rw [beforePrev, beforeNext]
      by_cases isLast : (heap.header a).next = 0
      · simp [links, isLast]
      · obtain ⟨_, inNext, nextNe⟩ := formed.next_mem isLast
        simp [links, isLast, headers.rest _ inNext nextNe]
    · intro other inRing notPrev
      rw [beforePrev] at notPrev
      by_cases isZero : other = 0
      · rw [isZero] at notPrev
        simp [links, isZero, headers.freeList, notPrev.symm]
      · obtain ⟨inOther, notA⟩ := formed.of_rest inRing isZero
        simp [links, isZero, headers.rest other inOther notA, notPrev]
    · intro other inRing notNext
      rw [beforeNext] at notNext
      by_cases isZero : other = 0
      · rw [isZero] at notNext
        simp [links, isZero, notNext.symm]
      · obtain ⟨inOther, notA⟩ := formed.of_rest inRing isZero
        simp [links, isZero, headers.rest other inOther notA, notNext]

theorem TakeHeaders.well (headers : TakeHeaders heap after blocks a)
    (well : heap.WellFormed chunks blocks (left ++ a :: right)) :
    after.WellFormed chunks blocks (left ++ right) := by
  apply (headers.formed well.formed).wellFormed
  intro x inX
  by_cases isA : x = a
  · rw [isA, headers.current]
    exact well.heads a (well.freed a (by simp)).1
  · rw [headers.rest x inX isA]
    exact well.heads x inX

/-! ### A fresh chunk -/

/-- The headers that `kmallocGrow` leaves: the block at `page` is handed out, the rest of
the chunk at `n` goes behind the last free block `p`. -/
structure GrowHeaders (heap after : Heap) (blocks : Set Nat) (page n size p : Nat) : Prop where
  start : n = page + size
  created : after.header page =
    { used := usedMark, size := size, isHead := 1, prev := 0, next := 0 }
  remainder : after.header n =
    { used := freeMark, size := chunkSize - size, isHead := 0, prev := p, next := 0 }
  rest : ∀ x, x ∈ blocks → after.header x = { heap.header x with
    next := if x = p then n else (heap.header x).next }
  freeList : after.freeList = heap.freeList

/-- A chunk that the heap does not own yet. -/
structure Fresh (chunks : List Nat) (page : Nat) : Prop where
  chunk : Chunk page
  apart : ∀ c, c ∈ chunks → c + chunkSize ≤ page ∨ page + chunkSize ≤ c

theorem Formed.fresh_outside (formed : heap.Formed chunks blocks free) {page : Nat}
    (fresh : Fresh chunks page) (member : a ∈ blocks) :
    a + heap.sizes a ≤ page ∨ page + chunkSize ≤ a := by
  obtain ⟨c, tile⟩ := formed.tiling.tiled a member
  have lower := tile.lower
  have upper := tile.upper
  have apart := fresh.apart c tile.owned
  omega

theorem kmallocGrow_headers {page p : Nat} (formed : heap.Formed chunks blocks (left ++ [p]))
    (fresh : Fresh chunks page) (big : memHsize ≤ size)
    (room : size + memHsize ≤ chunkSize) :
    GrowHeaders heap (heap.kmallocGrow page p size) blocks page (page + size) size p := by
  have inP := (formed.freed p (by simp)).1
  have below := fresh.chunk.below
  have aligned := Nat.le_of_dvd fresh.chunk.positive fresh.chunk.aligned
  have least := formed.tiling.positive
  have boundsP := formed.bounds inP
  have bigP := formed.tiling.big p inP
  have start : wrap (page + size) = page + size := wrap_small (by omega)
  have smallP : wrap p = p := wrap_small (by omega)
  have smallSize : wrap size = size := wrap_small (by omega)
  have smallRest : wrap (chunkSize - size) = chunkSize - size := wrap_small (by omega)
  have lastP : (heap.header p).next = 0 := by
    have next := formed.next_eq
    exact next
  have zeroSmall : 0 + memHsize ≤ pageSize := by decide
  have pageNew : Apart page (page + size) := Or.inl (by omega)
  have zeroPage : Apart 0 page := Or.inl (by omega)
  have zeroNew : Apart 0 (page + size) := Or.inl (by omega)
  have outside : ∀ x, x ∈ blocks → Apart page x ∧ Apart (page + size) x := by
    intro x inX
    have bigX := formed.tiling.big x inX
    unfold Apart
    rcases formed.fresh_outside fresh inX with before | behind
    · exact ⟨Or.inr (by omega), Or.inr (by omega)⟩
    · exact ⟨Or.inl (by omega), Or.inl (by omega)⟩
  obtain ⟨pageP, newP⟩ := outside p inP
  have zeroP := formed.zero_apart inP
  constructor
  · rfl
  · simp [kmallocGrow, start, pageNew.symm, pageP.symm, zeroPage, lastP, pageP, newP, smallSize]
  · simp [kmallocGrow, start, zeroNew, newP.symm, lastP, pageP, newP, smallRest, smallP]
  · intro x inX
    obtain ⟨pageX, newX⟩ := outside x inX
    have zeroX := formed.zero_apart inX
    by_cases isP : x = p
    · subst x
      simp [kmallocGrow, start, pageP, newP, zeroP, lastP]
    · have apartP := formed.headers_apart inP inX (Ne.symm isP)
      simp [kmallocGrow, start, pageP, newP, pageX, newX, zeroX, lastP, apartP, isP]
  · simp [kmallocGrow]

theorem GrowHeaders.formed {page n p : Nat} (headers : GrowHeaders heap after blocks page n size p)
    (formed : heap.Formed chunks blocks (left ++ [p])) (fresh : Fresh chunks page)
    (big : memHsize ≤ size) (room : size + memHsize ≤ chunkSize) :
    after.Formed (page :: chunks) (insert page (insert n blocks)) (left ++ [p] ++ [n]) := by
  have start := headers.start
  have least := formed.tiling.positive
  have inP := (formed.freed p (by simp)).1
  have positivePage := fresh.chunk.positive
  have notBlock : ∀ x, x ∈ blocks → x ≠ page ∧ x ≠ n := by
    intro x inX
    have outside := formed.fresh_outside fresh inX
    have bigX := formed.tiling.big x inX
    omega
  have different : page ≠ n := by omega
  have nonzero : n ≠ 0 := by omega
  constructor
  · intro c inChunks
    rcases List.mem_cons.mp inChunks with isNew | old
    · exact isNew ▸ fresh.chunk
    · exact formed.chunk c old
  · rw [start]
    rw [start] at headers
    apply formed.tiling.grow fresh.apart big room
    · simp [sizes, headers.created]
    · simp [sizes, headers.remainder]
    · intro x inX
      simp [sizes, headers.rest x inX]
  · intro x listed
    rcases List.mem_append.mp listed with old | isNew
    · obtain ⟨inX, free⟩ := formed.freed x old
      refine ⟨Set.mem_insert_of_mem _ (Set.mem_insert_of_mem _ inX), ?_⟩
      rw [headers.rest x inX]
      exact free
    · rw [List.mem_singleton] at isNew
      rw [isNew, headers.remainder]
      exact ⟨Set.mem_insert_of_mem _ (Set.mem_insert _ _), rfl⟩
  · intro x inX unlisted
    rcases Set.mem_insert_iff.mp inX with isPage | rest
    · rw [isPage, headers.created]
    · rcases Set.mem_insert_iff.mp rest with isNew | old
      · exact False.elim (unlisted (by simp [isNew]))
      · rw [headers.rest x old]
        apply formed.taken x old
        intro inOld
        exact unlisted (List.mem_append_left _ inOld)
  · obtain ⟨last, ring⟩ := formed.listed
    have lastIsP : (heap.links last).prev 0 = p := by
      rw [ring.prev_head, List.getLastD_concat]
    have ofRing : ∀ other, other ∈ 0 :: (left ++ [p]) → other ≠ 0 → other ∈ blocks := by
      intro other inRing notZero
      apply (formed.freed other ?_).1
      exact List.mem_of_ne_of_mem notZero inRing
    have positiveP := formed.pos inP
    refine ⟨n, ?_⟩
    apply ring.insert_last
    · intro inRing
      exact (notBlock n (ofRing n inRing nonzero)).2 rfl
    · rw [lastIsP]
      simp [links, positiveP, headers.rest p inP]
    · rw [lastIsP]
      simp [links, nonzero, headers.remainder]
    · simp [links, nonzero, headers.remainder]
    · simp [links]
    · intro other inRing notLast
      rw [lastIsP] at notLast
      by_cases isZero : other = 0
      · simp [links, isZero, headers.freeList]
      · simp [links, isZero, headers.rest other (ofRing other inRing isZero), notLast]
    · intro other inRing notZero
      simp [links, notZero, headers.rest other (ofRing other inRing notZero)]

theorem GrowHeaders.well {page n p : Nat} (headers : GrowHeaders heap after blocks page n size p)
    (well : heap.WellFormed chunks blocks (left ++ [p])) (fresh : Fresh chunks page)
    (big : memHsize ≤ size) (room : size + memHsize ≤ chunkSize) :
    after.WellFormed (page :: chunks) (insert page (insert n blocks)) (left ++ [p] ++ [n]) := by
  have start := headers.start
  have least := well.tiling.positive
  have notBlock : ∀ x, x ∈ blocks → x ≠ page ∧ x ≠ n := by
    intro x inX
    have outside := well.formed.fresh_outside fresh inX
    have bigX := well.tiling.big x inX
    omega
  have different : n ≠ page := by omega
  apply (headers.formed well.formed fresh big room).wellFormed
  intro x inX
  rcases Set.mem_insert_iff.mp inX with isPage | rest
  · rw [isPage, headers.created]
    simp
  · rcases Set.mem_insert_iff.mp rest with isNew | old
    · have unowned : n ∉ chunks :=
        fun inChunks => (notBlock n (well.tiling.starts n inChunks)).2 rfl
      rw [isNew, headers.remainder]
      simp [different, unowned]
    · have notPage := (notBlock x old).1
      rw [headers.rest x old]
      simpa [notPage] using well.heads x old

/-! ### The whole call -/

/-- The search stops at the first free block that is large enough, or at the end of the
list; `left` has been passed over. -/
theorem kmallocSearch_spec (left : List Nat)
    (formed : heap.Formed chunks blocks (left ++ free)) (size prev fuel : Nat)
    (enough : free.length < fuel) :
    (∃ front a back, free = front ++ a :: back ∧ size ≤ heap.sizes a ∧
        (∀ x, x ∈ front → heap.sizes x < size) ∧
        ∃ before, heap.kmallocSearch size fuel (free.headD 0) prev = some (a, before)) ∨
      ((∀ x, x ∈ free → heap.sizes x < size) ∧
        heap.kmallocSearch size fuel (free.headD 0) prev = some (0, free.getLastD prev)) := by
  induction free generalizing left prev fuel with
  | nil =>
      cases fuel with
      | zero => cases enough
      | succ fuel =>
          right
          refine ⟨?_, rfl⟩
          intro x member
          cases member
  | cons a free ih =>
      cases fuel with
      | zero => cases enough
      | succ fuel =>
          have positive := formed.pos (formed.freed a (by simp)).1
          have nextA := formed.next_eq
          by_cases fits : size ≤ heap.sizes a
          · left
            refine ⟨[], a, free, rfl, fits, ?_, prev, ?_⟩
            · intro x member
              cases member
            · change size ≤ (heap.header a).size at fits
              simp [kmallocSearch, positive, fits]
          · have onward : heap.kmallocSearch size (fuel + 1) a prev =
                heap.kmallocSearch size fuel (free.headD 0) a := by
              change ¬ size ≤ (heap.header a).size at fits
              rw [kmallocSearch, if_neg positive, if_neg fits, nextA]
            have formedNext : heap.Formed chunks blocks ((left ++ [a]) ++ free) := by
              simpa using formed
            have shorter : free.length < fuel := by
              rw [List.length_cons] at enough
              omega
            rw [List.headD_cons, onward]
            rcases ih (left ++ [a]) formedNext a fuel shorter with
              ⟨front, x, back, split, large, small, before, found⟩ | ⟨small, missed⟩
            · left
              refine ⟨a :: front, x, back, by rw [split]; rfl, large, ?_, before, found⟩
              intro y member
              rcases List.mem_cons.mp member with isA | inFront
              · rw [isA]
                omega
              · exact small y inFront
            · right
              refine ⟨?_, by rw [missed, List.getLastD_cons]⟩
              intro y member
              rcases List.mem_cons.mp member with isA | inFree
              · rw [isA]
                omega
              · exact small y inFree

/-- What handing out the block at `a` leaves: its header says how much it holds, and the
other blocks are as they were. -/
structure HandsOut (heap after : Heap) (chunks : List Nat) (blocks : Set Nat)
    (free : List Nat) (blocksAfter : Set Nat) (freeAfter : List Nat) (a size : Nat) : Prop where
  well : after.WellFormed chunks blocksAfter freeAfter
  block : a ∈ blocksAfter
  unlisted : a ∉ freeAfter
  large : size ≤ after.sizes a
  keeps : ∀ x, x ∈ blocks → x ≠ a →
    x ∈ blocksAfter ∧ (x ∈ freeAfter ↔ x ∈ free) ∧ after.sizes x = heap.sizes x

private theorem handsOut_whole (well : heap.WellFormed chunks blocks (left ++ a :: right))
    (large : size ≤ heap.sizes a) :
    HandsOut heap (heap.kmallocTake a) chunks blocks (left ++ a :: right) blocks
      (left ++ right) a size ∧
      (heap.kmallocTake a).nullFollowed = heap.nullFollowed := by
  have member := (well.freed a (by simp)).1
  have headers := kmallocTake_headers well.formed
  refine ⟨?_, headers.nullFollowed⟩
  constructor
  · exact headers.well well
  · exact member
  · exact (List.nodup_middle.mp well.formed.free_nodup).notMem
  · simpa [sizes, headers.current] using large
  · intro x inX notA
    refine ⟨inX, ?_, by simp [sizes, headers.rest x inX notA]⟩
    simp [notA]

private theorem handsOut_split (well : heap.WellFormed chunks blocks (left ++ a :: right))
    (big : memHsize ≤ size) (room : size + memHsize < heap.sizes a) :
    HandsOut heap ((heap.kmallocSplit a size).kmallocTake a) chunks blocks
      (left ++ a :: right) (insert (a + size) blocks) (left ++ (a + size) :: right) a size ∧
      ((heap.kmallocSplit a size).kmallocTake a).nullFollowed = heap.nullFollowed := by
  have member := (well.freed a (by simp)).1
  have splitHeaders := kmallocSplit_headers well.formed big room
  have wellSplit := splitHeaders.well well big room
  have takeHeaders := kmallocTake_headers wellSplit.formed
  have wellTake := takeHeaders.well wellSplit
  refine ⟨?_, takeHeaders.nullFollowed.trans splitHeaders.nullFollowed⟩
  constructor
  · exact wellTake
  · exact Set.mem_insert_of_mem _ member
  · exact (List.nodup_middle.mp wellSplit.formed.free_nodup).notMem
  · simp [sizes, takeHeaders.current, splitHeaders.current]
  · intro x inX notA
    have fresh : x ≠ a + size := by
      intro isNew
      have apart := well.tiling.apart a x member inX (Ne.symm notA)
      have bigX := well.tiling.big x inX
      have least := well.tiling.positive
      omega
    have inAfter := Set.mem_insert_of_mem (a + size) inX
    refine ⟨inAfter, ?_, ?_⟩
    · simp [notA, fresh]
    · simp [sizes, takeHeaders.rest x inAfter notA, splitHeaders.rest x inX notA]

/-- `kmalloc` within the limit: the first free block that fits, or a fresh chunk. -/
theorem kmalloc_spec (well : heap.WellFormed chunks blocks free)
    (limit : size + memHsize ≤ chunkSize) (page : Nat) {fuel : Nat}
    (enough : free.length < fuel) :
    (∃ a after blocksAfter freeAfter, a ∈ free ∧ size + memHsize ≤ heap.sizes a ∧
        heap.kmalloc fuel size page =
          some { heap := after, payload := a + memHsize, asked := false } ∧
        HandsOut heap after chunks blocks free blocksAfter freeAfter a (size + memHsize) ∧
        after.nullFollowed = heap.nullFollowed) ∨
      ((∀ x, x ∈ free → heap.sizes x < size + memHsize) ∧
        heap.kmalloc fuel size page =
          if page = 0 then some { heap := heap, payload := 0, asked := true }
          else some
            { heap := heap.kmallocGrow page (free.getLastD heap.freeList) (size + memHsize)
              payload := page + memHsize, asked := true }) := by
  have small : chunkSize < 4294967296 := by decide
  have exact_size : wrap (size + memHsize) = size + memHsize := wrap_small (by omega)
  have least : 8 ≤ memHsize := by decide
  have accepted : ¬ (size + memHsize < 8 ∨ size + memHsize > chunkSize) := by omega
  have search := kmallocSearch_spec [] well.formed (size + memHsize) heap.freeList fuel enough
  rw [← well.formed.freeList_eq] at search
  rcases search with ⟨front, a, back, split, large, _, before, found⟩ | ⟨none, missed⟩
  · left
    subst split
    have member := (well.freed a (by simp)).1
    have positive := well.formed.pos member
    have listed : a ∈ front ++ a :: back := by simp
    by_cases room : size + memHsize + memHsize < heap.sizes a
    · obtain ⟨out, quiet⟩ := handsOut_split well (Nat.le_add_left _ _) room
      refine ⟨a, _, _, _, listed, large, ?_, out, quiet⟩
      change (heap.header a).size > size + memHsize + memHsize at room
      simp only [kmalloc, exact_size, if_neg accepted, found, Option.bind_some]
      rw [if_pos positive, if_pos room]
    · obtain ⟨out, quiet⟩ := handsOut_whole well large
      refine ⟨a, _, _, _, listed, large, ?_, out, quiet⟩
      change ¬ (heap.header a).size > size + memHsize + memHsize at room
      simp only [kmalloc, exact_size, if_neg accepted, found, Option.bind_some]
      rw [if_pos positive, if_neg room]
  · right
    refine ⟨none, ?_⟩
    simp only [kmalloc, exact_size, if_neg accepted, missed, Option.bind_some]
    rw [if_neg (by exact fun different => different rfl)]

end Heap

end MangoOS
