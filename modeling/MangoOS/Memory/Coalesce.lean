/-
`kfree` where every free block behind a listed one comes next in the list.

The walk joins a block with the one behind it by its address and takes its place in the list
for granted: whatever lies between the two in the list is lost.
-/

import MangoOS.Memory.HeapRuns

namespace MangoOS

open Intrusive

namespace Heap

variable {heap middle after : Heap} {chunks free left right rest : List Nat} {blocks : Set Nat}
variable {a b m x i fuel : Nat}

/-! ### The headers that are accessed -/

def kfreeMergeAccesses : (fuel : Nat) → Heap → (current nextBlock : Nat) → List Nat
  | 0, _, _, _ => []
  | fuel + 1, heap, current, nextBlock =>
      if (heap.header nextBlock).used = freeMark then
        let link := (heap.header nextBlock).next
        let heap := heap.kfreeJoin current nextBlock
        let behind := wrap (current + (heap.header current).size)
        nextBlock :: link :: behind ::
          if (heap.header behind).isHead = 1 then []
          else kfreeMergeAccesses fuel heap current behind
      else [nextBlock]

def kfreeSkipAccesses : (fuel : Nat) → Heap → (current : Nat) → List Nat
  | 0, _, _ => []
  | fuel + 1, heap, current =>
      if current = 0 then []
      else if (heap.header current).used = 0 then
        let next := (heap.header current).next
        current :: kfreeSkipAccesses fuel ((heap.setNext current 0).setPrev current 0) next
      else [current]

def kfreeWalkAccesses : (fuel : Nat) → Heap → (current : Nat) → List Nat
  | 0, _, _ => []
  | fuel + 1, heap, current =>
      if current = 0 then []
      else
        let nextBlock := wrap (current + (heap.header current).size)
        current :: (kfreeMergeAccesses fuel heap current nextBlock ++
          match heap.kfreeMerge fuel current nextBlock with
          | none => []
          | some (heap, current, true) => kfreeWalkAccesses fuel heap current
          | some (heap, current, false) =>
              kfreeSkipAccesses fuel heap (heap.header current).next ++
                match heap.kfreeSkip fuel (heap.header current).next with
                | none => []
                | some (heap, current) => kfreeWalkAccesses fuel heap current)

def kfreeSweepAccesses : (fuel : Nat) → Heap → (current : Nat) → List Nat
  | 0, _, _ => []
  | fuel + 1, heap, current =>
      if current = 0 then []
      else
        let next := (heap.header current).next
        let heap := if (heap.header current).size = chunkSize then heap.setSize current 0 else heap
        current :: kfreeSweepAccesses fuel heap next

/-- The addresses that `kfree` takes for those of headers. -/
def kfreeAccesses (fuel : Nat) (heap : Heap) (address : Nat) : List Nat :=
  if address = 0 then []
  else
    let block := wrap (address + (4294967296 - memHsize))
    let link := heap.freeList
    let heap := heap.kfreeInsert block
    block :: link :: (kfreeWalkAccesses fuel heap heap.freeList ++
      match heap.kfreeWalk fuel heap.freeList with
      | none => []
      | some heap => kfreeSweepAccesses fuel heap heap.freeList)

/-! ### What a release is for -/

/-- A byte of a listed block. -/
def FreeByte (heap : Heap) (free : List Nat) (i : Nat) : Prop :=
  ∃ x, x ∈ free ∧ x ≤ i ∧ i < x + heap.sizes x

/-- The free bytes stay free, and the other blocks stay as they are. -/
structure Coalesces (heap after : Heap) (chunks : List Nat) (blocks : Set Nat) (free : List Nat)
    (blocksAfter : Set Nat) (freeAfter : List Nat) : Prop where
  well : after.WellFormed chunks blocksAfter freeAfter
  fewer : blocksAfter ⊆ blocks
  keeps : ∀ x, x ∈ blocks → x ∉ free → x ∈ blocksAfter ∧ x ∉ freeAfter ∧
    ∀ i, x ≤ i → i < x + heap.sizes x → after.mem i = heap.mem i
  covers : ∀ i, heap.FreeByte free i → after.FreeByte freeAfter i
  freeList : after.freeList = heap.freeList
  calm : after.nullFollowed = heap.nullFollowed

/-- Where the listed blocks end another block begins, and none of them is a whole chunk. -/
structure Bordered (heap : Heap) (blocks : Set Nat) (free : List Nat) : Prop where
  ends : ∀ x, x ∈ free → heap.endOf x ∈ blocks
  parts : ∀ x, x ∈ free → heap.sizes x ≠ chunkSize

/-- Behind a block of the list, from some place on, lies no listed block, or the next of the list,
which is not the last one, is no chunk, and has none behind it. -/
inductive Ordered (heap : Heap) (chunks free : List Nat) : List Nat → Prop
  | nil : Ordered heap chunks free []
  | apart {x : Nat} {rest : List Nat} (unlisted : heap.endOf x ∉ free) :
      Ordered heap chunks free rest → Ordered heap chunks free (x :: rest)
  | joins {x m : Nat} {rest : List Nat} (behind : heap.endOf x = m) (inner : m ∉ chunks)
      (noHead : heap.endOf m ∉ chunks) (more : rest ≠ []) :
      Ordered heap chunks free (m :: rest) → Ordered heap chunks free (x :: m :: rest)

/-! ### Bytes outside the headers -/

/-- The byte lies outside the header at `a`. -/
def Outside (a i : Nat) : Prop := i < a ∨ a + memHsize ≤ i

section Bytes

variable (heap : Heap) (value : Nat)

theorem setUsed_mem (outside : Outside a i) : (heap.setUsed a value).mem i = heap.mem i := by
  unfold Outside memHsize at outside
  exact ByteMemory.setWord_other _ _ (by omega)

theorem setSize_mem (outside : Outside a i) : (heap.setSize a value).mem i = heap.mem i := by
  unfold Outside memHsize at outside
  exact ByteMemory.setWord_other _ _ (by omega)

theorem setPrev_mem (outside : Outside a i) : (heap.setPrev a value).mem i = heap.mem i := by
  unfold Outside memHsize at outside
  exact ByteMemory.setWord_other _ _ (by omega)

theorem setNext_mem (outside : Outside a i) : (heap.setNext a value).mem i = heap.mem i := by
  unfold Outside memHsize at outside
  exact ByteMemory.setWord_other _ _ (by omega)

@[simp] theorem follow_mem (link : Nat) : (heap.follow link).mem = heap.mem := rfl

@[simp] theorem setFreeList_mem (first : Nat) : (heap.setFreeList first).mem = heap.mem := rfl

end Bytes

theorem kfreeInsert_mem (heap : Heap) (inBlock : Outside b i) (inFirst : Outside heap.freeList i) :
    (heap.kfreeInsert b).mem i = heap.mem i := by
  simp only [kfreeInsert, setFreeList_mem, setUsed_mem _ _ inBlock, setPrev_mem _ _ inBlock,
    setNext_freeList, setPrev_mem _ _ inFirst, follow_mem, follow_freeList,
    setNext_mem _ _ inBlock]

theorem kfreeJoin_mem (heap : Heap) (apart : Apart x m) (inBlock : Outside x i)
    (inNext : Outside m i) (inLink : Outside (heap.header m).next i) :
    (heap.kfreeJoin x m).mem i = heap.mem i := by
  simp only [kfreeJoin, setUsed_mem _ _ inNext, follow_header, setNext_other _ _ apart,
    setSize_other _ _ apart, setPrev_mem _ _ inLink, follow_mem, setNext_mem _ _ inBlock,
    setSize_mem _ _ inBlock]

theorem WellFormed.byte_outside (well : heap.WellFormed chunks blocks free) (inA : a ∈ blocks)
    (inX : x ∈ blocks) (different : a ≠ x) (lower : x ≤ i) (upper : i < x + heap.sizes x) :
    Outside a i := by
  have big := well.tiling.big a inA
  unfold Outside
  rcases well.tiling.apart a x inA inX different with before | behind
  · right
    omega
  · left
    omega

/-! ### Where blocks end -/

theorem WellFormed.endOf_exact (well : heap.WellFormed chunks blocks free) (inX : x ∈ blocks)
    (ends : heap.endOf x ∈ blocks) : heap.endOf x = x + heap.sizes x := by
  have bounds := well.formed.bounds inX
  have positive := well.formed.pos ends
  unfold endOf wrap at positive ⊢
  omega

theorem WellFormed.endOf_inj {y : Nat} (well : heap.WellFormed chunks blocks free)
    (inX : x ∈ blocks) (inY : y ∈ blocks) (ends : heap.endOf x ∈ blocks)
    (same : heap.endOf x = heap.endOf y) : x = y := by
  have endX := well.endOf_exact inX ends
  have endY := well.endOf_exact inY (same ▸ ends)
  have bigX := well.tiling.big x inX
  have bigY := well.tiling.big y inY
  have positive := well.tiling.positive
  by_contra different
  have apart := well.tiling.apart x y inX inY different
  omega

theorem WellFormed.chunk_behind (well : heap.WellFormed chunks blocks free) (inX : x ∈ blocks)
    (whole : heap.sizes x = chunkSize) (ends : heap.endOf x ∈ blocks) : heap.endOf x ∈ chunks := by
  have exact := well.endOf_exact inX ends
  obtain ⟨c, tile⟩ := well.tiling.tiled x inX
  obtain ⟨d, behind⟩ := well.tiling.tiled _ ends
  have lower := tile.lower
  have upper := tile.upper
  have lowerD := behind.lower
  have upperD := behind.upper
  have big := well.tiling.big _ ends
  have positive := well.tiling.positive
  have different : c ≠ d := by omega
  have apart := well.tiling.chunksApart c d tile.owned behind.owned different
  have isChunk : heap.endOf x = d := by omega
  exact isChunk ▸ behind.owned

/-- The mark of the block behind tells whether it is listed. -/
theorem WellFormed.free_iff (well : heap.WellFormed chunks blocks free) (inX : x ∈ blocks) :
    (heap.header x).used = freeMark ↔ x ∈ free := by
  constructor
  · intro isFree
    by_contra unlisted
    rw [well.taken x inX unlisted] at isFree
    exact absurd isFree (by decide)
  · intro listed
    exact (well.freed x listed).2

/-! ### Joining a block with the next of the list -/

theorem listed_join (y : Nat) :
    y ∈ left ++ x :: m :: right ↔ y = m ∨ y ∈ left ++ x :: right := by
  simp only [List.mem_append, List.mem_cons]
  tauto

section Join

variable (well : heap.WellFormed chunks blocks (left ++ x :: m :: right))
  (bordered : heap.Bordered blocks (left ++ x :: m :: right)) (behind : heap.endOf x = m)
include well bordered behind

theorem join_behind : m = x + heap.sizes x := by
  have listed : x ∈ left ++ x :: m :: right := by simp
  rw [← behind]
  exact well.endOf_exact (well.freed x listed).1 (bordered.ends x listed)

theorem join_headers : JoinHeaders heap (heap.kfreeJoin x m) blocks x m :=
  kfreeJoin_headers well (join_behind well bordered behind)

theorem join_size : (heap.kfreeJoin x m).sizes x = heap.sizes x + heap.sizes m :=
  congrArg Header.size (join_headers well bordered behind).current

theorem join_sizes {y : Nat} (inY : y ∈ blocks) (notX : y ≠ x) (notM : y ≠ m) :
    (heap.kfreeJoin x m).sizes y = heap.sizes y := by
  have rest := (join_headers well bordered behind).rest y inY notX notM
  unfold sizes
  rw [rest]

theorem join_endOf : (heap.kfreeJoin x m).endOf x = heap.endOf m := by
  unfold endOf
  rw [join_size well bordered behind, ← Nat.add_assoc, ← join_behind well bordered behind]

theorem join_endOf_other {y : Nat} (listed : y ∈ left ++ x :: right) (notX : y ≠ x) :
    (heap.kfreeJoin x m).endOf y = heap.endOf y := by
  have notM : y ≠ m := by
    intro isM
    have wellM := well
    rw [List.append_cons] at wellM
    have distinct := (List.nodup_middle.mp wellM.formed.free_nodup).notMem
    rw [← List.append_cons] at distinct
    exact distinct (isM ▸ listed)
  unfold endOf
  rw [join_sizes well bordered behind (well.freed y ((listed_join y).mpr (Or.inr listed))).1 notX
    notM]

theorem join_coalesces (inner : m ∉ chunks) (more : right ≠ []) :
    Coalesces heap (heap.kfreeJoin x m) chunks blocks (left ++ x :: m :: right) (blocks \ {m})
      (left ++ x :: right) := by
  have headers := join_headers well bordered behind
  have isBehind := join_behind well bordered behind
  have listedX : x ∈ left ++ x :: m :: right := by simp
  have listedM : m ∈ left ++ x :: m :: right := by simp
  have inX := (well.freed x listedX).1
  have inM := (well.freed m listedM).1
  -- the link behind the joined block is that to the next of the list
  have wellM := well
  rw [List.append_cons] at wellM
  have isLink := wellM.formed.next_eq
  obtain ⟨link, others, isRight⟩ := List.exists_cons_of_ne_nil more
  rw [isRight, List.headD_cons] at isLink
  have listedLink : link ∈ left ++ x :: m :: right := by simp [isRight]
  have inLink := (well.freed link listedLink).1
  constructor
  · exact headers.well well isBehind inner
  · exact fun y inside => inside.1
  · intro y inY unlisted
    have notX : x ≠ y := fun same => unlisted (same ▸ listedX)
    have notM : m ≠ y := fun same => unlisted (same ▸ listedM)
    have notLink : link ≠ y := fun same => unlisted (same ▸ listedLink)
    refine ⟨⟨inY, Ne.symm notM⟩, fun listed => unlisted ((listed_join y).mpr (Or.inr listed)), ?_⟩
    intro i lower upper
    apply kfreeJoin_mem heap (well.formed.headers_apart inX inM ?_)
      (well.byte_outside inX inY notX lower upper) (well.byte_outside inM inY notM lower upper)
    · rw [isLink]
      exact well.byte_outside inLink inY notLink lower upper
    · have big := well.tiling.big x inX
      have positive := well.tiling.positive
      omega
  · rintro i ⟨y, listed, lower, upper⟩
    by_cases isX : y = x
    · rw [isX] at lower upper
      refine ⟨x, by simp, lower, ?_⟩
      rw [join_size well bordered behind]
      omega
    · by_cases isM : y = m
      · rw [isM] at lower upper
        refine ⟨x, by simp, by omega, ?_⟩
        rw [join_size well bordered behind]
        omega
      · refine ⟨y, ((listed_join y).mp listed).resolve_left isM, lower, ?_⟩
        rw [join_sizes well bordered behind (well.freed y listed).1 isX isM]
        exact upper
  · exact headers.freeList
  · have positive := well.formed.pos inLink
    rw [headers.nullFollowed, isLink, beq_eq_false_iff_ne.mpr positive, Bool.or_false]

theorem join_bordered (inner : m ∉ chunks) (noHead : heap.endOf m ∉ chunks) (more : right ≠ []) :
    (heap.kfreeJoin x m).Bordered (blocks \ {m}) (left ++ x :: right) := by
  have coalesces := join_coalesces well bordered behind inner more
  have listedX : x ∈ left ++ x :: m :: right := by simp
  have listedM : m ∈ left ++ x :: m :: right := by simp
  have inX := (well.freed x listedX).1
  have inM := (well.freed m listedM).1
  have ends : ∀ y, y ∈ left ++ x :: right → (heap.kfreeJoin x m).endOf y ∈ blocks \ {m} := by
    intro y listed
    have listedY := (listed_join (m := m) y).mpr (Or.inr listed)
    by_cases isX : y = x
    · rw [isX, join_endOf well bordered behind]
      refine ⟨bordered.ends m listedM, ?_⟩
      intro same
      rw [Set.mem_singleton_iff] at same
      have exact := well.endOf_exact inM (bordered.ends m listedM)
      have big := well.tiling.big m inM
      have positive := well.tiling.positive
      omega
    · rw [join_endOf_other well bordered behind listed isX]
      refine ⟨bordered.ends y listedY, ?_⟩
      intro same
      rw [Set.mem_singleton_iff, ← behind] at same
      exact isX (well.endOf_inj (well.freed y listedY).1 inX (bordered.ends y listedY) same)
  refine ⟨ends, ?_⟩
  intro y listed whole
  have listedY := (listed_join (m := m) y).mpr (Or.inr listed)
  by_cases isX : y = x
  · have inY := (coalesces.well.freed y listed).1
    have isChunk := coalesces.well.chunk_behind inY whole (ends y listed)
    rw [isX, join_endOf well bordered behind] at isChunk
    exact noHead isChunk
  · have notM : y ≠ m := fun isM => (coalesces.well.freed y listed).1.2 isM
    rw [join_sizes well bordered behind (well.freed y listedY).1 isX notM] at whole
    exact bordered.parts y listedY whole

end Join

/-! ### The loops -/

theorem Coalesces.refl (well : heap.WellFormed chunks blocks free) :
    Coalesces heap heap chunks blocks free blocks free :=
  ⟨well, subset_rfl, fun _ inY unlisted => ⟨inY, unlisted, fun _ _ _ => rfl⟩, fun _ byte => byte,
    rfl, rfl⟩

theorem size_of_mem (big : memHsize ≤ heap.sizes x)
    (same : ∀ i, x ≤ i → i < x + heap.sizes x → after.mem i = heap.mem i) :
    after.sizes x = heap.sizes x := by
  unfold sizes
  rw [header_congr fun i lower upper => same i lower (by omega)]

theorem Coalesces.trans {blocksMiddle blocksAfter : Set Nat} {freeMiddle freeAfter : List Nat}
    (first : Coalesces heap middle chunks blocks free blocksMiddle freeMiddle)
    (well : heap.WellFormed chunks blocks free)
    (second : Coalesces middle after chunks blocksMiddle freeMiddle blocksAfter freeAfter) :
    Coalesces heap after chunks blocks free blocksAfter freeAfter := by
  refine ⟨second.well, second.fewer.trans first.fewer, ?_, ?_,
    second.freeList.trans first.freeList, second.calm.trans first.calm⟩
  · intro y inY unlisted
    obtain ⟨inMiddle, notMiddle, sameFirst⟩ := first.keeps y inY unlisted
    obtain ⟨inAfter, notAfter, sameSecond⟩ := second.keeps y inMiddle notMiddle
    rw [size_of_mem (well.tiling.big y inY) sameFirst] at sameSecond
    exact ⟨inAfter, notAfter, fun i lower upper =>
      (sameSecond i lower upper).trans (sameFirst i lower upper)⟩
  · intro i byte
    exact second.covers i (first.covers i byte)

theorem Ordered.congr {freeAfter : List Nat} (ordered : heap.Ordered chunks free rest)
    (same : ∀ y, y ∈ rest → after.endOf y = heap.endOf y)
    (fewer : ∀ y, y ∈ freeAfter → y ∈ free) : after.Ordered chunks freeAfter rest := by
  induction ordered with
  | nil => exact .nil
  | @apart y rest unlisted _ ih =>
      refine .apart ?_ (ih fun z member => same z (List.mem_cons_of_mem y member))
      intro listed
      rw [same y (List.mem_cons_self ..)] at listed
      exact unlisted (fewer _ listed)
  | @joins y m rest behind inner noHead more _ ih =>
      refine .joins ?_ inner ?_ more (ih fun z member => same z (List.mem_cons_of_mem y member))
      · rw [same y (List.mem_cons_self ..)]
        exact behind
      · rw [same m (List.mem_cons_of_mem y (List.mem_cons_self ..))]
        exact noHead

theorem join_ordered (well : heap.WellFormed chunks blocks (left ++ x :: m :: right))
    (bordered : heap.Bordered blocks (left ++ x :: m :: right)) (behind : heap.endOf x = m)
    (ordered : heap.Ordered chunks (left ++ x :: m :: right) (m :: right)) :
    (heap.kfreeJoin x m).Ordered chunks (left ++ x :: right) (x :: right) := by
  have fewer : ∀ y, y ∈ left ++ x :: right → y ∈ left ++ x :: m :: right :=
    fun y listed => (listed_join y).mpr (Or.inr listed)
  have distinct := (List.nodup_append.mp well.formed.free_nodup).2.1
  have same : ∀ y, y ∈ right → (heap.kfreeJoin x m).endOf y = heap.endOf y := by
    intro y member
    apply join_endOf_other well bordered behind (by simp [member])
    intro isX
    exact (List.nodup_cons.mp distinct).1 (isX ▸ List.mem_cons_of_mem m member)
  have ends := join_endOf well bordered behind
  cases ordered with
  | apart unlisted rest =>
      refine .apart ?_ (rest.congr same fewer)
      rw [ends]
      exact fun listed => unlisted (fewer _ listed)
  | joins next inner noHead more rest =>
      refine .joins (ends.trans next) inner ?_ more (rest.congr same fewer)
      rw [same _ (List.mem_cons_self ..)]
      exact noHead

/-- What a loop leaves of the list from some place on, and that it accesses blocks only. -/
structure Settles (heap after : Heap) (chunks : List Nat) (blocks : Set Nat) (free : List Nat)
    (blocksAfter : Set Nat) (freeAfter : List Nat) (accesses : List Nat) : Prop where
  coalesces : Coalesces heap after chunks blocks free blocksAfter freeAfter
  bordered : after.Bordered blocksAfter freeAfter
  accesses : ∀ a, a ∈ accesses → a ∈ blocks

/-- Nothing is merged with a block that has no listed block behind it. -/
theorem kfreeMerge_apart (well : heap.WellFormed chunks blocks free)
    (bordered : heap.Bordered blocks free) (listed : x ∈ free) (unlisted : heap.endOf x ∉ free)
    (positive : 0 < fuel) :
    heap.kfreeMerge fuel x (heap.endOf x) = some (heap, x, false) ∧
      Settles heap heap chunks blocks free blocks free
        (heap.kfreeMergeAccesses fuel x (heap.endOf x)) := by
  obtain ⟨fuel, rfl⟩ : ∃ fewer, fuel = fewer + 1 := ⟨fuel - 1, by omega⟩
  have ends := bordered.ends x listed
  have notFree : (heap.header (heap.endOf x)).used ≠ freeMark :=
    fun isFree => unlisted ((well.free_iff ends).mp isFree)
  refine ⟨kfreeMerge_stop x fuel notFree, .refl well, bordered, ?_⟩
  intro a member
  rw [kfreeMergeAccesses, if_neg notFree, List.mem_singleton] at member
  exact member ▸ ends

theorem kfreeMerge_ordered (well : heap.WellFormed chunks blocks (left ++ x :: right))
    (bordered : heap.Bordered blocks (left ++ x :: right))
    (ordered : heap.Ordered chunks (left ++ x :: right) (x :: right)) (enough : right.length < fuel) :
    ∃ after blocksAfter rest, heap.kfreeMerge fuel x (heap.endOf x) = some (after, x, false) ∧
      Settles heap after chunks blocks (left ++ x :: right) blocksAfter (left ++ x :: rest)
        (heap.kfreeMergeAccesses fuel x (heap.endOf x)) ∧
      after.Ordered chunks (left ++ x :: rest) rest ∧ rest.length ≤ right.length := by
  induction right generalizing heap blocks fuel with
  | nil =>
      cases ordered with
      | apart unlisted rest =>
          obtain ⟨merged, settles⟩ := kfreeMerge_apart well bordered (by simp) unlisted enough
          exact ⟨heap, blocks, [], merged, settles, rest, Nat.le_refl _⟩
  | cons m right ih =>
      have ends := bordered.ends x (by simp)
      cases ordered with
      | apart unlisted rest =>
          obtain ⟨merged, settles⟩ := kfreeMerge_apart well bordered (by simp) unlisted
            (Nat.zero_lt_of_lt enough)
          exact ⟨heap, blocks, m :: right, merged, settles, rest, Nat.le_refl _⟩
      | joins behind inner noHead more rest =>
          obtain ⟨fuel, rfl⟩ : ∃ fewer, fuel = fewer + 1 := ⟨fuel - 1, by omega⟩
          have less : right.length < fuel := by
            rw [List.length_cons] at enough
            omega
          have isFree : (heap.header (heap.endOf x)).used = freeMark :=
            (well.free_iff ends).mpr (by simp [behind])
          have joined := join_coalesces well bordered behind inner more
          have borders := join_bordered well bordered behind inner noHead more
          have next := join_ordered well bordered behind rest
          have endsAfter := borders.ends x (by simp)
          have notHead : ((heap.kfreeJoin x m).header ((heap.kfreeJoin x m).endOf x)).isHead ≠ 1 := by
            intro isHead
            have isChunk := (joined.well.heads _ endsAfter).mp isHead
            rw [join_endOf well bordered behind] at isChunk
            exact noHead isChunk
          obtain ⟨after, blocksAfter, rest, merged, settles, orderedAfter, shorter⟩ :=
            ih joined.well borders next less
          refine ⟨after, blocksAfter, rest, ?_, ⟨joined.trans well settles.coalesces,
            settles.bordered, ?_⟩, orderedAfter, Nat.le_succ_of_le shorter⟩
          · rw [kfreeMerge, if_pos isFree, behind]
            change (if ((heap.kfreeJoin x m).header ((heap.kfreeJoin x m).endOf x)).isHead = 1
              then _ else kfreeMerge fuel (heap.kfreeJoin x m) x ((heap.kfreeJoin x m).endOf x)) = _
            rw [if_neg notHead]
            exact merged
          · intro a member
            rw [kfreeMergeAccesses, if_pos isFree, behind] at member
            change a ∈ m :: (heap.header m).next :: (heap.kfreeJoin x m).endOf x ::
              (if ((heap.kfreeJoin x m).header ((heap.kfreeJoin x m).endOf x)).isHead = 1 then []
                else kfreeMergeAccesses fuel (heap.kfreeJoin x m) x
                  ((heap.kfreeJoin x m).endOf x)) at member
            rw [if_neg notHead, List.mem_cons, List.mem_cons, List.mem_cons] at member
            rcases member with isM | isLink | isEnd | later
            · exact isM ▸ (well.freed m (by simp)).1
            · have wellM := well
              rw [List.append_cons] at wellM
              obtain ⟨link, others, isRight⟩ := List.exists_cons_of_ne_nil more
              rw [isLink, wellM.formed.next_eq, isRight, List.headD_cons]
              exact (well.freed link (by simp [isRight])).1
            · exact isEnd ▸ endsAfter.1
            · exact (settles.accesses a later).1

theorem Settles.trans {blocksMiddle blocksAfter : Set Nat}
    {freeMiddle freeAfter first second : List Nat} (well : heap.WellFormed chunks blocks free)
    (settles : Settles heap middle chunks blocks free blocksMiddle freeMiddle first)
    (behind : Settles middle after chunks blocksMiddle freeMiddle blocksAfter freeAfter second) :
    Settles heap after chunks blocks free blocksAfter freeAfter (first ++ second) := by
  refine ⟨settles.coalesces.trans well behind.coalesces, behind.bordered, ?_⟩
  intro a member
  rcases List.mem_append.mp member with early | late
  · exact settles.accesses a early
  · exact settles.coalesces.fewer (behind.accesses a late)

theorem kfreeSkip_listed (well : heap.WellFormed chunks blocks (left ++ x :: right))
    (positive : 0 < fuel) :
    heap.kfreeSkip fuel (heap.header x).next = some (heap, (heap.header x).next) ∧
      ∀ a, a ∈ heap.kfreeSkipAccesses fuel (heap.header x).next → a ∈ blocks := by
  obtain ⟨fuel, rfl⟩ : ∃ fewer, fuel = fewer + 1 := ⟨fuel - 1, by omega⟩
  refine ⟨kfreeSkip_stop fuel well.onward_used, ?_⟩
  intro a member
  rw [kfreeSkipAccesses] at member
  by_cases isLast : (heap.header x).next = 0
  · rw [if_pos isLast] at member
    cases member
  · rw [if_neg isLast, if_neg (well.onward_used isLast), List.mem_singleton] at member
    exact member ▸ (well.formed.next_mem isLast).2.1

theorem kfreeWalk_ordered (well : heap.WellFormed chunks blocks (left ++ right))
    (bordered : heap.Bordered blocks (left ++ right))
    (ordered : heap.Ordered chunks (left ++ right) right) (enough : right.length < fuel) :
    ∃ after blocksAfter rest, heap.kfreeWalk fuel (right.headD 0) = some after ∧
      rest.length ≤ right.length ∧
      Settles heap after chunks blocks (left ++ right) blocksAfter (left ++ rest)
        (heap.kfreeWalkAccesses fuel (right.headD 0)) := by
  induction fuel generalizing heap blocks left right with
  | zero => cases enough
  | succ fuel ih =>
      cases right with
      | nil =>
          refine ⟨heap, blocks, [], rfl, Nat.le_refl _, .refl well, bordered, ?_⟩
          intro a member
          cases member
      | cons x right =>
          rw [List.length_cons] at enough
          have listed : x ∈ left ++ x :: right := by simp
          have inX := (well.freed x listed).1
          have positive := well.formed.pos inX
          obtain ⟨middle, blocksMiddle, rest, merged, settles, orderedRest, shorter⟩ :=
            kfreeMerge_ordered well bordered ordered (by omega : right.length < fuel)
          have wellMiddle := settles.coalesces.well
          obtain ⟨skipped, skips⟩ := kfreeSkip_listed wellMiddle (by omega : 0 < fuel)
          have wellRest := wellMiddle
          have borders := settles.bordered
          rw [List.append_cons] at wellRest borders orderedRest
          obtain ⟨after, blocksAfter, last, walked, short, behind⟩ :=
            ih wellRest borders orderedRest (by omega)
          rw [← List.append_cons, ← List.append_cons] at behind
          rw [← wellMiddle.formed.next_eq] at walked behind
          have both := settles.trans well behind
          refine ⟨after, blocksAfter, x :: last, ?_, Nat.succ_le_succ (short.trans shorter),
            both.coalesces, both.bordered, ?_⟩
          · rw [List.headD_cons, kfreeWalk, if_neg positive]
            change ((heap.kfreeMerge fuel x (heap.endOf x)).bind _) = _
            rw [merged, Option.bind_some]
            change ((middle.kfreeSkip fuel (middle.header x).next).bind _) = _
            rw [skipped, Option.bind_some]
            exact walked
          · intro a member
            rw [List.headD_cons, kfreeWalkAccesses, if_neg positive] at member
            change a ∈ x :: (heap.kfreeMergeAccesses fuel x (heap.endOf x) ++
              match heap.kfreeMerge fuel x (heap.endOf x) with
              | none => []
              | some (heap, current, true) => heap.kfreeWalkAccesses fuel current
              | some (heap, current, false) =>
                  heap.kfreeSkipAccesses fuel (heap.header current).next ++
                    match heap.kfreeSkip fuel (heap.header current).next with
                    | none => []
                    | some (heap, current) => heap.kfreeWalkAccesses fuel current) at member
            rw [merged] at member
            dsimp only at member
            rw [skipped] at member
            dsimp only at member
            rcases List.mem_cons.mp member with isX | member
            · exact isX ▸ inX
            · rcases List.mem_append.mp member with early | member
              · exact settles.accesses a early
              · rcases List.mem_append.mp member with between | late
                · exact settles.coalesces.fewer (skips a between)
                · exact both.accesses a (List.mem_append_right _ late)

theorem kfreeSweepAccesses_listed (well : heap.WellFormed chunks blocks (left ++ right))
    (parts : ∀ x, x ∈ right → heap.sizes x ≠ chunkSize) :
    ∀ a, a ∈ heap.kfreeSweepAccesses fuel (right.headD 0) → a ∈ blocks := by
  induction fuel generalizing left right with
  | zero =>
      intro a member
      cases member
  | succ fuel ih =>
      cases right with
      | nil =>
          intro a member
          cases member
      | cons x right =>
          have inX := (well.freed x (by simp)).1
          have short : ¬ (heap.header x).size = chunkSize := parts x (List.mem_cons_self ..)
          have wellRest := well
          rw [List.append_cons] at wellRest
          have rest := ih wellRest (fun y member => parts y (List.mem_cons_of_mem x member))
          rw [← well.formed.next_eq] at rest
          intro a member
          rw [List.headD_cons, kfreeSweepAccesses, if_neg (well.formed.pos inX)] at member
          simp only [if_neg short] at member
          rcases List.mem_cons.mp member with isX | later
          · exact isX ▸ inX
          · exact rest a later

/-! ### The whole call -/

/-- What the release of the block at `b` is for. -/
structure Releases (heap after : Heap) (chunks : List Nat) (blocks : Set Nat) (free : List Nat)
    (b : Nat) (given : List Nat) (blocksAfter : Set Nat) (freeAfter accesses : List Nat) :
    Prop where
  calm : after.nullFollowed = false
  inside : ∀ a, a ∈ accesses → ∃ c, c ∈ chunks ∧ c ≤ a ∧ a + memHsize ≤ c + chunkSize
  keeps : ∀ x, x ∈ blocks → x ∉ free → x ≠ b → x ∈ blocksAfter ∧ x ∉ freeAfter ∧
    ∀ i, x ≤ i → i < x + heap.sizes x → after.mem i = heap.mem i
  well : after.WellFormed (chunks.filter (fun c => c ∉ given)) blocksAfter freeAfter
  covers : ∀ i, heap.FreeByte (b :: free) i → after.FreeByte freeAfter i ∨
    ∃ c, c ∈ given ∧ c ≤ i ∧ i < c + chunkSize

/-- `kfree` ends, and does so. -/
def KfreePreserves (heap : Heap) (chunks : List Nat) (blocks : Set Nat) (free : List Nat)
    (b : Nat) : Prop :=
  ∃ fuel after given blocksAfter freeAfter, heap.kfree fuel (b + memHsize) = some (after, given) ∧
    Releases heap after chunks blocks free b given blocksAfter freeAfter
      (heap.kfreeAccesses fuel (b + memHsize))

/-- The list is not empty, every free block that `kfree` can meet comes next in it, and behind
the listed blocks the chunks go on. -/
structure InOrder (heap : Heap) (chunks : List Nat) (blocks : Set Nat) (free : List Nat)
    (b : Nat) : Prop where
  nonempty : free ≠ []
  bordered : heap.Bordered blocks (b :: free)
  ordered : heap.Ordered chunks (b :: free) (b :: free)

theorem kfreeInsert_sizes (well : heap.WellFormed chunks blocks free) (inB : b ∈ blocks)
    (unlisted : b ∉ free) {y : Nat} (inY : y ∈ blocks) :
    (heap.kfreeInsert b).sizes y = heap.sizes y := by
  have headers := kfreeInsert_headers well inB unlisted
  unfold sizes
  by_cases isB : y = b
  · rw [isB, headers.current]
  · rw [headers.rest y inY isB]

theorem WellFormed.header_inside (well : heap.WellFormed chunks blocks free) (inA : a ∈ blocks) :
    ∃ c, c ∈ chunks ∧ c ≤ a ∧ a + memHsize ≤ c + chunkSize := by
  obtain ⟨c, tile⟩ := well.tiling.tiled a inA
  have upper := tile.upper
  have big := well.tiling.big a inA
  exact ⟨c, tile.owned, tile.lower, by omega⟩

theorem kfree_block (well : heap.WellFormed chunks blocks free) (inB : b ∈ blocks) :
    wrap (b + memHsize + (4294967296 - memHsize)) = b := by
  have bounds := well.formed.bounds inB
  have big := well.tiling.big b inB
  have limit : memHsize ≤ 4294967296 := by decide
  have positive : 0 < memHsize := by decide
  unfold wrap
  omega

/-- The release of a block that is in order does what it is for. -/
theorem kfree_preserves (well : heap.WellFormed chunks blocks free) (inB : b ∈ blocks)
    (unlisted : b ∉ free) (calm : heap.nullFollowed = false)
    (inOrder : heap.InOrder chunks blocks free b) : heap.KfreePreserves chunks blocks free b := by
  obtain ⟨nonempty, bordered, ordered⟩ := inOrder
  have headers := kfreeInsert_headers well inB unlisted
  have wellInsert := headers.well well inB unlisted
  have inList : ∀ x, x ∈ b :: free → x ∈ blocks := fun x listed => (wellInsert.freed x listed).1
  have sameEnds : ∀ x, x ∈ b :: free → (heap.kfreeInsert b).endOf x = heap.endOf x := by
    intro x listed
    unfold endOf
    rw [kfreeInsert_sizes well inB unlisted (inList x listed)]
  have borders : (heap.kfreeInsert b).Bordered blocks (b :: free) := by
    constructor
    · intro x listed
      rw [sameEnds x listed]
      exact bordered.ends x listed
    · intro x listed
      rw [kfreeInsert_sizes well inB unlisted (inList x listed)]
      exact bordered.parts x listed
  have order := ordered.congr sameEnds fun _ listed => listed
  have wellFirst : (heap.kfreeInsert b).WellFormed chunks blocks ([] ++ b :: free) := wellInsert
  obtain ⟨after, blocksAfter, freeAfter, walked, short, settles⟩ :=
    kfreeWalk_ordered wellFirst borders order (Nat.lt_succ_self _)
  rw [List.headD_cons] at walked settles
  have coalesces := settles.coalesces
  have wellAfter : after.WellFormed chunks blocksAfter ([] ++ freeAfter) := coalesces.well
  have isFirst : after.freeList = freeAfter.headD 0 := wellAfter.formed.freeList_eq
  have swept := kfreeSweep_quiet [] wellAfter _ (Nat.lt_succ_of_le short) settles.bordered.parts
  have sweeps : ∀ a, a ∈ after.kfreeSweepAccesses ((b :: free).length + 1) (freeAfter.headD 0) →
      a ∈ blocksAfter := kfreeSweepAccesses_listed wellAfter settles.bordered.parts
  rw [← isFirst] at swept sweeps
  -- the head of the list, where the block is put in front
  have firstNonzero : heap.freeList ≠ 0 := by
    obtain ⟨first, others, isFree⟩ := List.exists_cons_of_ne_nil nonempty
    rw [well.formed.freeList_eq, isFree, List.headD_cons]
    exact well.formed.pos (well.freed first (isFree ▸ List.mem_cons_self ..)).1
  have listedFirst := well.formed.first_mem firstNonzero
  have inFirst := (well.freed _ listedFirst).1
  have notNull : ¬ b + memHsize = 0 := by
    have positive := well.formed.pos inB
    omega
  refine ⟨(b :: free).length + 1, after, [], blocksAfter, freeAfter, ?_, ?_, ?_, ?_, ?_, ?_⟩
  · rw [kfree, if_neg notNull, kfree_block well inB]
    simp only [headers.freeList]
    rw [walked, Option.bind_some, swept]
  · rw [coalesces.calm, headers.nullFollowed, calm, Bool.false_or]
    exact beq_eq_false_iff_ne.mpr firstNonzero
  · intro a member
    rw [kfreeAccesses, if_neg notNull, kfree_block well inB] at member
    simp only [headers.freeList, walked] at member
    rcases List.mem_cons.mp member with isB | member
    · exact isB ▸ well.header_inside inB
    · rcases List.mem_cons.mp member with isFirst | member
      · exact isFirst ▸ well.header_inside inFirst
      · rcases List.mem_append.mp member with walks | last
        · exact well.header_inside (settles.accesses a walks)
        · exact well.header_inside (coalesces.fewer (sweeps a last))
  · intro x inX notFree notB
    have notListed : x ∉ b :: free := by
      rw [List.mem_cons, not_or]
      exact ⟨notB, notFree⟩
    obtain ⟨inAfter, notAfter, same⟩ := coalesces.keeps x inX notListed
    refine ⟨inAfter, notAfter, ?_⟩
    intro i lower upper
    rw [same i lower (by rwa [kfreeInsert_sizes well inB unlisted inX])]
    exact kfreeInsert_mem heap (well.byte_outside inB inX (Ne.symm notB) lower upper)
      (well.byte_outside inFirst inX (fun isX => notFree (isX ▸ listedFirst)) lower upper)
  · rw [List.filter_eq_self.mpr (by simp)]
    exact coalesces.well
  · rintro i ⟨x, listed, lower, upper⟩
    refine Or.inl (coalesces.covers i ⟨x, listed, lower, ?_⟩)
    rw [kfreeInsert_sizes well inB unlisted (inList x listed)]
    exact upper

theorem kfree_unique {address more : Nat} {first second : Heap × List Nat}
    (called : heap.kfree fuel address = some first)
    (again : heap.kfree more address = some second) : first = second := by
  have sameFirst := kfree_more called (Nat.le_max_left fuel more)
  rw [kfree_more again (Nat.le_max_right fuel more), Option.some.injEq] at sameFirst
  exact sameFirst.symm

/-- The header of a block that is no chunk. -/
def setBlock (heap : Heap) (a used size prev next : Nat) : Heap :=
  ((((heap.setUsed a used).setSize a size).setIsHead a 0).setPrev a prev).setNext a next

/-- A chunk of five blocks; the second and the fourth are free. -/
def fiveBlocks : Heap :=
  let heap := (zeroed.memInit 6295552).setBlock 6296552 freeMark 2000 0 6301552
  let heap := heap.setBlock 6298552 usedMark 3000 0 0
  let heap := heap.setBlock 6301552 freeMark 4000 6296552 0
  let heap := heap.setBlock 6305552 usedMark 22768 0 0
  let heap := (heap.setUsed 6295552 usedMark).setSize 6295552 1000
  heap.setFreeList 6296552

def fiveStarts : List Nat := [6295552, 6296552, 6298552, 6301552, 6305552]

theorem fiveBlocks_well :
    fiveBlocks.WellFormed [6295552] { a | a ∈ fiveStarts } [6296552, 6301552] := by
  have tiles : ∀ a, a ∈ fiveStarts → 6295552 ≤ a ∧ a + fiveBlocks.sizes a ≤ 6295552 + chunkSize ∧
      (a + fiveBlocks.sizes a = 6295552 + chunkSize ∨ a + fiveBlocks.sizes a ∈ fiveStarts) := by
    decide +kernel
  have apart : ∀ a, a ∈ fiveStarts → ∀ b, b ∈ fiveStarts → a ≠ b →
      a + fiveBlocks.sizes a ≤ b ∨ b + fiveBlocks.sizes b ≤ a := by
    decide +kernel
  have big : ∀ a, a ∈ fiveStarts → memHsize ≤ fiveBlocks.sizes a := by decide +kernel
  have heads : ∀ a, a ∈ fiveStarts →
      ((fiveBlocks.header a).isHead = 1 ↔ a ∈ [6295552]) := by
    decide +kernel
  have freed : ∀ a, a ∈ [6296552, 6301552] →
      a ∈ fiveStarts ∧ (fiveBlocks.header a).used = freeMark := by
    decide +kernel
  have taken : ∀ a, a ∈ fiveStarts → a ∉ [6296552, 6301552] →
      (fiveBlocks.header a).used = usedMark := by
    decide +kernel
  have isChunk : Chunk 6295552 := ⟨by decide, by decide, by decide⟩
  refine ⟨?_, ⟨?_, ?_, by decide, big, ?_, fun a b inA inB => apart a inA b inB⟩, heads, freed,
    taken, 6301552, ?_⟩
  · intro c owned
    rw [List.mem_singleton.mp owned]
    exact isChunk
  · intro c d inC inD different
    rw [List.mem_singleton.mp inC, List.mem_singleton.mp inD] at different
    exact absurd rfl different
  · intro c owned
    rw [List.mem_singleton.mp owned]
    exact List.mem_cons_self ..
  · intro a inA
    obtain ⟨lower, upper, onward⟩ := tiles a inA
    exact ⟨6295552, List.mem_singleton_self _, lower, upper, onward⟩
  · decide +kernel

/-- The first block joins the second, and the list goes on with the fourth. -/
theorem kfree_preserves_five : fiveBlocks.KfreePreserves [6295552] { a | a ∈ fiveStarts }
    [6296552, 6301552] 6295552 := by
  have ends : ∀ x, x ∈ [6295552, 6296552, 6301552] → fiveBlocks.endOf x ∈ fiveStarts := by
    decide +kernel
  have parts : ∀ x, x ∈ [6295552, 6296552, 6301552] → fiveBlocks.sizes x ≠ chunkSize := by
    decide +kernel
  apply kfree_preserves fiveBlocks_well (List.mem_cons_self ..) (by decide) (by decide +kernel)
  refine ⟨by decide, ⟨ends, parts⟩, ?_⟩
  exact .joins (by decide +kernel) (by decide) (by decide +kernel) (by decide)
    (.apart (by decide +kernel) (.apart (by decide +kernel) .nil))

/-- The first block that is handed out is released: the block behind it is the last of the
list. -/
theorem kfree_preserves_not : ∃ s blocks free,
    HeapState.booted.step 2 (.kmalloc 100 0) = some s ∧
      s.heap.WellFormed s.chunks blocks free ∧ 6295552 ∈ blocks ∧ 6295552 ∉ free ∧
      s.heap.nullFollowed = false ∧ ¬ s.heap.KfreePreserves s.chunks blocks free 6295552 := by
  have served : (HeapState.booted.step 2 (.kmalloc 100 0)).map
      (fun s => (s.live, (s.heap.kfree 4 6295569).map fun freed => freed.1.nullFollowed)) =
      some ([{ payload := 6295569, size := 100 }], some true) := by
    decide +kernel
  obtain ⟨s, stepped, facts⟩ := Option.map_eq_some_iff.mp served
  rw [Prod.mk.injEq] at facts
  obtain ⟨live, freed⟩ := facts
  obtain ⟨⟨after, given⟩, called, followed⟩ := Option.map_eq_some_iff.mp freed
  change after.nullFollowed = true at followed
  have start : HeapRun HeapState.Meets HeapState.booted :=
    HeapRun.start Heap.zeroed 6295552 ⟨by decide, by decide, by decide⟩ rfl
  have legal : HeapState.booted.Legal (.kmalloc 100 0) := ⟨by decide, Or.inl rfl⟩
  obtain ⟨chunk, blocks, free, one⟩ :=
    (HeapRun.call start _ legal (Or.inl rfl) ⟨2, stepped⟩).oneChunk
  have isLive : (⟨6295569, 100⟩ : Grant) ∈ s.live := by
    rw [live]
    exact List.mem_singleton_self _
  obtain ⟨b, inB, inUse, isPayload, _⟩ := one.held.block _ isLive
  have isB : b = 6295552 := by
    unfold memHsize at isPayload
    dsimp only at isPayload
    omega
  subst isB
  have well := one.well
  rw [← one.chunks] at well
  refine ⟨s, blocks, free, stepped, well, inB, inUse, one.calm, ?_⟩
  rintro ⟨fuel, other, _, _, _, again, releases⟩
  have same := kfree_unique called again
  rw [Prod.mk.injEq] at same
  rw [same.1, releases.calm] at followed
  cases followed

end Heap

end MangoOS
