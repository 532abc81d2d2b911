/-
Heap safety over runs of `kmalloc` and `kfree`.

`alloc_pages(8)` answers with 0 or a chunk that the heap does not own.  Between
the calls the bytes of live payloads and of memory outside the heap may change.
-/

import MangoOS.Memory.HeapState

namespace MangoOS

open Heap

structure HeapState where
  heap : Heap
  chunks : List Nat
  live : List Grant

/-- A call; `page` is the answer of `alloc_pages(8)` if it is asked. -/
inductive HeapOp
  | kmalloc (size page : Nat)
  | kfree (payload : Nat)
  deriving DecidableEq, Repr

namespace HeapState

/-- `kmalloc` within its limit, `kfree` of a live payload. -/
def Legal (s : HeapState) : HeapOp → Prop
  | .kmalloc size page => size + memHsize ≤ chunkSize ∧ (page = 0 ∨ Fresh s.chunks page)
  | .kfree payload => ∃ grant, grant ∈ s.live ∧ grant.payload = payload

/-- One call, with the chunks and the live payloads kept up to date. -/
def step (fuel : Nat) (s : HeapState) : HeapOp → Option HeapState
  | .kmalloc size page =>
      (s.heap.kmalloc fuel size page).map fun result =>
        if result.payload = 0 then { s with heap := result.heap }
        else
          { heap := result.heap
            chunks := if result.asked then page :: s.chunks else s.chunks
            live := { payload := result.payload, size := size } :: s.live }
  | .kfree payload =>
      (s.heap.kfree fuel payload).map fun (heap, given) =>
        { heap := heap
          chunks := s.chunks.filter (fun c => c ∉ given)
          live := s.live.filter (fun grant => grant.payload ≠ payload) }

/-- The call ends and leaves `after`. -/
def Call (s : HeapState) (op : HeapOp) (after : HeapState) : Prop :=
  ∃ fuel, s.step fuel op = some after

/-- The calls that stay clear of the defects.  `kmalloc` never gets a fresh chunk, because
it links one in behind the last free block through that block's NULL link.  `kfree` finds a
non-empty list, no free block in front of the block, and behind it no free block or the
first of the list, which is not the last one and lies inside the same chunk. -/
def Meets (s : HeapState) : HeapOp → Prop
  | .kmalloc size page =>
      page = 0 ∨ ∃ a, s.heap.Listed a ∧ size + memHsize ≤ s.heap.sizes a
  | .kfree payload =>
      s.heap.freeList ≠ 0 ∧
      (∀ a, s.heap.Listed a → s.heap.endOf a ≠ payload - memHsize ∧
        (s.heap.header (s.heap.endOf a)).used ≠ freeMark) ∧
      ((s.heap.header (s.heap.endOf (payload - memHsize))).used ≠ freeMark ∨
        s.heap.endOf (payload - memHsize) = s.heap.freeList ∧
        (s.heap.header s.heap.freeList).next ≠ 0 ∧
        (s.heap.header s.heap.freeList).isHead ≠ 1 ∧
        (s.heap.header (s.heap.endOf s.heap.freeList)).isHead ≠ 1)

/-- No NULL link was followed, and the live payloads are safe. -/
structure Safe (s : HeapState) : Prop where
  noNull : s.heap.nullFollowed = false
  payloads : s.heap.PayloadsSafe s.chunks s.live

end HeapState

/-- Runs from `mem_init` whose calls are legal and allowed. -/
inductive HeapRun (allowed : HeapState → HeapOp → Prop) : HeapState → Prop
  | start (memory : Heap) (page : Nat) (chunk : Chunk page)
      (calm : memory.nullFollowed = false) :
      HeapRun allowed { heap := memory.memInit page, chunks := [page], live := [] }
  | call {s after : HeapState} (run : HeapRun allowed s) (op : HeapOp) (legal : s.Legal op)
      (permitted : allowed s op) (called : s.Call op after) : HeapRun allowed after
  | write {s : HeapState} (run : HeapRun allowed s) (mem : ByteMemory)
      (outside : s.heap.OnlyOutside s.chunks s.live mem) :
      HeapRun allowed { s with heap := { s.heap with mem := mem } }

/-! ### One chunk -/

variable {heap : Heap} {chunk : Nat} {blocks : Set Nat} {free : List Nat} {a b : Nat}

/-- A block as large as the only chunk is the only block. -/
private theorem whole_unique (well : heap.WellFormed [chunk] blocks free) (inA : a ∈ blocks)
    (inB : b ∈ blocks) (whole : heap.sizes a = chunkSize) : a = b := by
  obtain ⟨c, tileA⟩ := well.tiling.tiled a inA
  obtain ⟨d, tileB⟩ := well.tiling.tiled b inB
  have ownedA := List.mem_singleton.mp tileA.owned
  have ownedB := List.mem_singleton.mp tileB.owned
  have lowerA := tileA.lower
  have upperA := tileA.upper
  have lowerB := tileB.lower
  have upperB := tileB.upper
  have bigB := well.tiling.big b inB
  have least := well.tiling.positive
  by_contra different
  have apart := well.tiling.apart a b inA inB different
  omega

/-- Two neighbours as large as the only chunk leave no room for a third block. -/
private theorem pair_unique {x : Nat} (well : heap.WellFormed [chunk] blocks free)
    (inA : a ∈ blocks) (inB : b ∈ blocks) (inX : x ∈ blocks) (behind : b = a + heap.sizes a)
    (whole : heap.sizes a + heap.sizes b = chunkSize) : x = a ∨ x = b := by
  obtain ⟨c, tileA⟩ := well.tiling.tiled a inA
  obtain ⟨d, tileX⟩ := well.tiling.tiled x inX
  have ownedA := List.mem_singleton.mp tileA.owned
  have ownedX := List.mem_singleton.mp tileX.owned
  have lowerA := tileA.lower
  have lowerX := tileX.lower
  have upperX := tileX.upper
  have bigX := well.tiling.big x inX
  have least := well.tiling.positive
  obtain ⟨e, tileB⟩ := well.tiling.tiled b inB
  have ownedB := List.mem_singleton.mp tileB.owned
  have upperB := tileB.upper
  by_contra neither
  rw [not_or] at neither
  have apartA := well.tiling.apart x a inX inA neither.1
  have apartB := well.tiling.apart x b inX inB neither.2
  omega

/-! ### Steps and runs -/

/-- The invariant of the permitted runs: one well-formed chunk. -/
structure HeapState.OneChunk (s : HeapState) (chunk : Nat) (blocks : Set Nat)
    (free : List Nat) : Prop where
  chunks : s.chunks = [chunk]
  well : s.heap.WellFormed [chunk] blocks free
  held : s.heap.Held blocks free s.live
  calm : s.heap.nullFollowed = false

theorem HeapState.OneChunk.safe {s : HeapState} (one : s.OneChunk chunk blocks free) :
    s.Safe := by
  refine ⟨one.calm, ?_⟩
  rw [one.chunks]
  exact one.held.safe one.well

/-- In one chunk a permitted release never completes a whole chunk. -/
private theorem HeapState.OneChunk.releasable {s : HeapState}
    (one : s.OneChunk chunk blocks free) (inB : b ∈ blocks) (inUse : b ∉ free)
    (meets : s.Meets (.kfree (b + memHsize))) : s.heap.Releasable free b := by
  obtain ⟨nonempty, inFront, behind⟩ := meets
  rw [Nat.add_sub_cancel] at inFront behind
  have inFirst := (one.well.freed _ (one.well.formed.first_mem nonempty)).1
  have firstNe : s.heap.freeList ≠ b := fun same => inUse (same ▸ one.well.formed.first_mem nonempty)
  constructor
  · intro x listed
    exact inFront x (one.well.listed_iff.mpr listed)
  · rcases behind with notFree | ⟨isFirst, _, notHead, noHead⟩
    · exact Or.inl notFree
    · exact Or.inr ⟨isFirst, nonempty, notHead, noHead⟩
  · refine ⟨?_, ?_, ?_⟩
    · intro whole
      exact firstNe (whole_unique one.well inB inFirst whole).symm
    · intro x listed whole
      have inX := (one.well.freed x listed).1
      exact inUse (whole_unique one.well inX inB whole ▸ listed)
    · intro isFirst whole
      have markFirst := (one.well.freed _ (one.well.formed.first_mem nonempty)).2
      have more : (s.heap.header s.heap.freeList).next ≠ 0 := by
        rcases behind with notFree | ⟨_, notLast, _⟩
        · rw [isFirst] at notFree
          exact False.elim (notFree markFirst)
        · exact notLast
      obtain ⟨left, right, split⟩ := List.append_of_mem (one.well.formed.first_mem nonempty)
      have wellSplit := one.well
      rw [split] at wellSplit
      obtain ⟨inRight, inNext, nextNe⟩ := wellSplit.formed.next_mem more
      have nextListed : (s.heap.header s.heap.freeList).next ∈ free := by
        rw [split]
        exact List.mem_append_right left (List.mem_cons_of_mem _ inRight)
      have exactEnd : s.heap.freeList = b + s.heap.sizes b := by
        have bounds := one.well.formed.bounds inB
        unfold endOf wrap at isFirst
        omega
      rcases pair_unique one.well inB inFirst inNext exactEnd whole with isB | isFirstAgain
      · exact inUse (isB ▸ nextListed)
      · exact nextNe isFirstAgain

theorem HeapState.step_more {s after : HeapState} {op : HeapOp} {fuel more : Nat}
    (stepped : s.step fuel op = some after) (le : fuel ≤ more) :
    s.step more op = some after := by
  cases op with
  | kmalloc size page =>
      obtain ⟨result, called, isAfter⟩ := Option.map_eq_some_iff.mp stepped
      exact Option.map_eq_some_iff.mpr ⟨result, kmalloc_more called le, isAfter⟩
  | kfree payload =>
      obtain ⟨result, called, isAfter⟩ := Option.map_eq_some_iff.mp stepped
      exact Option.map_eq_some_iff.mpr ⟨result, kfree_more called le, isAfter⟩

private theorem HeapState.OneChunk.kmalloc_step {s : HeapState}
    (one : s.OneChunk chunk blocks free) {size page fuel : Nat}
    (limit : size + memHsize ≤ chunkSize) (meets : s.Meets (.kmalloc size page))
    (enough : free.length < fuel) :
    ∃ after blocksAfter freeAfter, s.step fuel (.kmalloc size page) = some after ∧
      after.OneChunk chunk blocksAfter freeAfter := by
  rcases kmalloc_spec one.well limit page enough with
    ⟨a, heap, blocksAfter, freeAfter, listed, _, called, out, quiet⟩ | ⟨none, called⟩
  · have nonzero : ¬ a + memHsize = 0 := by
      have least := one.well.tiling.positive
      omega
    refine ⟨_, blocksAfter, freeAfter, Option.map_eq_some_iff.mpr ⟨_, called, rfl⟩, ?_⟩
    rw [if_neg nonzero]
    constructor
    · exact one.chunks
    · exact out.well
    · exact one.held.handOut out listed
    · exact quiet.trans one.calm
  · rcases meets with isZero | ⟨a, listed, fits⟩
    · rw [if_pos isZero] at called
      exact ⟨s, blocks, free, Option.map_eq_some_iff.mpr ⟨_, called, rfl⟩, one⟩
    · have small := none a (one.well.listed_iff.mp listed)
      omega

private theorem HeapState.OneChunk.kfree_step {s : HeapState}
    (one : s.OneChunk chunk blocks free) {payload fuel : Nat}
    (legal : s.Legal (.kfree payload)) (meets : s.Meets (.kfree payload))
    (enough : free.length + 2 < fuel) :
    ∃ after blocksAfter freeAfter, s.step fuel (.kfree payload) = some after ∧
      after.OneChunk chunk blocksAfter freeAfter := by
  obtain ⟨grant, member, isPayload⟩ := legal
  obtain ⟨b, inB, inUse, payloadB, _⟩ := one.held.block grant member
  rw [payloadB] at isPayload
  subst isPayload
  have releasable := one.releasable inB inUse meets
  obtain ⟨heap, blocksAfter, freeAfter, called, back⟩ :=
    kfree_spec one.well inB inUse releasable enough
  refine ⟨_, blocksAfter, freeAfter, Option.map_eq_some_iff.mpr ⟨_, called, rfl⟩, ?_⟩
  obtain ⟨nonempty, inFront, behind⟩ := meets
  rw [Nat.add_sub_cancel] at behind
  constructor
  · simpa using one.chunks
  · exact back.well
  · exact one.held.takeBack back
  · apply back.quiet one.calm nonempty
    intro isFree
    exact (behind.resolve_left (fun notFree => notFree isFree)).2.1

/-- A legal, permitted call completes and keeps the invariant. -/
theorem HeapState.OneChunk.step {s : HeapState} (one : s.OneChunk chunk blocks free)
    {op : HeapOp} (legal : s.Legal op) (meets : s.Meets op) {fuel : Nat}
    (enough : free.length + 2 < fuel) :
    ∃ after blocksAfter freeAfter, s.step fuel op = some after ∧
      after.OneChunk chunk blocksAfter freeAfter := by
  cases op with
  | kmalloc size page => exact one.kmalloc_step legal.1 meets (by omega)
  | kfree payload => exact one.kfree_step legal meets enough

theorem HeapRun.oneChunk {s : HeapState} (run : HeapRun HeapState.Meets s) :
    ∃ chunk blocks free, s.OneChunk chunk blocks free := by
  induction run with
  | start memory page chunk calm =>
      refine ⟨page, {page}, [page], rfl, memInit_well memory chunk, ?_, ?_⟩
      · constructor
        · intro grant member
          cases member
        · exact List.Pairwise.nil
      · simpa [memInit] using calm
  | call run op legal permitted called ih =>
      obtain ⟨chunk, blocks, free, one⟩ := ih
      obtain ⟨fuel, stepped⟩ := called
      obtain ⟨found, blocksAfter, freeAfter, isFound, next⟩ :=
        one.step legal permitted (by omega : free.length + 2 < fuel + free.length + 3)
      rw [HeapState.step_more stepped (by omega)] at isFound
      cases isFound
      exact ⟨chunk, blocksAfter, freeAfter, next⟩
  | write run mem outside ih =>
      obtain ⟨chunk, blocks, free, one⟩ := ih
      rw [one.chunks] at outside
      obtain ⟨well, held⟩ := one.well.outside one.held outside
      exact ⟨chunk, blocks, free, one.chunks, well, held, one.calm⟩

/-- The heap is safe in every state of every run whose calls meet the condition, and each
such call completes. -/
theorem run_heapSafe {s : HeapState} (run : HeapRun HeapState.Meets s) :
    s.Safe ∧ ∀ op, s.Legal op → s.Meets op → ∃ after, s.Call op after := by
  obtain ⟨chunk, blocks, free, one⟩ := run.oneChunk
  refine ⟨one.safe, ?_⟩
  intro op legal meets
  obtain ⟨after, _, _, stepped, _⟩ := one.step legal meets (Nat.lt_succ_self _)
  exact ⟨after, _, stepped⟩

/-- `mem_init` with the chunk at 0x601000, the first free page. -/
def HeapState.booted : HeapState where
  heap := Heap.zeroed.memInit 6295552
  chunks := [6295552]
  live := []

private theorem booted_chunk : Chunk 6295552 where
  aligned := by decide
  positive := by decide
  below := by decide

/-- One block handed out of the first chunk. -/
theorem run_heapSafe_served :
    ∃ s, HeapState.booted.step 2 (.kmalloc 20000 0) = some s ∧
      s.live = [{ payload := 6295569, size := 20000 }] ∧
      s.Safe ∧ ∀ op, s.Legal op → s.Meets op → ∃ after, s.Call op after := by
  have ran : (HeapState.booted.step 2 (.kmalloc 20000 0)).map HeapState.live =
      some [{ payload := 6295569, size := 20000 }] := by decide +kernel
  obtain ⟨s, stepped, live⟩ := Option.map_eq_some_iff.mp ran
  have start : HeapRun HeapState.Meets HeapState.booted :=
    HeapRun.start Heap.zeroed 6295552 booted_chunk rfl
  have legal : HeapState.booted.Legal (.kmalloc 20000 0) := ⟨by decide, Or.inl rfl⟩
  exact ⟨s, stepped, live, run_heapSafe (HeapRun.call start _ legal (Or.inl rfl) ⟨2, stepped⟩)⟩

/-- Two requests of 20000 bytes: the second needs a new chunk and follows a NULL link. -/
theorem heapSafe_growth :
    ∃ s, HeapRun (fun _ _ => True) s ∧ s.heap.nullFollowed = true ∧ ¬ s.Safe := by
  have served : (HeapState.booted.step 2 (.kmalloc 20000 0)).map HeapState.chunks =
      some [6295552] := by decide +kernel
  have ran : ((HeapState.booted.step 2 (.kmalloc 20000 0)).bind
      (fun s => s.step 3 (.kmalloc 20000 6328320))).map (fun s => s.heap.nullFollowed) =
      some true := by decide +kernel
  obtain ⟨s, both, followed⟩ := Option.map_eq_some_iff.mp ran
  obtain ⟨middle, first, second⟩ := Option.bind_eq_some_iff.mp both
  rw [first, Option.map_some, Option.some.injEq] at served
  have start : HeapRun (fun _ _ => True) HeapState.booted :=
    HeapRun.start Heap.zeroed 6295552 booted_chunk rfl
  have legalFirst : HeapState.booted.Legal (.kmalloc 20000 0) := ⟨by decide, Or.inl rfl⟩
  have legalSecond : middle.Legal (.kmalloc 20000 6328320) := by
    refine ⟨by decide, Or.inr ⟨⟨by decide, by decide, by decide⟩, ?_⟩⟩
    intro c owned
    rw [served, List.mem_singleton] at owned
    subst owned
    exact Or.inl (by decide)
  have ranFirst := HeapRun.call start _ legalFirst trivial ⟨2, first⟩
  refine ⟨s, HeapRun.call ranFirst _ legalSecond trivial ⟨3, second⟩, followed, ?_⟩
  intro safe
  rw [safe.noNull] at followed
  cases followed

end MangoOS
