/-
Page ownership over runs of the heap and of the page allocator together.

The heap gets its chunks from the page bitmap; other callers of `alloc_pages`
hold the rest.  A NULL link is harmless here, it leads to the first page, which
nobody owns.
-/

import MangoOS.Memory.HeapState
import MangoOS.Memory.Pages

namespace MangoOS

open Heap

structure MemoryState where
  heap : Heap
  bitmap : BitMap
  /-- Chunks of the heap that have not been given back. -/
  chunks : List Nat
  live : List Grant
  /-- Outstanding page allocations of everybody else. -/
  others : List Allocation

inductive MemoryOp
  | kmalloc (size : Nat)
  | kfree (payload : Nat)
  | allocPages (count : Nat)
  | freePages (allocation : Allocation)
  deriving DecidableEq, Repr

/-- A chunk as a page allocation. -/
def ofChunk (chunk : Nat) : Allocation where
  addr := chunk
  count := 8

namespace MemoryState

/-- `mem_init` on a bitmap from which a chunk can be had. -/
def start (memory : Heap) (initial : BitMap) : MemoryState where
  heap := memory.memInit (allocPages initial 8).1
  bitmap := (allocPages initial 8).2
  chunks := [(allocPages initial 8).1]
  live := []
  others := []

def step (fuel : Nat) (s : MemoryState) : MemoryOp → Option MemoryState
  | .kmalloc size =>
      let page := (allocPages s.bitmap 8).1
      (s.heap.kmalloc fuel size page).map fun result =>
        { s with
          heap := result.heap
          bitmap := if result.asked then (allocPages s.bitmap 8).2 else s.bitmap
          chunks := if result.asked ∧ page ≠ 0 then page :: s.chunks else s.chunks
          live :=
            if result.payload = 0 then s.live
            else { payload := result.payload, size := size } :: s.live }
  | .kfree payload =>
      (s.heap.kfree fuel payload).map fun (heap, given) =>
        { s with
          heap := heap
          bitmap := given.foldl (fun bitmap chunk => freePages bitmap chunk 8) s.bitmap
          chunks := s.chunks.filter (fun c => c ∉ given)
          live := s.live.filter (fun grant => grant.payload ≠ payload) }
  | .allocPages count =>
      let addr := (allocPages s.bitmap count).1
      some
        { s with
          bitmap := (allocPages s.bitmap count).2
          others := if addr = 0 then s.others else { addr := addr, count := count } :: s.others }
  | .freePages allocation =>
      some
        { s with
          bitmap := freePages s.bitmap allocation.addr allocation.count
          others := s.others.erase allocation }

def Call (s : MemoryState) (op : MemoryOp) (after : MemoryState) : Prop :=
  ∃ fuel, s.step fuel op = some after

/-- Any size is requested; only what is live or outstanding is released. -/
def Legal (s : MemoryState) : MemoryOp → Prop
  | .kmalloc size => size < 4294967296
  | .kfree payload => ∃ grant, grant ∈ s.live ∧ grant.payload = payload
  | .allocPages count => 1 ≤ count
  | .freePages allocation => allocation ∈ s.others

/-- The calls that stay clear of the defects.  `kmalloc` refuses the size, finds a block,
or extends a non-empty list by a chunk that has room for a second header.  `kfree` finds no
free block in front of the block, and behind it no free block or the first of the list
inside the same chunk; and no free block fills a chunk then. -/
def Meets (s : MemoryState) : MemoryOp → Prop
  | .kmalloc size =>
      (wrap (size + memHsize) < 8 ∨ chunkSize < wrap (size + memHsize)) ∨
      size + memHsize ≤ chunkSize ∧
        ((∃ a, s.heap.Listed a ∧ size + memHsize ≤ s.heap.sizes a) ∨
          (allocPages s.bitmap 8).1 = 0 ∨
          s.heap.freeList ≠ 0 ∧ size + memHsize + memHsize ≤ chunkSize)
  | .kfree payload =>
      (∀ a, s.heap.Listed a → s.heap.endOf a ≠ payload - memHsize ∧
        (s.heap.header (s.heap.endOf a)).used ≠ freeMark) ∧
      ((s.heap.header (s.heap.endOf (payload - memHsize))).used ≠ freeMark ∨
        s.heap.endOf (payload - memHsize) = s.heap.freeList ∧ s.heap.freeList ≠ 0 ∧
        (s.heap.header s.heap.freeList).isHead ≠ 1 ∧
        (s.heap.header (s.heap.endOf s.heap.freeList)).isHead ≠ 1) ∧
      s.heap.sizes (payload - memHsize) ≠ chunkSize ∧
      (∀ a, s.heap.Listed a → s.heap.sizes a ≠ chunkSize) ∧
      (s.heap.endOf (payload - memHsize) = s.heap.freeList →
        s.heap.sizes (payload - memHsize) + s.heap.sizes s.heap.freeList ≠ chunkSize)
  | .allocPages _ => True
  | .freePages _ => True

/-- Page `p` holds a byte of the block at `a` or of its header. -/
def Covers (s : MemoryState) (a p : Nat) : Prop :=
  p * pageSize < a + max (s.heap.sizes a) memHsize ∧ a < (p + 1) * pageSize

/-- The page is the heap's: its bit is set and it lies in a chunk not given back. -/
def HeapPage (s : MemoryState) (p : Nat) : Prop :=
  s.bitmap.used p = true ∧ ∃ c, c ∈ s.chunks ∧ (ofChunk c).Holds p

/-- The heap and the page allocator never both own a page. -/
structure Separate (s : MemoryState) : Prop where
  listed : ∀ a, s.heap.Listed a → ∀ p, s.Covers a p → s.HeapPage p
  live : ∀ grant, grant ∈ s.live → ∀ p, s.Covers (grant.payload - memHsize) p → s.HeapPage p
  others : ∀ c allocation, c ∈ s.chunks → allocation ∈ s.others →
    ∀ p, (ofChunk c).Holds p → ¬ allocation.Holds p

end MemoryState

/-- Runs from `mem_init` whose calls are legal and allowed. -/
inductive MemoryRun (initial : BitMap) (allowed : MemoryState → MemoryOp → Prop) :
    MemoryState → Prop
  | start (memory : Heap) (booted : initial.Booted) (ready : (allocPages initial 8).1 ≠ 0) :
      MemoryRun initial allowed (MemoryState.start memory initial)
  | call {s after : MemoryState} (run : MemoryRun initial allowed s) (op : MemoryOp)
      (legal : s.Legal op) (permitted : allowed s op) (called : s.Call op after) :
      MemoryRun initial allowed after
  | write {s : MemoryState} (run : MemoryRun initial allowed s) (mem : ByteMemory)
      (outside : s.heap.OnlyOutside s.chunks s.live mem) :
      MemoryRun initial allowed { s with heap := { s.heap with mem := mem } }

/-! ### Chunks as page allocations -/

variable {initial now : BitMap} {out : List Allocation} {chunks free : List Nat}
variable {blocks : Set Nat}

theorem PagesOwned.perm {reordered : List Allocation} (owned : PagesOwned initial now out)
    (order : out.Perm reordered) : PagesOwned initial now reordered := by
  constructor
  · exact owned.nbits
  · intro allocation member
    exact owned.valid allocation (order.mem_iff.mpr member)
  · apply (order.pairwise_iff _).mp owned.disjoint
    intro left right apart p inRight inLeft
    exact apart p inLeft inRight
  · intro p
    rw [owned.bits p]
    constructor
    · rintro (initially | ⟨allocation, member, inside⟩)
      · exact Or.inl initially
      · exact Or.inr ⟨allocation, order.mem_iff.mp member, inside⟩
    · rintro (initially | ⟨allocation, member, inside⟩)
      · exact Or.inl initially
      · exact Or.inr ⟨allocation, order.mem_iff.mpr member, inside⟩

private theorem holds_chunk {chunk p : Nat} (aligned : pageSize ∣ chunk) :
    (ofChunk chunk).Holds p ↔ chunk ≤ p * pageSize ∧ p * pageSize < chunk + chunkSize := by
  obtain ⟨i, rfl⟩ := aligned
  unfold Allocation.Holds ofChunk chunkSize pageSize
  simp only
  omega

/-- A chunk that the page allocator hands out is fresh for the heap. -/
private theorem fresh_of_owned {page : Nat} (others : List Allocation)
    (booted : initial.Booted)
    (owned : PagesOwned initial now ((page :: chunks).map ofChunk ++ others))
    (aligned : ∀ c, c ∈ chunks → pageSize ∣ c) : Fresh chunks page := by
  have inNew : ofChunk page ∈ (page :: chunks).map ofChunk ++ others := by simp
  have valid := owned.valid _ inNew
  have below := valid.below
  have bounded := booted.bounded
  have alignedPage : pageSize ∣ page := valid.aligned
  have isMultiple := alignedPage
  obtain ⟨i, isPage⟩ := isMultiple
  have index : (ofChunk page).addr / pageSize = i := by
    change page / pageSize = i
    rw [isPage]
    exact Nat.mul_div_cancel_left i (by decide)
  rw [index] at below
  change ((i + 8 : Nat) : Int) ≤ _ at below
  constructor
  · constructor
    · exact valid.aligned
    · exact Nat.pos_of_ne_zero valid.nonzero
    · rw [isPage]
      unfold chunkSize pageSize
      omega
  · intro c inChunks
    have disjoint := owned.disjoint
    rw [List.map_cons, List.cons_append, List.pairwise_cons] at disjoint
    have apart := disjoint.1 (ofChunk c)
      (List.mem_append_left _ (List.mem_map_of_mem inChunks))
    obtain ⟨j, isC⟩ := aligned c inChunks
    by_contra overlap
    rw [not_or, isPage, isC] at overlap
    unfold chunkSize pageSize at overlap
    -- the later of the two starts lies in both
    by_cases order : i ≤ j
    · apply apart j
      · rw [holds_chunk alignedPage, isPage]
        unfold chunkSize pageSize
        omega
      · rw [holds_chunk (aligned c inChunks), isC]
        unfold chunkSize pageSize
        omega
    · apply apart i
      · rw [holds_chunk alignedPage, isPage]
        unfold chunkSize pageSize
        omega
      · rw [holds_chunk (aligned c inChunks), isC]
        unfold chunkSize pageSize
        omega

/-! ### The invariant -/

structure MemoryState.Owned (initial : BitMap) (s : MemoryState) (blocks : Set Nat)
    (free : List Nat) : Prop where
  booted : initial.Booted
  well : s.heap.WellFormed s.chunks blocks free
  held : s.heap.Held blocks free s.live
  pages : PagesOwned initial s.bitmap (s.chunks.map ofChunk ++ s.others)

theorem MemoryState.Owned.separate {s : MemoryState} (owned : s.Owned initial blocks free) :
    s.Separate := by
  have covered : ∀ a, a ∈ blocks → ∀ p, s.Covers a p → s.HeapPage p := by
    intro a inA p covers
    obtain ⟨c, tile⟩ := owned.well.tiling.tiled a inA
    have bigA := owned.well.tiling.big a inA
    have lower := tile.lower
    have upper := tile.upper
    have aligned := (owned.well.chunk c tile.owned).aligned
    have holds : (ofChunk c).Holds p := by
      rw [holds_chunk aligned]
      obtain ⟨before, behind⟩ := covers
      rw [Nat.max_eq_left bigA] at before
      obtain ⟨i, isC⟩ := aligned
      rw [isC] at lower upper ⊢
      unfold pageSize at *
      omega
    refine ⟨?_, c, tile.owned, holds⟩
    rw [owned.pages.bits p]
    exact Or.inr ⟨ofChunk c, List.mem_append_left _ (List.mem_map_of_mem tile.owned), holds⟩
  constructor
  · intro a listed
    exact covered a (owned.well.freed a (owned.well.listed_iff.mp listed)).1
  · intro grant member
    obtain ⟨a, inA, _, payload, _⟩ := owned.held.block grant member
    rw [payload, Nat.add_sub_cancel]
    exact covered a inA
  · intro c allocation inChunks inOthers
    have disjoint := (List.pairwise_append.mp owned.pages.disjoint).2.2
    exact disjoint (ofChunk c) (List.mem_map_of_mem inChunks) allocation inOthers

/-! ### Steps -/

variable {s after : MemoryState}

theorem MemoryState.step_more {op : MemoryOp} {fuel more : Nat}
    (stepped : s.step fuel op = some after) (le : fuel ≤ more) :
    s.step more op = some after := by
  cases op with
  | kmalloc size =>
      obtain ⟨result, called, isAfter⟩ := Option.map_eq_some_iff.mp stepped
      exact Option.map_eq_some_iff.mpr ⟨result, kmalloc_more called le, isAfter⟩
  | kfree payload =>
      obtain ⟨result, called, isAfter⟩ := Option.map_eq_some_iff.mp stepped
      exact Option.map_eq_some_iff.mpr ⟨result, kfree_more called le, isAfter⟩
  | allocPages count => exact stepped
  | freePages allocation => exact stepped

private theorem kmalloc_refused (heap : Heap) {size : Nat} (page fuel : Nat)
    (refused : wrap (size + memHsize) < 8 ∨ chunkSize < wrap (size + memHsize)) :
    heap.kmalloc fuel size page = some { heap := heap, payload := 0, asked := false } := by
  unfold kmalloc
  rw [if_pos refused]

private theorem MemoryState.step_grown {size payload fuel : Nat} {heap : Heap}
    (called : s.heap.kmalloc fuel size (allocPages s.bitmap 8).1 =
      some { heap := heap, payload := payload, asked := true })
    (served : payload ≠ 0) (nonzero : (allocPages s.bitmap 8).1 ≠ 0) :
    s.step fuel (.kmalloc size) = some
      { s with
        heap := heap
        bitmap := (allocPages s.bitmap 8).2
        chunks := (allocPages s.bitmap 8).1 :: s.chunks
        live := { payload := payload, size := size } :: s.live } := by
  refine Option.map_eq_some_iff.mpr ⟨_, called, ?_⟩
  simp [served, nonzero]

/-- The bitmap and the new chunk after `alloc_pages(8)`. -/
private theorem MemoryState.Owned.ask (owned : s.Owned initial blocks free) :
    (allocPages s.bitmap 8 = (0, s.bitmap)) ∨
      (allocPages s.bitmap 8).1 ≠ 0 ∧
        Fresh s.chunks (allocPages s.bitmap 8).1 ∧
        PagesOwned initial (allocPages s.bitmap 8).2
          (((allocPages s.bitmap 8).1 :: s.chunks).map ofChunk ++ s.others) := by
  rcases owned.pages.allocPages_spec owned.booted 8 (by decide) with
    ⟨refused, _⟩ | ⟨found, nonzero, _, run, result⟩
  · exact Or.inl refused
  · right
    have taken := owned.pages.take (by decide : 1 ≤ 8) nonzero run
    rw [result]
    refine ⟨Nat.mul_ne_zero (by omega) (by decide), ?_, taken⟩
    apply fresh_of_owned s.others owned.booted taken
    intro c member
    exact (owned.well.chunk c member).aligned

private theorem MemoryState.Owned.kmalloc_step (owned : s.Owned initial blocks free)
    {size fuel : Nat} (meets : s.Meets (.kmalloc size)) (enough : free.length < fuel) :
    ∃ after blocksAfter freeAfter, s.step fuel (.kmalloc size) = some after ∧
      after.Owned initial blocksAfter freeAfter := by
  have nonzeroPayload : ∀ x, ¬ x + memHsize = 0 := by
    intro x
    have least := owned.well.tiling.positive
    omega
  rcases meets with refused | ⟨limit, served⟩
  · have called := kmalloc_refused s.heap (allocPages s.bitmap 8).1 fuel refused
    exact ⟨s, blocks, free, Option.map_eq_some_iff.mpr ⟨_, called, by simp⟩, owned⟩
  · rcases kmalloc_spec owned.well limit (allocPages s.bitmap 8).1 enough with
      ⟨a, heap, blocksAfter, freeAfter, listed, _, called, out, _⟩ | ⟨none, called⟩
    · refine ⟨_, blocksAfter, freeAfter, Option.map_eq_some_iff.mpr ⟨_, called, rfl⟩, ?_⟩
      constructor
      · exact owned.booted
      · simpa using out.well
      · rw [if_neg (nonzeroPayload a)]
        exact owned.held.handOut out listed
      · simpa using owned.pages
    · rcases owned.ask with refused | ⟨nonzero, fresh, pages⟩
      · rw [refused, if_pos rfl] at called
        refine ⟨_, blocks, free, ?_, owned⟩
        unfold step
        rw [refused]
        exact Option.map_eq_some_iff.mpr ⟨_, called, by simp⟩
      · have grows : s.heap.freeList ≠ 0 ∧ size + memHsize + memHsize ≤ chunkSize := by
          rcases served with ⟨a, listed, fits⟩ | isZero | grows
          · have small := none a (owned.well.listed_iff.mp listed)
            omega
          · exact False.elim (nonzero isZero)
          · exact grows
        obtain ⟨nonempty, room⟩ := grows
        rcases List.eq_nil_or_concat free with isNil | ⟨left, p, isFree⟩
        · have isNull := owned.well.formed.freeList_eq
          rw [isNil] at isNull
          exact False.elim (nonempty isNull)
        · rw [List.concat_eq_append] at isFree
          subst isFree
          rw [if_neg nonzero, List.getLastD_concat] at called
          have big : memHsize ≤ size + memHsize := Nat.le_add_left _ _
          have headers := kmallocGrow_headers owned.well.formed fresh big room
          have well := headers.well owned.well fresh big room
          have held := owned.held.grown owned.well fresh room headers
          exact ⟨_, _, _, step_grown called (nonzeroPayload _) nonzero,
            owned.booted, well, held, pages⟩

private theorem MemoryState.Owned.kfree_step (owned : s.Owned initial blocks free)
    {payload fuel : Nat} (legal : s.Legal (.kfree payload)) (meets : s.Meets (.kfree payload))
    (enough : free.length + 2 < fuel) :
    ∃ after blocksAfter freeAfter, s.step fuel (.kfree payload) = some after ∧
      after.Owned initial blocksAfter freeAfter := by
  obtain ⟨grant, member, isPayload⟩ := legal
  obtain ⟨b, inB, inUse, payloadB, _⟩ := owned.held.block grant member
  rw [payloadB] at isPayload
  subst isPayload
  obtain ⟨inFront, behind, notWhole, noneWhole, notJoined⟩ := meets
  rw [Nat.add_sub_cancel] at inFront behind notWhole notJoined
  have releasable : s.heap.Releasable free b := by
    constructor
    · intro x listed
      exact inFront x (owned.well.listed_iff.mpr listed)
    · exact behind
    · refine ⟨notWhole, ?_, notJoined⟩
      intro x listed
      exact noneWhole x (owned.well.listed_iff.mpr listed)
  obtain ⟨heap, blocksAfter, freeAfter, called, back⟩ :=
    kfree_spec owned.well inB inUse releasable enough
  refine ⟨_, blocksAfter, freeAfter, Option.map_eq_some_iff.mpr ⟨_, called, rfl⟩, ?_⟩
  constructor
  · exact owned.booted
  · simpa using back.well
  · exact owned.held.takeBack back
  · simpa using owned.pages

private theorem MemoryState.Owned.allocPages_step (owned : s.Owned initial blocks free)
    {count : Nat} (positive : 1 ≤ count) (fuel : Nat) :
    ∃ after, s.step fuel (.allocPages count) = some after ∧
      after.Owned initial blocks free := by
  refine ⟨_, rfl, owned.booted, owned.well, owned.held, ?_⟩
  rcases owned.pages.allocPages_spec owned.booted count positive with
    ⟨refused, _⟩ | ⟨found, nonzero, _, run, result⟩
  · rw [refused]
    exact owned.pages
  · have different : ¬ found * pageSize = 0 := Nat.mul_ne_zero (by omega) (by decide)
    rw [result]
    change PagesOwned initial _ (_ ++ if found * pageSize = 0 then _ else _)
    rw [if_neg different]
    exact (owned.pages.take positive nonzero run).perm List.perm_middle.symm

private theorem MemoryState.Owned.freePages_step (owned : s.Owned initial blocks free)
    {allocation : Allocation} (member : allocation ∈ s.others) (fuel : Nat) :
    ∃ after, s.step fuel (.freePages allocation) = some after ∧
      after.Owned initial blocks free := by
  refine ⟨_, rfl, owned.booted, owned.well, owned.held, ?_⟩
  have inOut : allocation ∈ s.chunks.map ofChunk ++ s.others :=
    List.mem_append_right _ member
  have positive := (owned.pages.valid allocation inOut).positive
  have notChunk : allocation ∉ s.chunks.map ofChunk := by
    intro isChunk
    have disjoint := (List.pairwise_append.mp owned.pages.disjoint).2.2
    have inside : allocation.Holds (allocation.addr / pageSize) :=
      ⟨Nat.le_refl _, by omega⟩
    exact disjoint allocation isChunk allocation member _ inside inside
  have given := owned.pages.give inOut
  rw [List.erase_append_right _ notChunk] at given
  exact given

/-- A legal, permitted call completes and keeps the invariant. -/
theorem MemoryState.Owned.step (owned : s.Owned initial blocks free) {op : MemoryOp}
    (legal : s.Legal op) (meets : s.Meets op) {fuel : Nat} (enough : free.length + 2 < fuel) :
    ∃ after blocksAfter freeAfter, s.step fuel op = some after ∧
      after.Owned initial blocksAfter freeAfter := by
  cases op with
  | kmalloc size => exact owned.kmalloc_step meets (by omega)
  | kfree payload => exact owned.kfree_step legal meets enough
  | allocPages count =>
      obtain ⟨after, stepped, next⟩ := owned.allocPages_step legal fuel
      exact ⟨after, blocks, free, stepped, next⟩
  | freePages allocation =>
      obtain ⟨after, stepped, next⟩ := owned.freePages_step legal fuel
      exact ⟨after, blocks, free, stepped, next⟩

/-! ### Runs -/

theorem MemoryRun.owned (run : MemoryRun initial MemoryState.Meets s) :
    ∃ blocks free, s.Owned initial blocks free := by
  induction run with
  | start memory booted ready =>
      have first := (PagesOwned.start initial).allocPages_spec booted 8 (by decide)
      rcases first with ⟨refused, _⟩ | ⟨found, nonzero, _, run, result⟩
      · rw [refused] at ready
        exact False.elim (ready rfl)
      · have pages := (PagesOwned.start initial).take (by decide : 1 ≤ 8) nonzero run
        have fresh : Fresh [] (found * pageSize) := by
          apply fresh_of_owned [] booted pages
          intro c member
          cases member
        refine ⟨{found * pageSize}, [found * pageSize], booted, ?_, ?_, ?_⟩
        · unfold MemoryState.start
          rw [result]
          exact memInit_well memory fresh.chunk
        · constructor
          · intro grant member
            cases member
          · exact List.Pairwise.nil
        · unfold MemoryState.start
          rw [result]
          exact pages
  | call run op legal permitted called ih =>
      obtain ⟨blocks, free, owned⟩ := ih
      obtain ⟨fuel, stepped⟩ := called
      obtain ⟨found, blocksAfter, freeAfter, isFound, next⟩ :=
        owned.step legal permitted (by omega : free.length + 2 < fuel + free.length + 3)
      rw [MemoryState.step_more stepped (by omega)] at isFound
      cases isFound
      exact ⟨blocksAfter, freeAfter, next⟩
  | write run mem outside ih =>
      obtain ⟨blocks, free, owned⟩ := ih
      obtain ⟨well, held⟩ := owned.well.outside owned.held outside
      exact ⟨blocks, free, owned.booted, well, held, owned.pages⟩

/-- The two allocators stay apart in every state of every run whose calls meet the
condition, and each such call completes. -/
theorem run_separate (run : MemoryRun initial MemoryState.Meets s) :
    s.Separate ∧ ∀ op, s.Legal op → s.Meets op → ∃ after, s.Call op after := by
  obtain ⟨blocks, free, owned⟩ := run.owned
  refine ⟨owned.separate, ?_⟩
  intro op legal meets
  obtain ⟨after, _, _, stepped, _⟩ := owned.step legal meets (Nat.lt_succ_self _)
  exact ⟨after, _, stepped⟩

/-- `mem_init` on 16 pages of which only the first is taken. -/
def MemoryState.sixteen : MemoryState := MemoryState.start Heap.zeroed BitMap.sixteen

private theorem sixteen_run (allowed : MemoryState → MemoryOp → Prop) :
    MemoryRun BitMap.sixteen allowed MemoryState.sixteen :=
  MemoryRun.start Heap.zeroed ⟨by decide, by decide⟩ (by decide +kernel)

/-- A block handed out of the chunk, next to two pages of another caller. -/
theorem run_separate_served :
    ∃ s, ((MemoryState.sixteen.step 2 (.allocPages 2)).bind
        (fun s => s.step 2 (.kmalloc 20000))) = some s ∧
      s.others = [{ addr := 36864, count := 2 }] ∧
      s.live = [{ payload := 4113, size := 20000 }] ∧
      s.Separate ∧ ∀ op, s.Legal op → s.Meets op → ∃ after, s.Call op after := by
  have ran : ((MemoryState.sixteen.step 2 (.allocPages 2)).bind
      (fun s => s.step 2 (.kmalloc 20000))).map (fun s => (s.others, s.live)) =
      some ([{ addr := 36864, count := 2 }], [{ payload := 4113, size := 20000 }]) := by
    decide +kernel
  obtain ⟨s, both, outcome⟩ := Option.map_eq_some_iff.mp ran
  obtain ⟨middle, first, second⟩ := Option.bind_eq_some_iff.mp both
  have taken := MemoryRun.call (sixteen_run MemoryState.Meets) (.allocPages 2)
    (by decide : 1 ≤ 2) trivial ⟨2, first⟩
  have sameHeap : middle.heap = MemoryState.sixteen.heap := by
    cases first
    rfl
  have isFirst : MemoryState.sixteen.heap.freeList = 4096 := by decide +kernel
  have listed : MemoryState.sixteen.heap.Listed 4096 := by
    rw [← isFirst]
    apply Listed.first
    rw [isFirst]
    decide
  have meets : middle.Meets (.kmalloc 20000) := by
    refine Or.inr ⟨by decide, Or.inl ⟨4096, ?_, ?_⟩⟩
    · exact sameHeap ▸ listed
    · rw [sameHeap]
      decide +kernel
  have run := MemoryRun.call taken (.kmalloc 20000) (by decide : 20000 < 4294967296) meets
    ⟨2, second⟩
  exact ⟨s, both, congrArg Prod.fst outcome, congrArg Prod.snd outcome, run_separate run⟩

/-- A block that fills its chunk is released: the chunk is given back while it heads
`free_list`. -/
theorem separate_givenBack :
    ∃ s, MemoryRun BitMap.sixteen (fun _ _ => True) s ∧ s.heap.Listed 4096 ∧
      s.bitmap.used 1 = false ∧ ¬ s.Separate := by
  have served : (MemoryState.sixteen.step 2 (.kmalloc 32751)).map MemoryState.live =
      some [{ payload := 4113, size := 32751 }] := by decide +kernel
  have ran : ((MemoryState.sixteen.step 2 (.kmalloc 32751)).bind
      (fun s => s.step 3 (.kfree 4113))).map (fun s => (s.heap.freeList, s.bitmap.used 1)) =
      some (4096, false) := by decide +kernel
  obtain ⟨s, both, outcome⟩ := Option.map_eq_some_iff.mp ran
  obtain ⟨middle, first, second⟩ := Option.bind_eq_some_iff.mp both
  rw [first, Option.map_some, Option.some.injEq] at served
  have isFirst : s.heap.freeList = 4096 := congrArg Prod.fst outcome
  have clear : s.bitmap.used 1 = false := congrArg Prod.snd outcome
  have taken := MemoryRun.call (sixteen_run (fun _ _ => True)) (.kmalloc 32751)
    (by decide : 32751 < 4294967296) trivial ⟨2, first⟩
  have legal : middle.Legal (.kfree 4113) :=
    ⟨_, served ▸ List.mem_singleton_self _, rfl⟩
  have listed : s.heap.Listed 4096 := by
    rw [← isFirst]
    apply Listed.first
    rw [isFirst]
    decide
  refine ⟨s, MemoryRun.call taken _ legal trivial ⟨3, second⟩, listed, clear, ?_⟩
  intro separate
  have covers : s.Covers 4096 1 := by
    have least : 1 ≤ memHsize := by decide
    unfold MemoryState.Covers pageSize
    omega
  have owned := (separate.listed 4096 listed 1 covers).1
  rw [clear] at owned
  cases owned

end MangoOS
