/-
The heap with its callers: which chunks it owns and which payloads are live.

`Held` ties the live payloads to blocks in use.  A well-formed heap that holds
its live payloads keeps them apart from each other, from every block header and
from every free block.
-/

import MangoOS.Memory.Kmalloc
import MangoOS.Memory.Kfree

namespace MangoOS

open Intrusive

/-- A live result of `kmalloc(size)`. -/
structure Grant where
  payload : Nat
  size : Nat
  deriving DecidableEq, Repr

def Grant.Holds (grant : Grant) (x : Nat) : Prop :=
  grant.payload ≤ x ∧ x < grant.payload + grant.size

namespace Heap

/-- The blocks met from `free_list` along the next links. -/
inductive Listed (heap : Heap) : Nat → Prop
  | first (nonempty : heap.freeList ≠ 0) : Listed heap heap.freeList
  | next {a : Nat} (listed : Listed heap a) (more : (heap.header a).next ≠ 0) :
      Listed heap (heap.header a).next

/-- The blocks met from the start of a chunk along the sizes. -/
inductive InChunk (heap : Heap) (chunk : Nat) : Nat → Prop
  | start : InChunk heap chunk chunk
  | next {a : Nat} (inside : InChunk heap chunk a)
      (more : a + heap.sizes a < chunk + chunkSize) : InChunk heap chunk (a + heap.sizes a)

/-- The memory of a machine that has just been switched on. -/
def zeroed : Heap where
  mem := fun _ => 0#8
  freeList := 0
  nullFollowed := false

/-- Every live payload lies in a block in use. -/
structure Held (heap : Heap) (blocks : Set Nat) (free : List Nat) (live : List Grant) :
    Prop where
  block : ∀ grant, grant ∈ live → ∃ a, a ∈ blocks ∧ a ∉ free ∧
    grant.payload = a + memHsize ∧ grant.size + memHsize ≤ heap.sizes a
  distinct : live.Pairwise (fun left right => left.payload ≠ right.payload)

variable {heap after : Heap} {chunks free freeAfter : List Nat} {blocks blocksAfter : Set Nat}
variable {live : List Grant} {a b size : Nat}

theorem WellFormed.listed_iff (well : heap.WellFormed chunks blocks free) :
    heap.Listed a ↔ a ∈ free := by
  constructor
  · intro listed
    induction listed with
    | first nonempty => exact well.formed.first_mem nonempty
    | next listed more ih =>
        obtain ⟨left, right, split⟩ := List.append_of_mem ih
        subst split
        have inRight := (well.formed.next_mem more).1
        exact List.mem_append_right left (List.mem_cons_of_mem _ inRight)
  · -- every suffix of the list starts with a block that is met
    have suffix : ∀ right left, free = left ++ right →
        (right ≠ [] → heap.Listed (right.headD 0)) → ∀ x, x ∈ right → heap.Listed x := by
      intro right
      induction right with
      | nil =>
          intro left _ _ x member
          cases member
      | cons y right ih =>
          intro left split met x member
          have metY : heap.Listed y := met (List.cons_ne_nil y right)
          rcases List.mem_cons.mp member with isY | inRight
          · exact isY ▸ metY
          · subst split
            have nextY := well.formed.next_eq
            apply ih (left ++ [y]) (by simp) _ x inRight
            intro nonempty
            rw [← nextY]
            apply Listed.next metY
            rw [nextY]
            cases right with
            | nil => exact False.elim (nonempty rfl)
            | cons z right => exact well.formed.pos (well.freed z (by simp)).1
    intro member
    apply suffix free [] rfl _ a member
    intro nonempty
    rw [← well.formed.freeList_eq]
    apply Listed.first
    rw [well.formed.freeList_eq]
    cases free with
    | nil => exact False.elim (nonempty rfl)
    | cons z right => exact well.formed.pos (well.freed z (by simp)).1

theorem WellFormed.inChunk_mem (well : heap.WellFormed chunks blocks free) {chunk : Nat}
    (owned : chunk ∈ chunks) (inside : heap.InChunk chunk a) :
    a ∈ blocks ∧ chunk ≤ a ∧ a < chunk + chunkSize := by
  induction inside with
  | start =>
      have positive : 0 < chunkSize := by decide
      exact ⟨well.tiling.starts chunk owned, Nat.le_refl _, by omega⟩
  | next inside more ih =>
      rename_i x
      obtain ⟨member, lower, upper⟩ := ih
      obtain ⟨d, tile⟩ := well.tiling.tiled x member
      have lowerD := tile.lower
      have upperD := tile.upper
      have bigX := well.tiling.big x member
      have least := well.tiling.positive
      have same : chunk = d := by
        by_contra different
        have apart := well.tiling.chunksApart chunk d owned tile.owned different
        omega
      subst d
      rcases tile.onward with atEnd | next
      · omega
      · exact ⟨next, by omega, more⟩

/-- The same headers and the same `free_list` mean the same heap. -/
theorem WellFormed.congr (well : heap.WellFormed chunks blocks free)
    (same : ∀ x, x ∈ blocks → after.header x = heap.header x)
    (freeList : after.freeList = heap.freeList) : after.WellFormed chunks blocks free := by
  constructor
  · exact well.chunk
  · apply well.tiling.congr
    intro x inX
    simp [sizes, same x inX]
  · intro x inX
    rw [same x inX]
    exact well.heads x inX
  · intro x listed
    obtain ⟨inX, free⟩ := well.freed x listed
    rw [same x inX]
    exact ⟨inX, free⟩
  · intro x inX unlisted
    rw [same x inX]
    exact well.taken x inX unlisted
  · obtain ⟨last, ring⟩ := well.listed
    refine ⟨last, ring.congr ?_⟩
    intro node inRing
    by_cases isZero : node = 0
    · simp [links, isZero, freeList]
    · have inNode : node ∈ blocks := (well.freed node (inRing.resolve_left isZero)).1
      simp [links, isZero, same node inNode]

theorem memInit_well (memory : Heap) {page : Nat} (chunk : Chunk page) :
    (memory.memInit page).WellFormed [page] {page} [page] := by
  have below := chunk.below
  have positive := chunk.positive
  have nonzero : page ≠ 0 := by omega
  have whole : 0 < chunkSize := by decide
  have smallChunk : wrap chunkSize = chunkSize := by decide
  have header : (memory.memInit page).header page =
      { used := freeMark, size := chunkSize, isHead := 1, prev := 0, next := 0 } := by
    simp [memInit, smallChunk]
  have freeList : (memory.memInit page).freeList = page := by simp [memInit]
  constructor
  · intro c owned
    rw [List.mem_singleton] at owned
    exact owned ▸ chunk
  · constructor
    · intro c d inC inD different
      rw [List.mem_singleton] at inC inD
      exact False.elim (different (inC.trans inD.symm))
    · intro c owned
      exact List.mem_singleton.mp owned
    · decide
    · intro a member
      rw [Set.mem_singleton_iff] at member
      rw [member, sizes, header]
      decide
    · intro a member
      rw [Set.mem_singleton_iff] at member
      refine ⟨page, List.mem_singleton_self _, Nat.le_of_eq member.symm, ?_, ?_⟩
      · rw [member, sizes, header]
      · left
        rw [member, sizes, header]
    · intro a b inA inB different
      rw [Set.mem_singleton_iff] at inA inB
      exact False.elim (different (inA.trans inB.symm))
  · intro a member
    rw [Set.mem_singleton_iff] at member
    rw [member, header]
    simp
  · intro a listed
    rw [List.mem_singleton] at listed
    rw [listed, header]
    exact ⟨rfl, rfl⟩
  · intro a member unlisted
    rw [Set.mem_singleton_iff] at member
    exact False.elim (unlisted (by simp [member]))
  · refine ⟨page, ?_, ?_⟩
    · simp [nonzero.symm]
    · simp [Segment, links, nonzero, freeList, header]

/-! ### Live payloads -/

theorem Held.handOut (held : heap.Held blocks free live)
    (out : HandsOut heap after chunks blocks free blocksAfter freeAfter a (size + memHsize))
    (wasFree : a ∈ free) :
    after.Held blocksAfter freeAfter ({ payload := a + memHsize, size := size } :: live) := by
  have different : ∀ grant, grant ∈ live → ∃ x, x ∈ blocks ∧ x ∉ free ∧ x ≠ a ∧
      grant.payload = x + memHsize ∧ grant.size + memHsize ≤ heap.sizes x := by
    intro grant member
    obtain ⟨x, inX, inUse, payload, large⟩ := held.block grant member
    exact ⟨x, inX, inUse, fun isA => inUse (isA ▸ wasFree), payload, large⟩
  constructor
  · intro grant member
    rcases List.mem_cons.mp member with isNew | old
    · rw [isNew]
      exact ⟨a, out.block, out.unlisted, rfl, out.large⟩
    · obtain ⟨x, inX, inUse, notA, payload, large⟩ := different grant old
      obtain ⟨inAfter, listed, sameSize⟩ := out.keeps x inX notA
      refine ⟨x, inAfter, fun isFree => inUse (listed.mp isFree), payload, ?_⟩
      rw [sameSize]
      exact large
  · rw [List.pairwise_cons]
    refine ⟨?_, held.distinct⟩
    intro grant member same
    obtain ⟨x, _, _, notA, payload, _⟩ := different grant member
    change a + memHsize = grant.payload at same
    rw [payload] at same
    exact notA (Nat.add_right_cancel same).symm

theorem Held.takeBack (held : heap.Held blocks free live)
    (back : TakesBack heap after chunks blocks free blocksAfter freeAfter b) :
    after.Held blocksAfter freeAfter
      (live.filter (fun grant => grant.payload ≠ b + memHsize)) := by
  constructor
  · intro grant member
    obtain ⟨old, notB⟩ := List.mem_filter.mp member
    obtain ⟨x, inX, inUse, payload, large⟩ := held.block grant old
    have different : x ≠ b := by
      intro isB
      simp [payload, isB] at notB
    obtain ⟨inAfter, unlisted, sameSize⟩ := back.keeps x inX inUse different
    refine ⟨x, inAfter, unlisted, payload, ?_⟩
    rw [sameSize]
    exact large
  · exact held.distinct.filter _

theorem Held.grown {page n p : Nat} (held : heap.Held blocks free live)
    (well : heap.WellFormed chunks blocks free) (fresh : Fresh chunks page)
    (room : size + memHsize + memHsize ≤ chunkSize)
    (headers : GrowHeaders heap after blocks page n (size + memHsize) p) :
    after.Held (insert page (insert n blocks)) (free ++ [n])
      ({ payload := page + memHsize, size := size } :: live) := by
  have least := well.tiling.positive
  have start := headers.start
  have notBlock : ∀ x, x ∈ blocks → x ≠ page := by
    intro x inX isPage
    have outside := well.formed.fresh_outside fresh inX
    have bigX := well.tiling.big x inX
    have whole : 0 < chunkSize := by decide
    omega
  constructor
  · intro grant member
    rcases List.mem_cons.mp member with isNew | old
    · rw [isNew]
      refine ⟨page, Set.mem_insert _ _, ?_, rfl, ?_⟩
      · rw [List.mem_append, List.mem_singleton, not_or]
        refine ⟨fun listed => notBlock page (well.freed page listed).1 rfl, by omega⟩
      · simp [sizes, headers.created]
    · obtain ⟨x, inX, inUse, payload, large⟩ := held.block grant old
      refine ⟨x, Set.mem_insert_of_mem _ (Set.mem_insert_of_mem _ inX), ?_, payload, ?_⟩
      · rw [List.mem_append, List.mem_singleton, not_or]
        refine ⟨inUse, ?_⟩
        intro isNew
        have outside := well.formed.fresh_outside fresh inX
        have bigX := well.tiling.big x inX
        omega
      · simpa [sizes, headers.rest x inX] using large
  · rw [List.pairwise_cons]
    refine ⟨?_, held.distinct⟩
    intro grant member same
    obtain ⟨x, inX, _, payload, _⟩ := held.block grant member
    change page + memHsize = grant.payload at same
    rw [payload] at same
    exact notBlock x inX (Nat.add_right_cancel same).symm

/-- Live payloads lie inside the chunks, apart from each other, from every block header
and from every listed block. -/
structure PayloadsSafe (heap : Heap) (chunks : List Nat) (live : List Grant) : Prop where
  inside : ∀ grant, grant ∈ live → ∃ c, c ∈ chunks ∧ c ≤ grant.payload ∧
    grant.payload + grant.size ≤ c + chunkSize
  disjoint : live.Pairwise (fun left right =>
    left.payload + left.size ≤ right.payload ∨ right.payload + right.size ≤ left.payload)
  headers : ∀ grant, grant ∈ live → ∀ c a, c ∈ chunks → heap.InChunk c a →
    a + memHsize ≤ grant.payload ∨ grant.payload + grant.size ≤ a
  listed : ∀ grant, grant ∈ live → ∀ a, heap.Listed a →
    a + heap.sizes a ≤ grant.payload ∨ grant.payload + grant.size ≤ a

theorem Held.safe (held : heap.Held blocks free live)
    (well : heap.WellFormed chunks blocks free) : heap.PayloadsSafe chunks live := by
  constructor
  · intro grant member
    obtain ⟨x, inX, _, payload, large⟩ := held.block grant member
    obtain ⟨c, tile⟩ := well.tiling.tiled x inX
    have lower := tile.lower
    have upper := tile.upper
    exact ⟨c, tile.owned, by omega, by omega⟩
  · apply held.distinct.imp_of_mem
    intro left right inLeft inRight different
    obtain ⟨x, inX, _, payloadX, largeX⟩ := held.block left inLeft
    obtain ⟨y, inY, _, payloadY, largeY⟩ := held.block right inRight
    have apart := well.tiling.apart x y inX inY (fun same => different (by omega))
    omega
  · intro grant member c a owned inside
    obtain ⟨x, inX, _, payload, large⟩ := held.block grant member
    have inA := (well.inChunk_mem owned inside).1
    have bigA := well.tiling.big a inA
    by_cases same : a = x
    · left
      omega
    · have apart := well.tiling.apart a x inA inX same
      omega
  · intro grant member a listed
    obtain ⟨x, inX, inUse, payload, large⟩ := held.block grant member
    have inFree := well.listed_iff.mp listed
    have inA := (well.freed a inFree).1
    have different : a ≠ x := fun same => inUse (same ▸ inFree)
    have apart := well.tiling.apart a x inA inX different
    omega

/-- The bytes that callers may change: live payloads and what the heap does not own. -/
def OnlyOutside (heap : Heap) (chunks : List Nat) (live : List Grant) (mem : ByteMemory) :
    Prop :=
  ∀ x c, c ∈ chunks → c ≤ x → x < c + chunkSize → (∀ grant, grant ∈ live → ¬ grant.Holds x) →
    mem x = heap.mem x

theorem WellFormed.outside_header (well : heap.WellFormed chunks blocks free)
    (held : heap.Held blocks free live) {mem : ByteMemory}
    (outside : heap.OnlyOutside chunks live mem) (member : a ∈ blocks) :
    Heap.header { heap with mem := mem } a = heap.header a := by
  obtain ⟨c, tile⟩ := well.tiling.tiled a member
  have lower := tile.lower
  have upper := tile.upper
  have bigA := well.tiling.big a member
  apply header_congr
  intro x above below
  apply outside x c tile.owned (by omega) (by omega)
  rintro grant inLive ⟨payloadLower, payloadUpper⟩
  obtain ⟨y, inY, _, payload, large⟩ := held.block grant inLive
  by_cases same : a = y
  · omega
  · have apart := well.tiling.apart a y member inY same
    omega

theorem WellFormed.outside (well : heap.WellFormed chunks blocks free)
    (held : heap.Held blocks free live) {mem : ByteMemory}
    (outside : heap.OnlyOutside chunks live mem) :
    WellFormed { heap with mem := mem } chunks blocks free ∧
      Held { heap with mem := mem } blocks free live := by
  have same : ∀ x, x ∈ blocks →
      Heap.header { heap with mem := mem } x = heap.header x :=
    fun x inX => well.outside_header held outside inX
  refine ⟨well.congr same rfl, ?_, held.distinct⟩
  intro grant member
  obtain ⟨x, inX, inUse, payload, large⟩ := held.block grant member
  refine ⟨x, inX, inUse, payload, ?_⟩
  rw [sizes, same x inX]
  exact large

end Heap

end MangoOS
