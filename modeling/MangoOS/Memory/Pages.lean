/-
Physical page allocation (mm/page.c) over the bitmap.

`alloc_pages` and `free_pages` hold a mutex over their whole body, so each is one
step here.
-/

import MangoOS.Memory.Bitmap
import MangoOS.Library.Words

namespace MangoOS

def enomem : Int := 9

def allocPages (bitmap : BitMap) (count : Nat) : Nat × BitMap :=
  let (index, bitmap) := bitmapAllocBits bitmap count
  (if index > 0 then uint32 (int32 (index * pageSize)) else 0, bitmap)

def freePages (bitmap : BitMap) (addr count : Nat) : BitMap :=
  bitmapFreeBits bitmap addr count

/-- What a successful `alloc_pages(count)` handed out. -/
structure Allocation where
  addr : Nat
  count : Nat
  deriving DecidableEq, Repr

def Allocation.Holds (allocation : Allocation) (p : Nat) : Prop :=
  allocation.addr / pageSize ≤ p ∧ p < allocation.addr / pageSize + allocation.count

/-- Calls of any owners; a free names an allocation that is outstanding. -/
inductive PageRun (initial : BitMap) : BitMap → List Allocation → Prop
  | start : PageRun initial initial []
  | failed {now : BitMap} {out : List Allocation} (run : PageRun initial now out)
      (count : Nat) (positive : 1 ≤ count) (full : (allocPages now count).1 = 0) :
      PageRun initial (allocPages now count).2 out
  | alloc {now : BitMap} {out : List Allocation} (run : PageRun initial now out)
      (count : Nat) (positive : 1 ≤ count) (found : (allocPages now count).1 ≠ 0) :
      PageRun initial (allocPages now count).2 (⟨(allocPages now count).1, count⟩ :: out)
  | free {now : BitMap} {out : List Allocation} (run : PageRun initial now out)
      (allocation : Allocation) (member : allocation ∈ out) :
      PageRun initial (freePages now allocation.addr allocation.count) (out.erase allocation)

/-- A page range cut out of the pages that were free at the start. -/
structure Allocation.Valid (initial : BitMap) (allocation : Allocation) : Prop where
  positive : 1 ≤ allocation.count
  aligned : pageSize ∣ allocation.addr
  nonzero : allocation.addr ≠ 0
  below : ((allocation.addr / pageSize + allocation.count : Nat) : Int) ≤ initial.nbits
  clear : ∀ p, allocation.Holds p → initial.used p = false

/-- Page ownership: the set bits are the initial ones and the outstanding allocations. -/
structure PagesOwned (initial now : BitMap) (out : List Allocation) : Prop where
  nbits : now.nbits = initial.nbits
  valid : ∀ allocation, allocation ∈ out → allocation.Valid initial
  disjoint : out.Pairwise (fun left right => ∀ p, left.Holds p → ¬ right.Holds p)
  bits : ∀ p, now.used p = true ↔
    initial.used p = true ∨ ∃ allocation, allocation ∈ out ∧ allocation.Holds p

variable {initial now : BitMap} {out : List Allocation}

/-- The bitmap that allocations start from: bit 0 is set and page addresses fit 32 bits. -/
structure BitMap.Booted (initial : BitMap) : Prop where
  bounded : initial.nbits ≤ 1048576
  first : initial.used 0 = true

theorem PagesOwned.start (initial : BitMap) : PagesOwned initial initial [] := by
  constructor
  · rfl
  · intro allocation member
    cases member
  · exact List.Pairwise.nil
  · intro p
    simp

/-- `alloc_pages` returns 0 exactly when no run of clear bits is long enough. -/
theorem PagesOwned.allocPages_spec (owned : PagesOwned initial now out)
    (booted : initial.Booted) (count : Nat) (positive : 1 ≤ count) :
    (allocPages now count = (0, now) ∧ ∀ s, ¬ now.FreeRun count s) ∨
      ∃ found, 0 < found ∧ found < 1048576 ∧ now.FreeRun count found ∧
        allocPages now count =
          (found * pageSize, bitmapSetBits now found true count true) := by
  rcases bitmapAllocBits_spec now count positive with ⟨found, isFound, run, _⟩ | ⟨isNone, noRun⟩
  · right
    have below := run.below
    have bounded := booted.bounded
    rw [owned.nbits] at below
    have nonzero : 0 < found := by
      rcases Nat.eq_zero_or_pos found with zero | positiveFound
      · subst found
        have clear := run.clear 0 (Nat.le_refl 0) (by omega)
        have set := (owned.bits 0).mpr (Or.inl booted.first)
        rw [clear] at set
        cases set
      · exact positiveFound
    refine ⟨found, nonzero, by omega, run, ?_⟩
    unfold allocPages
    rw [isFound]
    change ((if (found : Int) > 0 then uint32 (int32 ((found : Int) * (pageSize : Int))) else 0),
      _) = _
    have small : found * pageSize < 4294967296 := by
      unfold pageSize
      omega
    rw [if_pos (by omega), ← Int.natCast_mul, uint32_int32 small]
  · left
    refine ⟨?_, noRun⟩
    unfold allocPages
    rw [isNone]
    rfl

private theorem div_pageSize (found : Nat) : found * pageSize / pageSize = found :=
  Nat.mul_div_cancel found (by decide)

theorem PagesOwned.take (owned : PagesOwned initial now out) {count found : Nat}
    (positive : 1 ≤ count) (nonzero : 0 < found) (run : now.FreeRun count found) :
    PagesOwned initial (bitmapSetBits now found true count true)
      (⟨found * pageSize, count⟩ :: out) := by
  have holds : ∀ p, (Allocation.mk (found * pageSize) count).Holds p ↔
      found ≤ p ∧ p < found + count := by
    intro p
    unfold Allocation.Holds
    rw [div_pageSize]
  have unused : ∀ p, (Allocation.mk (found * pageSize) count).Holds p →
      initial.used p = false ∧ ∀ allocation, allocation ∈ out → ¬ allocation.Holds p := by
    intro p inside
    obtain ⟨lower, upper⟩ := (holds p).mp inside
    have clear := run.clear p lower upper
    have unset : ¬ now.used p = true := by
      rw [clear]
      exact Bool.false_ne_true
    rw [owned.bits p, not_or] at unset
    refine ⟨Bool.eq_false_iff.mpr unset.1, ?_⟩
    intro allocation member inOther
    exact unset.2 ⟨allocation, member, inOther⟩
  constructor
  · rw [bitmapSetBits_nbits]
    exact owned.nbits
  · intro allocation member
    rcases List.mem_cons.mp member with isNew | old
    · subst allocation
      constructor
      · exact positive
      · exact Nat.dvd_mul_left pageSize found
      · exact Nat.mul_ne_zero (by omega) (by decide)
      · rw [div_pageSize, ← owned.nbits]
        exact run.below
      · intro p inside
        exact (unused p inside).1
    · exact owned.valid allocation old
  · rw [List.pairwise_cons]
    refine ⟨?_, owned.disjoint⟩
    intro allocation member p inside
    exact (unused p inside).2 allocation member
  · intro p
    rw [bitmapSetBits_used now found count p true positive]
    constructor
    · intro set
      by_cases inside : found ≤ p ∧ p < found + count
      · exact Or.inr ⟨_, List.mem_cons_self .., (holds p).mpr inside⟩
      · rw [if_neg inside, owned.bits p] at set
        rcases set with initially | ⟨allocation, member, inOld⟩
        · exact Or.inl initially
        · exact Or.inr ⟨allocation, List.mem_cons_of_mem _ member, inOld⟩
    · intro reason
      by_cases inside : found ≤ p ∧ p < found + count
      · rw [if_pos inside]
      · rw [if_neg inside, owned.bits p]
        rcases reason with initially | ⟨allocation, member, inAllocation⟩
        · exact Or.inl initially
        · rcases List.mem_cons.mp member with isNew | old
          · subst allocation
            exact False.elim (inside ((holds p).mp inAllocation))
          · exact Or.inr ⟨allocation, old, inAllocation⟩

/-- Freeing an outstanding allocation keeps the ownership. -/
theorem PagesOwned.give (owned : PagesOwned initial now out) {allocation : Allocation}
    (member : allocation ∈ out) :
    PagesOwned initial (freePages now allocation.addr allocation.count)
      (out.erase allocation) := by
  have valid := owned.valid allocation member
  have others : ∀ other, other ∈ out.erase allocation →
      ∀ p, allocation.Holds p → ¬ other.Holds p := by
    have order := List.perm_cons_erase member
    have disjoint := (order.pairwise_iff (by
      intro left right apart p inRight inLeft
      exact apart p inLeft inRight)).mp owned.disjoint
    exact (List.pairwise_cons.mp disjoint).1
  constructor
  · unfold freePages bitmapFreeBits
    rw [bitmapSetBits_nbits]
    exact owned.nbits
  · intro other inRest
    exact owned.valid other (List.mem_of_mem_erase inRest)
  · exact owned.disjoint.sublist List.erase_sublist
  · intro p
    unfold freePages bitmapFreeBits
    rw [bitmapSetBits_used now _ _ p false valid.positive]
    by_cases inside : allocation.addr / pageSize ≤ p ∧
        p < allocation.addr / pageSize + allocation.count
    · rw [if_pos inside]
      constructor
      · intro set
        cases set
      · rintro (initially | ⟨other, inRest, inOther⟩)
        · rw [valid.clear p inside] at initially
          cases initially
        · exact False.elim (others other inRest p inside inOther)
    · rw [if_neg inside, owned.bits p]
      constructor
      · rintro (initially | ⟨other, inOut, inOther⟩)
        · exact Or.inl initially
        · have different : other ≠ allocation := fun same => inside (same ▸ inOther)
          exact Or.inr ⟨other, (List.mem_erase_of_ne different).mpr inOut, inOther⟩
      · rintro (initially | ⟨other, inRest, inOther⟩)
        · exact Or.inl initially
        · exact Or.inr ⟨other, List.mem_of_mem_erase inRest, inOther⟩

theorem PageRun.owned (run : PageRun initial now out) (booted : initial.Booted) :
    PagesOwned initial now out := by
  induction run with
  | start => exact PagesOwned.start initial
  | failed run count positive full ih =>
      rcases ih.allocPages_spec booted count positive with ⟨refused, _⟩ | served
      · rw [refused]
        exact ih
      · obtain ⟨found, nonzero, _, _, result⟩ := served
        rw [result] at full
        exact False.elim (Nat.mul_ne_zero (by omega) (by decide) full)
  | alloc run count positive found ih =>
      rcases ih.allocPages_spec booted count positive with ⟨refused, _⟩ | served
      · rw [refused] at found
        exact False.elim (found rfl)
      · obtain ⟨index, nonzero, _, free, result⟩ := served
        rw [result]
        exact ih.take positive nonzero free
  | free run allocation member ih => exact ih.give member

/-- The page allocator over every run: who owns which page, and when it refuses. -/
theorem run_pagesOwned (run : PageRun initial now out) (booted : initial.Booted) :
    PagesOwned initial now out ∧
      ∀ count, 1 ≤ count →
        ((allocPages now count).1 = 0 ↔ ∀ s, ¬ now.FreeRun count s) ∧
        ((allocPages now count).1 = 0 → (allocPages now count).2 = now) := by
  have owned := run.owned booted
  refine ⟨owned, ?_⟩
  intro count positive
  rcases owned.allocPages_spec booted count positive with ⟨refused, noRun⟩ | served
  · rw [refused]
    exact ⟨⟨fun _ => noRun, fun _ => rfl⟩, fun _ => rfl⟩
  · obtain ⟨found, nonzero, _, free, result⟩ := served
    have different : found * pageSize ≠ 0 := Nat.mul_ne_zero (by omega) (by decide)
    rw [result]
    refine ⟨⟨?_, ?_⟩, ?_⟩
    · intro zero
      exact False.elim (different zero)
    · intro noRun
      exact False.elim (noRun found free)
    · intro zero
      exact False.elim (different zero)

/-- 16 pages of which only the first is taken. -/
def BitMap.sixteen : BitMap where
  nbits := 16
  base := fun byte => if byte = 0 then 1#8 else 0#8

theorem run_pagesOwned_sixteen :
    allocPages BitMap.sixteen 3 = (4096, (allocPages BitMap.sixteen 3).2) ∧
      PagesOwned BitMap.sixteen (allocPages BitMap.sixteen 3).2 [⟨4096, 3⟩] ∧
      ∀ count, 1 ≤ count →
        ((allocPages (allocPages BitMap.sixteen 3).2 count).1 = 0 ↔
          ∀ s, ¬ (allocPages BitMap.sixteen 3).2.FreeRun count s) ∧
        ((allocPages (allocPages BitMap.sixteen 3).2 count).1 = 0 →
          (allocPages (allocPages BitMap.sixteen 3).2 count).2 =
            (allocPages BitMap.sixteen 3).2) := by
  have addr : (allocPages BitMap.sixteen 3).1 = 4096 := by decide +kernel
  have booted : BitMap.sixteen.Booted := ⟨by decide, by decide⟩
  have run := PageRun.alloc (PageRun.start : PageRun BitMap.sixteen _ _) 3 (by decide)
    (by rw [addr]; decide)
  rw [addr] at run
  exact ⟨Prod.ext addr rfl, run_pagesOwned run booted⟩

end MangoOS
