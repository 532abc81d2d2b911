/-
Positions in blocks of a fixed size, by the truncating division of C.
-/

import MangoOS.Library.Words

namespace MangoOS

theorem tdiv_eq_iff {pos size q : Int} (positive : 0 < size) :
    pos.tdiv size = q ↔
      (0 ≤ pos ∧ q * size ≤ pos ∧ pos < q * size + size) ∨
        (pos < 0 ∧ q * size - size < pos ∧ pos ≤ q * size) := by
  have next : (q + 1) * size = q * size + size := by rw [Int.add_mul, Int.one_mul]
  by_cases sign : 0 ≤ pos
  · rw [Int.tdiv_eq_ediv_of_nonneg sign]
    have lower := Int.le_ediv_iff_mul_le (a := q) (b := pos) positive
    have upper := Int.ediv_lt_iff_lt_mul (a := pos) (b := q + 1) positive
    rw [next] at upper
    omega
  · have flipped : pos.tdiv size = -((-pos) / size) := by
      rw [← Int.tdiv_eq_ediv_of_nonneg (by omega), Int.neg_tdiv, Int.neg_neg]
    have negated : -q * size = -(q * size) := Int.neg_mul q size
    have nextNegated : (-q + 1) * size = -(q * size) + size := by
      rw [Int.add_mul, Int.one_mul, negated]
    rw [flipped]
    have lower := Int.le_ediv_iff_mul_le (a := -q) (b := -pos) positive
    have upper := Int.ediv_lt_iff_lt_mul (a := -pos) (b := -q + 1) positive
    rw [negated] at lower
    rw [nextNegated] at upper
    omega

theorem tmod_eq_sub (pos size : Int) : pos.tmod size = pos - pos.tdiv size * size := by
  have parts := Int.tmod_add_mul_tdiv pos size
  rw [Int.mul_comm size] at parts
  omega

/-- A position that has not moved past zero lies in no block behind the first. -/
theorem tdiv_ne_of_nonpos {pos size q : Int} (positive : 0 < size) (low : pos ≤ 0)
    (behind : 1 ≤ q) : pos.tdiv size ≠ q := by
  intro same
  have scaled : 1 * size ≤ q * size := Int.mul_le_mul_of_nonneg_right behind (Int.le_of_lt positive)
  rw [tdiv_eq_iff positive] at same
  omega

/-- Block sizes from 1 KiB to 64 KiB that divide 2^31, the first position an `int` cannot
hold. -/
structure BlockSize (size : Int) : Prop where
  least : 1024 ≤ size
  most : size ≤ 65536
  divides : ∃ count, count * size = 2147483648

section Moves

variable {pos size n : Int}

theorem BlockSize.positive (good : BlockSize size) : 0 < size := by
  have least := good.least
  omega

/-- The block of a position close to the last one ends at or before 2^31. -/
private theorem BlockSize.last_block (good : BlockSize size) (upper : pos < 2147483648)
    (high : 131072 ≤ pos) :
    1 ≤ pos.tdiv size ∧ pos.tdiv size * size ≤ pos ∧ pos < pos.tdiv size * size + size ∧
      pos.tdiv size * size + size ≤ 2147483648 := by
  obtain ⟨count, whole⟩ := good.divides
  have positive := good.positive
  have most := good.most
  have place := (tdiv_eq_iff positive).mp (rfl : pos.tdiv size = pos.tdiv size)
  have below : pos.tdiv size < count := by
    apply Int.lt_of_mul_lt_mul_right _ (Int.le_of_lt positive)
    omega
  have scaled : (pos.tdiv size + 1) * size ≤ count * size :=
    Int.mul_le_mul_of_nonneg_right (by omega) (Int.le_of_lt positive)
  have next : (pos.tdiv size + 1) * size = pos.tdiv size * size + size := by
    rw [Int.add_mul, Int.one_mul]
  have front : 1 ≤ pos.tdiv size := by
    by_contra behind
    have low : pos.tdiv size * size ≤ 0 * size :=
      Int.mul_le_mul_of_nonneg_right (by omega) (Int.le_of_lt positive)
    omega
  omega

theorem BlockSize.short_move (good : BlockSize size) (lower : -2147483648 ≤ pos)
    (upper : pos < 2147483648) (moves : 0 < n) (short : n ≤ size - pos.tmod size) :
    (int32 (pos + n)).tdiv size = pos.tdiv size ↔ (pos + n).tdiv size = pos.tdiv size := by
  have positive := good.positive
  have most := good.most
  have place := (tdiv_eq_iff positive).mp (rfl : pos.tdiv size = pos.tdiv size)
  rw [tmod_eq_sub] at short
  by_cases fits : pos + n < 2147483648
  · rw [int32_of_range (by omega) fits]
  · obtain ⟨front, starts, ends, limit⟩ := good.last_block upper (by omega)
    have wrapped : int32 (pos + n) ≤ 0 := by
      unfold int32
      omega
    constructor
    · intro same
      exact False.elim (tdiv_ne_of_nonpos positive wrapped front same)
    · intro same
      rw [tdiv_eq_iff positive] at same
      omega

/-- The first position of the next block, reached by a move of at least that far. -/
theorem BlockSize.block_end (good : BlockSize size) (far : size - pos.tmod size < n) :
    pos + (size - pos.tmod size) = (pos.tdiv size + 1) * size ∧
      (pos + n).tdiv size ≠ pos.tdiv size := by
  have positive := good.positive
  have place := (tdiv_eq_iff positive).mp (rfl : pos.tdiv size = pos.tdiv size)
  have next : (pos.tdiv size + 1) * size = pos.tdiv size * size + size := by
    rw [Int.add_mul, Int.one_mul]
  rw [tmod_eq_sub] at far ⊢
  refine ⟨by omega, ?_⟩
  intro same
  rw [tdiv_eq_iff positive] at same
  omega

/-- A position of block `q`, exactly computed, stays in it as an `int` unless it wraps. -/
theorem BlockSize.far_move (good : BlockSize size) (pos q : Int) (lower : -2147483648 ≤ pos)
    (upper : pos ≤ 4294967296) (starts : q * size ≤ pos) (ends : pos < q * size + size)
    (forward : 0 ≤ pos ∨ q * size = pos) :
    int32 q = (int32 pos).tdiv size ↔ pos < 2147483648 := by
  have positive := good.positive
  have least := good.least
  have most := good.most
  -- the block number is far smaller than the position
  have bounds : q * 1024 ≤ q * size ∧ 0 ≤ q ∨ q * size ≤ q * 1024 ∧ q < 0 := by
    by_cases sign : 0 ≤ q
    · exact Or.inl ⟨Int.mul_le_mul_of_nonneg_left least sign, sign⟩
    · exact Or.inr ⟨Int.mul_le_mul_of_nonpos_left (by omega) least, by omega⟩
  have exact_q : int32 q = q := by
    apply int32_of_range
    · omega
    · omega
  rw [exact_q]
  by_cases fits : pos < 2147483648
  · rw [int32_of_range lower fits, eq_comm, tdiv_eq_iff positive]
    omega
  · have wrapped : int32 pos ≤ 0 := by
      unfold int32
      omega
    have front : 1 ≤ q := by
      by_contra behind
      have low : q * size ≤ 0 * size :=
        Int.mul_le_mul_of_nonneg_right (by omega) (Int.le_of_lt positive)
      omega
    have different := tdiv_ne_of_nonpos positive wrapped front
    constructor
    · intro same
      exact False.elim (different same.symm)
    · intro below
      exact False.elim (fits below)

end Moves

end MangoOS
