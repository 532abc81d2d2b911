/-
Fields of 16 and 32 bits in a region: what is written is read back, and the bytes beside a
field stay.
-/

import MangoOS.Library.Region

namespace MangoOS

namespace Region

variable (region : Region) {offset place x : Int}

theorem half_lt (offset : Int) : region.half offset < 65536 := by
  have low := (region offset).isLt
  have high := (region (offset + 1)).isLt
  unfold half
  omega

theorem word_eq_halves (offset : Int) :
    region.word offset = region.half offset + 65536 * region.half (offset + 2) := by
  have second : offset + ((0 + 1 : Nat) : Int) = offset + 1 := rfl
  have third : offset + ((0 + 2 : Nat) : Int) = offset + 2 := rfl
  have fourth : offset + ((0 + 3 : Nat) : Int) = offset + 2 + 1 := by omega
  have first : offset + ((0 : Nat) : Int) = offset := by omega
  unfold word ByteMemory.word half
  change (region (offset + ((0 : Nat) : Int))).toNat +
    256 * (region (offset + ((0 + 1 : Nat) : Int))).toNat +
    65536 * (region (offset + ((0 + 2 : Nat) : Int))).toNat +
    16777216 * (region (offset + ((0 + 3 : Nat) : Int))).toNat = _
  rw [first, second, third, fourth]
  omega

/-! ### The bytes beside a field -/

theorem setHalf_outside (value : Nat) (outside : x < offset ∨ offset + 2 ≤ x) :
    region.setHalf offset value x = region x := by
  unfold setHalf
  rw [if_neg (by omega), if_neg (by omega)]

theorem setWord_outside (value : Nat) (outside : x < offset ∨ offset + 4 ≤ x) :
    region.setWord offset value x = region x := by
  unfold setWord
  rw [setHalf_outside _ _ (by omega), setHalf_outside _ _ (by omega)]

theorem half_setHalf_other (value : Nat) (apart : offset + 2 ≤ place ∨ place + 2 ≤ offset) :
    (region.setHalf place value).half offset = region.half offset := by
  unfold half
  rw [setHalf_outside _ _ (by omega), setHalf_outside _ _ (by omega)]

theorem half_setWord_other (value : Nat) (apart : offset + 2 ≤ place ∨ place + 4 ≤ offset) :
    (region.setWord place value).half offset = region.half offset := by
  unfold half
  rw [setWord_outside _ _ (by omega), setWord_outside _ _ (by omega)]

theorem word_setHalf_other (value : Nat) (apart : offset + 4 ≤ place ∨ place + 2 ≤ offset) :
    (region.setHalf place value).word offset = region.word offset := by
  rw [word_eq_halves, word_eq_halves, half_setHalf_other _ _ (by omega),
    half_setHalf_other _ _ (by omega)]

theorem word_setWord_other (value : Nat) (apart : offset + 4 ≤ place ∨ place + 4 ≤ offset) :
    (region.setWord place value).word offset = region.word offset := by
  rw [word_eq_halves, word_eq_halves, half_setWord_other _ _ (by omega),
    half_setWord_other _ _ (by omega)]

/-! ### The field itself -/

theorem half_setHalf (offset : Int) (value : Nat) :
    (region.setHalf offset value).half offset = value % 65536 := by
  unfold half setHalf
  rw [if_pos rfl, if_neg (by omega), if_pos rfl, BitVec.toNat_ofNat, BitVec.toNat_ofNat]
  omega

theorem word_setWord (offset : Int) (value : Nat) :
    (region.setWord offset value).word offset = value % 4294967296 := by
  rw [word_eq_halves]
  unfold setWord
  rw [half_setHalf_other _ _ (by omega), half_setHalf, half_setHalf]
  omega

theorem setHalf_half (offset : Int) : region.setHalf offset (region.half offset) = region := by
  funext x
  have low := (region offset).isLt
  unfold setHalf half
  by_cases first : x = offset
  · rw [if_pos first, first]
    apply BitVec.eq_of_toNat_eq
    rw [BitVec.toNat_ofNat]
    omega
  · rw [if_neg first]
    by_cases second : x = offset + 1
    · have high := (region (offset + 1)).isLt
      rw [if_pos second, second]
      apply BitVec.eq_of_toNat_eq
      rw [BitVec.toNat_ofNat]
      omega
    · rw [if_neg second]

theorem setHalf_mod (offset : Int) (value : Nat) :
    region.setHalf offset (value % 65536) = region.setHalf offset value := by
  funext x
  unfold setHalf
  have low : BitVec.ofNat 8 (value % 65536) = BitVec.ofNat 8 value := by
    apply BitVec.eq_of_toNat_eq
    rw [BitVec.toNat_ofNat, BitVec.toNat_ofNat]
    omega
  have high : BitVec.ofNat 8 (value % 65536 / 256) = BitVec.ofNat 8 (value / 256) := by
    apply BitVec.eq_of_toNat_eq
    rw [BitVec.toNat_ofNat, BitVec.toNat_ofNat]
    omega
  rw [low, high]

theorem setWord_word (offset : Int) : region.setWord offset (region.word offset) = region := by
  have low := region.half_lt offset
  have lowValue : region.word offset % 65536 = region.half offset := by
    rw [word_eq_halves]
    omega
  have highValue : region.word offset / 65536 = region.half (offset + 2) := by
    rw [word_eq_halves]
    omega
  unfold setWord
  rw [highValue, ← setHalf_mod region offset (region.word offset), lowValue, setHalf_half, setHalf_half]

/-! ### Words that overlap -/

theorem word_add_two (offset : Int) :
    region.word (offset + 2) % 65536 = region.word offset / 65536 := by
  have low := region.half_lt offset
  have high := region.half_lt (offset + 2)
  rw [word_eq_halves region offset, word_eq_halves region (offset + 2)]
  omega

theorem word_succ (offset : Int) :
    region.word (offset + 1) % 16777216 = region.word offset / 256 := by
  have second : offset + 1 + 1 = offset + 2 := by omega
  have third : offset + 1 + 2 = offset + 2 + 1 := by omega
  have low := (region offset).isLt
  have next := (region (offset + 1)).isLt
  have above := (region (offset + 2)).isLt
  have high := (region (offset + 2 + 1)).isLt
  rw [word_eq_halves region offset, word_eq_halves region (offset + 1)]
  unfold half
  rw [second, third]
  omega

theorem word_add_three (offset : Int) :
    region.word (offset + 3) % 256 = region.word offset / 16777216 := by
  have one := region.word_succ (offset + 2)
  have two := region.word_add_two offset
  rw [show offset + 2 + 1 = offset + 3 by omega] at one
  omega

theorem word_three_behind (offset : Int) :
    region.word (offset + 3) =
      region.word offset / 16777216 + 256 * (region.word (offset + 4) % 16777216) := by
  have low := region.word_add_three offset
  have high := region.word_succ (offset + 3)
  rw [show offset + 3 + 1 = offset + 4 by omega] at high
  omega

theorem word_two_behind (offset : Int) :
    region.word (offset + 2) =
      region.word offset / 65536 + 65536 * (region.word (offset + 4) % 65536) := by
  have low := region.word_add_two offset
  have high := region.word_add_two (offset + 2)
  rw [show offset + 2 + 2 = offset + 4 by omega] at high
  omega

theorem word_one_behind (offset : Int) :
    region.word (offset + 1) =
      region.word offset / 256 + 16777216 * (region.word (offset + 4) % 256) := by
  have low := region.word_succ offset
  have high := region.word_add_three (offset + 1)
  rw [show offset + 1 + 3 = offset + 4 by omega] at high
  omega

/-- The last byte of a word is the first one of the field written. -/
theorem word_setWord_last (offset : Int) (value : Nat) :
    (region.setWord (offset + 3) value).word offset =
      region.word offset % 16777216 + 16777216 * (value % 256) := by
  have before : (region.setWord (offset + 3) value).word (offset - 1) = region.word (offset - 1) :=
    word_setWord_other region value (Or.inl (by omega))
  have written := region.word_setWord (offset + 3) value
  have was := region.word_succ (offset - 1)
  have now := (region.setWord (offset + 3) value).word_one_behind (offset - 1)
  rw [show offset - 1 + 1 = offset by omega] at was now
  rw [show offset - 1 + 4 = offset + 3 by omega, before, written] at now
  omega

/-- A field whose low three bytes stay keeps every word that begins before it. -/
theorem word_setWord_before {value : Nat} (before : place < offset + 4)
    (same : region.word (offset + 4) % 16777216 = value % 16777216) :
    (region.setWord (offset + 4) value).word place = region.word place := by
  have kept : (region.setWord (offset + 4) value).word offset = region.word offset :=
    word_setWord_other region value (Or.inl (by omega))
  have written := region.word_setWord (offset + 4) value
  by_cases apart : place ≤ offset
  · exact word_setWord_other region value (Or.inl (by omega))
  · rcases show place = offset + 1 ∨ place = offset + 2 ∨ place = offset + 3 by omega with
      isOne | isTwo | isThree
    · rw [isOne, word_one_behind, word_one_behind, kept, written]
      omega
    · rw [isTwo, word_two_behind, word_two_behind, kept, written]
      omega
    · rw [isThree, word_three_behind, word_three_behind, kept, written]
      omega

end Region

end MangoOS
