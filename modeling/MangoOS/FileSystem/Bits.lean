/-
Bits of the block and inode bitmaps: `set_bit`, `ffs` and `find_first_zero_bit`
(fs/ext2.c).

`ffs` is a loop that never shifts its word, so whether it ends is part of what
these functions return: `fuel` bounds its rounds and `none` means that they did
not suffice.
-/

import MangoOS.Library.Region

namespace MangoOS

/-- Bit `index` of a bitmap. -/
def bitOf (data : Region) (index : Nat) : Bool :=
  (data (index / 8 : Nat)).getLsbD (index % 8)

def setBit (data : Region) (index flag : Nat) : Region :=
  let byte := data (index / 8 : Nat)
  if flag = 1 then Function.update data (index / 8 : Nat) (byte ||| 1#8 <<< (index % 8))
  else Function.update data (index / 8 : Nat) (byte ||| 0#8 <<< (index % 8))

/-- The loop of `ffs`; its `word >> 1` has no effect. -/
def ffsLoop (word : Nat) : (fuel bit : Nat) → Option Nat
  | 0, _ => none
  | fuel + 1, bit => if word % 2 = 0 then ffsLoop word fuel (bit + 1) else some bit

def ffs (fuel word : Nat) : Option Nat :=
  if word = 0 then some 0 else ffsLoop word fuel 1

/-- The loop of `find_first_zero_bit` over the `left` words from word `i` on. -/
def findFirstZeroBitLoop (fuel : Nat) (bitmap : Region) (size : Nat) :
    (left i : Nat) → Option Nat
  | 0, _ => some size
  | left + 1, i =>
      let word := bitmap.word (4 * i : Nat)
      if 4294967295 - word ≠ 0 then (ffs fuel (4294967295 - word)).map (i * 4 * 8 + ·)
      else findFirstZeroBitLoop fuel bitmap size left (i + 1)

/-- `find_first_zero_bit`; `size` is meant in bytes and divided as if it were bits. -/
def findFirstZeroBit (fuel : Nat) (bitmap : Region) (size : Nat) : Option Nat :=
  findFirstZeroBitLoop fuel bitmap size (size / (4 * 8)) 0

/-! ### Setting -/

theorem bitOf_update (data : Region) (index bit : Nat) (byte : BitVec 8) :
    bitOf (Function.update data (index / 8 : Nat) byte) bit =
      if bit / 8 = index / 8 then byte.getLsbD (bit % 8) else bitOf data bit := by
  unfold bitOf
  rw [Function.update_apply]
  cases decEq (bit / 8) (index / 8) with
  | isTrue same => rw [if_pos same, same, if_pos rfl]
  | isFalse different =>
      have apart : ((bit / 8 : Nat) : Int) ≠ (index / 8 : Nat) := by omega
      rw [if_neg different, if_neg apart]

theorem bitOf_setBit (data : Region) (index bit : Nat) :
    bitOf (setBit data index 1) bit = (decide (bit = index) || bitOf data bit) := by
  have inByte : bit % 8 < 8 := Nat.mod_lt bit (by decide)
  unfold setBit
  rw [if_pos rfl, bitOf_update]
  cases decEq (bit / 8) (index / 8) with
  | isTrue same =>
      have byte : bitOf data bit = (data (index / 8 : Nat)).getLsbD (bit % 8) := by
        unfold bitOf
        rw [same]
      rw [if_pos same, byte, ← BitVec.twoPow_eq, BitVec.getLsbD_or, BitVec.getLsbD_twoPow,
        Bool.or_comm]
      cases decEq bit index with
      | isTrue equal => simp [equal, Nat.mod_lt]
      | isFalse different =>
          have apart : index % 8 ≠ bit % 8 := by omega
          simp [different, apart]
  | isFalse different =>
      have apart : bit ≠ index := by
        intro equal
        exact different (by rw [equal])
      simp [different, apart]

theorem setBit_zero (data : Region) (index : Nat) : setBit data index 0 = data := by
  unfold setBit
  rw [if_neg (by decide), BitVec.zero_shiftLeft, BitVec.or_zero, Function.update_eq_self]

/-! ### Searching -/

theorem ffsLoop_even {word : Nat} (even : word % 2 = 0) (fuel bit : Nat) :
    ffsLoop word fuel bit = none := by
  induction fuel generalizing bit with
  | zero => rfl
  | succ fuel ih =>
      rw [ffsLoop, if_pos even]
      exact ih (bit + 1)

theorem ffs_some {fuel word bit : Nat} (nonzero : word ≠ 0) (returns : ffs fuel word = some bit) :
    word % 2 = 1 ∧ bit = 1 := by
  unfold ffs at returns
  rw [if_neg nonzero] at returns
  cases Nat.mod_two_eq_zero_or_one word with
  | inl even =>
      rw [ffsLoop_even even] at returns
      cases returns
  | inr odd =>
      cases fuel with
      | zero => cases returns
      | succ fuel =>
          rw [ffsLoop, if_neg (by omega), Option.some.injEq] at returns
          exact ⟨odd, returns.symm⟩

theorem word_mod_two (region : Region) (i : Nat) :
    region.word (4 * i : Nat) % 2 = (bitOf region (32 * i)).toNat := by
  have byte : 32 * i / 8 = 4 * i := by omega
  have low : 32 * i % 8 = 0 := by omega
  unfold Region.word ByteMemory.word bitOf
  rw [byte, low]
  have place : ((4 * i : Nat) : Int) + (0 : Nat) = (4 * i : Nat) := by omega
  simp only [place]
  rw [BitVec.getLsbD, Nat.testBit_zero]
  cases Nat.mod_two_eq_zero_or_one (region (4 * i : Nat)).toNat with
  | inl even =>
      rw [decide_eq_false (by omega)]
      change _ = 0
      omega
  | inr odd =>
      rw [decide_eq_true odd]
      change _ = 1
      omega

theorem byte_full (byte : BitVec 8) (full : ∀ j, j < 8 → byte.getLsbD j = true) :
    byte.toNat = 255 := by
  have allOnes : byte = BitVec.allOnes 8 := by
    apply BitVec.eq_of_getLsbD_eq
    intro j inside
    rw [full j inside, BitVec.getLsbD_allOnes, decide_eq_true inside]
  rw [allOnes]
  rfl

theorem word_full (region : Region) (i : Nat)
    (full : ∀ bit, 32 * i ≤ bit → bit < 32 * i + 32 → bitOf region bit = true) :
    region.word (4 * i : Nat) = 4294967295 := by
  have bytes : ∀ k : Nat, k < 4 → (region ((4 * i : Nat) + (k : Nat))).toNat = 255 := by
    intro k inside
    apply byte_full
    intro j inByte
    have isBit := full (32 * i + 8 * k + j) (by omega) (by omega)
    have place : (32 * i + 8 * k + j) / 8 = 4 * i + k := by omega
    have rest : (32 * i + 8 * k + j) % 8 = j := by omega
    unfold bitOf at isBit
    rw [place, rest] at isBit
    rw [← isBit]
    rfl
  unfold Region.word ByteMemory.word
  rw [bytes 0 (by decide), bytes (0 + 1) (by decide), bytes (0 + 2) (by decide),
    bytes (0 + 3) (by decide)]

theorem byte_allOnes {byte : BitVec 8} (full : byte.toNat = 255) {j : Nat} (inside : j < 8) :
    byte.getLsbD j = true := by
  have same : byte = BitVec.allOnes 8 := BitVec.eq_of_toNat_eq full
  rw [same, BitVec.getLsbD_allOnes, decide_eq_true inside]

theorem bitOf_full (region : Region) (i : Nat) (full : region.word (4 * i : Nat) = 4294967295)
    {bit : Nat} (lower : 32 * i ≤ bit) (upper : bit < 32 * i + 32) : bitOf region bit = true := by
  have first := (region ((4 * i : Nat) + (0 : Nat))).isLt
  have second := (region ((4 * i : Nat) + ((0 + 1 : Nat) : Int))).isLt
  have third := (region ((4 * i : Nat) + ((0 + 2 : Nat) : Int))).isLt
  have fourth := (region ((4 * i : Nat) + ((0 + 3 : Nat) : Int))).isLt
  change (region ((4 * i : Nat) + (0 : Nat))).toNat +
    256 * (region ((4 * i : Nat) + ((0 + 1 : Nat) : Int))).toNat +
    65536 * (region ((4 * i : Nat) + ((0 + 2 : Nat) : Int))).toNat +
    16777216 * (region ((4 * i : Nat) + ((0 + 3 : Nat) : Int))).toNat = 4294967295 at full
  unfold bitOf
  apply byte_allOnes
  · rcases (show bit / 8 = 4 * i ∨ bit / 8 = 4 * i + 1 ∨ bit / 8 = 4 * i + 2 ∨
        bit / 8 = 4 * i + 3 by omega) with at_ | at_ | at_ | at_
    · rw [at_, show ((4 * i : Nat) : Int) = (4 * i : Nat) + (0 : Nat) by omega]
      omega
    · rw [at_, show ((4 * i + 1 : Nat) : Int) = (4 * i : Nat) + ((0 + 1 : Nat) : Int) by omega]
      omega
    · rw [at_, show ((4 * i + 2 : Nat) : Int) = (4 * i : Nat) + ((0 + 2 : Nat) : Int) by omega]
      omega
    · rw [at_, show ((4 * i + 3 : Nat) : Int) = (4 * i : Nat) + ((0 + 3 : Nat) : Int) by omega]
      omega
  · omega

theorem word_full_setBit {region : Region} {i : Nat} (index : Nat)
    (full : region.word (4 * i : Nat) = 4294967295) :
    (setBit region index 1).word (4 * i : Nat) = 4294967295 := by
  apply word_full
  intro bit lower upper
  rw [bitOf_setBit, bitOf_full region i full lower upper, Bool.or_true]

theorem ffs_odd {fuel word other bit : Nat} (returns : ffs fuel word = some bit)
    (nonzero : word ≠ 0) (odd : other % 2 = 1) : ffs fuel other = some bit := by
  obtain ⟨_, one⟩ := ffs_some nonzero returns
  unfold ffs at returns ⊢
  rw [if_neg nonzero] at returns
  rw [if_neg (by omega)]
  cases fuel with
  | zero => cases returns
  | succ fuel => rw [ffsLoop, if_neg (by omega), one]

section Search

variable {bitmap : Region} {size : Nat}

theorem findFirstZeroBitLoop_full (fuel left i : Nat)
    (full : ∀ k, i ≤ k → k < i + left → bitmap.word (4 * k : Nat) = 4294967295) :
    findFirstZeroBitLoop fuel bitmap size left i = some size := by
  induction left generalizing i with
  | zero => rfl
  | succ left ih =>
      rw [findFirstZeroBitLoop]
      simp only [full i (Nat.le_refl i) (by omega), ne_eq, Nat.sub_self, not_true_eq_false,
        if_false]
      exact ih (i + 1) (fun k lower upper => full k (by omega) (by omega))

/-- What is returned is the bit behind the first bit of the first word that has a clear one, and
then the first bit of that word is clear. -/
theorem findFirstZeroBitLoop_some {fuel left i found : Nat}
    (returns : findFirstZeroBitLoop fuel bitmap size left i = some found) :
    found = size ∨ ∃ k, i ≤ k ∧ k < i + left ∧ found = 32 * k + 1 ∧
      bitOf bitmap (32 * k) = false ∧
        ∀ j, i ≤ j → j < k → bitmap.word (4 * j : Nat) = 4294967295 := by
  induction left generalizing i with
  | zero =>
      rw [findFirstZeroBitLoop, Option.some.injEq] at returns
      exact Or.inl returns.symm
  | succ left ih =>
      rw [findFirstZeroBitLoop] at returns
      have bounded := Region.word_lt bitmap (4 * i : Nat)
      by_cases clear : 4294967295 - bitmap.word (4 * i : Nat) ≠ 0
      · rw [if_pos clear, Option.map_eq_some_iff] at returns
        obtain ⟨bit, isBit, sum⟩ := returns
        obtain ⟨odd, one⟩ := ffs_some clear isBit
        refine Or.inr ⟨i, Nat.le_refl i, by omega, by omega, ?_, ?_⟩
        · have parity := word_mod_two bitmap i
          cases isClear : bitOf bitmap (32 * i) with
          | false => rfl
          | true =>
              rw [isClear] at parity
              change _ = 1 at parity
              omega
        · intro j lower upper
          exact absurd upper (Nat.not_lt.mpr lower)
      · rw [if_neg clear] at returns
        rcases ih returns with isSize | ⟨k, lower, upper, isFound, isClear, before⟩
        · exact Or.inl isSize
        · refine Or.inr ⟨k, by omega, by omega, isFound, isClear, ?_⟩
          intro j least less
          by_cases first : j = i
          · rw [first]
            omega
          · exact before j (by omega) less

theorem findFirstZeroBitLoop_none {fuel left i : Nat} (inside : 32 * (i + left) ≤ size)
    (returns : findFirstZeroBitLoop fuel bitmap size left i = some size) :
    ∀ k, i ≤ k → k < i + left → bitmap.word (4 * k : Nat) = 4294967295 := by
  induction left generalizing i with
  | zero =>
      intro k lower upper
      omega
  | succ left ih =>
      intro k lower upper
      rw [findFirstZeroBitLoop] at returns
      have bounded := Region.word_lt bitmap (4 * i : Nat)
      by_cases clear : 4294967295 - bitmap.word (4 * i : Nat) ≠ 0
      · rw [if_pos clear, Option.map_eq_some_iff] at returns
        obtain ⟨bit, isBit, sum⟩ := returns
        have one := (ffs_some clear isBit).2
        omega
      · rw [if_neg clear] at returns
        by_cases first : k = i
        · rw [first]
          omega
        · exact ih (by omega) returns k (by omega) (by omega)

theorem findFirstZeroBit_some {fuel found : Nat}
    (returns : findFirstZeroBit fuel bitmap size = some found) :
    found = size ∨ ∃ k, 32 * k + 32 ≤ size ∧ found = 32 * k + 1 ∧
      bitOf bitmap (32 * k) = false ∧
        ∀ j, j < k → bitmap.word (4 * j : Nat) = 4294967295 := by
  rcases findFirstZeroBitLoop_some returns with
    isSize | ⟨k, _, upper, isFound, isClear, before⟩
  · exact Or.inl isSize
  · exact Or.inr ⟨k, by omega, isFound, isClear, fun j less => before j (Nat.zero_le j) less⟩

/-- Marking what was found leaves the first bit of its word clear: it is found again. -/
theorem findFirstZeroBitLoop_again {fuel left i found : Nat}
    (returns : findFirstZeroBitLoop fuel bitmap size left i = some found) :
    findFirstZeroBitLoop fuel (setBit bitmap found 1) size left i = some found := by
  induction left generalizing i with
  | zero => exact returns
  | succ left ih =>
      have bounded := Region.word_lt bitmap (4 * i : Nat)
      rw [findFirstZeroBitLoop] at returns ⊢
      by_cases clear : 4294967295 - bitmap.word (4 * i : Nat) ≠ 0
      · rw [if_pos clear, Option.map_eq_some_iff] at returns
        obtain ⟨bit, isBit, sum⟩ := returns
        obtain ⟨odd, one⟩ := ffs_some clear isBit
        have before := word_mod_two bitmap i
        have after := word_mod_two (setBit bitmap found 1) i
        have other : ¬ 32 * i = found := by omega
        have afterBounded := Region.word_lt (setBit bitmap found 1) (4 * i : Nat)
        rw [bitOf_setBit, decide_eq_false other, Bool.false_or] at after
        have stillOdd : (4294967295 - (setBit bitmap found 1).word (4 * i : Nat)) % 2 = 1 := by
          omega
        rw [if_pos (by omega), ffs_odd isBit clear stillOdd, Option.map_some, sum]
      · rw [if_neg clear] at returns
        have full := word_full_setBit found (by omega : bitmap.word (4 * i : Nat) = 4294967295)
        simp only [full, ne_eq, Nat.sub_self, not_true_eq_false, if_false]
        exact ih returns

theorem findFirstZeroBit_again {fuel found : Nat}
    (returns : findFirstZeroBit fuel bitmap size = some found) :
    findFirstZeroBit fuel (setBit bitmap found 1) size = some found :=
  findFirstZeroBitLoop_again returns

/-- Nothing is found if and only if all words that are searched are full. -/
theorem findFirstZeroBit_none_iff {fuel : Nat} :
    findFirstZeroBit fuel bitmap size = some size ↔
      ∀ k, k < size / 32 → bitmap.word (4 * k : Nat) = 4294967295 := by
  constructor
  · intro returns k inside
    exact findFirstZeroBitLoop_none (by omega) returns k (Nat.zero_le k) (by omega)
  · intro full
    apply findFirstZeroBitLoop_full
    intro k _ upper
    exact full k (by omega)

theorem findFirstZeroBit_full (fuel : Nat)
    (full : ∀ bit, bit < size → bitOf bitmap bit = true) :
    findFirstZeroBit fuel bitmap size = some size := by
  apply findFirstZeroBit_none_iff.mpr
  intro k inside
  apply word_full
  intro bit _ below
  exact full bit (by omega)

end Search

end MangoOS
