/-
Byte-addressed memory and little-endian words.
-/

import Mathlib.Data.Nat.Notation

namespace MangoOS

abbrev ByteMemory := Nat → BitVec 8

namespace ByteMemory

/-- The `uint` stored at `a`. -/
def word (mem : ByteMemory) (a : Nat) : Nat :=
  (mem a).toNat + 256 * (mem (a + 1)).toNat + 65536 * (mem (a + 2)).toNat +
    16777216 * (mem (a + 3)).toNat

def setByte (mem : ByteMemory) (a value : Nat) : ByteMemory :=
  fun x => if x = a then BitVec.ofNat 8 value else mem x

def setWord (mem : ByteMemory) (a value : Nat) : ByteMemory :=
  fun x =>
    if x = a then BitVec.ofNat 8 value
    else if x = a + 1 then BitVec.ofNat 8 (value / 256)
    else if x = a + 2 then BitVec.ofNat 8 (value / 65536)
    else if x = a + 3 then BitVec.ofNat 8 (value / 16777216)
    else mem x

theorem setByte_same (mem : ByteMemory) (a value : Nat) :
    (mem.setByte a value) a = BitVec.ofNat 8 value := if_pos rfl

theorem setByte_other (mem : ByteMemory) {a x : Nat} (value : Nat) (different : x ≠ a) :
    (mem.setByte a value) x = mem x := if_neg different

theorem setWord_other (mem : ByteMemory) {a x : Nat} (value : Nat)
    (outside : x < a ∨ a + 4 ≤ x) : (mem.setWord a value) x = mem x := by
  unfold setWord
  rw [if_neg (by omega), if_neg (by omega), if_neg (by omega), if_neg (by omega)]

theorem word_congr {mem other : ByteMemory} {a : Nat}
    (same : ∀ x, a ≤ x → x < a + 4 → other x = mem x) : other.word a = mem.word a := by
  unfold word
  rw [same a (by omega) (by omega), same (a + 1) (by omega) (by omega),
    same (a + 2) (by omega) (by omega), same (a + 3) (by omega) (by omega)]

theorem word_lt (mem : ByteMemory) (a : Nat) : mem.word a < 4294967296 := by
  unfold word
  have first := (mem a).isLt
  have second := (mem (a + 1)).isLt
  have third := (mem (a + 2)).isLt
  have fourth := (mem (a + 3)).isLt
  omega

theorem word_setWord (mem : ByteMemory) (a value : Nat) :
    (mem.setWord a value).word a = value % 4294967296 := by
  unfold word setWord
  have second : a + 1 ≠ a := by omega
  have third : a + 2 ≠ a ∧ a + 2 ≠ a + 1 := by omega
  have fourth : a + 3 ≠ a ∧ a + 3 ≠ a + 1 ∧ a + 3 ≠ a + 2 := by omega
  simp only [if_true, if_neg second, if_neg third.1, if_neg third.2, if_neg fourth.1,
    if_neg fourth.2.1, if_neg fourth.2.2, BitVec.toNat_ofNat]
  omega

theorem word_setWord_other (mem : ByteMemory) {a b : Nat} (value : Nat)
    (apart : b + 4 ≤ a ∨ a + 4 ≤ b) : (mem.setWord a value).word b = mem.word b := by
  apply word_congr
  intro x lower upper
  apply setWord_other
  omega

theorem word_setByte_other (mem : ByteMemory) {a b : Nat} (value : Nat)
    (apart : b + 4 ≤ a ∨ a < b) : (mem.setByte a value).word b = mem.word b := by
  apply word_congr
  intro x lower upper
  apply setByte_other
  omega

end ByteMemory

end MangoOS
