/-
kmemcpy and kmemset (lib/string.c) on flat memory.

The objects they are called on lie inside the address space, so that the byte
pointers do not wrap.
-/

import MangoOS.Library.ByteMemory
import Mathlib.Tactic.Cases

namespace MangoOS

/-- `while(size--) { *d++ = *s++; }` -/
def kmemcpyLoop (mem : ByteMemory) (d s : Nat) : Nat → ByteMemory
  | 0 => mem
  | size + 1 => kmemcpyLoop (mem.setByte d (mem s).toNat) (d + 1) (s + 1) size

def kmemcpy (mem : ByteMemory) (dest src : Nat) (size : Int) : ByteMemory :=
  if dest = 0 ∨ src = 0 ∨ size ≤ 0 then mem else kmemcpyLoop mem dest src size.toNat

/-- The number of bytes a `kmemcpy` reads and writes. -/
def kmemcpyCount (dest src : Nat) (size : Int) : Nat :=
  if dest = 0 ∨ src = 0 ∨ size ≤ 0 then 0 else size.toNat

/-- `while(size--) { *p++ = c; }` -/
def kmemsetLoop (mem : ByteMemory) (p c : Nat) : Nat → ByteMemory
  | 0 => mem
  | size + 1 => kmemsetLoop (mem.setByte p c) (p + 1) c size

def kmemset (mem : ByteMemory) (dest c : Nat) (size : Int) : ByteMemory :=
  if dest = 0 ∨ size ≤ 0 then mem else kmemsetLoop mem dest c size.toNat

theorem kmemcpyLoop_outside (mem : ByteMemory) (d s size : Nat) {x : Nat}
    (outside : x < d ∨ d + size ≤ x) : kmemcpyLoop mem d s size x = mem x := by
  induction size generalizing mem d s with
  | zero => rfl
  | succ size ih =>
      change kmemcpyLoop _ (d + 1) (s + 1) size x = mem x
      rw [ih _ (d + 1) (s + 1) (by omega)]
      exact ByteMemory.setByte_other _ _ (by omega)

/-- Between ranges that do not meet, the copy is exact. -/
theorem kmemcpyLoop_inside (mem : ByteMemory) (d s size : Nat)
    (apart : d + size ≤ s ∨ s + size ≤ d) {i : Nat} (inside : i < size) :
    kmemcpyLoop mem d s size (d + i) = mem (s + i) := by
  induction size generalizing mem d s i with
  | zero => omega
  | succ size ih =>
      change kmemcpyLoop _ (d + 1) (s + 1) size (d + i) = mem (s + i)
      cases i with
      | zero =>
          rw [kmemcpyLoop_outside _ _ _ _ (by omega), Nat.add_zero, Nat.add_zero,
            ByteMemory.setByte_same, BitVec.ofNat_toNat, BitVec.setWidth_eq]
      | succ i =>
          have shifted := ih (mem.setByte d (mem s).toNat) (d + 1) (s + 1) (by omega)
            (i := i) (by omega)
          rw [Nat.add_assoc, Nat.add_comm 1 i, Nat.add_assoc, Nat.add_comm 1 i] at shifted
          rw [shifted]
          exact ByteMemory.setByte_other _ _ (by omega)

theorem kmemcpy_outside (mem : ByteMemory) (dest src : Nat) (size : Int) {x : Nat}
    (outside : x < dest ∨ dest + size.toNat ≤ x) : kmemcpy mem dest src size x = mem x := by
  unfold kmemcpy
  split
  case isTrue nothing => rfl
  case isFalse copies => exact kmemcpyLoop_outside mem dest src size.toNat outside

theorem kmemcpyCount_le (dest src : Nat) (size : Int) : kmemcpyCount dest src size ≤ size.toNat := by
  unfold kmemcpyCount
  split
  · exact Nat.zero_le _
  · exact Nat.le_refl _

theorem kmemcpy_untouched (mem : ByteMemory) (dest src : Nat) (size : Int) {x : Nat}
    (outside : ¬ (dest ≤ x ∧ x < dest + kmemcpyCount dest src size)) :
    kmemcpy mem dest src size x = mem x := by
  unfold kmemcpyCount at outside
  unfold kmemcpy
  split
  case isTrue nothing => rfl
  case isFalse copies =>
      rw [if_neg copies] at outside
      exact kmemcpyLoop_outside mem dest src size.toNat (by omega)

theorem kmemsetLoop_outside (mem : ByteMemory) (p c size : Nat) {x : Nat}
    (outside : x < p ∨ p + size ≤ x) : kmemsetLoop mem p c size x = mem x := by
  induction size generalizing mem p with
  | zero => rfl
  | succ size ih =>
      change kmemsetLoop _ (p + 1) c size x = mem x
      rw [ih _ (p + 1) (by omega)]
      exact ByteMemory.setByte_other _ _ (by omega)

theorem kmemset_outside (mem : ByteMemory) (dest c : Nat) (size : Int) {x : Nat}
    (outside : x < dest ∨ dest + size.toNat ≤ x) : kmemset mem dest c size x = mem x := by
  unfold kmemset
  split
  case isTrue nothing => rfl
  case isFalse fills => exact kmemsetLoop_outside mem dest c size.toNat outside

end MangoOS
