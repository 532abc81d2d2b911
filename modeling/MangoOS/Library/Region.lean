/-
The bytes around a pointer, by signed offset.

`copy` moves bytes from one region to another.  What a region holds outside the
object it belongs to is other memory and stays unspecified.
-/

import MangoOS.Library.ByteMemory
import Mathlib.Data.Int.Basic

namespace MangoOS

abbrev Region := Int → BitVec 8

namespace Region

/-- `count` bytes of `source` from `start` on replace those of `target` from `offset` on. -/
def copy (target : Region) (offset : Int) (source : Region) (start count : Int) : Region :=
  fun x => if offset ≤ x ∧ x < offset + count then source (start + (x - offset)) else target x

/-- The `uint` stored at an offset. -/
def word (region : Region) (offset : Int) : Nat :=
  ByteMemory.word (fun i => region (offset + i)) 0

/-- The `ushort` stored at an offset. -/
def half (region : Region) (offset : Int) : Nat :=
  (region offset).toNat + 256 * (region (offset + 1)).toNat

def setHalf (region : Region) (offset : Int) (value : Nat) : Region :=
  fun x =>
    if x = offset then BitVec.ofNat 8 value
    else if x = offset + 1 then BitVec.ofNat 8 (value / 256)
    else region x

def setWord (region : Region) (offset : Int) (value : Nat) : Region :=
  (region.setHalf offset value).setHalf (offset + 2) (value / 65536)

/-- Both regions hold the same bytes from `lower` up to `upper`. -/
def Agree (left right : Region) (lower upper : Int) : Prop :=
  ∀ x, lower ≤ x → x < upper → left x = right x

theorem Agree.refl (region : Region) (lower upper : Int) : region.Agree region lower upper := by
  intro x _ _
  rfl

theorem Agree.symm {left right : Region} {lower upper : Int}
    (agree : left.Agree right lower upper) : right.Agree left lower upper := by
  intro x above below
  exact (agree x above below).symm

theorem Agree.trans {left middle right : Region} {lower upper : Int}
    (first : left.Agree middle lower upper) (second : middle.Agree right lower upper) :
    left.Agree right lower upper := by
  intro x above below
  exact (first x above below).trans (second x above below)

theorem copy_inside (target source : Region) {offset start count x : Int}
    (lower : offset ≤ x) (upper : x < offset + count) :
    target.copy offset source start count x = source (start + (x - offset)) :=
  if_pos ⟨lower, upper⟩

theorem copy_outside (target source : Region) {offset start count x : Int}
    (outside : x < offset ∨ offset + count ≤ x) :
    target.copy offset source start count x = target x := by
  unfold copy
  rw [if_neg (by omega)]

theorem copy_none (target source : Region) (offset start : Int) :
    target.copy offset source start 0 = target := by
  funext x
  exact copy_outside target source (by omega)

theorem copy_congr (target : Region) {piece source : Region} {offset begin start count : Int}
    (same : ∀ x, 0 ≤ x → x < count → piece (begin + x) = source (start + x)) :
    target.copy offset piece begin count = target.copy offset source start count := by
  funext x
  by_cases inside : offset ≤ x ∧ x < offset + count
  · rw [copy_inside _ _ inside.1 inside.2, copy_inside _ _ inside.1 inside.2]
    exact same _ (by omega) (by omega)
  · rw [copy_outside _ _ (by omega), copy_outside _ _ (by omega)]

/-- Two pieces that lie one behind the other are copied as one. -/
theorem copy_join (target source : Region) (offset start : Int) {first second : Int}
    (some : 0 ≤ first) (more : 0 ≤ second) :
    (target.copy offset source start first).copy (offset + first) source (start + first) second =
      target.copy offset source start (first + second) := by
  funext x
  by_cases behind : offset + first ≤ x ∧ x < offset + first + second
  · rw [copy_inside _ _ behind.1 behind.2, copy_inside _ _ (by omega) (by omega)]
    congr 1
    omega
  · rw [copy_outside _ _ (by omega)]
    by_cases inside : offset ≤ x ∧ x < offset + first
    · rw [copy_inside _ _ inside.1 inside.2, copy_inside _ _ inside.1 (by omega)]
    · rw [copy_outside _ _ (by omega), copy_outside _ _ (by omega)]

theorem Agree.copy {left right : Region} {lower upper : Int} (agree : left.Agree right lower upper)
    (offset : Int) (source : Region) (start count : Int) :
    (left.copy offset source start count).Agree (right.copy offset source start count)
      lower upper := by
  intro x above below
  unfold Region.copy
  rw [agree x above below]

theorem word_lt (region : Region) (offset : Int) : region.word offset < 4294967296 :=
  ByteMemory.word_lt _ 0

theorem word_congr {left right : Region} {offset : Int}
    (agree : left.Agree right offset (offset + 4)) : left.word offset = right.word offset := by
  unfold word
  apply ByteMemory.word_congr
  intro x _ upper
  exact agree (offset + x) (by omega) (by omega)

end Region

end MangoOS
