/-
Ranges of a memory replaced by other bytes.
-/

import MangoOS.Library.ByteMemory

namespace MangoOS

namespace ByteMemory

/-- `count` bytes from `dest` on are replaced. -/
def overlay (mem : ByteMemory) (dest count : Nat) (bytes : Nat → BitVec 8) : ByteMemory :=
  fun x => if dest ≤ x ∧ x < dest + count then bytes (x - dest) else mem x

variable {mem other : ByteMemory} {bytes more : Nat → BitVec 8} {dest count x i : Nat}

theorem overlay_inside (inside : i < count) :
    mem.overlay dest count bytes (dest + i) = bytes i := by
  unfold overlay
  rw [if_pos ⟨Nat.le_add_right _ _, by omega⟩, Nat.add_sub_cancel_left]

theorem overlay_outside (outside : x < dest ∨ dest + count ≤ x) :
    mem.overlay dest count bytes x = mem x :=
  if_neg (by omega)

theorem overlay_zero (mem : ByteMemory) (dest : Nat) (bytes : Nat → BitVec 8) :
    mem.overlay dest 0 bytes = mem := by
  funext x
  exact overlay_outside (by omega)

theorem overlay_congr (same : ∀ i, i < count → bytes i = more i) :
    mem.overlay dest count bytes = mem.overlay dest count more := by
  funext x
  unfold overlay
  by_cases inside : dest ≤ x ∧ x < dest + count
  · rw [if_pos inside, if_pos inside]
    exact same (x - dest) (by omega)
  · rw [if_neg inside, if_neg inside]

/-- Two ranges one behind the other are one range. -/
theorem overlay_append (mem : ByteMemory) (dest first second : Nat) (bytes : Nat → BitVec 8) :
    (mem.overlay dest first bytes).overlay (dest + first) second (fun i => bytes (first + i)) =
      mem.overlay dest (first + second) bytes := by
  funext x
  by_cases below : x < dest
  · rw [overlay_outside (Or.inl (by omega)), overlay_outside (Or.inl below),
      overlay_outside (Or.inl below)]
  · obtain ⟨i, rfl⟩ := Nat.exists_eq_add_of_le (Nat.le_of_not_lt below)
    by_cases inFirst : i < first
    · rw [overlay_outside (Or.inl (by omega)), overlay_inside inFirst,
        overlay_inside (by omega)]
    · obtain ⟨j, rfl⟩ := Nat.exists_eq_add_of_le (Nat.le_of_not_lt inFirst)
      by_cases inSecond : j < second
      · rw [← Nat.add_assoc, overlay_inside inSecond, Nat.add_assoc, overlay_inside (by omega)]
      · rw [overlay_outside (Or.inr (by omega)), overlay_outside (Or.inr (by omega)),
          overlay_outside (Or.inr (by omega))]

theorem setByte_eq_overlay (mem : ByteMemory) (dest : Nat) (byte : BitVec 8) :
    mem.setByte dest byte.toNat = mem.overlay dest 1 (fun _ => byte) := by
  funext x
  unfold setByte overlay
  rw [BitVec.ofNat_toNat, BitVec.setWidth_eq]
  by_cases here : x = dest
  · rw [if_pos here, if_pos (by omega)]
  · rw [if_neg here, if_neg (by omega)]

/-- Bytes that are stored one by one. -/
theorem overlay_succ (mem : ByteMemory) (dest count : Nat) (bytes : Nat → BitVec 8) :
    (mem.setByte dest (bytes 0).toNat).overlay (dest + 1) count (fun i => bytes (1 + i)) =
      mem.overlay dest (1 + count) bytes := by
  have first : mem.overlay dest 1 (fun _ => bytes 0) = mem.overlay dest 1 bytes :=
    overlay_congr fun i inside => by rw [Nat.lt_one_iff.mp inside]
  rw [setByte_eq_overlay, first, overlay_append]

/-- A word whose bytes lie elsewhere in another memory. -/
theorem word_move {a b : Nat} (same : ∀ k, k < 4 → other (b + k) = mem (a + k)) :
    other.word b = mem.word a := by
  have first : other b = mem a := same 0 (by decide)
  unfold word
  rw [first, same 1 (by decide), same 2 (by decide), same 3 (by decide)]

end ByteMemory

end MangoOS
