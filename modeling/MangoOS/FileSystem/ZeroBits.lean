/-
What `find_first_zero_bit` and `ffs` find (fs/ext2.c).

`ffs` counts from 1 and never shifts its word, and the search takes its size in
bytes for one in bits.  An index it returns from inside a word is therefore one
too high, so the search is right only where it runs through every word.
-/

import MangoOS.FileSystem.Bits

namespace MangoOS.ZeroBits

/-- Bit `index` is the least zero bit of the first `bits` bits. -/
def LeastZero (bitmap : Region) (bits index : Nat) : Prop :=
  index < bits ∧ bitOf bitmap index = false ∧ ∀ bit, bit < index → bitOf bitmap bit = true

def Full (bitmap : Region) (bits : Nat) : Prop :=
  ∀ bit, bit < bits → bitOf bitmap bit = true

/-- `set_bit` at `index` sets that bit and leaves the others. -/
def Marks (bitmap : Region) (index : Nat) : Prop :=
  ∀ bit, bitOf (setBit bitmap index 1) bit = if bit = index then true else bitOf bitmap bit

/-- The search in a bitmap of `size` bytes ends, with the least zero bit or, where there is none,
with `size`. -/
def Finds (bitmap : Region) (size : Nat) : Prop :=
  ∃ fuel found, findFirstZeroBit fuel bitmap size = some found ∧
    (LeastZero bitmap (8 * size) found ∧ Marks bitmap found ∨
      Full bitmap (8 * size) ∧ found = size)

/-- Bit `index` is the lowest set bit of `word`. -/
def LowestSet (word index : Nat) : Prop :=
  word.testBit index = true ∧ ∀ bit, bit < index → word.testBit bit = false

/-- `ffs` ends, with 1 plus the index of the lowest set bit or with 0 for 0. -/
def FfsFinds (word : Nat) : Prop :=
  ∃ fuel bit, ffs fuel word = some bit ∧
    (word = 0 ∧ bit = 0 ∨ ∃ index, LowestSet word index ∧ bit = index + 1)

theorem marks (bitmap : Region) (index : Nat) : Marks bitmap index := by
  intro bit
  rw [bitOf_setBit]
  by_cases same : bit = index
  · rw [decide_eq_true same, if_pos same, Bool.true_or]
  · rw [decide_eq_false same, if_neg same, Bool.false_or]

/-- A least zero bit is never what the search finds in a word. -/
theorem leastZero_size {bitmap : Region} {fuel size found : Nat}
    (returns : findFirstZeroBit fuel bitmap size = some found)
    (least : LeastZero bitmap (8 * size) found) : found = size := by
  rcases findFirstZeroBit_some returns with isSize | ⟨k, _, isFound, clear, _⟩
  · exact isSize
  · have set := least.2.2 (32 * k) (by omega)
    rw [clear] at set
    cases set

theorem finds_iff (bitmap : Region) (size : Nat) :
    Finds bitmap size ↔ Full bitmap size ∧
      (Full bitmap (8 * size) ∨ 0 < size ∧ bitOf bitmap size = false) := by
  constructor
  · rintro ⟨fuel, found, returns, ⟨least, _⟩ | ⟨full, _⟩⟩
    · rw [leastZero_size returns least] at least
      obtain ⟨below, clear, before⟩ := least
      exact ⟨before, Or.inr ⟨by omega, clear⟩⟩
    · exact ⟨fun bit inside => full bit (by omega), Or.inl full⟩
  · rintro ⟨first, rest⟩
    refine ⟨0, size, findFirstZeroBit_full 0 first, ?_⟩
    rcases rest with full | ⟨positive, clear⟩
    · exact Or.inr ⟨full, rfl⟩
    · exact Or.inl ⟨⟨by omega, clear, first⟩, marks bitmap size⟩

theorem ffsFinds_iff (word : Nat) : FfsFinds word ↔ word = 0 ∨ word % 2 = 1 := by
  constructor
  · rintro ⟨fuel, bit, returns, _⟩
    by_cases zero : word = 0
    · exact Or.inl zero
    · exact Or.inr (ffs_some zero returns).1
  · rintro (zero | odd)
    · exact ⟨0, 0, by rw [ffs, if_pos zero], Or.inl ⟨zero, rfl⟩⟩
    · have lowest : LowestSet word 0 := by
        refine ⟨?_, fun bit below => absurd below (Nat.not_lt_zero bit)⟩
        rw [Nat.testBit_zero, decide_eq_true odd]
      refine ⟨1, 1, ?_, Or.inr ⟨0, lowest, rfl⟩⟩
      rw [ffs, if_neg (by omega), ffsLoop, if_neg (by omega)]

/-- Where the search and `ffs` return what they are meant to return. -/
theorem search_right (bitmap : Region) (size word : Nat) :
    (Finds bitmap size ↔ Full bitmap size ∧
        (Full bitmap (8 * size) ∨ 0 < size ∧ bitOf bitmap size = false)) ∧
      (FfsFinds word ↔ word = 0 ∨ word % 2 = 1) :=
  ⟨finds_iff bitmap size, ffsFinds_iff word⟩

/-- In an empty bitmap of 32 bytes bit 1 is found before bit 0, and `ffs` of 2 does not end. -/
theorem search_right_not :
    findFirstZeroBit 1 (fun _ => 0) 32 = some 1 ∧ ¬ Finds (fun _ => 0) 32 ∧
      (∀ fuel, ffs fuel 2 = none) ∧ ¬ FfsFinds 2 := by
  refine ⟨by decide +kernel, ?_, fun fuel => ffsLoop_even rfl fuel 1, ?_⟩
  · intro finds
    have first := ((finds_iff _ _).mp finds).1 0 (by decide)
    exact absurd first (by decide)
  · intro finds
    exact absurd ((ffsFinds_iff 2).mp finds) (by decide)

end MangoOS.ZeroBits
