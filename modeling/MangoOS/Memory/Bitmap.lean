/-
The physical page bitmap (mm/bitmap.c).

`bitmap.base` is the byte array at `BITMAP_START`.  Indices are C `int`s that stay
between -1 and `nbits`, so they are plain integers here.
-/

import Mathlib.Data.Int.Basic
import Mathlib.Logic.Function.Basic

namespace MangoOS

structure BitMap where
  nbits : Int
  base : Nat → BitVec 8

/-- One round of `bitmap_set_bits`. -/
def BitMap.put (bitmap : BitMap) (position : Int) (bit : Bool) : BitMap :=
  let byte := (position.tdiv 8).toNat
  let mask := 1#8 <<< (position.tmod 8).toNat
  let value := bitmap.base byte
  { bitmap with
    base := Function.update bitmap.base byte
      (if bit then value ||| mask else value &&& ~~~mask) }

/-- The `do … while (--count > 0)` of `bitmap_set_bits`. -/
def bitmapFill (bitmap : BitMap) (index : Int) (bit up : Bool) (move : Int) : Nat → BitMap
  | 0 => bitmap.put (index + move) bit
  | count + 1 =>
      let bitmap := bitmap.put (index + move) bit
      let move := if up then move + 1 else move - 1
      if count > 0 then bitmapFill bitmap index bit up move count else bitmap

def bitmapSetBits (bitmap : BitMap) (index : Int) (bit : Bool) (count : Nat) (up : Bool) :
    BitMap :=
  bitmapFill bitmap index bit up (if up then 0 else -1) count

def bitmapGetBit (bitmap : BitMap) (index : Int) : Bool :=
  (bitmap.base (index.tdiv 8).toNat &&& (1#8 <<< (index.tmod 8).toNat)) ≠ 0#8

/-- The search loop of `bitmap_alloc_bits`; `fuel` is at least the number of rounds left. -/
def bitmapSearch (bitmap : BitMap) (count : Int) :
    (fuel : Nat) → (curIndex beginIndex : Int) → Option Int
  | 0, _, _ => none
  | fuel + 1, curIndex, beginIndex =>
      if curIndex < bitmap.nbits then
        if bitmapGetBit bitmap curIndex then
          bitmapSearch bitmap count fuel (curIndex + 1) (curIndex + 1)
        else if curIndex + 1 - beginIndex ≥ count then some beginIndex
        else bitmapSearch bitmap count fuel (curIndex + 1) beginIndex
      else none

def bitmapAllocBits (bitmap : BitMap) (count : Nat) : Int × BitMap :=
  match bitmapSearch bitmap count (bitmap.nbits.toNat + 1) 0 0 with
  | some beginIndex => (beginIndex, bitmapSetBits bitmap beginIndex true count true)
  | none => (-1, bitmap)

def pageSize : Nat := 4096

def bitmapFreeBits (bitmap : BitMap) (addr : Nat) (count : Nat) : BitMap :=
  bitmapSetBits bitmap (addr / pageSize : Nat) false count true

/-! ### Single bits -/

/-- Bit `p` of the bitmap. -/
def BitMap.used (bitmap : BitMap) (p : Nat) : Bool :=
  (bitmap.base (p / 8)).getLsbD (p % 8)

theorem bitmapGetBit_eq (bitmap : BitMap) (p : Nat) :
    bitmapGetBit bitmap p = bitmap.used p := by
  have byte : ((p : Int).tdiv 8).toNat = p / 8 := by
    rw [Int.tdiv_eq_ediv_of_nonneg (Int.natCast_nonneg p)]
    omega
  have bit : ((p : Int).tmod 8).toNat = p % 8 := by
    rw [Int.tmod_eq_emod_of_nonneg (Int.natCast_nonneg p)]
    omega
  have inByte : p % 8 < 8 := Nat.mod_lt p (by decide)
  unfold bitmapGetBit BitMap.used
  rw [byte, bit, ← BitVec.twoPow_eq, BitVec.and_twoPow]
  cases set : (bitmap.base (p / 8)).getLsbD (p % 8) with
  | false => simp
  | true =>
      have nonzero : BitVec.twoPow 8 (p % 8) ≠ 0#8 := by
        intro zero
        have same := congrArg (fun value => value.getLsbD (p % 8)) zero
        simp [inByte] at same
      simp [nonzero]

theorem BitMap.put_used (bitmap : BitMap) (p q : Nat) (bit : Bool) :
    (bitmap.put p bit).used q = if q = p then bit else bitmap.used q := by
  have byte : ((p : Int).tdiv 8).toNat = p / 8 := by
    rw [Int.tdiv_eq_ediv_of_nonneg (Int.natCast_nonneg p)]
    omega
  have inner : ((p : Int).tmod 8).toNat = p % 8 := by
    rw [Int.tmod_eq_emod_of_nonneg (Int.natCast_nonneg p)]
    omega
  have inByte : p % 8 < 8 := Nat.mod_lt p (by decide)
  have qInByte : q % 8 < 8 := Nat.mod_lt q (by decide)
  unfold BitMap.put BitMap.used
  simp only [byte, inner, ← BitVec.twoPow_eq]
  by_cases sameByte : q / 8 = p / 8
  · rw [sameByte, Function.update_self]
    by_cases sameBit : q % 8 = p % 8
    · have same : q = p := by omega
      subst same
      cases bit <;> simp [inByte]
    · have different : q ≠ p := fun same => sameBit (by rw [same])
      cases bit <;> simp [different, sameBit, qInByte]
  · have different : q ≠ p := fun same => sameByte (by rw [same])
    rw [Function.update_of_ne sameByte, if_neg different]

@[simp] theorem BitMap.put_nbits (bitmap : BitMap) (position : Int) (bit : Bool) :
    (bitmap.put position bit).nbits = bitmap.nbits := rfl

/-! ### Runs of bits -/

private theorem bitmapFill_nbits (bitmap : BitMap) (index : Int) (bit up : Bool) (move : Int)
    (count : Nat) : (bitmapFill bitmap index bit up move count).nbits = bitmap.nbits := by
  induction count generalizing bitmap move with
  | zero => rfl
  | succ count ih =>
      change (if count > 0 then bitmapFill (bitmap.put (index + move) bit) index bit up
        (if up then move + 1 else move - 1) count else bitmap.put (index + move) bit).nbits = _
      split
      · exact ih (bitmap.put (index + move) bit) _
      · rfl

private theorem bitmapFill_used (bitmap : BitMap) (index move : Nat) (bit : Bool)
    (count q : Nat) :
    (bitmapFill bitmap index bit true move (count + 1)).used q =
      if index + move ≤ q ∧ q < index + move + (count + 1) then bit else bitmap.used q := by
  induction count generalizing bitmap move with
  | zero =>
      change (bitmap.put ((index : Int) + (move : Int)) bit).used q = _
      rw [← Int.natCast_add, BitMap.put_used]
      by_cases same : q = index + move
      · rw [if_pos same, if_pos (by omega)]
      · rw [if_neg same, if_neg (by omega)]
  | succ count ih =>
      change (bitmapFill (bitmap.put ((index : Int) + (move : Int)) bit) index bit true
        ((move : Int) + 1) (count + 1)).used q = _
      have moved : (move : Int) + 1 = ((move + 1 : Nat) : Int) := rfl
      rw [moved, ih, ← Int.natCast_add, BitMap.put_used]
      by_cases same : q = index + move
      · rw [if_neg (by omega), if_pos same, if_pos (by omega)]
      · by_cases inside : index + move ≤ q ∧ q < index + move + (count + 1 + 1)
        · rw [if_pos (by omega), if_pos inside]
        · rw [if_neg (by omega), if_neg same, if_neg inside]

/-- Filling upwards sets exactly the bits of the run. -/
theorem bitmapSetBits_used (bitmap : BitMap) (index count q : Nat) (bit : Bool)
    (positive : 1 ≤ count) :
    (bitmapSetBits bitmap index bit count true).used q =
      if index ≤ q ∧ q < index + count then bit else bitmap.used q := by
  obtain ⟨fewer, rfl⟩ : ∃ fewer, count = fewer + 1 := ⟨count - 1, by omega⟩
  exact bitmapFill_used bitmap index 0 bit fewer q

private theorem bitmapFill_used_down (bitmap : BitMap) (index moved : Nat) (bit : Bool)
    (count q : Nat) (room : moved + (count + 1) ≤ index) :
    (bitmapFill bitmap index bit false (-(moved + 1 : Nat)) (count + 1)).used q =
      if index - moved - (count + 1) ≤ q ∧ q < index - moved then bit else bitmap.used q := by
  have position : (index : Int) + -(moved + 1 : Nat) = ((index - (moved + 1) : Nat) : Int) := by
    omega
  induction count generalizing bitmap moved with
  | zero =>
      change (bitmap.put ((index : Int) + -(moved + 1 : Nat)) bit).used q = _
      rw [position, BitMap.put_used]
      by_cases same : q = index - (moved + 1)
      · rw [if_pos same, if_pos (by omega)]
      · rw [if_neg same, if_neg (by omega)]
  | succ count ih =>
      change (bitmapFill (bitmap.put ((index : Int) + -(moved + 1 : Nat)) bit) index bit false
        (-(moved + 1 : Nat) - 1) (count + 1)).used q = _
      have onward : (-(moved + 1 : Nat) - 1 : Int) = -(moved + 1 + 1 : Nat) := by omega
      rw [onward, ih _ (moved + 1) (by omega) (by omega), position, BitMap.put_used]
      by_cases same : q = index - (moved + 1)
      · rw [if_neg (by omega), if_pos same, if_pos (by omega)]
      · by_cases inside : index - moved - (count + 1 + 1) ≤ q ∧ q < index - moved
        · rw [if_pos (by omega), if_pos inside]
        · rw [if_neg (by omega), if_neg same, if_neg inside]

/-- Filling downwards sets exactly the bits below the index. -/
theorem bitmapSetBits_used_down (bitmap : BitMap) (index count q : Nat) (bit : Bool)
    (positive : 1 ≤ count) (room : count ≤ index) :
    (bitmapSetBits bitmap index bit count false).used q =
      if index - count ≤ q ∧ q < index then bit else bitmap.used q := by
  obtain ⟨fewer, rfl⟩ : ∃ fewer, count = fewer + 1 := ⟨count - 1, by omega⟩
  exact bitmapFill_used_down bitmap index 0 bit fewer q (by omega)

@[simp] theorem bitmapSetBits_nbits (bitmap : BitMap) (index : Int) (bit : Bool) (count : Nat)
    (up : Bool) : (bitmapSetBits bitmap index bit count up).nbits = bitmap.nbits :=
  bitmapFill_nbits bitmap index bit up _ count

/-- `count` consecutive clear bits from `start` on, all below `nbits`. -/
structure BitMap.FreeRun (bitmap : BitMap) (count start : Nat) : Prop where
  below : ((start + count : Nat) : Int) ≤ bitmap.nbits
  clear : ∀ p, start ≤ p → p < start + count → bitmap.used p = false

/-- What the search has learned when it reaches `cur`: the bits from `start` to `cur`
are clear and too few, and every earlier run meets a set bit. -/
private structure Searched (bitmap : BitMap) (count cur start : Nat) : Prop where
  ordered : start ≤ cur
  short : cur < start + count
  clear : ∀ p, start ≤ p → p < cur → bitmap.used p = false
  blocked : ∀ s, s < start → ∃ p, s ≤ p ∧ p < s + count ∧ bitmap.used p = true

private theorem Searched.no_earlier {bitmap : BitMap} {count cur start s : Nat}
    (searched : Searched bitmap count cur start) (earlier : s < start) :
    ¬ bitmap.FreeRun count s := by
  intro run
  obtain ⟨p, lower, upper, set⟩ := searched.blocked s earlier
  rw [run.clear p lower upper] at set
  cases set

private theorem bitmapSearch_spec (bitmap : BitMap) (count fuel cur start : Nat)
    (enough : bitmap.nbits < cur + fuel) (searched : Searched bitmap count cur start) :
    (∃ found : Nat, bitmapSearch bitmap count fuel cur start = some (found : Int) ∧
        bitmap.FreeRun count found ∧ ∀ s, s < found → ¬ bitmap.FreeRun count s) ∨
      (bitmapSearch bitmap count fuel cur start = none ∧ ∀ s, ¬ bitmap.FreeRun count s) := by
  have exhausted : ¬ (cur : Int) < bitmap.nbits → ∀ s, ¬ bitmap.FreeRun count s := by
    intro finished s run
    by_cases earlier : s < start
    · exact searched.no_earlier earlier run
    · have below := run.below
      have short := searched.short
      omega
  induction fuel generalizing cur start with
  | zero =>
      right
      exact ⟨rfl, exhausted (by omega)⟩
  | succ fuel ih =>
      have ordered := searched.ordered
      have short := searched.short
      have advanced : (cur : Int) + 1 = ((cur + 1 : Nat) : Int) := rfl
      unfold bitmapSearch
      by_cases more : (cur : Int) < bitmap.nbits
      · rw [if_pos more, bitmapGetBit_eq]
        cases set : bitmap.used cur with
        | true =>
            have restarted : Searched bitmap count (cur + 1) (cur + 1) := by
              constructor
              · exact Nat.le_refl _
              · omega
              · intro p lower upper
                omega
              · intro s earlier
                by_cases old : s < start
                · exact searched.blocked s old
                · exact ⟨cur, by omega, by omega, set⟩
            rw [if_pos rfl, advanced]
            apply ih (cur + 1) (cur + 1) (by omega) restarted
            intro finished s run
            by_cases earlier : s < cur + 1
            · exact restarted.no_earlier earlier run
            · have below := run.below
              omega
        | false =>
            rw [if_neg Bool.false_ne_true]
            have clear : ∀ p, start ≤ p → p < cur + 1 → bitmap.used p = false := by
              intro p lower upper
              by_cases isCur : p = cur
              · rw [isCur]
                exact set
              · exact searched.clear p lower (by omega)
            by_cases long : (cur : Int) + 1 - start ≥ count
            · rw [if_pos long]
              left
              refine ⟨start, rfl, ?_, fun s earlier => searched.no_earlier earlier⟩
              constructor
              · omega
              · intro p lower upper
                exact clear p lower (by omega)
            · rw [if_neg long, advanced]
              have extended : Searched bitmap count (cur + 1) start := by
                constructor
                · omega
                · omega
                · exact clear
                · exact searched.blocked
              apply ih (cur + 1) start (by omega) extended
              intro finished s run
              by_cases earlier : s < start
              · exact searched.no_earlier earlier run
              · have below := run.below
                omega
      · rw [if_neg more]
        right
        exact ⟨rfl, exhausted more⟩

/-- First fit: the least free run, whose bits are set, or -1 and no change. -/
theorem bitmapAllocBits_spec (bitmap : BitMap) (count : Nat) (positive : 1 ≤ count) :
    (∃ found : Nat,
        bitmapAllocBits bitmap count =
          (↑found, bitmapSetBits bitmap found true count true) ∧
        bitmap.FreeRun count found ∧ ∀ s, s < found → ¬ bitmap.FreeRun count s) ∨
      (bitmapAllocBits bitmap count = (-1, bitmap) ∧ ∀ s, ¬ bitmap.FreeRun count s) := by
  have searched : Searched bitmap count 0 0 := by
    constructor
    · exact Nat.le_refl 0
    · omega
    · intro p _ upper
      omega
    · intro s earlier
      omega
  have enough : bitmap.nbits < ((0 : Nat) : Int) + ((bitmap.nbits.toNat + 1 : Nat) : Int) := by
    omega
  rcases bitmapSearch_spec bitmap count (bitmap.nbits.toNat + 1) 0 0 enough searched with
    ⟨found, isFound, run, least⟩ | ⟨isNone, noRun⟩
  · left
    refine ⟨found, ?_, run, least⟩
    unfold bitmapAllocBits
    change bitmapSearch bitmap count (bitmap.nbits.toNat + 1) 0 0 = _ at isFound
    rw [isFound]
  · right
    refine ⟨?_, noRun⟩
    unfold bitmapAllocBits
    change bitmapSearch bitmap count (bitmap.nbits.toNat + 1) 0 0 = _ at isNone
    rw [isNone]

/-- What a call of `bitmap_alloc_bits(count)` may leave: the least free run is taken and
nothing else, or there is none and nothing changes. -/
inductive FirstFit (bitmap : BitMap) (count : Nat) : Int × BitMap → Prop
  | found {after : BitMap} (start : Nat) (run : bitmap.FreeRun count start)
      (least : ∀ s, s < start → ¬ bitmap.FreeRun count s) (nbits : after.nbits = bitmap.nbits)
      (bits : ∀ p, after.used p =
        if start ≤ p ∧ p < start + count then true else bitmap.used p) :
      FirstFit bitmap count (start, after)
  | none (noRun : ∀ s, ¬ bitmap.FreeRun count s) : FirstFit bitmap count (-1, bitmap)

theorem bitmapAllocBits_firstFit (bitmap : BitMap) (count : Nat) (positive : 1 ≤ count) :
    FirstFit bitmap count (bitmapAllocBits bitmap count) := by
  rcases bitmapAllocBits_spec bitmap count positive with
    ⟨start, result, run, least⟩ | ⟨result, noRun⟩
  · rw [result]
    exact FirstFit.found start run least (bitmapSetBits_nbits bitmap start true count true)
      (fun p => bitmapSetBits_used bitmap start count p true positive)
  · rw [result]
    exact FirstFit.none noRun

/-- Three bits of an empty bitmap. -/
theorem bitmapAllocBits_firstFit_empty :
    FirstFit { nbits := 16, base := fun _ => 0#8 } 3
      (bitmapAllocBits { nbits := 16, base := fun _ => 0#8 } 3) :=
  bitmapAllocBits_firstFit _ 3 (by decide)

end MangoOS
