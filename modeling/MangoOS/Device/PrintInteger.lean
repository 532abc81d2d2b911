/-
`print_integer` (lib/log.c): the characters of a number.

The parameter is unsigned, so the branch for negative numbers is never taken.
-/

import Mathlib.Data.Nat.Digits.Lemmas

namespace MangoOS

/-- Characters of a C string, or of what is printed. -/
abbrev Text := List (BitVec 8)

/-- `"0123456789abcdef"`. -/
def digitChars : Text :=
  [48, 49, 50, 51, 52, 53, 54, 55, 56, 57, 97, 98, 99, 100, 101, 102]

def digitChar (digit : Nat) : BitVec 8 := digitChars.getD digit 0

/-- The digits of `value` in front of those that `buffer` holds already; `room` of its places are
left. -/
def printIntegerLoop (base : Nat) : (room value : Nat) → (buffer : Text) → Text
  | 0, _, buffer => buffer
  | room + 1, value, buffer =>
      if value ≠ 0 then
        printIntegerLoop base room (value / base) (digitChar (value % base) :: buffer)
      else buffer

/-- What `print_integer` emits; `value` is an unsigned number. -/
def printInteger (value base : Nat) : Text :=
  if value = 0 then [48]
  else
    let (sign, value) :=
      if value < 0 ∧ base = 10 then ([45], (4294967296 - value) % 4294967296)
      else (([] : Text), value)
    sign ++ printIntegerLoop base 32 value []

/-! ### Numerals -/

def digitValue (c : BitVec 8) : Nat := if c.toNat < 58 then c.toNat - 48 else c.toNat - 87

/-- The number that a text of digits stands for. -/
def readDigits (base : Nat) (text : Text) : Nat :=
  Nat.ofDigits base (text.reverse.map digitValue)

/-- The text is the numeral of `n`, without leading zeros. -/
structure Numeral (base : Nat) (text : Text) (n : Nat) : Prop where
  digits : ∀ c, c ∈ text → ∃ digit, digit < base ∧ c = digitChar digit
  nonempty : text ≠ []
  leading : text.head? = some 48 → text = [48]
  reads : readDigits base text = n

/-- A numeral in base 10 with a sign in front of it if and only if the number is negative. -/
def SignedNumeral (text : Text) (z : Int) : Prop :=
  (z < 0 ∧ ∃ digits, text = 45 :: digits ∧ Numeral 10 digits (-z).toNat) ∨
    0 ≤ z ∧ Numeral 10 text z.toNat

/-! ### The digits in the buffer -/

theorem digitValue_digitChar {digit : Nat} (small : digit < 16) :
    digitValue (digitChar digit) = digit := by
  have all : ∀ digit : Fin 16, digitValue (digitChar digit) = digit := by decide
  exact all ⟨digit, small⟩

theorem digitChar_ne_sign {digit : Nat} (small : digit < 16) : digitChar digit ≠ 45 := by
  have all : ∀ digit : Fin 16, digitChar digit ≠ 45 := by decide
  exact all ⟨digit, small⟩

theorem digitChar_zero {digit : Nat} (small : digit < 16) (isZero : digitChar digit = 48) :
    digit = 0 := by
  have value := digitValue_digitChar small
  rw [isZero] at value
  exact value.symm

/-- In a buffer with room the loop leaves the digits of the value, highest first. -/
theorem printIntegerLoop_eq {base : Nat} (large : 1 < base) (room value : Nat) (buffer : Text)
    (fits : value < base ^ room) :
    printIntegerLoop base room value buffer =
      (Nat.digits base value).reverse.map digitChar ++ buffer := by
  induction room generalizing value buffer with
  | zero =>
      have zero : value = 0 := Nat.lt_one_iff.mp fits
      rw [printIntegerLoop, zero, Nat.digits_zero]
      rfl
  | succ room ih =>
      rw [printIntegerLoop]
      by_cases zero : value = 0
      · rw [if_neg (not_not.mpr zero), zero, Nat.digits_zero]
        rfl
      · have less : value / base < base ^ room := by
          rw [Nat.pow_succ, Nat.mul_comm] at fits
          exact Nat.div_lt_of_lt_mul fits
        rw [if_pos zero, ih _ _ less, Nat.digits_def' large (Nat.pos_of_ne_zero zero),
          List.reverse_cons, List.map_append, List.append_assoc]
        rfl

theorem printInteger_eq {base value : Nat} (large : 1 < base) (nonzero : value ≠ 0)
    (fits : value < base ^ 32) :
    printInteger value base = (Nat.digits base value).reverse.map digitChar := by
  have unsigned : ¬ (value < 0 ∧ base = 10) := fun negative => Nat.not_lt_zero value negative.1
  unfold printInteger
  rw [if_neg nonzero, if_neg unsigned]
  dsimp only
  rw [List.nil_append, printIntegerLoop_eq large 32 value [] fits, List.append_nil]

theorem readDigits_digits {base : Nat} (large : 1 < base) (small : base ≤ 16) (n : Nat) :
    readDigits base ((Nat.digits base n).reverse.map digitChar) = n := by
  have same : (Nat.digits base n).map (digitValue ∘ digitChar) = Nat.digits base n := by
    rw [List.map_congr_left (g := id), List.map_id]
    intro digit member
    exact digitValue_digitChar (Nat.lt_of_lt_of_le (Nat.digits_lt_base large member) small)
  unfold readDigits
  rw [← List.map_reverse, List.reverse_reverse, List.map_map, same, Nat.ofDigits_digits]

/-- `print_integer` prints the numeral of the unsigned value. -/
theorem printInteger_numeral {base value : Nat} (large : 1 < base) (small : base ≤ 16)
    (fits : value < base ^ 32) : Numeral base (printInteger value base) value := by
  by_cases zero : value = 0
  · subst zero
    refine ⟨?_, List.cons_ne_nil _ _, fun _ => rfl, rfl⟩
    intro c member
    exact ⟨0, by omega, List.mem_singleton.mp member⟩
  · rw [printInteger_eq large zero fits]
    have digits := Nat.digits_ne_nil_iff_ne_zero (b := base).mpr zero
    refine ⟨?_, ?_, ?_, readDigits_digits large small value⟩
    · intro c member
      obtain ⟨digit, inside, isChar⟩ := List.mem_map.mp member
      exact ⟨digit, Nat.digits_lt_base large (List.mem_reverse.mp inside), isChar.symm⟩
    · intro empty
      rw [List.map_eq_nil_iff, List.reverse_eq_nil_iff] at empty
      exact digits empty
    · -- the highest digit is not 0
      intro isZero
      rw [List.head?_map, List.head?_reverse, List.getLast?_eq_getLast_of_ne_nil digits,
        Option.map_some, Option.some.injEq] at isZero
      have inside := Nat.digits_lt_base large (List.getLast_mem digits)
      exact absurd (digitChar_zero (by omega) isZero) (Nat.getLast_digit_ne_zero base zero)

/-- The value is printed right in base 16, and in base 10 if and only if it is not negative as an
`int`. -/
theorem printInteger_right (value : BitVec 32) :
    Numeral 16 (printInteger value.toNat 16) value.toNat ∧
      (SignedNumeral (printInteger value.toNat 10) value.toInt ↔ value.toNat < 2147483648) := by
  have bounded := value.isLt
  have decimal : Numeral 10 (printInteger value.toNat 10) value.toNat :=
    printInteger_numeral (by decide) (by decide) (by omega)
  refine ⟨printInteger_numeral (by decide) (by decide) (by omega), ?_⟩
  constructor
  · rintro (⟨_, digits, isText, _⟩ | ⟨positive, _⟩)
    · have sign : 45 ∈ printInteger value.toNat 10 := by
        rw [isText]
        exact List.mem_cons_self ..
      obtain ⟨digit, small, isSign⟩ := decimal.digits 45 sign
      exact absurd isSign.symm (digitChar_ne_sign (by omega))
    · rw [BitVec.toInt_eq_toNat_cond] at positive
      by_contra large
      rw [if_neg (by omega)] at positive
      omega
  · intro small
    have same : value.toInt = value.toNat := by
      rw [BitVec.toInt_eq_toNat_cond, if_pos (by omega)]
    rw [same]
    exact Or.inr ⟨by omega, decimal⟩

/-- The `int` -1 is printed as 4294967295. -/
theorem printInteger_right_not :
    printInteger (4294967295#32).toNat 10 = [52, 50, 57, 52, 57, 54, 55, 50, 57, 53] ∧
      (4294967295#32).toInt = -1 ∧
        ¬ SignedNumeral (printInteger (4294967295#32).toNat 10) (4294967295#32).toInt := by
  refine ⟨by decide +kernel, by decide, ?_⟩
  rintro (⟨_, digits, isText, _⟩ | ⟨positive, _⟩)
  · have first := congrArg List.head? isText
    rw [List.head?_cons] at first
    exact absurd first (by decide +kernel)
  · exact absurd positive (by decide)

end MangoOS
