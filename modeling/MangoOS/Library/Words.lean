/-
Fixed-width C integers as integers with explicit wrap-around.
-/

import Mathlib.Data.Int.Basic

namespace MangoOS

/-- The value a C `int` holds after an operation with exact result `value`. -/
@[irreducible] def int32 (value : Int) : Int :=
  (value + 2147483648) % 4294967296 - 2147483648

theorem int32_of_range {value : Int} (lower : -2147483648 ≤ value)
    (upper : value < 2147483648) : int32 value = value := by
  unfold int32
  omega

theorem int32_bounds (value : Int) :
    -2147483648 ≤ int32 value ∧ int32 value < 2147483648 := by
  unfold int32
  omega

theorem int32_add (value more : Int) : int32 (int32 value + more) = int32 (value + more) := by
  unfold int32
  omega

/-- The `uint` a C `int` converts to. -/
def uint32 (value : Int) : Nat := (value % 4294967296).toNat

theorem int32_int32 (value : Int) : int32 (int32 value) = int32 value := by
  unfold int32
  omega

theorem int32_add_int32 (value more : Int) :
    int32 (value + int32 more) = int32 (value + more) := by
  unfold int32
  omega

theorem uint32_of_range {value : Int} (lower : 0 ≤ value) (upper : value < 4294967296) :
    (uint32 value : Int) = value := by
  unfold uint32
  omega

theorem uint32_lt (value : Int) : uint32 value < 4294967296 := by
  unfold uint32
  omega

/-- An `int` converts to the `uint` of its exact value. -/
theorem uint32_of_int32 (value : Int) : uint32 (int32 value) = uint32 value := by
  unfold uint32 int32
  omega

theorem uint32_add (value more : Int) : uint32 (uint32 value + more) = uint32 (value + more) := by
  unfold uint32
  omega

theorem uint32_add_int32 (value more : Int) :
    uint32 (value + int32 more) = uint32 (value + more) := by
  unfold uint32 int32
  omega

/-- A product computed as `int` and stored as `uint` is exact below 2^32. -/
theorem uint32_int32 {value : Nat} (upper : value < 4294967296) :
    uint32 (int32 value) = value := by
  unfold uint32 int32
  omega

end MangoOS
