/-
Counters of what is free beside the marks of what is in use.

The items lie in pools.  Every pool counts its free items, and one more counter counts those of
all pools.
-/

import Mathlib.Algebra.BigOperators.Group.Finset.Basic
import MangoOS.Library.Counting

namespace MangoOS

/-- How many of the items are not in use. -/
def freeItems {α : Type} (items : Finset α) (used : α → Bool) : Nat :=
  pointing items (fun a => some (used a)) false

/-- A counter goes down by one; from 0 it goes anywhere else. -/
structure CountsDown (n next : Nat) : Prop where
  moves : next ≠ n
  down : 0 < n → next + 1 = n

/-- A counter in a machine word wraps below 0 to the largest word. -/
theorem CountsDown.wraps {n largest size : Nat} (isSize : size = largest + 1)
    (positive : 0 < largest) (small : n < size) : CountsDown n ((n + largest) % size) := by
  cases n with
  | zero =>
      rw [Nat.zero_add, Nat.mod_eq_of_lt (by omega)]
      exact ⟨by omega, fun more => absurd more (Nat.lt_irrefl 0)⟩
  | succ n =>
      rw [show n + 1 + largest = n + size by omega, Nat.add_mod_right,
        Nat.mod_eq_of_lt (by omega)]
      exact ⟨by omega, fun _ => rfl⟩

structure Ledger (ι α : Type) where
  used : ι → α → Bool
  free : ι → Nat
  total : Nat

namespace Ledger

variable {ι α : Type}

/-- The counters agree with the marks. -/
structure Balanced (ledger : Ledger ι α) (pools : Finset ι) (items : ι → Finset α) : Prop where
  free : ∀ i, i ∈ pools → ledger.free i = freeItems (items i) (ledger.used i)
  total : ledger.total = ∑ i ∈ pools, ledger.free i

/-- Item `a` of pool `i` is marked and counted, whether it was free or not. -/
structure Takes (ledger after : Ledger ι α) (i : ι) (a : α) : Prop where
  marked : after.used i a = true
  items : ∀ x, x ≠ a → after.used i x = ledger.used i x
  pools : ∀ j, j ≠ i → after.used j = ledger.used j ∧ after.free j = ledger.free j
  free : CountsDown (ledger.free i) (after.free i)
  total : CountsDown ledger.total after.total

/-- Item `a` of pool `i` is one of those that are counted, and it is free. -/
structure Spare (ledger : Ledger ι α) (pools : Finset ι) (items : ι → Finset α) (i : ι) (a : α) :
    Prop where
  pool : i ∈ pools
  item : a ∈ items i
  isFree : ledger.used i a = false

variable {ledger after : Ledger ι α} {pools : Finset ι} {items : ι → Finset α} {i : ι} {a : α}

theorem Takes.freeItems_spare [DecidableEq α] (takes : ledger.Takes after i a)
    (item : a ∈ items i) (isFree : ledger.used i a = false) :
    freeItems (items i) (ledger.used i) = freeItems (items i) (after.used i) + 1 := by
  unfold freeItems
  apply pointing_gain item
  · rw [takes.marked]
    decide
  · rw [isFree]
  · intro x different
    rw [takes.items x different]

theorem Takes.freeItems_same (takes : ledger.Takes after i a)
    (other : a ∈ items i → ledger.used i a = true) :
    freeItems (items i) (after.used i) = freeItems (items i) (ledger.used i) := by
  unfold freeItems
  apply pointing_congr
  intro x member
  by_cases same : x = a
  · rw [same] at member ⊢
    rw [takes.marked, other member]
  · rw [takes.items x same]

theorem Takes.sum_erase [DecidableEq ι] (takes : ledger.Takes after i a) (pools : Finset ι) :
    ∑ j ∈ pools.erase i, after.free j = ∑ j ∈ pools.erase i, ledger.free j :=
  Finset.sum_congr rfl fun j member => (takes.pools j (Finset.mem_erase.mp member).1).2

/-- The counters agree behind a step if and only if it takes a free item that is counted. -/
theorem Takes.balanced_iff [DecidableEq ι] [DecidableEq α] (takes : ledger.Takes after i a)
    (balanced : ledger.Balanced pools items) :
    after.Balanced pools items ↔ ledger.Spare pools items i a := by
  constructor
  · intro again
    have pool : i ∈ pools := by
      by_contra outside
      have same := takes.sum_erase pools
      rw [Finset.erase_eq_of_notMem outside, ← again.total, ← balanced.total] at same
      exact takes.total.moves same
    have notSame : ¬ (a ∈ items i → ledger.used i a = true) := by
      intro other
      apply takes.free.moves
      rw [again.free i pool, balanced.free i pool]
      exact takes.freeItems_same other
    obtain ⟨item, isFree⟩ := Classical.not_imp.mp notSame
    exact ⟨pool, item, Bool.eq_false_iff.mpr isFree⟩
  · intro spare
    have one := takes.freeItems_spare spare.item spare.isFree
    rw [← balanced.free i spare.pool] at one
    have less := takes.free.down (by omega)
    constructor
    · intro j member
      by_cases same : j = i
      · rw [same]
        omega
      · rw [(takes.pools j same).1, (takes.pools j same).2]
        exact balanced.free j member
    · have sum := Finset.add_sum_erase pools ledger.free spare.pool
      have sumAfter := Finset.add_sum_erase pools after.free spare.pool
      have total := balanced.total
      rw [takes.sum_erase] at sumAfter
      have lessTotal := takes.total.down (by omega)
      omega

end Ledger

end MangoOS
