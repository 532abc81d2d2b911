/-
Loops that run with fuel, round by round.

A round stops the loop, passes on to the next round, or does neither: then the loop does not
return.  A round may itself need fuel, of which it gets the same amount every time.
-/

import Mathlib.Data.Nat.Find

namespace MangoOS

/-- `returns rounds fuel r`: from round `r` on the loop returns, with `fuel` for its rounds and
`rounds` for what happens in each. -/
structure Rounds (returns : Nat → Nat → Nat → Prop) (Stops Passes : Nat → Prop) : Prop where
  zero : ∀ rounds r, ¬ returns rounds 0 r
  stops : ∀ r, Stops r → ∃ enough, ∀ rounds fuel, enough ≤ rounds → returns rounds (fuel + 1) r
  passes : ∀ r, Passes r → ∃ enough, ∀ rounds fuel, enough ≤ rounds →
    returns rounds fuel (r + 1) → returns rounds (fuel + 1) r
  cases : ∀ rounds fuel r, returns rounds (fuel + 1) r →
    Stops r ∨ Passes r ∧ returns rounds fuel (r + 1)

namespace Rounds

variable {returns : Nat → Nat → Nat → Prop} {Stops Passes Ends : Nat → Prop}

/-- A loop that returns has passed some rounds and stopped at one. -/
theorem first_of_returns (loop : Rounds returns Stops Passes) {rounds : Nat} :
    ∀ fuel r, returns rounds fuel r →
      ∃ n, r ≤ n ∧ Stops n ∧ ∀ j, r ≤ j → j < n → Passes j := by
  intro fuel
  induction fuel with
  | zero =>
      intro r isBack
      exact absurd isBack (loop.zero rounds r)
  | succ fuel ih =>
      intro r isBack
      rcases loop.cases rounds fuel r isBack with stop | ⟨pass, rest⟩
      · exact ⟨r, Nat.le_refl r, stop, fun j lower upper => absurd upper (Nat.not_lt.mpr lower)⟩
      · obtain ⟨n, later, stop, between⟩ := ih (r + 1) rest
        refine ⟨n, by omega, stop, ?_⟩
        intro j lower upper
        by_cases same : j = r
        · rw [same]
          exact pass
        · exact between j (by omega) upper

/-- And one that does so returns, if it has enough fuel. -/
theorem returns_of_first (loop : Rounds returns Stops Passes) {n : Nat} (stop : Stops n) :
    ∀ left r, r + left = n → (∀ j, r ≤ j → j < n → Passes j) →
      ∃ enough, ∀ rounds fuel, enough ≤ rounds → enough ≤ fuel → returns rounds fuel r := by
  intro left
  induction left with
  | zero =>
      intro r ends _
      obtain ⟨enough, isBack⟩ := loop.stops n stop
      refine ⟨enough + 1, ?_⟩
      intro rounds fuel manyRounds muchFuel
      obtain ⟨fuel, rfl⟩ : ∃ fewer, fuel = fewer + 1 := ⟨fuel - 1, by omega⟩
      rw [show r = n by omega]
      exact isBack rounds fuel (by omega)
  | succ left ih =>
      intro r ends between
      obtain ⟨enough, goesOn⟩ := loop.passes r (between r (Nat.le_refl r) (by omega))
      obtain ⟨later, isBack⟩ := ih (r + 1) (by omega) (fun j lower => between j (by omega))
      refine ⟨enough + later + 1, ?_⟩
      intro rounds fuel manyRounds muchFuel
      obtain ⟨fuel, rfl⟩ : ∃ fewer, fuel = fewer + 1 := ⟨fuel - 1, by omega⟩
      exact goesOn rounds fuel (by omega) (isBack rounds fuel (by omega) (by omega))

theorem returns_iff (loop : Rounds returns Stops Passes) :
    (∃ fuel, returns fuel fuel 0) ↔ ∃ n, Stops n ∧ ∀ j, j < n → Passes j := by
  constructor
  · rintro ⟨fuel, isBack⟩
    obtain ⟨n, _, stop, before⟩ := loop.first_of_returns fuel 0 isBack
    exact ⟨n, stop, fun j => before j (Nat.zero_le j)⟩
  · rintro ⟨n, stop, before⟩
    obtain ⟨enough, isBack⟩ := loop.returns_of_first stop n 0 (Nat.zero_add n)
      (fun j _ => before j)
    exact ⟨enough, isBack enough enough (Nat.le_refl _) (Nat.le_refl _)⟩

/-- Some round is the first to stop if and only if some round ends the loop and no round that
the loop comes to does neither. -/
theorem first_iff (stops : ∀ r, Stops r → Ends r) (passes : ∀ r, Passes r → ¬ Ends r) :
    (∃ n, Stops n ∧ ∀ j, j < n → Passes j) ↔
      (∀ r, (∀ j, j < r → Passes j) → Stops r ∨ Passes r) ∧ ∃ r, Ends r := by
  constructor
  · rintro ⟨n, stop, before⟩
    refine ⟨?_, n, stops n stop⟩
    intro r visited
    rcases Nat.lt_trichotomy r n with less | same | more
    · exact Or.inr (before r less)
    · exact Or.inl (same ▸ stop)
    · exact absurd (stops n stop) (passes n (visited n more))
  · rintro ⟨advances, r, ends⟩
    have blocked : ∃ n, ¬ Passes n := ⟨r, fun pass => passes r pass ends⟩
    classical
    have before : ∀ j, j < Nat.find blocked → Passes j :=
      fun j less => not_not.mp (Nat.find_min blocked less)
    exact ⟨Nat.find blocked, (advances _ before).resolve_right (Nat.find_spec blocked), before⟩

end Rounds

end MangoOS
