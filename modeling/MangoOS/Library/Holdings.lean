/-
Who holds what, where every thing has at most one holder.

`holds a b` says that `a` holds `b`, and `taken b` that `b` is given out.  Things are given out
and come back; a thing that nobody holds may be given out all the same.
-/

import Mathlib.Tactic.Cases
import Mathlib.Tactic.ByContra

namespace MangoOS

variable {α β : Type}

/-- No thing has two holders, and what is held is given out. -/
structure Booked (holds : α → β → Prop) (taken : β → Prop) : Prop where
  one : ∀ {a other b}, holds a b → holds other b → a = other
  taken : ∀ {a b}, holds a b → taken b

namespace Booked

variable {holds later : α → β → Prop} {taken given : β → Prop}

/-- What is new was free before, and no two holders get the same. -/
theorem grow (booked : Booked holds taken) (kept : ∀ b, taken b → given b)
    (new : ∀ a b, later a b → holds a b ∨ (¬ taken b ∧ given b))
    (apart : ∀ a other b, ¬ taken b → later a b → later other b → a = other) :
    Booked later given where
  one := by
    intro a other b first second
    by_cases before : taken b
    · have old := (new a b first).resolve_right (fun fresh => fresh.1 before)
      have oldOther := (new other b second).resolve_right (fun fresh => fresh.1 before)
      exact booked.one old oldOther
    · exact apart a other b before first second
  taken := by
    intro a b held
    rcases new a b held with old | fresh
    · exact kept b (booked.taken old)
    · exact fresh.2

/-- Nobody holds more than before. -/
theorem shrink (booked : Booked holds taken) (kept : ∀ b, taken b → given b)
    (fewer : ∀ a b, later a b → holds a b) : Booked later given :=
  booked.grow kept (fun a b held => Or.inl (fewer a b held))
    (fun a _ b free held _ => absurd (booked.taken (fewer a b held)) free)

/-- One holder gets one thing that was free. -/
theorem add (booked : Booked holds taken) {a : α} {b : β} (free : ¬ taken b)
    (kept : ∀ x, given x ↔ taken x ∨ x = b)
    (new : ∀ x y, later x y → holds x y ∨ (x = a ∧ y = b)) : Booked later given := by
  apply booked.grow
  · exact fun x before => (kept x).mpr (Or.inl before)
  · intro x y held
    rcases new x y held with old | ⟨_, same⟩
    · exact Or.inl old
    · rw [same]
      exact Or.inr ⟨free, (kept b).mpr (Or.inr rfl)⟩
  · intro x other y unheld first second
    have here := (new x y first).resolve_left (fun old => unheld (booked.taken old))
    have there := (new other y second).resolve_left (fun old => unheld (booked.taken old))
    rw [here.1, there.1]

/-- What comes back was held by somebody who lets go of it. -/
theorem release (booked : Booked holds taken) (fewer : ∀ a b, later a b → holds a b)
    (back : ∀ b, taken b → ¬ given b → ∃ a, holds a b ∧ ¬ later a b) : Booked later given where
  one := fun first second => booked.one (fewer _ _ first) (fewer _ _ second)
  taken := by
    intro a b held
    by_contra freed
    obtain ⟨other, hadIt, letGo⟩ := back b (booked.taken (fewer a b held)) freed
    rw [booked.one hadIt (fewer a b held)] at letGo
    exact letGo held

end Booked

end MangoOS
