/-
How many places of a finite set point target a value.
-/

import Mathlib.Data.Finset.Prod

namespace MangoOS

section Pointing

variable {α β : Type} [DecidableEq β]

def pointing (places : Finset α) (target : α → Option β) (b : β) : Nat :=
  (places.filter (fun a => target a = some b)).card

variable {places more : Finset α} {target other : α → Option β} {b : β}

theorem pointing_congr (same : ∀ a, a ∈ places → (other a = some b ↔ target a = some b)) :
    pointing places other b = pointing places target b := by
  unfold pointing
  rw [Finset.filter_congr same]

theorem pointing_none (none : ∀ a, a ∈ places → target a ≠ some b) : pointing places target b = 0 :=
  Finset.card_eq_zero.mpr (Finset.filter_eq_empty_iff.mpr fun a member => none a member)

theorem pointing_union [DecidableEq α] (apart : Disjoint places more) :
    pointing (places ∪ more) target b = pointing places target b + pointing more target b := by
  unfold pointing
  rw [Finset.filter_union, Finset.card_union_of_disjoint]
  exact Finset.disjoint_filter_filter apart

theorem pointing_map {γ : Type} (e : γ ↪ α) (sources : Finset γ) :
    pointing (sources.map e) target b = pointing sources (fun c => target (e c)) b := by
  unfold pointing
  rw [Finset.filter_map, Finset.card_map]
  rfl

theorem pointing_lt (keeps : ∀ a, a ∈ places → target a = some b → other a = some b) {a : α}
    (member : a ∈ places) (before : target a ≠ some b) (after : other a = some b) :
    pointing places target b < pointing places other b := by
  apply Finset.card_lt_card
  rw [Finset.ssubset_iff_of_subset]
  · refine ⟨a, Finset.mem_filter.mpr ⟨member, after⟩, ?_⟩
    exact fun inside => before (Finset.mem_filter.mp inside).2
  · intro x inside
    obtain ⟨inPlaces, points⟩ := Finset.mem_filter.mp inside
    exact Finset.mem_filter.mpr ⟨inPlaces, keeps x inPlaces points⟩

theorem pointing_insert [DecidableEq α] {a : α} (fresh : a ∉ places) :
    pointing (insert a places) target b =
      pointing places target b + if target a = some b then 1 else 0 := by
  unfold pointing
  rw [Finset.filter_insert]
  by_cases points : target a = some b
  · rw [if_pos points, if_pos points, Finset.card_insert_of_notMem]
    exact fun inside => fresh (Finset.mem_filter.mp inside).1
  · rw [if_neg points, if_neg points, Nat.add_zero]

/-- A place that pointed elsewhere now points to `b`. -/
theorem pointing_gain [DecidableEq α] {a : α} (member : a ∈ places) (before : target a ≠ some b)
    (after : other a = some b) (same : ∀ x, x ≠ a → other x = target x) :
    pointing places other b = pointing places target b + 1 := by
  have gained : places.filter (fun x => other x = some b) =
      insert a (places.filter (fun x => target x = some b)) := by
    ext x
    rw [Finset.mem_insert, Finset.mem_filter, Finset.mem_filter]
    cases decEq x a with
    | isTrue equal =>
        rw [equal]
        exact ⟨fun _ => Or.inl rfl, fun _ => ⟨member, after⟩⟩
    | isFalse different =>
        rw [same x different]
        exact ⟨fun inside => Or.inr inside, fun inside => inside.resolve_left different⟩
  unfold pointing
  rw [gained, Finset.card_insert_of_notMem]
  intro inside
  exact before (Finset.mem_filter.mp inside).2

end Pointing

end MangoOS
