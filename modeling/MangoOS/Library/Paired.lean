/-
Two runs side by side.

A step that does not return ends its run.  A relation between the states that each pair of steps
carries on, with equal answers, holds as far as the runs go, and they go equally far.
-/

namespace MangoOS

variable {σ τ ρ α β γ δ : Type}

/-- The state before step `n`. -/
def runState (step : Nat → σ → Option (ρ × σ)) (start : σ) : Nat → Option σ
  | 0 => some start
  | n + 1 => (runState step start n).bind fun s => (step n s).map Prod.snd

/-- What step `n` returns. -/
def runAnswer (step : Nat → σ → Option (ρ × σ)) (start : σ) (n : Nat) : Option ρ :=
  (runState step start n).bind fun s => (step n s).map Prod.fst

/-- The steps return the same, and then the states are related. -/
def StepsAlike (R : σ → τ → Prop) : Option (ρ × σ) → Option (ρ × τ) → Prop :=
  Option.Rel fun a b => a.1 = b.1 ∧ R a.2 b.2

/-! ### Related options -/

theorem rel_cases {R : α → β → Prop} {a : Option α} {b : Option β} (related : Option.Rel R a b) :
    a = none ∧ b = none ∨ ∃ x y, a = some x ∧ b = some y ∧ R x y := by
  cases related with
  | some both => exact Or.inr ⟨_, _, rfl, rfl, both⟩
  | none => exact Or.inl ⟨rfl, rfl⟩

theorem rel_mono {R S : α → β → Prop} {a : Option α} {b : Option β} (related : Option.Rel R a b)
    (implies : ∀ x y, a = some x → b = some y → R x y → S x y) : Option.Rel S a b := by
  cases related with
  | some both => exact .some (implies _ _ rfl rfl both)
  | none => exact .none

theorem rel_bind {R : α → β → Prop} {S : γ → δ → Prop} {a : Option α} {b : Option β}
    {f : α → Option γ} {g : β → Option δ} (related : Option.Rel R a b)
    (keeps : ∀ x y, a = some x → b = some y → R x y → Option.Rel S (f x) (g y)) :
    Option.Rel S (a.bind f) (b.bind g) := by
  cases related with
  | some both => exact keeps _ _ rfl rfl both
  | none => exact .none

theorem rel_map {R : α → β → Prop} {S : γ → δ → Prop} {a : Option α} {b : Option β}
    {f : α → γ} {g : β → δ} (related : Option.Rel R a b)
    (keeps : ∀ x y, R x y → S (f x) (g y)) : Option.Rel S (a.map f) (b.map g) := by
  cases related with
  | some both => exact .some (keeps _ _ both)
  | none => exact .none

theorem eq_of_rel {a b : Option α} (related : Option.Rel Eq a b) : a = b := by
  cases related with
  | some same => rw [same]
  | none => rfl

/-! ### Runs -/

section Paired

variable {R : Nat → σ → τ → Prop} {first : Nat → σ → Option (ρ × σ)}
  {second : Nat → τ → Option (ρ × τ)} {s : σ} {t : τ}

theorem runs_related (starts : R 0 s t)
    (keeps : ∀ n s' t', runState first s n = some s' → runState second t n = some t' →
      R n s' t' → StepsAlike (R (n + 1)) (first n s') (second n t')) (n : Nat) :
    Option.Rel (R n) (runState first s n) (runState second t n) := by
  induction n with
  | zero => exact .some starts
  | succ n ih =>
      refine rel_bind ih ?_
      intro s' t' left right related
      exact rel_map (keeps n s' t' left right related) fun _ _ both => both.2

theorem runs_answer (starts : R 0 s t)
    (keeps : ∀ n s' t', runState first s n = some s' → runState second t n = some t' →
      R n s' t' → StepsAlike (R (n + 1)) (first n s') (second n t')) (n : Nat) :
    runAnswer first s n = runAnswer second t n := by
  apply eq_of_rel
  refine rel_bind (runs_related starts keeps n) ?_
  intro s' t' left right related
  exact rel_map (keeps n s' t' left right related) fun _ _ both => both.1

end Paired

end MangoOS
