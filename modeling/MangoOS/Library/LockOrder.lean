/-
Locks that every thread takes in the order of a rank: what a thread holds after its steps, and why
no threads wait for each other in a circle.
-/

import Mathlib.Logic.Relation
import Mathlib.Tactic.ByContra

namespace MangoOS

namespace LockOrder

variable {Lock : Type} [DecidableEq Lock]

/-- What a thread does with its locks. -/
inductive Step (Lock : Type)
  | acquire (l : Lock)
  | release (l : Lock)
  /-- The thread pauses, which it may do without a lock only. -/
  | pause
  /-- The thread waits for an event with `l` as its last lock. -/
  | await (l : Lock)

/-- The locks that are held, the last one first. -/
def hold (rank : Lock → Nat) (held : List Lock) : Step Lock → Option (List Lock)
  | .acquire l => if ∀ h ∈ held, rank h < rank l then some (l :: held) else none
  | .release l => if held.head? = some l then some held.tail else none
  | .pause => if held = [] then some held else none
  | .await l => if held.head? = some l then some held else none

def holds (rank : Lock → Nat) (held : List Lock) (steps : List (Step Lock)) :
    Option (List Lock) :=
  steps.foldlM (hold rank) held

/-- Ranks go down from the last lock to the first. -/
def Descending (rank : Lock → Nat) (held : List Lock) : Prop :=
  held.Pairwise fun later earlier => rank earlier < rank later

section Steps

variable {rank : Lock → Nat} {held after : List Lock} {l : Lock}

theorem holds_append (held : List Lock) (first second : List (Step Lock)) :
    holds rank held (first ++ second) =
      (holds rank held first).bind (fun between => holds rank between second) :=
  List.foldlM_append ..

theorem holds_cons_eq (held : List Lock) (step : Step Lock) (steps : List (Step Lock)) :
    holds rank held (step :: steps) =
      (hold rank held step).bind (fun between => holds rank between steps) :=
  List.foldlM_cons ..

theorem holds_cons {step : Step Lock} {steps : List (Step Lock)}
    (follows : holds rank held (step :: steps) = some after) :
    ∃ between, hold rank held step = some between ∧ holds rank between steps = some after := by
  rw [holds_cons_eq] at follows
  exact Option.bind_eq_some_iff.mp follows

/-- A thread that follows the order has followed it so far. -/
theorem holds_prefix {first second : List (Step Lock)}
    (follows : holds rank held (first ++ second) = some after) :
    ∃ between, holds rank held first = some between ∧ holds rank between second = some after := by
  rw [holds_append] at follows
  exact Option.bind_eq_some_iff.mp follows

theorem hold_acquire (stepped : hold rank held (.acquire l) = some after) :
    after = l :: held ∧ ∀ h ∈ held, rank h < rank l := by
  unfold hold at stepped
  dsimp only at stepped
  split at stepped
  next above => exact ⟨(Option.some.inj stepped).symm, above⟩
  next => cases stepped

theorem hold_release (stepped : hold rank held (.release l) = some after) :
    held = l :: after := by
  unfold hold at stepped
  dsimp only at stepped
  split at stepped
  next last =>
      cases held with
      | nil => cases last
      | cons h rest =>
          cases last
          cases stepped
          rfl
  next => cases stepped

theorem hold_pause (stepped : hold rank held .pause = some after) : held = [] ∧ after = [] := by
  unfold hold at stepped
  dsimp only at stepped
  split at stepped
  next none =>
      cases stepped
      exact ⟨none, none⟩
  next => cases stepped

theorem hold_await (stepped : hold rank held (.await l) = some after) :
    after = held ∧ held.head? = some l := by
  unfold hold at stepped
  dsimp only at stepped
  split at stepped
  next last => exact ⟨(Option.some.inj stepped).symm, last⟩
  next => cases stepped

theorem Descending.hold {step : Step Lock} (descending : Descending rank held)
    (stepped : hold rank held step = some after) : Descending rank after := by
  cases step with
  | acquire l =>
      obtain ⟨rfl, above⟩ := hold_acquire stepped
      exact List.Pairwise.cons above descending
  | release l =>
      rw [hold_release stepped] at descending
      exact (List.pairwise_cons.mp descending).2
  | pause =>
      rw [(hold_pause stepped).2]
      exact List.Pairwise.nil
  | await l =>
      rw [(hold_await stepped).1]
      exact descending

theorem Descending.holds {steps : List (Step Lock)} (descending : Descending rank held)
    (follows : holds rank held steps = some after) : Descending rank after := by
  induction steps generalizing held with
  | nil =>
      cases follows
      exact descending
  | cons step steps ih =>
      obtain ⟨between, stepped, rest⟩ := holds_cons follows
      exact ih (descending.hold stepped) rest

end Steps

/-! ### Sections -/

/-- A piece of code that gives back what it takes, and takes only locks from `low` on. -/
def Balanced (rank : Lock → Nat) (low : Nat) (steps : List (Step Lock)) : Prop :=
  ∀ held, (∀ h ∈ held, rank h < low) → holds rank held steps = some held

/-- What a thread does between taking a lock and releasing it. -/
def Inside (rank : Lock → Nat) (l : Lock) (steps : List (Step Lock)) : Prop :=
  ∀ held, (∀ h ∈ held, rank h < rank l) → holds rank (l :: held) steps = some (l :: held)

section Sections

variable {rank : Lock → Nat} {low high : Nat} {l : Lock} {first second : List (Step Lock)}

theorem Balanced.nil (low : Nat) : Balanced rank low [] := fun _ _ => rfl

theorem Balanced.append (left : Balanced rank low first) (right : Balanced rank low second) :
    Balanced rank low (first ++ second) := by
  intro held below
  rw [holds_append, left held below]
  exact right held below

theorem Balanced.mono (balanced : Balanced rank high first) (le : low ≤ high) :
    Balanced rank low first :=
  fun held below => balanced held fun h member => Nat.lt_of_lt_of_le (below h member) le

theorem Balanced.pause : Balanced rank 0 [.pause] := by
  intro held below
  cases held with
  | nil => rfl
  | cons h rest => exact absurd (below h List.mem_cons_self) (Nat.not_lt_zero _)

theorem Balanced.inside (balanced : Balanced rank (rank l + 1) first) : Inside rank l first := by
  intro held below
  apply balanced
  intro h member
  rcases List.mem_cons.mp member with rfl | older
  · exact Nat.lt_succ_self _
  · exact Nat.lt_succ_of_lt (below h older)

theorem Inside.awaits (n : Nat) : Inside rank l (List.replicate n (.await l)) := by
  intro held below
  induction n with
  | zero => rfl
  | succ n ih =>
      rw [List.replicate_succ, holds_cons_eq]
      unfold hold
      dsimp only
      rw [List.head?_cons, if_pos rfl]
      exact ih

theorem Inside.locked (body : Inside rank l first) (le : low ≤ rank l) :
    Balanced rank low (.acquire l :: first ++ [.release l]) := by
  intro held below
  have above : ∀ h ∈ held, rank h < rank l :=
    fun h member => Nat.lt_of_lt_of_le (below h member) le
  have acquired : hold rank held (.acquire l) = some (l :: held) := if_pos above
  rw [List.cons_append, holds_cons_eq, acquired]
  change holds rank (l :: held) (first ++ [.release l]) = some held
  have released : hold rank (l :: held) (.release l) = some held := if_pos rfl
  rw [holds_append, body held above, Option.bind_some, holds_cons_eq, released]
  rfl

end Sections

/-! ### Who waits for whom -/

section Waiting

variable {Thread : Type} {Waits Owns : Thread → Lock → Prop} {rank : Lock → Nat}

/-- The thread waits for a lock of the other one. -/
def Behind (Waits Owns : Thread → Lock → Prop) (t o : Thread) : Prop := ∃ l, Waits t l ∧ Owns o l

omit [DecidableEq Lock] in
/-- Along a chain the ranks go up. -/
theorem behind_rank (ordered : ∀ o l l', Owns o l → Waits o l' → rank l < rank l')
    (single : ∀ t l l', Waits t l → Waits t l' → l = l') {t o : Thread}
    (chain : Relation.TransGen (Behind Waits Owns) t o) {l l' : Lock} (waits : Waits t l)
    (later : Waits o l') : rank l < rank l' := by
  induction chain generalizing l' with
  | single link =>
      obtain ⟨wanted, wants, owns⟩ := link
      rw [single _ _ _ waits wants]
      exact ordered _ _ _ owns later
  | tail chain link ih =>
      obtain ⟨wanted, wants, owns⟩ := link
      exact Nat.lt_trans (ih wants) (ordered _ _ _ owns later)

omit [DecidableEq Lock] in
theorem no_circle (ordered : ∀ o l l', Owns o l → Waits o l' → rank l < rank l')
    (single : ∀ t l l', Waits t l → Waits t l' → l = l') (t : Thread) :
    ¬ Relation.TransGen (Behind Waits Owns) t t := by
  intro circle
  obtain ⟨_, ⟨l, waits, _⟩, _⟩ := Relation.TransGen.head'_iff.mp circle
  exact Nat.lt_irrefl _ (behind_rank ordered single circle waits waits)

omit [DecidableEq Lock] in
/-- Every chain of waiting threads ends with an owner that waits for no lock. -/
theorem exists_last {bound : Nat} (owned : ∀ t l, Waits t l → ∃ o, Owns o l)
    (ordered : ∀ o l l', Owns o l → Waits o l' → rank l < rank l')
    (bounded : ∀ l, rank l ≤ bound) {t : Thread} {l : Lock} (waits : Waits t l) :
    ∃ o l', Relation.TransGen (Behind Waits Owns) t o ∧ Owns o l' ∧ ∀ l'', ¬ Waits o l'' := by
  induction distance : bound - rank l using Nat.strongRecOn generalizing t l with
  | ind n ih =>
      obtain ⟨o, owns⟩ := owned t l waits
      by_cases blocked : ∃ l', Waits o l'
      · obtain ⟨l', later⟩ := blocked
        have above := ordered o l l' owns later
        have inside := bounded l'
        obtain ⟨last, held, chain, ownsLast, free⟩ := ih (bound - rank l') (by omega) later rfl
        exact ⟨last, held, chain.head ⟨l, waits, owns⟩, ownsLast, free⟩
      · exact ⟨o, l, Relation.TransGen.single ⟨l, waits, owns⟩, owns,
          fun l' later => blocked ⟨l', later⟩⟩

end Waiting

end LockOrder

end MangoOS
