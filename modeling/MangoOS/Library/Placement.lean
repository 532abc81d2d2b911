/-
Items placed on first-in first-out queues.

A placement says which item stands where: every queue holds each item at most
once and no item is on two queues.  Both facts are fields, so an operation that
loses or duplicates an item cannot be written down.
-/

import Mathlib.Data.List.Nodup

namespace MangoOS

structure Placement (Queue Item : Type) where
  on : Queue → List Item
  nodup : ∀ queue, (on queue).Nodup
  unique : ∀ left right item, item ∈ on left → item ∈ on right → left = right

namespace Placement

variable {Queue Item : Type}

def empty (Queue Item : Type) : Placement Queue Item where
  on := fun _ => []
  nodup := fun _ => List.nodup_nil
  unique := by
    intro left right item member
    cases member

/-- The item is on some queue. -/
def Placed (place : Placement Queue Item) (item : Item) : Prop :=
  ∃ queue, item ∈ place.on queue

section Operations

variable [DecidableEq Queue] [DecidableEq Item]

/-- Put an item that is on no queue at the end of one. -/
def append (place : Placement Queue Item) (queue : Queue) (item : Item)
    (fresh : ¬ place.Placed item) : Placement Queue Item where
  on := fun other =>
    if other = queue then place.on other ++ [item] else place.on other
  nodup := by
    intro other
    split
    · exact List.Nodup.append (place.nodup other) (List.nodup_singleton item)
        (List.disjoint_singleton.mpr (fun member => fresh ⟨other, member⟩))
    · exact place.nodup other
  unique := by
    intro left right other inLeft inRight
    have absent : ∀ queue, item ∉ place.on queue :=
      fun queue member => fresh ⟨queue, member⟩
    have old := place.unique left right other
    grind

/-- Take an item off whatever queue it is on. -/
def remove (place : Placement Queue Item) (item : Item) : Placement Queue Item where
  on := fun queue => (place.on queue).erase item
  nodup := fun queue => (place.nodup queue).erase item
  unique := by
    intro left right other inLeft inRight
    exact place.unique left right other (List.mem_of_mem_erase inLeft)
      (List.mem_of_mem_erase inRight)

omit [DecidableEq Queue] in
theorem mem_remove (place : Placement Queue Item) (item other : Item) (queue : Queue) :
    other ∈ (place.remove item).on queue ↔ other ≠ item ∧ other ∈ place.on queue := by
  exact (place.nodup queue).mem_erase_iff

omit [DecidableEq Queue] in
theorem not_placed_remove (place : Placement Queue Item) (item : Item) :
    ¬ (place.remove item).Placed item := by
  rintro ⟨queue, member⟩
  exact ((place.mem_remove item item queue).mp member).1 rfl

/-- Take an item off its queue and put it at the end of another (or the same). -/
def move (place : Placement Queue Item) (item : Item) (queue : Queue) :
    Placement Queue Item :=
  (place.remove item).append queue item (place.not_placed_remove item)

omit [DecidableEq Item] in
theorem append_on (place : Placement Queue Item) (queue other : Queue) (item : Item)
    (fresh : ¬ place.Placed item) :
    (place.append queue item fresh).on other =
      if other = queue then place.on other ++ [item] else place.on other := rfl

omit [DecidableEq Item] in
theorem mem_append (place : Placement Queue Item) (queue other : Queue)
    (item member : Item) (fresh : ¬ place.Placed item) :
    member ∈ (place.append queue item fresh).on other ↔
      member ∈ place.on other ∨ (other = queue ∧ member = item) := by
  rw [append_on]
  split
  · rename_i same
    simp [same]
  · rename_i different
    simp [different]

theorem move_on (place : Placement Queue Item) (item : Item) (queue other : Queue) :
    (place.move item queue).on other =
      if other = queue then (place.on other).erase item ++ [item]
      else (place.on other).erase item := rfl

theorem mem_move (place : Placement Queue Item) (item member : Item)
    (queue other : Queue) :
    member ∈ (place.move item queue).on other ↔
      (member ≠ item ∧ member ∈ place.on other) ∨ (other = queue ∧ member = item) := by
  unfold move
  rw [mem_append, mem_remove]

/-- A queue the item neither leaves nor enters is untouched. -/
theorem move_on_other (place : Placement Queue Item) (item : Item)
    (queue other : Queue) (different : other ≠ queue) (absent : item ∉ place.on other) :
    (place.move item queue).on other = place.on other := by
  rw [move_on, if_neg different, List.erase_of_not_mem absent]

/-- The queue the item enters from elsewhere gains it at its end. -/
theorem move_on_target (place : Placement Queue Item) (item : Item) (queue : Queue)
    (absent : item ∉ place.on queue) :
    (place.move item queue).on queue = place.on queue ++ [item] := by
  rw [move_on, if_pos rfl, List.erase_of_not_mem absent]

theorem placed_move (place : Placement Queue Item) (item other : Item) (queue : Queue) :
    (place.move item queue).Placed other ↔ other = item ∨ place.Placed other := by
  constructor
  · rintro ⟨at_, member⟩
    rcases (place.mem_move item other queue at_).mp member with ⟨_, old⟩ | ⟨_, same⟩
    · exact Or.inr ⟨at_, old⟩
    · exact Or.inl same
  · rintro (same | ⟨at_, member⟩)
    · exact ⟨queue, (place.mem_move item other queue queue).mpr (Or.inr ⟨rfl, same⟩)⟩
    · by_cases same : other = item
      · exact ⟨queue, (place.mem_move item other queue queue).mpr (Or.inr ⟨rfl, same⟩)⟩
      · exact ⟨at_, (place.mem_move item other queue at_).mpr (Or.inl ⟨same, member⟩)⟩

end Operations

end Placement

end MangoOS
