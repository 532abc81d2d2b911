/-
The kernel's queues (lib/queue.c) over an arbitrary type of nodes.

Each function performs the writes of the source in the source's order.  Below
them stand the ring facts the schedulers and the file system use.
-/

import MangoOS.Library.Ring

namespace MangoOS

open Intrusive

variable {α : Type} [DecidableEq α]

def queueInsertHead (links : Links α) (head q : α) : Links α :=
  let links := links.setNext q (links.next head)
  let links := links.setPrev q head
  let links := links.setPrev (links.next head) q
  links.setNext head q

def queueInsertTail (links : Links α) (head q : α) : Links α :=
  let links := links.setNext q head
  let links := links.setPrev q (links.prev head)
  let links := links.setNext (links.prev head) q
  links.setPrev head q

/-- `queue_remove`; the node ends up pointing to itself. -/
def queueRemove (links : Links α) (q : α) : Links α :=
  let links := links.setNext (links.prev q) (links.next q)
  let links := links.setPrev (links.next q) (links.prev q)
  let links := links.setNext q q
  links.setPrev q q

def queueInit (links : Links α) (q : α) : Links α :=
  (links.setPrev q q).setNext q q

def queueEmpty (links : Links α) (head : α) : Bool :=
  decide (head = links.prev head)

def queueFirst (links : Links α) (head : α) : α := links.next head

theorem queueEmpty_iff {links : Links α} {head : α} {nodes : List α}
    (ring : Ring links head nodes) : queueEmpty links head = true ↔ nodes = [] := by
  rw [← ring.prev_head_eq_iff, queueEmpty, decide_eq_true_iff]
  exact eq_comm

/-! ### Insertion at the tail -/

section InsertTail

variable {links : Links α} {head q : α} {nodes : List α}

theorem queueInsertTail_ring (ring : Ring links head nodes)
    (fresh : q ∉ head :: nodes) :
    Ring (queueInsertTail links head q) head (nodes ++ [q]) := by
  have headNe : head ≠ q := fun same => fresh (same ▸ List.mem_cons_self ..)
  have lastNe : links.prev head ≠ q := by
    rw [ring.prev_head]
    intro same
    cases nodes with
    | nil => exact headNe same
    | cons first rest =>
        apply fresh
        rw [← same]
        simp [List.getLastD]
  apply ring.insert_last fresh
  · simp [queueInsertTail, headNe]
  · simp [queueInsertTail, headNe, headNe.symm]
  · simp [queueInsertTail, headNe, lastNe.symm]
  · simp [queueInsertTail]
  · intro other member notLast
    have notNode : other ≠ q := fun same => fresh (same ▸ member)
    simp [queueInsertTail, headNe, notNode, notLast]
  · intro other member notHead
    have notNode : other ≠ q := fun same => fresh (same ▸ member)
    simp [queueInsertTail, notNode, notHead]

/-- A node that is linked in a second time breaks the ring. -/
theorem queueInsertTail_again (ring : Ring links head nodes) (member : q ∈ nodes)
    (after : List α) : ¬ Ring (queueInsertTail links head q) head after := by
  intro again
  obtain ⟨left, right, split⟩ := List.append_of_mem member
  have headNe : head ≠ q := fun same => ring.head_notMem (same ▸ member)
  subst split
  have tail : links.prev head = right.getLastD q :=
    ((Segment.append_iff links head q head left right).mp ring.closed).2.prev_last
  have isLast : (queueInsertTail links head q).prev head = q := by simp [queueInsertTail]
  obtain ⟨initial, isAfter⟩ : ∃ initial, after = initial ++ [q] := by
    rcases List.eq_nil_or_concat' after with empty | ⟨initial, final, isAfter⟩
    · rw [again.prev_head, empty] at isLast
      exact absurd isLast headNe
    · rw [again.prev_head, isAfter, List.getLastD_concat] at isLast
      exact ⟨initial, by rw [isAfter, isLast]⟩
  subst isAfter
  have nextNode := again.next_of_split
  have prevNode := again.prev_of_split
  cases right with
  | nil =>
      -- the last node comes to point to itself
      have itself : (queueInsertTail links head q).next q = q := by
        have isTail : links.prev head = q := tail
        simp [queueInsertTail, headNe, isTail]
      rw [itself, List.headD_nil] at nextNode
      exact headNe nextNode.symm
  | cons item right =>
      have distinct := ring.nodup
      have isTail : links.prev head ∈ item :: right := by
        rw [tail]
        simp [List.getLastD]
      have tailNe : links.prev head ≠ q := by
        intro same
        rw [same] at isTail
        grind
      have behind : (queueInsertTail links head q).prev q = links.prev head := by
        simp [queueInsertTail, headNe.symm, headNe]
      obtain ⟨rest, isInitial⟩ := ring.closed.begins again.closed
        (by
          intro x place
          have notNode : x ≠ q := by grind
          have notTail : x ≠ links.prev head := by
            intro same
            rw [← same] at isTail
            grind
          simp [queueInsertTail, headNe, notNode, notTail])
        (by grind)
      have onward : (queueInsertTail links head q).next q = head := by
        simp [queueInsertTail, headNe, tailNe.symm]
      rw [isInitial] at again
      have ends := again.next_of_split
      rw [onward] at ends
      have noRest : rest = [] := by
        cases rest with
        | nil => rfl
        | cons other rest =>
            have isHead : head = other := ends
            have apart := again.head_notMem
            rw [isHead] at apart
            grind
      rw [noRest, List.append_cancel_right_eq] at isInitial
      rw [behind, isInitial] at prevNode
      rcases List.eq_nil_or_concat' left with empty | ⟨begin, final, isLeft⟩
      · rw [empty, List.getLastD_nil] at prevNode
        rw [prevNode] at isTail
        grind
      · rw [isLeft, List.getLastD_concat] at prevNode
        rw [prevNode] at isTail
        grind

/-- Only the new node, the head and the old last node are written. -/
theorem queueInsertTail_frame (ring : Ring links head nodes)
    (fresh : q ∉ head :: nodes) (other : α) (outside : other ∉ q :: head :: nodes) :
    (queueInsertTail links head q).next other = links.next other ∧
      (queueInsertTail links head q).prev other = links.prev other := by
  have headNe : head ≠ q := fun same => fresh (same ▸ List.mem_cons_self ..)
  have notNode : other ≠ q := fun same => outside (by simp [same])
  have notHead : other ≠ head := fun same => outside (by simp [same])
  have notLast : other ≠ links.prev head := by
    rw [ring.prev_head]
    intro same
    cases nodes with
    | nil => exact notHead same
    | cons first rest =>
        apply outside
        rw [same]
        simp [List.getLastD]
  simp [queueInsertTail, headNe, notNode, notHead, notLast]

end InsertTail

/-! ### Removal -/

section Remove

variable {links : Links α} {head q : α} {left right : List α}

omit [DecidableEq α] in
private theorem neighbours_ne (ring : Ring links head (left ++ q :: right)) :
    links.next q ≠ q ∧ links.prev q ≠ q := by
  have distinct := ring.nodup
  rw [ring.next_of_split, ring.prev_of_split]
  constructor
  · cases right with
    | nil => grind
    | cons other right => grind
  · rcases List.eq_nil_or_concat' left with empty | ⟨initial, final, split⟩
    · subst left
      grind
    · subst left
      rw [List.getLastD_concat]
      grind

theorem queueRemove_ring (ring : Ring links head (left ++ q :: right)) :
    Ring (queueRemove links q) head (left ++ right) := by
  obtain ⟨nextNe, prevNe⟩ := neighbours_ne ring
  apply ring.delete
  · simp [queueRemove, prevNe, prevNe.symm]
  · simp [queueRemove, prevNe.symm, nextNe]
  · intro other member notPrev
    have notNode : other ≠ q := ring.ne_of_rest member
    simp [queueRemove, notNode, notPrev]
  · intro other member notNext
    have notNode : other ≠ q := ring.ne_of_rest member
    simp [queueRemove, prevNe.symm, notNode, notNext]

theorem queueRemove_isolated (links : Links α) (q : α) :
    Ring (queueRemove links q) q [] := by
  rw [Ring.nil_iff]
  simp [queueRemove]

/-- Only the removed node and nodes of its own ring are written. -/
theorem queueRemove_frame (ring : Ring links head (left ++ q :: right)) (other : α)
    (outside : other ∉ head :: (left ++ q :: right)) :
    (queueRemove links q).next other = links.next other ∧
      (queueRemove links q).prev other = links.prev other := by
  obtain ⟨nextNe, prevNe⟩ := neighbours_ne ring
  have notNode : other ≠ q := fun same => outside (by simp [same])
  have notNext : other ≠ links.next q := by
    rw [ring.next_of_split]
    cases right with
    | nil => grind
    | cons first right => grind
  have notPrev : other ≠ links.prev q := by
    rw [ring.prev_of_split]
    rcases List.eq_nil_or_concat' left with empty | ⟨initial, final, split⟩
    · subst left
      grind
    · subst left
      rw [List.getLastD_concat]
      grind
  simp [queueRemove, prevNe.symm, notNode, notNext, notPrev]

end Remove

end MangoOS
