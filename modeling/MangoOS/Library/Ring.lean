/-
Intrusive circular doubly linked lists over an arbitrary type of nodes.

Every node carries its own two links, so one value of `Links` holds all the
lists of a program at once.  `Ring` says that a head closes a ring through
exactly the given nodes, in the given order.  The edits are stated as facts
about the links before and after, so any code that performs them can use them.
-/

import Mathlib.Data.List.Nodup
import Mathlib.Logic.Function.Basic

namespace MangoOS.Intrusive

/-- The two links of every node. -/
structure Links (α : Type) where
  next : α → α
  prev : α → α

variable {α : Type}

section Writes

variable [DecidableEq α]

def Links.setNext (links : Links α) (node target : α) : Links α :=
  { links with next := Function.update links.next node target }

def Links.setPrev (links : Links α) (node target : α) : Links α :=
  { links with prev := Function.update links.prev node target }

@[simp] theorem Links.setNext_next (links : Links α) (node target other : α) :
    (links.setNext node target).next other =
      if other = node then target else links.next other :=
  Function.update_apply links.next node target other

@[simp] theorem Links.setNext_prev (links : Links α) (node target other : α) :
    (links.setNext node target).prev other = links.prev other := rfl

@[simp] theorem Links.setPrev_next (links : Links α) (node target other : α) :
    (links.setPrev node target).next other = links.next other := rfl

@[simp] theorem Links.setPrev_prev (links : Links α) (node target other : α) :
    (links.setPrev node target).prev other =
      if other = node then target else links.prev other :=
  Function.update_apply links.prev node target other

end Writes

/-! ### Segments -/

/-- Following `next` from `first` visits exactly `inner` before `last`, and
`prev` walks the same nodes backwards. -/
def Segment (links : Links α) : α → List α → α → Prop
  | first, [], last => links.next first = last ∧ links.prev last = first
  | first, node :: inner, last =>
      links.next first = node ∧ links.prev node = first ∧
        Segment links node inner last

instance Segment.decidable [DecidableEq α] (links : Links α) :
    ∀ (first : α) (inner : List α) (last : α), Decidable (Segment links first inner last)
  | first, [], last =>
      inferInstanceAs (Decidable (links.next first = last ∧ links.prev last = first))
  | first, node :: inner, last =>
      have := Segment.decidable links node inner last
      inferInstanceAs (Decidable (links.next first = node ∧ links.prev node = first ∧
        Segment links node inner last))

theorem Segment.append_iff (links : Links α) (first middle last : α)
    (left right : List α) :
    Segment links first (left ++ middle :: right) last ↔
      Segment links first left middle ∧ Segment links middle right last := by
  induction left generalizing first with
  | nil =>
      simp only [List.nil_append, Segment, and_assoc]
  | cons node left ih =>
      simp only [List.cons_append, Segment, ih, and_assoc]

/-- A segment only depends on the links between its own nodes. -/
theorem Segment.congr {before after : Links α} {first last : α} {inner : List α}
    (segment : Segment before first inner last)
    (sameNext : ∀ node, node = first ∨ node ∈ inner →
      after.next node = before.next node)
    (samePrev : ∀ node, node = last ∨ node ∈ inner →
      after.prev node = before.prev node) :
    Segment after first inner last := by
  induction inner generalizing first with
  | nil =>
      refine ⟨?_, ?_⟩
      · rw [sameNext first (Or.inl rfl)]
        exact segment.1
      · rw [samePrev last (Or.inl rfl)]
        exact segment.2
  | cons node inner ih =>
      obtain ⟨nextFirst, prevNode, rest⟩ := segment
      refine ⟨?_, ?_, ?_⟩
      · rw [sameNext first (Or.inl rfl)]
        exact nextFirst
      · rw [samePrev node (Or.inr (List.mem_cons_self ..))]
        exact prevNode
      · apply ih rest
        · intro other member
          apply sameNext other
          rcases member with same | inside
          · exact Or.inr (same ▸ List.mem_cons_self ..)
          · exact Or.inr (List.mem_cons_of_mem node inside)
        · intro other member
          apply samePrev other
          rcases member with same | inside
          · exact Or.inl same
          · exact Or.inr (List.mem_cons_of_mem node inside)

theorem Segment.next_first {links : Links α} {first last : α} {inner : List α}
    (segment : Segment links first inner last) :
    links.next first = inner.headD last := by
  cases inner with
  | nil => exact segment.1
  | cons node inner => exact segment.1

theorem Segment.prev_last {links : Links α} {first last : α} {inner : List α}
    (segment : Segment links first inner last) :
    links.prev last = inner.getLastD first := by
  induction inner generalizing first with
  | nil => exact segment.2
  | cons node inner ih =>
      rw [ih segment.2.2]
      cases inner with
      | nil => rfl
      | cons other inner => simp [List.getLastD]

/-! ### Rings -/

/-- `head` closes a ring through exactly `nodes`. -/
structure Ring (links : Links α) (head : α) (nodes : List α) : Prop where
  nodup : (head :: nodes).Nodup
  closed : Segment links head nodes head

instance Ring.decidable [DecidableEq α] (links : Links α) (head : α) (nodes : List α) :
    Decidable (Ring links head nodes) :=
  decidable_of_iff ((head :: nodes).Nodup ∧ Segment links head nodes head)
    ⟨fun both => ⟨both.1, both.2⟩, fun ring => ⟨ring.nodup, ring.closed⟩⟩

theorem Ring.head_notMem {links : Links α} {head : α} {nodes : List α}
    (ring : Ring links head nodes) : head ∉ nodes :=
  (List.nodup_cons.mp ring.nodup).1

theorem Ring.nodes_nodup {links : Links α} {head : α} {nodes : List α}
    (ring : Ring links head nodes) : nodes.Nodup :=
  (List.nodup_cons.mp ring.nodup).2

theorem Ring.next_head {links : Links α} {head : α} {nodes : List α}
    (ring : Ring links head nodes) : links.next head = nodes.headD head :=
  ring.closed.next_first

theorem Ring.prev_head {links : Links α} {head : α} {nodes : List α}
    (ring : Ring links head nodes) : links.prev head = nodes.getLastD head :=
  ring.closed.prev_last

/-- The emptiness test `head == head->prev` of an intrusive list. -/
theorem Ring.prev_head_eq_iff {links : Links α} {head : α} {nodes : List α}
    (ring : Ring links head nodes) : links.prev head = head ↔ nodes = [] := by
  rw [ring.prev_head]
  constructor
  · intro same
    rcases List.eq_nil_or_concat' nodes with empty | ⟨initial, final, split⟩
    · exact empty
    · rw [split, List.getLastD_concat] at same
      have member : head ∈ nodes := by
        rw [split, ← same]
        exact List.mem_append_right _ (List.mem_singleton_self _)
      exact False.elim (ring.head_notMem member)
  · intro empty
    rw [empty]
    rfl

theorem Ring.ne_of_rest {links : Links α} {head node other : α} {left right : List α}
    (ring : Ring links head (left ++ node :: right))
    (member : other ∈ head :: (left ++ right)) : other ≠ node := by
  intro same
  subst other
  have distinct := ring.nodup
  rw [← List.cons_append] at distinct member
  exact (List.nodup_middle.mp distinct).notMem member

/-- The successor of an inner node is the next node of the sequence, or the head
after the last one. -/
theorem Ring.next_of_split {links : Links α} {head node : α}
    {left right : List α} (ring : Ring links head (left ++ node :: right)) :
    links.next node = right.headD head :=
  ((Segment.append_iff links head node head left right).mp ring.closed).2.next_first

theorem Ring.prev_of_split {links : Links α} {head node : α}
    {left right : List α} (ring : Ring links head (left ++ node :: right)) :
    links.prev node = left.getLastD head :=
  ((Segment.append_iff links head node head left right).mp ring.closed).1.prev_last

theorem Ring.congr {before after : Links α} {head : α} {nodes : List α}
    (ring : Ring before head nodes)
    (same : ∀ node, node = head ∨ node ∈ nodes →
      after.next node = before.next node ∧ after.prev node = before.prev node) :
    Ring after head nodes where
  nodup := ring.nodup
  closed := ring.closed.congr (fun node member => (same node member).1)
    (fun node member => (same node member).2)

/-- A node that points to itself both ways is an empty ring. -/
theorem Ring.nil_iff (links : Links α) (head : α) :
    Ring links head [] ↔ links.next head = head ∧ links.prev head = head := by
  constructor
  · intro ring
    exact ring.closed
  · intro closed
    exact ⟨List.nodup_singleton head, closed⟩

theorem Segment.unique {links : Links α} {first last : α} {left right : List α}
    (leftSegment : Segment links first left last)
    (rightSegment : Segment links first right last)
    (leftAvoids : last ∉ left) (rightAvoids : last ∉ right) : left = right := by
  induction left generalizing first right with
  | nil =>
      cases right with
      | nil => rfl
      | cons node right =>
          have same : last = node := leftSegment.1.symm.trans rightSegment.1
          exact False.elim (rightAvoids (same ▸ List.mem_cons_self ..))
  | cons node left ih =>
      cases right with
      | nil =>
          have same : last = node := rightSegment.1.symm.trans leftSegment.1
          exact False.elim (leftAvoids (same ▸ List.mem_cons_self ..))
      | cons other right =>
          have same : node = other := leftSegment.1.symm.trans rightSegment.1
          subst other
          rw [ih leftSegment.2.2 rightSegment.2.2
            (fun member => leftAvoids (List.mem_cons_of_mem node member))
            (fun member => rightAvoids (List.mem_cons_of_mem node member))]

/-- A walk over the same successors up to `node` visits the same nodes. -/
theorem Segment.begins {before after : Links α} {first last node : α} {left right other : List α}
    (segment : Segment before first (left ++ node :: right) last)
    (again : Segment after first other last)
    (same : ∀ x, x = first ∨ x ∈ left → after.next x = before.next x)
    (avoids : last ∉ left ++ [node]) : ∃ rest, other = left ++ node :: rest := by
  have here := same first (Or.inl rfl)
  rw [segment.next_first, again.next_first] at here
  induction left generalizing first other with
  | nil =>
      cases other with
      | nil =>
          have isNode : last = node := here
          exact absurd (isNode ▸ List.mem_singleton_self node) avoids
      | cons item rest =>
          have isNode : item = node := here
          exact ⟨rest, by rw [isNode, List.nil_append]⟩
  | cons item left ih =>
      cases other with
      | nil =>
          have isItem : last = item := here
          exact absurd (isItem ▸ List.mem_cons_self ..) avoids
      | cons found rest =>
          have isItem : found = item := here
          subst isItem
          have onward := same found (Or.inr (List.mem_cons_self ..))
          rw [segment.2.2.next_first, again.2.2.next_first] at onward
          obtain ⟨behind, isRest⟩ := ih segment.2.2 again.2.2
            (fun x member => same x (by
              rcases member with isFound | inside
              · exact Or.inr (isFound ▸ List.mem_cons_self ..)
              · exact Or.inr (List.mem_cons_of_mem found inside)))
            (fun inside => avoids (List.mem_cons_of_mem found inside)) onward
          exact ⟨behind, by rw [isRest, List.cons_append]⟩

theorem Ring.unique {links : Links α} {head : α} {left right : List α}
    (leftRing : Ring links head left) (rightRing : Ring links head right) :
    left = right :=
  leftRing.closed.unique rightRing.closed leftRing.head_notMem rightRing.head_notMem

/-! ### Linking a node in and out -/

private theorem headD_eq_or_mem (items : List α) (fallback : α) :
    items.headD fallback = fallback ∨ items.headD fallback ∈ items := by
  cases items with
  | nil => exact Or.inl rfl
  | cons item items => exact Or.inr (List.mem_cons_self ..)

private theorem getLastD_eq_or_mem (items : List α) (fallback : α) :
    items.getLastD fallback = fallback ∨ items.getLastD fallback ∈ items := by
  cases items with
  | nil => exact Or.inl rfl
  | cons item items => exact Or.inr (by simp [List.getLastD])

theorem Ring.insert {before after : Links α} {head node : α} {left right : List α}
    (ring : Ring before head (left ++ right)) (fresh : node ∉ head :: (left ++ right))
    (nextLeft : after.next (left.getLastD head) = node)
    (prevNode : after.prev node = left.getLastD head)
    (nextNode : after.next node = right.headD head)
    (prevRight : after.prev (right.headD head) = node)
    (sameNext : ∀ other, other ∈ head :: (left ++ right) → other ≠ left.getLastD head →
      after.next other = before.next other)
    (samePrev : ∀ other, other ∈ head :: (left ++ right) → other ≠ right.headD head →
      after.prev other = before.prev other) :
    Ring after head (left ++ node :: right) where
  nodup := by
    have distinct := ring.nodup
    grind
  closed := by
    have distinct := ring.nodup
    have closed := ring.closed
    rw [Segment.append_iff]
    constructor
    · rcases List.eq_nil_or_concat' left with empty | ⟨initial, final, split⟩
      · subst left
        exact ⟨nextLeft, prevNode⟩
      · subst left
        rw [List.getLastD_concat] at nextLeft prevNode sameNext
        rw [Segment.append_iff]
        refine ⟨?_, nextLeft, prevNode⟩
        rw [List.append_assoc, List.singleton_append, Segment.append_iff] at closed
        have firstMember := headD_eq_or_mem right head
        apply closed.1.congr
        · intro other member
          exact sameNext other (by grind) (by grind)
        · intro other member
          exact samePrev other (by grind) (by grind)
    · cases right with
      | nil => exact ⟨nextNode, prevRight⟩
      | cons first rest =>
          rw [List.headD_cons] at nextNode prevRight samePrev
          refine ⟨nextNode, prevRight, ?_⟩
          have lastMember := getLastD_eq_or_mem left head
          apply ((Segment.append_iff before head first head left rest).mp closed).2.congr
          · intro other member
            exact sameNext other (by grind) (by grind)
          · intro other member
            exact samePrev other (by grind) (by grind)

/-- Linking `node` between the last element and the head appends it. -/
theorem Ring.insert_last {before after : Links α} {head node : α} {nodes : List α}
    (ring : Ring before head nodes) (fresh : node ∉ head :: nodes)
    (nextLast : after.next (before.prev head) = node)
    (prevNode : after.prev node = before.prev head)
    (nextNode : after.next node = head) (prevHead : after.prev head = node)
    (sameNext : ∀ other, other ∈ head :: nodes → other ≠ before.prev head →
      after.next other = before.next other)
    (samePrev : ∀ other, other ∈ head :: nodes → other ≠ head →
      after.prev other = before.prev other) :
    Ring after head (nodes ++ [node]) := by
  rw [ring.prev_head] at nextLast prevNode sameNext
  rw [← List.append_nil nodes] at ring fresh nextLast prevNode sameNext
  have inserted := ring.insert fresh (by simpa using nextLast) (by simpa using prevNode)
    nextNode prevHead (by simpa using sameNext) (by simpa using samePrev)
  exact inserted

/-- Linking `node` between the head and the first element prepends it. -/
theorem Ring.insert_first {before after : Links α} {head node : α} {nodes : List α}
    (ring : Ring before head nodes) (fresh : node ∉ head :: nodes)
    (nextHead : after.next head = node) (prevNode : after.prev node = head)
    (nextNode : after.next node = before.next head)
    (prevFirst : after.prev (before.next head) = node)
    (sameNext : ∀ other, other ∈ head :: nodes → other ≠ head →
      after.next other = before.next other)
    (samePrev : ∀ other, other ∈ head :: nodes → other ≠ before.next head →
      after.prev other = before.prev other) :
    Ring after head (node :: nodes) := by
  rw [ring.next_head] at nextNode prevFirst samePrev
  have gap : Ring before head ([] ++ nodes) := ring
  exact gap.insert fresh nextHead prevNode nextNode prevFirst sameNext samePrev

/-- Linking the neighbours of `node` to each other deletes it. -/
theorem Ring.delete {before after : Links α} {head node : α} {left right : List α}
    (ring : Ring before head (left ++ node :: right))
    (nextPrev : after.next (before.prev node) = before.next node)
    (prevNext : after.prev (before.next node) = before.prev node)
    (sameNext : ∀ other, other ∈ head :: (left ++ right) → other ≠ before.prev node →
      after.next other = before.next other)
    (samePrev : ∀ other, other ∈ head :: (left ++ right) → other ≠ before.next node →
      after.prev other = before.prev other) :
    Ring after head (left ++ right) where
  nodup := by
    have distinct := ring.nodup
    grind
  closed := by
    have distinct := ring.nodup
    obtain ⟨leftOld, rightOld⟩ :=
      (Segment.append_iff before head node head left right).mp ring.closed
    rw [leftOld.prev_last] at nextPrev prevNext sameNext
    rw [rightOld.next_first] at nextPrev prevNext samePrev
    -- the part after `node` is entered from the node before it
    have rightNew : Segment after (left.getLastD head) right head := by
      cases right with
      | nil => exact ⟨nextPrev, prevNext⟩
      | cons first rest =>
          rw [List.headD_cons] at nextPrev prevNext samePrev
          refine ⟨nextPrev, prevNext, ?_⟩
          have lastMember := getLastD_eq_or_mem left head
          apply rightOld.2.2.congr
          · intro other member
            exact sameNext other (by grind) (by grind)
          · intro other member
            exact samePrev other (by grind) (by grind)
    rcases List.eq_nil_or_concat' left with empty | ⟨initial, final, split⟩
    · subst left
      exact rightNew
    · subst left
      rw [List.getLastD_concat] at rightNew sameNext
      rw [List.append_assoc, List.singleton_append, Segment.append_iff]
      refine ⟨?_, rightNew⟩
      have old := ((Segment.append_iff before head final node initial []).mp leftOld).1
      have firstMember := headD_eq_or_mem right head
      apply old.congr
      · intro other member
        exact sameNext other (by grind) (by grind)
      · intro other member
        exact samePrev other (by grind) (by grind)

end MangoOS.Intrusive
