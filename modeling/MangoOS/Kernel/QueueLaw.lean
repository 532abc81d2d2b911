/-
The queues refine sequences (lib/queue.c, include/queue.h).

The heap of queue nodes is partitioned into rings.  Each operation changes the
sequence at one head, and a run of operations keeps the partition.
-/

import MangoOS.Kernel.Queue
import MangoOS.Library.RingHeap

namespace MangoOS

open Intrusive

variable {α : Type} [DecidableEq α]

def queueLast (links : Links α) (head : α) : α := links.prev head

inductive QueueOp (α : Type)
  | insertHead (head q : α)
  | insertTail (head q : α)
  | remove (q : α)

namespace QueueOp

def run (links : Links α) : QueueOp α → Links α
  | insertHead head q => queueInsertHead links head q
  | insertTail head q => queueInsertTail links head q
  | remove q => queueRemove links q

def runs (links : Links α) (ops : List (QueueOp α)) : Links α := ops.foldl run links

/-- What an operation is for: `q` stands alone before it is inserted, and in a queue before it is
removed. -/
inductive Turns (seqs : Sequences α) : QueueOp α → Sequences α → Prop
  | insertHead {head q : α} {nodes : List α} : seqs head = some nodes → seqs q = some [] →
      head ≠ q → Turns seqs (.insertHead head q) (seqs.enter head q (q :: nodes))
  | insertTail {head q : α} {nodes : List α} : seqs head = some nodes → seqs q = some [] →
      head ≠ q → Turns seqs (.insertTail head q) (seqs.enter head q (nodes ++ [q]))
  | remove {head q : α} {left right : List α} : seqs head = some (left ++ q :: right) →
      Turns seqs (.remove q) (seqs.leave head q (left ++ right))

inductive TurnsAll : Sequences α → List (QueueOp α) → Sequences α → Prop
  | nil (seqs : Sequences α) : TurnsAll seqs [] seqs
  | cons {seqs middle final : Sequences α} {op : QueueOp α} {ops : List (QueueOp α)} :
      Turns seqs op middle → TurnsAll middle ops final → TurnsAll seqs (op :: ops) final

end QueueOp

/-- The reads report the sequence; both links of the head of an empty queue lead to itself. -/
def QueueReports (links : Links α) (seqs : Sequences α) : Prop :=
  ∀ head nodes, seqs head = some nodes →
    queueFirst links head = nodes.headD head ∧ queueLast links head = nodes.getLastD head ∧
      (queueEmpty links head = true ↔ nodes = [])

/-- A ring with the same sequence before and after has the same links. -/
def SameRings (links after : Links α) (seqs seqs' : Sequences α) : Prop :=
  ∀ head nodes, seqs head = some nodes → seqs' head = some nodes → ∀ x, x ∈ head :: nodes →
    after.next x = links.next x ∧ after.prev x = links.prev x

/-! ### Insertion at the head -/

section InsertHead

variable {links : Links α} {head q : α} {nodes : List α}

omit [DecidableEq α] in
private theorem first_ne (ring : Ring links head nodes) (fresh : q ∉ head :: nodes) :
    links.next head ≠ q := by
  rw [ring.next_head]
  intro same
  cases nodes with
  | nil => exact fresh (same ▸ List.mem_cons_self ..)
  | cons first rest =>
      rw [List.headD_cons] at same
      exact fresh (by simp [same])

theorem queueInsertHead_ring (ring : Ring links head nodes) (fresh : q ∉ head :: nodes) :
    Ring (queueInsertHead links head q) head (q :: nodes) := by
  have headNe : head ≠ q := fun same => fresh (same ▸ List.mem_cons_self ..)
  have firstNe := first_ne ring fresh
  apply ring.insert_first fresh
  · simp [queueInsertHead]
  · simp [queueInsertHead, headNe, firstNe.symm]
  · simp [queueInsertHead, headNe.symm]
  · simp [queueInsertHead, headNe]
  · intro other member notHead
    have notNode : other ≠ q := fun same => fresh (same ▸ member)
    simp [queueInsertHead, notNode, notHead]
  · intro other member notFirst
    have notNode : other ≠ q := fun same => fresh (same ▸ member)
    simp [queueInsertHead, headNe, notNode, notFirst]

/-- Only the new node, the head and the old first node are written. -/
theorem queueInsertHead_frame (ring : Ring links head nodes) (fresh : q ∉ head :: nodes)
    (other : α) (outside : other ∉ q :: head :: nodes) :
    (queueInsertHead links head q).next other = links.next other ∧
      (queueInsertHead links head q).prev other = links.prev other := by
  have headNe : head ≠ q := fun same => fresh (same ▸ List.mem_cons_self ..)
  have notNode : other ≠ q := fun same => outside (by simp [same])
  have notHead : other ≠ head := fun same => outside (by simp [same])
  have notFirst : other ≠ links.next head := by
    rw [ring.next_head]
    intro same
    cases nodes with
    | nil => exact notHead same
    | cons first rest =>
        rw [List.headD_cons] at same
        exact outside (by simp [same])
  simp [queueInsertHead, headNe, notNode, notHead, notFirst]

end InsertHead

/-! ### One operation -/

section Step

variable {links : Links α} {seqs seqs' final : Sequences α}

omit [DecidableEq α] in
theorem fresh_of_alone (rings : Rings links seqs) {head q : α} {nodes : List α}
    (isHead : seqs head = some nodes) (alone : seqs q = some []) (different : head ≠ q) :
    q ∉ head :: nodes := fun inside =>
  different (rings.apart isHead alone inside (List.mem_singleton_self q))

theorem queueReports (rings : Rings links seqs) : QueueReports links seqs := by
  intro head nodes isHead
  have ring := rings.ring isHead
  exact ⟨ring.next_head, ring.prev_head, queueEmpty_iff ring⟩

theorem queueOp_rings (rings : Rings links seqs) {op : QueueOp α} (turns : op.Turns seqs seqs') :
    Rings (op.run links) seqs' := by
  cases turns with
  | insertHead isHead alone different =>
      have fresh := fresh_of_alone rings isHead alone different
      exact rings.enter isHead alone (queueInsertHead_ring (rings.ring isHead) fresh)
        (fun x => List.mem_cons) (queueInsertHead_frame (rings.ring isHead) fresh)
  | insertTail isHead alone different =>
      have fresh := fresh_of_alone rings isHead alone different
      exact rings.enter isHead alone (queueInsertTail_ring (rings.ring isHead) fresh)
        (fun x => by rw [List.mem_append, List.mem_singleton, or_comm])
        (queueInsertTail_frame (rings.ring isHead) fresh)
  | @remove head q left right isHead =>
      have ring := rings.ring isHead
      refine rings.leave isHead (List.mem_append_right left (List.mem_cons_self ..))
        (queueRemove_ring ring) ?_ (queueRemove_isolated links q) (queueRemove_frame ring)
      intro x
      constructor
      · intro inside
        refine ⟨?_, ring.ne_of_rest (List.mem_cons_of_mem head inside)⟩
        rw [List.mem_append, List.mem_cons]
        exact (List.mem_append.mp inside).imp_right Or.inr
      · rintro ⟨inside, notNode⟩
        rw [List.mem_append, List.mem_cons] at inside
        rw [List.mem_append]
        exact inside.imp_right fun later => later.resolve_left notNode

theorem queueOp_sameRings (rings : Rings links seqs) {op : QueueOp α}
    (turns : op.Turns seqs seqs') : SameRings links (op.run links) seqs seqs' := by
  intro other others isOther again x member
  cases turns with
  | insertHead isHead alone different =>
      have kept := Sequences.enter_kept isHead (List.cons_ne_self _ _) isOther again
      have fresh := fresh_of_alone rings isHead alone different
      exact queueInsertHead_frame (rings.ring isHead) fresh x
        (rings.notMem_entered isHead alone isOther kept.1 kept.2 member)
  | insertTail isHead alone different =>
      have longer : ∀ (nodes : List α) (q : α), nodes ++ [q] ≠ nodes := by
        intro nodes q same
        have length := congrArg List.length same
        rw [List.length_append, List.length_singleton] at length
        omega
      have kept := Sequences.enter_kept isHead (longer _ _) isOther again
      have fresh := fresh_of_alone rings isHead alone different
      exact queueInsertTail_frame (rings.ring isHead) fresh x
        (rings.notMem_entered isHead alone isOther kept.1 kept.2 member)
  | @remove head q left right isHead =>
      have notHead : other ≠ head := by
        intro atHead
        rw [atHead, isHead, Option.some.injEq] at isOther
        rw [atHead] at again
        rcases Sequences.leave_some again with ⟨isNode, _⟩ | ⟨_, _, isEdited⟩ | ⟨_, notHead, _⟩
        · apply (rings.ring isHead).head_notMem
          rw [isNode]
          exact List.mem_append_right left (List.mem_cons_self ..)
        · have length := congrArg List.length (isOther.trans isEdited)
          rw [List.length_append, List.length_append, List.length_cons] at length
          omega
        · exact notHead rfl
      exact queueRemove_frame (rings.ring isHead) x
        (rings.notMem_other isHead isOther notHead member)

theorem queueOps_rings (rings : Rings links seqs) {ops : List (QueueOp α)}
    (turns : QueueOp.TurnsAll seqs ops final) : Rings (QueueOp.runs links ops) final := by
  induction turns generalizing links with
  | nil seqs => exact rings
  | cons first _ ih => exact ih (queueOp_rings rings first)

end Step

/-- The operations refine those on sequences, and every run of them keeps both links of every
node leading back to it. -/
theorem queues_refine {links : Links α} {seqs : Sequences α} (rings : Rings links seqs) :
    QueueReports links seqs ∧
      (∀ op seqs', QueueOp.Turns seqs op seqs' →
        Rings (op.run links) seqs' ∧ SameRings links (op.run links) seqs seqs') ∧
      ∀ ops final, QueueOp.TurnsAll seqs ops final →
        Rings (QueueOp.runs links ops) final ∧ (QueueOp.runs links ops).Inverse :=
  ⟨queueReports rings,
    fun _ _ turns => ⟨queueOp_rings rings turns, queueOp_sameRings rings turns⟩,
    fun _ _ turns => ⟨queueOps_rings rings turns, (queueOps_rings rings turns).inverse⟩⟩

/-- Three nodes that stand alone: two of them enter the queue of the first and one leaves. -/
theorem queues_refine_three :
    (QueueOp.runs (⟨id, id⟩ : Links (Fin 3))
      [.insertTail 0 1, .insertHead 0 2, .remove 1]).Inverse :=
  ((queues_refine (Rings.alone (Fin 3))).2.2 _ _
    (.cons (.insertTail rfl rfl (by decide))
      (.cons (.insertHead rfl rfl (by decide))
        (.cons (@QueueOp.Turns.remove _ _ _ 0 1 [2] [] rfl) (.nil _))))).2

end MangoOS
