/-
A heap of nodes that is partitioned into rings.

`Sequences` gives the sequence at each head and nothing at the other nodes; a
node that points to itself is a head with the empty sequence.  An edit that
rebuilds one ring and takes a node in or lets one go keeps the partition.
-/

import MangoOS.Library.Ring

namespace MangoOS.Intrusive

/-- The nodes behind each head, in order. -/
abbrev Sequences (α : Type) := α → Option (List α)

/-- Both links of every node lead back to it. -/
def Links.Inverse {α : Type} (links : Links α) : Prop :=
  ∀ x, links.next (links.prev x) = x ∧ links.prev (links.next x) = x

/-- Every node stands in exactly one of the rings. -/
structure Rings {α : Type} (links : Links α) (seqs : Sequences α) : Prop where
  ring : ∀ {head : α} {nodes : List α}, seqs head = some nodes → Ring links head nodes
  covered : ∀ x, ∃ head nodes, seqs head = some nodes ∧ x ∈ head :: nodes
  apart : ∀ {head other : α} {nodes others : List α} {x : α}, seqs head = some nodes →
    seqs other = some others → x ∈ head :: nodes → x ∈ other :: others → head = other

/-! ### Both ways round a ring -/

theorem Segment.prev_next {α : Type} {links : Links α} {first last : α} {inner : List α}
    (segment : Segment links first inner last) {x : α} (member : x ∈ first :: inner) :
    links.prev (links.next x) = x := by
  induction inner generalizing first with
  | nil =>
      have isFirst : x = first := List.mem_singleton.mp member
      rw [isFirst, segment.1, segment.2]
  | cons node inner ih =>
      rcases List.mem_cons.mp member with isFirst | inside
      · rw [isFirst, segment.1, segment.2.1]
      · exact ih segment.2.2 inside

theorem Segment.next_prev {α : Type} {links : Links α} {first last : α} {inner : List α}
    (segment : Segment links first inner last) {x : α} (member : x = last ∨ x ∈ inner) :
    links.next (links.prev x) = x := by
  induction inner generalizing first with
  | nil =>
      have isLast : x = last := member.resolve_right (List.not_mem_nil)
      rw [isLast, segment.2, segment.1]
  | cons node inner ih =>
      rw [List.mem_cons, or_left_comm] at member
      rcases member with isNode | later
      · rw [isNode, segment.2.1, segment.1]
      · exact ih segment.2.2 later

variable {α : Type} {links after : Links α} {seqs : Sequences α}

theorem Rings.inverse (rings : Rings links seqs) : links.Inverse := by
  intro x
  obtain ⟨head, nodes, isHead, member⟩ := rings.covered x
  have closed := (rings.ring isHead).closed
  exact ⟨closed.next_prev (List.mem_cons.mp member), closed.prev_next member⟩

/-- Where every node points to itself, each is a ring of its own. -/
theorem Rings.alone (α : Type) : Rings (⟨id, id⟩ : Links α) fun _ => some [] where
  ring := by
    intro head nodes isHead
    rw [← Option.some.inj isHead, Ring.nil_iff]
    exact ⟨rfl, rfl⟩
  covered := fun x => ⟨x, [], rfl, List.mem_singleton_self x⟩
  apart := by
    intro head other nodes others x isHead isOther member inside
    rw [← Option.some.inj isHead, List.mem_singleton] at member
    rw [← Option.some.inj isOther, List.mem_singleton] at inside
    rw [← member, ← inside]

/-! ### One node enters a ring or leaves it -/

variable [DecidableEq α]

/-- Node `q` is no head any more and the sequence at `head` is `nodes`. -/
def Sequences.enter (seqs : Sequences α) (head q : α) (nodes : List α) : Sequences α :=
  fun x => if x = head then some nodes else if x = q then none else seqs x

/-- The sequence at `head` is `nodes` and `q` stands alone. -/
def Sequences.leave (seqs : Sequences α) (head q : α) (nodes : List α) : Sequences α :=
  fun x => if x = q then some [] else if x = head then some nodes else seqs x

@[simp] theorem Sequences.enter_head (seqs : Sequences α) (head q : α) (nodes : List α) :
    seqs.enter head q nodes head = some nodes := if_pos rfl

theorem Sequences.enter_some {head q x : α} {nodes others : List α}
    (isHead : seqs.enter head q nodes x = some others) :
    x = head ∧ others = nodes ∨ x ≠ head ∧ x ≠ q ∧ seqs x = some others := by
  unfold enter at isHead
  by_cases same : x = head
  · rw [if_pos same, Option.some.injEq] at isHead
    exact Or.inl ⟨same, isHead.symm⟩
  · rw [if_neg same] at isHead
    by_cases entered : x = q
    · rw [if_pos entered] at isHead
      cases isHead
    · rw [if_neg entered] at isHead
      exact Or.inr ⟨same, entered, isHead⟩

theorem Sequences.leave_some {head q x : α} {nodes others : List α}
    (isHead : seqs.leave head q nodes x = some others) :
    x = q ∧ others = [] ∨ x ≠ q ∧ x = head ∧ others = nodes ∨
      x ≠ q ∧ x ≠ head ∧ seqs x = some others := by
  unfold leave at isHead
  by_cases left : x = q
  · rw [if_pos left, Option.some.injEq] at isHead
    exact Or.inl ⟨left, isHead.symm⟩
  · rw [if_neg left] at isHead
    by_cases same : x = head
    · rw [if_pos same, Option.some.injEq] at isHead
      exact Or.inr (Or.inl ⟨left, same, isHead.symm⟩)
    · rw [if_neg same] at isHead
      exact Or.inr (Or.inr ⟨left, same, isHead⟩)

section Edit

variable {head q : α} {nodes edited : List α}

theorem Sequences.enter_kept {other : α} {others : List α} (isHead : seqs head = some nodes)
    (changes : edited ≠ nodes) (before : seqs other = some others)
    (behind : seqs.enter head q edited other = some others) : other ≠ head ∧ other ≠ q := by
  rcases Sequences.enter_some behind with ⟨atHead, isEdited⟩ | ⟨notHead, notNode, _⟩
  · rw [atHead, isHead, Option.some.injEq] at before
    exact absurd (isEdited.symm.trans before.symm) changes
  · exact ⟨notHead, notNode⟩

omit [DecidableEq α] in
theorem Rings.notMem_other (rings : Rings links seqs) {other : α} {others : List α} {x : α}
    (isHead : seqs head = some nodes) (isOther : seqs other = some others)
    (different : other ≠ head) (member : x ∈ other :: others) : x ∉ head :: nodes :=
  fun inside => different (rings.apart isOther isHead member inside)

omit [DecidableEq α] in
/-- A ring whose nodes the edit does not write stays. -/
theorem Rings.keeps_other (rings : Rings links seqs) (isHead : seqs head = some nodes)
    (same : ∀ x, x ∉ head :: nodes → after.next x = links.next x ∧ after.prev x = links.prev x)
    {other : α} {others : List α} (isOther : seqs other = some others) (different : other ≠ head) :
    Ring after other others := by
  apply (rings.ring isOther).congr
  intro x member
  exact same x (rings.notMem_other isHead isOther different (List.mem_cons.mpr member))

omit [DecidableEq α] in
theorem Rings.notMem_entered (rings : Rings links seqs) {other : α} {others : List α} {x : α}
    (isHead : seqs head = some nodes) (alone : seqs q = some [])
    (isOther : seqs other = some others)
    (notHead : other ≠ head) (notNode : other ≠ q) (member : x ∈ other :: others) :
    x ∉ q :: head :: nodes := by
  intro inside
  rcases List.mem_cons.mp inside with isNode | inHead
  · exact rings.notMem_other alone isOther notNode member (isNode ▸ List.mem_singleton_self q)
  · exact rings.notMem_other isHead isOther notHead member inHead

/-- A node that stands alone is taken into the ring of `head`. -/
theorem Rings.enter (rings : Rings links seqs) (isHead : seqs head = some nodes)
    (alone : seqs q = some []) (ring : Ring after head edited)
    (sameNodes : ∀ x, x ∈ edited ↔ x = q ∨ x ∈ nodes)
    (same : ∀ x, x ∉ q :: head :: nodes →
      after.next x = links.next x ∧ after.prev x = links.prev x) :
    Rings after (seqs.enter head q edited) where
  ring := by
    intro other others isOther
    rcases Sequences.enter_some isOther with ⟨isHead', isEdited⟩ | ⟨notHead, notNode, isOld⟩
    · rw [isHead', isEdited]
      exact ring
    · apply (rings.ring isOld).congr
      intro x member
      exact same x (rings.notMem_entered isHead alone isOld notHead notNode
        (List.mem_cons.mpr member))
  covered := by
    intro x
    obtain ⟨other, others, isOther, member⟩ := rings.covered x
    by_cases atHead : other = head
    · rw [atHead, isHead, Option.some.injEq] at isOther
      rw [atHead, ← isOther] at member
      refine ⟨head, edited, Sequences.enter_head .., ?_⟩
      rw [List.mem_cons, sameNodes]
      exact (List.mem_cons.mp member).imp_right Or.inr
    · by_cases atNode : other = q
      · rw [atNode, alone, Option.some.injEq] at isOther
        rw [atNode, ← isOther, List.mem_singleton] at member
        refine ⟨head, edited, Sequences.enter_head .., ?_⟩
        rw [List.mem_cons, sameNodes]
        exact Or.inr (Or.inl member)
      · refine ⟨other, others, ?_, member⟩
        unfold Sequences.enter
        rw [if_neg atHead, if_neg atNode, isOther]
  apart := by
    have notIn : ∀ {other : α} {others : List α} {x : α}, seqs other = some others →
        other ≠ head → other ≠ q → x ∈ other :: others → x ∉ head :: edited := by
      intro other others x isOther notHead notNode inside member
      apply rings.notMem_entered isHead alone isOther notHead notNode inside
      rw [List.mem_cons, sameNodes] at member
      rw [List.mem_cons, List.mem_cons]
      exact or_left_comm.mp member
    intro first second nodes₁ nodes₂ x isFirst isSecond inFirst inSecond
    rcases Sequences.enter_some isFirst with ⟨at₁, list₁⟩ | ⟨head₁, node₁, old₁⟩
    · rcases Sequences.enter_some isSecond with ⟨at₂, list₂⟩ | ⟨head₂, node₂, old₂⟩
      · rw [at₁, at₂]
      · rw [at₁, list₁] at inFirst
        exact absurd inFirst (notIn old₂ head₂ node₂ inSecond)
    · rcases Sequences.enter_some isSecond with ⟨at₂, list₂⟩ | ⟨head₂, node₂, old₂⟩
      · rw [at₂, list₂] at inSecond
        exact absurd inSecond (notIn old₁ head₁ node₁ inFirst)
      · exact rings.apart old₁ old₂ inFirst inSecond

/-- A node of the ring of `head` is let go and stands alone. -/
theorem Rings.leave (rings : Rings links seqs) (isHead : seqs head = some nodes)
    (member : q ∈ nodes) (ring : Ring after head edited)
    (sameNodes : ∀ x, x ∈ edited ↔ x ∈ nodes ∧ x ≠ q) (alone : Ring after q [])
    (same : ∀ x, x ∉ head :: nodes →
      after.next x = links.next x ∧ after.prev x = links.prev x) :
    Rings after (seqs.leave head q edited) where
  ring := by
    intro other others isOther
    rcases Sequences.leave_some isOther with
      ⟨isNode, empty⟩ | ⟨_, isHead', isEdited⟩ | ⟨notNode, notHead, isOld⟩
    · rw [isNode, empty]
      exact alone
    · rw [isHead', isEdited]
      exact ring
    · exact rings.keeps_other isHead same isOld notHead
  covered := by
    have notNode : head ≠ q := fun isNode => (rings.ring isHead).head_notMem (isNode ▸ member)
    intro x
    by_cases isNode : x = q
    · exact ⟨q, [], if_pos rfl, isNode ▸ List.mem_singleton_self q⟩
    · obtain ⟨other, others, isOther, inside⟩ := rings.covered x
      by_cases atHead : other = head
      · rw [atHead, isHead, Option.some.injEq] at isOther
        rw [atHead, ← isOther] at inside
        refine ⟨head, edited, ?_, ?_⟩
        · unfold Sequences.leave
          rw [if_neg notNode, if_pos rfl]
        · rw [List.mem_cons, sameNodes]
          exact (List.mem_cons.mp inside).imp_right (⟨·, isNode⟩)
      · have notHead : other ≠ q := by
          intro atNode
          rw [atNode] at isOther atHead
          exact atHead (rings.apart isOther isHead (List.mem_cons_self ..)
            (List.mem_cons_of_mem head member))
        refine ⟨other, others, ?_, inside⟩
        unfold Sequences.leave
        rw [if_neg notHead, if_neg atHead, isOther]
  apart := by
    have before : ∀ {x : α}, x ∈ head :: edited → x ∈ head :: nodes ∧ x ≠ q := by
      intro x inside
      have headNe : head ≠ q := fun isNode => (rings.ring isHead).head_notMem (isNode ▸ member)
      rcases List.mem_cons.mp inside with atHead | later
      · exact ⟨List.mem_cons.mpr (Or.inl atHead), by rw [atHead]; exact headNe⟩
      · rw [sameNodes] at later
        exact ⟨List.mem_cons_of_mem head later.1, later.2⟩
    have inHead : q ∈ head :: nodes := List.mem_cons_of_mem head member
    intro first second nodes₁ nodes₂ x isFirst isSecond inFirst inSecond
    rcases Sequences.leave_some isFirst with
      ⟨at₁, list₁⟩ | ⟨_, at₁, list₁⟩ | ⟨node₁, head₁, old₁⟩
    · rw [at₁, list₁, List.mem_singleton] at inFirst
      rcases Sequences.leave_some isSecond with
        ⟨at₂, list₂⟩ | ⟨_, at₂, list₂⟩ | ⟨node₂, head₂, old₂⟩
      · rw [at₁, at₂]
      · rw [at₂, list₂] at inSecond
        exact absurd inFirst (before inSecond).2
      · rw [inFirst] at inSecond
        exact absurd (rings.apart old₂ isHead inSecond inHead) head₂
    · rw [at₁, list₁] at inFirst
      rcases Sequences.leave_some isSecond with
        ⟨at₂, list₂⟩ | ⟨_, at₂, list₂⟩ | ⟨node₂, head₂, old₂⟩
      · rw [at₂, list₂, List.mem_singleton] at inSecond
        exact absurd inSecond (before inFirst).2
      · rw [at₁, at₂]
      · exact absurd (rings.apart old₂ isHead inSecond (before inFirst).1) head₂
    · rcases Sequences.leave_some isSecond with
        ⟨at₂, list₂⟩ | ⟨_, at₂, list₂⟩ | ⟨node₂, head₂, old₂⟩
      · rw [at₂, list₂, List.mem_singleton] at inSecond
        rw [inSecond] at inFirst
        exact absurd (rings.apart old₁ isHead inFirst inHead) head₁
      · rw [at₂, list₂] at inSecond
        exact absurd (rings.apart old₁ isHead inFirst (before inSecond).1) head₁
      · exact rings.apart old₁ old₂ inFirst inSecond

end Edit

end MangoOS.Intrusive
