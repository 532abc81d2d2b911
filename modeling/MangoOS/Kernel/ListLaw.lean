/-
The linked lists (lib/list.c).

They are the queues with one operation more.  `list_insert` links the new node
behind `p` before it looks for the old successor, so the back link it writes is
that of the new node itself.
-/

import MangoOS.Kernel.QueueLaw

namespace MangoOS

open Intrusive

variable {α : Type} [DecidableEq α]

def listInsertHead (links : Links α) (head q : α) : Links α := queueInsertHead links head q

def listInsertTail (links : Links α) (head q : α) : Links α := queueInsertTail links head q

def listInsert (links : Links α) (p q : α) : Links α :=
  let links := links.setNext q (links.next p)
  let links := links.setPrev q p
  let links := links.setNext p q
  links.setPrev (links.next p) q

def listRemove (links : Links α) (q : α) : Links α := queueRemove links q

inductive ListOp (α : Type)
  | insertHead (head q : α)
  | insertTail (head q : α)
  | insert (p q : α)
  | remove (q : α)

namespace ListOp

def run (links : Links α) : ListOp α → Links α
  | insertHead head q => listInsertHead links head q
  | insertTail head q => listInsertTail links head q
  | insert p q => listInsert links p q
  | remove q => listRemove links q

/-- The operation of the queues with the same code. -/
def asQueue : ListOp α → Option (QueueOp α)
  | insertHead head q => some (.insertHead head q)
  | insertTail head q => some (.insertTail head q)
  | insert _ _ => none
  | remove q => some (.remove q)

/-- What an operation is for; `list_insert` is to put `q` right behind `p`, an element or the
head. -/
inductive Turns (seqs : Sequences α) : ListOp α → Sequences α → Prop
  | queue {op : ListOp α} {same : QueueOp α} {seqs' : Sequences α} : op.asQueue = some same →
      same.Turns seqs seqs' → Turns seqs op seqs'
  | insert {head p q : α} {nodes edited left right : List α} : seqs head = some nodes →
      seqs q = some [] → head ≠ q → head :: nodes = left ++ p :: right →
      head :: edited = left ++ p :: q :: right → Turns seqs (.insert p q) (seqs.enter head q edited)

inductive TurnsAll : Sequences α → List (ListOp α) → Sequences α → Prop
  | nil (seqs : Sequences α) : TurnsAll seqs [] seqs
  | cons {seqs middle final : Sequences α} {op : ListOp α} {ops : List (ListOp α)} :
      Turns seqs op middle → TurnsAll middle ops final → TurnsAll seqs (op :: ops) final

/-- The links before, between and after the operations. -/
def states (links : Links α) : List (ListOp α) → List (Links α)
  | [] => [links]
  | op :: ops => links :: states (op.run links) ops

end ListOp

section Insert

variable {links : Links α} {seqs : Sequences α}

theorem listInsert_prev (links : Links α) (p q : α) : (listInsert links p q).prev q = q := by
  simp [listInsert]

theorem listInsert_next (links : Links α) {p q : α} (different : p ≠ q) :
    (listInsert links p q).next q = links.next p := by
  simp [listInsert, different.symm]

/-- The back link of the new node does not lead to where it was put. -/
theorem listInsert_broken (rings : Rings links seqs) {head p q : α} {nodes : List α}
    (isHead : seqs head = some nodes) (alone : seqs q = some []) (different : head ≠ q)
    (member : p ∈ head :: nodes) :
    (listInsert links p q).next ((listInsert links p q).prev q) ≠ q := by
  have notNode : p ≠ q := by
    intro same
    exact fresh_of_alone rings isHead alone different (same ▸ member)
  rw [listInsert_prev, listInsert_next links notNode]
  intro isNext
  have back := (rings.inverse p).2
  rw [isNext, (rings.ring alone).prev_head] at back
  exact notNode back.symm

theorem listInsert_not_ring (rings : Rings links seqs) {head p q : α}
    {nodes edited left right : List α} (isHead : seqs head = some nodes)
    (alone : seqs q = some []) (different : head ≠ q) (place : head :: nodes = left ++ p :: right)
    (meant : head :: edited = left ++ p :: q :: right) :
    ¬ Ring (listInsert links p q) head edited := by
  intro ring
  have member : p ∈ head :: nodes := by
    rw [place]
    exact List.mem_append_right left (List.mem_cons_self ..)
  have inside : q ∈ head :: edited := by
    rw [meant]
    exact List.mem_append_right left (List.mem_cons_of_mem p (List.mem_cons_self ..))
  exact listInsert_broken rings isHead alone different member
    (ring.closed.next_prev (List.mem_cons.mp inside))

end Insert

theorem listOp_asQueue {op : ListOp α} {same : QueueOp α} (isSame : op.asQueue = some same)
    (links : Links α) : op.run links = same.run links := by
  cases op with
  | insert p q => cases isSame
  | insertHead head q =>
      cases isSame
      rfl
  | insertTail head q =>
      cases isSame
      rfl
  | remove q =>
      cases isSame
      rfl

theorem mem_states (links : Links α) (ops : List (ListOp α)) : links ∈ ListOp.states links ops := by
  cases ops with
  | nil => exact List.mem_singleton_self links
  | cons op ops => exact List.mem_cons_self ..

/-- As long as the links are rings, the first `list_insert` breaks them. -/
theorem states_inverse_iff {links : Links α} {seqs final : Sequences α} {ops : List (ListOp α)}
    (rings : Rings links seqs) (turns : ListOp.TurnsAll seqs ops final) :
    (∀ state ∈ ListOp.states links ops, state.Inverse) ↔ ∀ p q, .insert p q ∉ ops := by
  induction turns generalizing links with
  | nil seqs =>
      constructor
      · exact fun _ p q => List.not_mem_nil
      · intro _ state member
        rw [List.mem_singleton.mp member]
        exact rings.inverse
  | @cons seqs middle final op ops first rest ih =>
      cases first with
      | queue isSame turn =>
          have step := queueOp_rings rings turn
          rw [← listOp_asQueue isSame links] at step
          have behind := ih step
          constructor
          · intro inverse p q member
            rcases List.mem_cons.mp member with isOp | later
            · rw [← isOp] at isSame
              cases isSame
            · exact behind.mp (fun state inside => inverse state (List.mem_cons_of_mem _ inside))
                p q later
          · intro none state member
            rcases List.mem_cons.mp member with isState | later
            · rw [isState]
              exact rings.inverse
            · exact behind.mpr (fun p q inside => none p q (List.mem_cons_of_mem op inside))
                state later
      | @insert head p q nodes edited left right isHead alone different place meant =>
          have inside : p ∈ head :: nodes := by
            rw [place]
            exact List.mem_append_right left (List.mem_cons_self ..)
          constructor
          · intro inverse
            have broken := inverse (listInsert links p q)
              (List.mem_cons_of_mem links (mem_states (listInsert links p q) ops))
            exact absurd (broken q).1 (listInsert_broken rings isHead alone different inside)
          · intro none
            exact absurd (List.mem_cons_self ..) (none p q)

/-- `list_insert` never yields the list it is to yield, and a run keeps both links of every node
leading back to it if and only if it does without that operation. -/
theorem list_keepsRing {links : Links α} {seqs : Sequences α} (rings : Rings links seqs) :
    (∀ head p q nodes edited left right, seqs head = some nodes → seqs q = some [] → head ≠ q →
        head :: nodes = left ++ p :: right → head :: edited = left ++ p :: q :: right →
        ¬ Ring (listInsert links p q) head edited) ∧
      ∀ ops final, ListOp.TurnsAll seqs ops final →
        ((∀ state ∈ ListOp.states links ops, state.Inverse) ↔ ∀ p q, .insert p q ∉ ops) :=
  ⟨fun _ _ _ _ _ _ _ isHead alone different place meant =>
      listInsert_not_ring rings isHead alone different place meant,
    fun _ _ turns => states_inverse_iff rings turns⟩

theorem list_keepsRing_three :
    ¬ Ring (listInsert (queueInsertTail ⟨id, id⟩ (0 : Fin 3) 1) 0 2) 0 [2, 1] :=
  (list_keepsRing (queueOp_rings (Rings.alone (Fin 3))
    (.insertTail rfl rfl (by decide : (0 : Fin 3) ≠ 1)))).1 0 0 2 [1] [2, 1] [] [1] rfl rfl
    (by decide) rfl rfl

/-- Node 1 is put behind the head of an empty list. -/
theorem list_keepsRing_not :
    ¬ Ring (listInsert ⟨id, id⟩ (0 : Fin 2) 1) 0 [1] ∧
      (listInsert ⟨id, id⟩ (0 : Fin 2) 1).prev 1 = 1 ∧
        (listInsert ⟨id, id⟩ (0 : Fin 2) 1).prev 0 = 0 := by
  decide +kernel

end MangoOS
