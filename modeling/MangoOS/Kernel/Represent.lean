/-
The kernel's rings as a placement of tasks on queues.

`Represents` connects the linked nodes to the abstract placement.  Moving a
task's `rq` node between rings is then a move of the placement, whatever the
operation that performs it.
-/

import MangoOS.Kernel.Task
import MangoOS.Library.Placement

namespace MangoOS

open Intrusive

/-- Every queue head closes a ring through the `rq` nodes the placement puts
there, and `task_queue` closes one through the `q` nodes of `tasks`. -/
structure Represents (links : Links Node) (place : Placement Queue Nat)
    (tasks : List Nat) : Prop where
  queues : ∀ queue, Ring links (.head queue) ((place.on queue).map .rq)
  all : Ring links .taskQueue (tasks.map .q)

variable {links : Links Node} {place : Placement Queue Nat} {tasks : List Nat}

private theorem split_of_mem {t : Nat} {queue : Queue} (member : t ∈ place.on queue) :
    ∃ left right, place.on queue = left ++ t :: right ∧
      (place.on queue).erase t = left ++ right := by
  obtain ⟨left, right, split⟩ := List.append_of_mem member
  refine ⟨left, right, split, ?_⟩
  have distinct := place.nodup queue
  rw [split] at distinct ⊢
  have absent : t ∉ left := by
    intro inLeft
    exact (List.nodup_append.mp distinct).2.2 t inLeft t (List.mem_cons_self ..) rfl
  rw [List.erase_append_right _ absent, List.erase_cons_head]

theorem Represents.remove (rep : Represents links place tasks) {t : Nat} {source : Queue}
    (member : t ∈ place.on source) :
    Represents (queueRemove links (.rq t)) (place.remove t) tasks := by
  obtain ⟨left, right, split, erased⟩ := split_of_mem member
  have ring := rep.queues source
  rw [split, List.map_append, List.map_cons] at ring
  constructor
  · intro queue
    by_cases same : queue = source
    · subst queue
      change Ring _ _ (((place.on source).erase t).map Node.rq)
      rw [erased, List.map_append]
      exact queueRemove_ring ring
    · have absent : t ∉ place.on queue :=
        fun inQueue => same (place.unique queue source t inQueue member)
      change Ring _ _ (((place.on queue).erase t).map Node.rq)
      rw [List.erase_of_not_mem absent]
      apply (rep.queues queue).congr
      intro node inRing
      apply queueRemove_frame ring
      rw [← List.map_cons, ← List.map_append, ← split]
      intro inSource
      rcases inRing with atHead | inside
      · subst node
        simp [same] at inSource
      · obtain ⟨u, inQueue, isNode⟩ := List.mem_map.mp inside
        subst node
        simp only [List.mem_cons, reduceCtorEq, List.mem_map, Node.rq.injEq,
          exists_eq_right, false_or] at inSource
        exact same (place.unique queue source u inQueue inSource)
  · apply rep.all.congr
    intro node inRing
    apply queueRemove_frame ring
    rcases inRing with atHead | inside
    · subst node
      simp
    · obtain ⟨u, _, isNode⟩ := List.mem_map.mp inside
      subst node
      simp

theorem Represents.append (rep : Represents links place tasks) {t : Nat}
    (fresh : ¬ place.Placed t) (queue : Queue) :
    Represents (queueInsertTail links (.head queue) (.rq t))
      (place.append queue t fresh) tasks := by
  have absent : ∀ other, t ∉ place.on other := fun other member => fresh ⟨other, member⟩
  have outside : Node.rq t ∉ Node.head queue :: (place.on queue).map .rq := by
    simp [absent queue]
  constructor
  · intro other
    rw [Placement.append_on]
    by_cases same : other = queue
    · subst other
      rw [if_pos rfl, List.map_append]
      exact queueInsertTail_ring (rep.queues queue) outside
    · rw [if_neg same]
      apply (rep.queues other).congr
      intro node inRing
      apply queueInsertTail_frame (rep.queues queue) outside
      intro inQueue
      rcases inRing with atHead | inside
      · subst node
        simp [same] at inQueue
      · obtain ⟨u, inOther, isNode⟩ := List.mem_map.mp inside
        subst node
        simp only [List.mem_cons, reduceCtorEq, List.mem_map, Node.rq.injEq,
          exists_eq_right, false_or] at inQueue
        rcases inQueue with isNew | inSame
        · subst u
          exact absent other inOther
        · exact same (place.unique other queue u inOther inSame)
  · apply rep.all.congr
    intro node inRing
    apply queueInsertTail_frame (rep.queues queue) outside
    rcases inRing with atHead | inside
    · subst node
      simp
    · obtain ⟨u, _, isNode⟩ := List.mem_map.mp inside
      subst node
      simp

/-- Unlinking a task's node and linking it in elsewhere moves the task. -/
theorem Represents.move (rep : Represents links place tasks) {t : Nat} {source : Queue}
    (member : t ∈ place.on source) (queue : Queue) :
    Represents (queueInsertTail (queueRemove links (.rq t)) (.head queue) (.rq t))
      (place.move t queue) tasks :=
  (rep.remove member).append (place.not_placed_remove t) queue

/-- Linking a new `q` node in at the tail of `task_queue`. -/
theorem Represents.register (rep : Represents links place tasks) {t : Nat}
    (fresh : t ∉ tasks) :
    Represents (queueInsertTail links .taskQueue (.q t)) place (tasks ++ [t]) := by
  have outside : Node.q t ∉ Node.taskQueue :: tasks.map .q := by
    simp [fresh]
  constructor
  · intro queue
    apply (rep.queues queue).congr
    intro node inRing
    apply queueInsertTail_frame rep.all outside
    rcases inRing with atHead | inside
    · subst node
      simp
    · obtain ⟨u, _, isNode⟩ := List.mem_map.mp inside
      subst node
      simp
  · rw [List.map_append]
    exact queueInsertTail_ring rep.all outside

theorem Represents.first_eq (rep : Represents links place tasks) (queue : Queue) :
    queueFirst links (.head queue) = ((place.on queue).map .rq).headD (.head queue) :=
  (rep.queues queue).next_head

theorem Represents.empty_iff (rep : Represents links place tasks) (queue : Queue) :
    queueEmpty links (.head queue) = true ↔ place.on queue = [] := by
  rw [queueEmpty_iff (rep.queues queue), List.map_eq_nil_iff]

/-- The links determine the placement: both readings of a ring agree. -/
theorem Represents.on_eq {other : Placement Queue Nat} {others : List Nat}
    (rep : Represents links place tasks) (rep' : Represents links other others)
    (queue : Queue) : place.on queue = other.on queue := by
  have same := (rep.queues queue).unique (rep'.queues queue)
  exact List.map_injective_iff.mpr (fun _ _ h => Node.rq.inj h) same

theorem Represents.tasks_eq {other : Placement Queue Nat} {others : List Nat}
    (rep : Represents links place tasks) (rep' : Represents links other others) :
    tasks = others := by
  have same := rep.all.unique rep'.all
  exact List.map_injective_iff.mpr (fun _ _ h => Node.q.inj h) same

end MangoOS
