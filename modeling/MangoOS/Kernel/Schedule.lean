/-
The scheduling invariant and what each operation does to it.

`Settled` says that the tasks stand on the queues their states call for;
`Scheduled` adds that the current task and the idle task are ready.  Every
operation has one lemma that names the kernel it leaves and its placement.
-/

import MangoOS.Kernel.Represent

namespace MangoOS

open Intrusive

/-- The queues a task may be on in each state. -/
def TaskState.fits : TaskState → Queue → Bool
  | .created, .ready => true
  | .running, .ready => true
  | .sleep, .sleep => true
  | .waiting, .mutex _ => true
  | .waiting, .sem _ => true
  | _, _ => false

theorem TaskState.fits_ready_iff (state : TaskState) :
    state.fits .ready = true ↔ state = .created ∨ state = .running := by
  cases state <;> simp [fits]

theorem TaskState.fits_sleep_iff (state : TaskState) :
    state.fits .sleep = true ↔ state = .sleep := by
  cases state <;> simp [fits]

theorem TaskState.fits_mutex_iff (state : TaskState) (m : Nat) :
    state.fits (.mutex m) = true ↔ state = .waiting := by
  cases state <;> simp [fits]

theorem TaskState.fits_sem_iff (state : TaskState) (s : Nat) :
    state.fits (.sem s) = true ↔ state = .waiting := by
  cases state <;> simp [fits]

/-- A state fits the ready queue or the sleep queue alone. -/
theorem TaskState.fits_awake {state : TaskState} {queue other : Queue}
    (fits : state.fits queue = true) (fitsOther : state.fits other = true)
    (awake : other = .ready ∨ other = .sleep) : queue = other := by
  rcases awake with isReady | isSleep
  · subst other
    cases state <;> cases queue <;> simp [TaskState.fits] at fits fitsOther ⊢
  · subst other
    cases state <;> cases queue <;> simp [TaskState.fits] at fits fitsOther ⊢

namespace Kernel

@[simp] theorem withTask_task (k : Kernel) (t : Nat) (change : Task → Task) (u : Nat) :
    (k.withTask t change).task u = if u = t then change (k.task t) else k.task u :=
  Function.update_apply k.task t (change (k.task t)) u

@[simp] theorem withMutex_mutex (k : Kernel) (m : Nat) (change : Mutex → Mutex) (n : Nat) :
    (k.withMutex m change).mutex n = if n = m then change (k.mutex m) else k.mutex n :=
  Function.update_apply k.mutex m (change (k.mutex m)) n

@[simp] theorem withSem_sem (k : Kernel) (s : Nat) (change : Sem → Sem) (n : Nat) :
    (k.withSem s change).sem n = if n = s then change (k.sem s) else k.sem n :=
  Function.update_apply k.sem s (change (k.sem s)) n

end Kernel

/-- Every task is on a queue that its state calls for, and a sleeper has ticks left. -/
structure Settled (k : Kernel) (place : Placement Queue Nat) (tasks : List Nat) : Prop where
  rep : Represents k.links place tasks
  pid : k.pid = tasks.length
  placed : ∀ t, place.Placed t ↔ t ∈ tasks
  fits : ∀ queue t, t ∈ place.on queue → (k.task t).state.fits queue = true
  awake : ∀ t, t ∈ place.on .sleep → (k.task t).sleepTicks ≠ 0

structure Scheduled (idle : Nat) (k : Kernel) (place : Placement Queue Nat)
    (tasks : List Nat) : Prop extends Settled k place tasks where
  current : k.current ∈ place.on .ready
  idle : idle ∈ place.on .ready

variable {k after : Kernel} {place : Placement Queue Nat} {tasks : List Nat} {idle : Nat}

/-! ### Preservation -/

/-- Fields may change in place as long as every task still fits its queue. -/
theorem Settled.retask (settled : Settled k place tasks)
    (links : after.links = k.links) (pid : after.pid = k.pid)
    (fits : ∀ queue t, t ∈ place.on queue → (after.task t).state.fits queue = true)
    (awake : ∀ t, t ∈ place.on .sleep → (after.task t).sleepTicks ≠ 0) :
    Settled after place tasks where
  rep := links ▸ settled.rep
  pid := pid.trans settled.pid
  placed := settled.placed
  fits := fits
  awake := awake

/-- Nothing but the links and the task fields matters. -/
theorem Settled.congr (settled : Settled k place tasks)
    (links : after.links = k.links) (pid : after.pid = k.pid)
    (task : after.task = k.task) : Settled after place tasks := by
  apply settled.retask links pid
  · rw [task]
    exact settled.fits
  · rw [task]
    exact settled.awake

/-- One task moves to another queue and takes a state that fits it. -/
theorem Settled.move (settled : Settled k place tasks) {t : Nat} {source queue : Queue}
    (member : t ∈ place.on source)
    (links : after.links =
      queueInsertTail (queueRemove k.links (.rq t)) (.head queue) (.rq t))
    (pid : after.pid = k.pid) (others : ∀ u, u ≠ t → after.task u = k.task u)
    (fits : (after.task t).state.fits queue = true)
    (awake : queue = .sleep → (after.task t).sleepTicks ≠ 0) :
    Settled after (place.move t queue) tasks where
  rep := by
    rw [links]
    exact settled.rep.move member queue
  pid := pid.trans settled.pid
  placed := by
    intro u
    rw [Placement.placed_move]
    constructor
    · rintro (same | old)
      · subst u
        exact (settled.placed t).mp ⟨source, member⟩
      · exact (settled.placed u).mp old
    · intro known
      exact Or.inr ((settled.placed u).mpr known)
  fits := by
    intro other u inOther
    rcases (place.mem_move t u queue other).mp inOther with ⟨different, old⟩ | ⟨same, isT⟩
    · rw [others u different]
      exact settled.fits other u old
    · subst same isT
      exact fits
  awake := by
    intro u inSleep
    rcases (place.mem_move t u queue .sleep).mp inSleep with ⟨different, old⟩ | ⟨same, isT⟩
    · rw [others u different]
      exact settled.awake u old
    · subst isT
      exact awake same.symm

theorem Settled.state_ready (settled : Settled k place tasks) {t : Nat}
    (member : t ∈ place.on .ready) :
    (k.task t).state = .created ∨ (k.task t).state = .running :=
  (TaskState.fits_ready_iff _).mp (settled.fits .ready t member)

theorem Settled.state_waiting_mutex (settled : Settled k place tasks) {t m : Nat}
    (member : t ∈ place.on (.mutex m)) : (k.task t).state = .waiting :=
  (TaskState.fits_mutex_iff _ m).mp (settled.fits (.mutex m) t member)

theorem Settled.state_waiting_sem (settled : Settled k place tasks) {t s : Nat}
    (member : t ∈ place.on (.sem s)) : (k.task t).state = .waiting :=
  (TaskState.fits_sem_iff _ s).mp (settled.fits (.sem s) t member)

/-! ### The scheduler -/

/-- A running task is followed by the one behind it, the last one by the first. -/
theorem pickNextTask_running (settled : Settled k place tasks) {left right rest : List Nat}
    {next : Nat} (split : place.on .ready = left ++ k.current :: right)
    (running : (k.task k.current).state = .running)
    (order : right ++ (left ++ [k.current]) = next :: rest) :
    Kernel.pickNextTask k = some next := by
  have ring := settled.rep.queues .ready
  have firstNode := ring.next_head
  rw [split, List.map_append, List.map_cons] at ring
  have nextNode := ring.next_of_split
  cases right with
  | nil =>
      rw [List.map_nil, List.headD_nil] at nextNode
      rw [List.nil_append] at order
      have firstAt : k.links.next (.head .ready) = .rq next := by
        rw [firstNode, split, order]
        rfl
      simp [Kernel.pickNextTask, running, nextNode, firstAt, Kernel.queueData]
  | cons first right =>
      rw [List.cons_append, List.cons.injEq] at order
      rw [List.map_cons, List.headD_cons, order.1] at nextNode
      simp [Kernel.pickNextTask, running, nextNode, Kernel.queueData]

/-- A task that does not run is followed by the first ready one. -/
theorem pickNextTask_first (settled : Settled k place tasks) {next : Nat} {rest : List Nat}
    (queue : place.on .ready = next :: rest) (stopped : (k.task k.current).state ≠ .running) :
    Kernel.pickNextTask k = some next := by
  have firstNode : k.links.next (.head .ready) = .rq next := by
    rw [(settled.rep.queues .ready).next_head, queue]
    rfl
  simp [Kernel.pickNextTask, stopped, queueFirst, firstNode, Kernel.queueData]

/-- `pick_next_task` finds a ready task as long as there is one. -/
theorem pickNextTask_spec (settled : Settled k place tasks)
    (known : place.Placed k.current) (ready : place.on .ready ≠ []) :
    ∃ next, next ∈ place.on .ready ∧ Kernel.pickNextTask k = some next := by
  by_cases running : (k.task k.current).state = .running
  · obtain ⟨queue, member⟩ := known
    have isReady : queue = .ready := by
      have fits := settled.fits queue k.current member
      rw [running] at fits
      cases queue <;> simp [TaskState.fits] at fits
      rfl
    subst queue
    obtain ⟨left, right, split⟩ := List.append_of_mem member
    obtain ⟨next, rest, order⟩ : ∃ next rest, right ++ (left ++ [k.current]) = next :: rest :=
      List.exists_cons_of_ne_nil (by simp)
    refine ⟨next, ?_, pickNextTask_running settled split running order⟩
    have inOrder : next ∈ right ++ (left ++ [k.current]) := order ▸ List.mem_cons_self ..
    rw [split]
    simp only [List.mem_append, List.mem_cons, List.not_mem_nil, or_false] at inOrder ⊢
    tauto
  · obtain ⟨next, rest, queue⟩ := List.exists_cons_of_ne_nil ready
    exact ⟨next, queue ▸ List.mem_cons_self .., pickNextTask_first settled queue running⟩

theorem schedule_spec (settled : Settled k place tasks) (known : place.Placed k.current)
    (idleReady : idle ∈ place.on .ready) :
    ∃ next, k.schedule = some { k with current := next } ∧
      Scheduled idle { k with current := next } place tasks := by
  have ready : place.on .ready ≠ [] := List.ne_nil_of_mem idleReady
  obtain ⟨next, member, picked⟩ := pickNextTask_spec settled known ready
  refine ⟨next, ?_, ?_⟩
  · rw [Kernel.schedule, picked]
    rfl
  · exact
      { toSettled := settled.congr rfl rfl rfl
        current := member
        idle := idleReady }

/-! ### Suspending and waking -/

/-- The memory in which `block` calls `schedule`. -/
def Kernel.blocked (k : Kernel) (queue : Queue) : Kernel :=
  { k.setState k.current .waiting with
    links := queueInsertTail (queueRemove k.links (.rq k.current)) (.head queue)
      (.rq k.current) }

theorem blocked_settled (scheduled : Scheduled idle k place tasks) (queue : Queue)
    (waits : TaskState.waiting.fits queue = true) :
    Settled (k.blocked queue) (place.move k.current queue) tasks := by
  apply scheduled.toSettled.move scheduled.current
  · rfl
  · rfl
  · intro u different
    simp [Kernel.blocked, Kernel.setState, different]
  · simpa [Kernel.blocked, Kernel.setState] using waits
  · intro isSleep
    subst queue
    cases waits

theorem block_spec (scheduled : Scheduled idle k place tasks)
    (notIdle : k.current ≠ idle) (queue : Queue)
    (waits : TaskState.waiting.fits queue = true) :
    ∃ next, k.block queue = some { k.blocked queue with current := next } ∧
      Scheduled idle { k.blocked queue with current := next }
        (place.move k.current queue) tasks := by
  have moved := blocked_settled scheduled queue waits
  have known : (place.move k.current queue).Placed (k.blocked queue).current :=
    (place.placed_move k.current k.current queue).mpr (Or.inl rfl)
  have idleReady : idle ∈ (place.move k.current queue).on .ready :=
    (place.mem_move k.current idle queue .ready).mpr
      (Or.inl ⟨notIdle.symm, scheduled.idle⟩)
  exact schedule_spec moved known idleReady

theorem unblock_settled (settled : Settled k place tasks) {t : Nat} {queue : Queue}
    (member : t ∈ place.on queue) :
    Settled (k.unblock t) (place.move t .ready) tasks := by
  apply settled.move member
  · rfl
  · rfl
  · intro u different
    simp [Kernel.unblock, Kernel.unlink, Kernel.linkTail, Kernel.setState, different]
  · simp [Kernel.unblock, Kernel.unlink, Kernel.linkTail, Kernel.setState, TaskState.fits]
  · intro isSleep
    cases isSleep

theorem requeue_settled (settled : Settled k place tasks) {t : Nat}
    (member : t ∈ place.on .ready) :
    Settled ((k.unlink (.rq t)).linkTail (.head .ready) (.rq t))
      (place.move t .ready) tasks := by
  apply settled.move member
  · rfl
  · rfl
  · intro u different
    rfl
  · exact settled.fits .ready t member
  · intro isSleep
    cases isSleep

end MangoOS
