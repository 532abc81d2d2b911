/-
The suspended callers of a mutex or a semaphore.

An observer of one primitive keeps the callers it saw suspended, in order.  After
each step it looks at their states: a caller that is no longer `TASK_WAITING` has
been let go.
-/

import MangoOS.Kernel.Reachable

namespace MangoOS

open Intrusive

namespace Kernel

def suspended (k : Kernel) (callers : List Nat) : List Nat :=
  callers.filter (fun t => (k.task t).state = .waiting)

def awakened (k : Kernel) (callers : List Nat) : List Nat :=
  callers.filter (fun t => (k.task t).state ≠ .waiting)

theorem suspended_all {k : Kernel} {callers : List Nat}
    (waiting : ∀ t, t ∈ callers → (k.task t).state = .waiting) :
    k.suspended callers = callers := by
  unfold suspended
  rw [List.filter_eq_self]
  intro t member
  exact decide_eq_true (waiting t member)

theorem awakened_none {k : Kernel} {callers : List Nat}
    (waiting : ∀ t, t ∈ callers → (k.task t).state = .waiting) :
    k.awakened callers = [] := by
  unfold awakened
  rw [List.filter_eq_nil_iff]
  intro t member
  simp [waiting t member]

theorem suspended_first {k : Kernel} {first : Nat} {rest : List Nat}
    (awake : (k.task first).state ≠ .waiting)
    (waiting : ∀ t, t ∈ rest → (k.task t).state = .waiting) :
    k.suspended (first :: rest) = rest := by
  unfold suspended
  rw [List.filter_cons_of_neg (by simpa using awake)]
  exact suspended_all waiting

theorem awakened_first {k : Kernel} {first : Nat} {rest : List Nat}
    (awake : (k.task first).state ≠ .waiting)
    (waiting : ∀ t, t ∈ rest → (k.task t).state = .waiting) :
    k.awakened (first :: rest) = [first] := by
  unfold awakened
  rw [List.filter_cons_of_pos (by simpa using awake)]
  exact congrArg (first :: ·) (awakened_none waiting)

end Kernel

variable {k after : Kernel} {place placeAfter : Placement Queue Nat} {tasks : List Nat}
variable {idle : Nat}

/-! ### Steps that leave a waiting queue alone -/

theorem Scheduled.current_notMem (scheduled : Scheduled idle k place tasks) {queue : Queue}
    (notReady : queue ≠ .ready) : k.current ∉ place.on queue :=
  fun member => notReady (place.unique queue .ready k.current member scheduled.current)

theorem Scheduled.current_awake (scheduled : Scheduled idle k place tasks) :
    (k.task k.current).state ≠ .waiting := by
  rcases scheduled.state_ready scheduled.current with created | running
  · rw [created]
    decide
  · rw [running]
    decide

private theorem block_elsewhere (scheduled : Scheduled idle k place tasks)
    {queue other : Queue} (different : other ≠ queue) (notReady : other ≠ .ready) :
    (place.move k.current queue).on other = place.on other :=
  place.move_on_other k.current queue other different (scheduled.current_notMem notReady)

private theorem wake_elsewhere {first : Nat} {rest : List Nat} {queue other : Queue}
    (waiting : place.on queue = first :: rest) (different : other ≠ queue)
    (notReady : other ≠ .ready) :
    (place.move first .ready).on other = place.on other := by
  apply place.move_on_other first .ready other notReady
  intro member
  have inQueue : first ∈ place.on queue := by
    rw [waiting]
    exact List.mem_cons_self ..
  exact different (place.unique other queue first member inQueue)

/-- The waiters behind the first one are left when the first one is woken. -/
theorem wake_rest {first : Nat} {rest : List Nat} {queue : Queue}
    (waiting : place.on queue = first :: rest) (notReady : queue ≠ .ready) :
    (place.move first .ready).on queue = rest := by
  rw [Placement.move_on, if_neg notReady, waiting, List.erase_cons_head]

private theorem LockOutcome.elsewhere (scheduled : Scheduled idle k place tasks) {n : Nat}
    (outcome : LockOutcome k place n after placeAfter) :
    after.sem = k.sem ∧ (∀ m, m ≠ n → after.mutex m = k.mutex m) ∧
      ∀ queue, queue ≠ .ready → queue ≠ .mutex n → placeAfter.on queue = place.on queue := by
  cases outcome with
  | taken free => exact ⟨rfl, fun m different => by simp [different], fun _ _ _ => rfl⟩
  | nested held own => exact ⟨rfl, fun m different => by simp [different], fun _ _ _ => rfl⟩
  | blocked held other next =>
      exact ⟨rfl, fun _ _ => rfl,
        fun _ notReady different => block_elsewhere scheduled different notReady⟩

private theorem UnlockOutcome.elsewhere {n : Nat}
    (outcome : UnlockOutcome k place n after placeAfter) :
    after.sem = k.sem ∧ (∀ m, m ≠ n → after.mutex m = k.mutex m) ∧
      ∀ queue, queue ≠ .ready → queue ≠ .mutex n → placeAfter.on queue = place.on queue := by
  cases outcome with
  | notOwner other => exact ⟨rfl, fun _ _ => rfl, fun _ _ _ => rfl⟩
  | nested own more => exact ⟨rfl, fun m different => by simp [different], fun _ _ _ => rfl⟩
  | released own last alone =>
      exact ⟨rfl, fun m different => by simp [different], fun _ _ _ => rfl⟩
  | handed own last first rest waiting next =>
      exact ⟨rfl, fun m different => by simp [different],
        fun _ notReady different => wake_elsewhere waiting different notReady⟩

private theorem WaitOutcome.elsewhere (scheduled : Scheduled idle k place tasks) {n : Nat}
    (outcome : WaitOutcome k place n after placeAfter) :
    after.mutex = k.mutex ∧ (∀ s, s ≠ n → after.sem s = k.sem s) ∧
      ∀ queue, queue ≠ .ready → queue ≠ .sem n → placeAfter.on queue = place.on queue := by
  cases outcome with
  | granted available =>
      exact ⟨rfl, fun m different => by simp [different], fun _ _ _ => rfl⟩
  | blocked empty next =>
      exact ⟨rfl, fun _ _ => rfl,
        fun _ notReady different => block_elsewhere scheduled different notReady⟩

private theorem NotifyOutcome.elsewhere {n : Nat}
    (outcome : NotifyOutcome k place n after placeAfter) :
    after.mutex = k.mutex ∧ (∀ s, s ≠ n → after.sem s = k.sem s) ∧
      ∀ queue, queue ≠ .ready → queue ≠ .sem n → placeAfter.on queue = place.on queue := by
  cases outcome with
  | counted alone => exact ⟨rfl, fun m different => by simp [different], fun _ _ _ => rfl⟩
  | woken first rest waiting next =>
      exact ⟨rfl, fun _ _ => rfl,
        fun _ notReady different => wake_elsewhere waiting different notReady⟩

/-- Only the two mutex calls touch a mutex and its queue. -/
theorem Outcome.keeps_mutex (scheduled : Scheduled idle k place tasks) {op : Op} {m : Nat}
    (outcome : Outcome k place op after placeAfter) (notLock : op ≠ .mutexLock m)
    (notUnlock : op ≠ .mutexUnlock m) :
    after.mutex m = k.mutex m ∧ placeAfter.on (.mutex m) = place.on (.mutex m) := by
  cases op with
  | mutexLock n =>
      have different : m ≠ n := fun same => notLock (same ▸ rfl)
      obtain ⟨_, mutex, queues⟩ := LockOutcome.elsewhere scheduled outcome
      exact ⟨mutex m different, queues _ (by simp) (by simpa using different)⟩
  | mutexUnlock n =>
      have different : m ≠ n := fun same => notUnlock (same ▸ rfl)
      obtain ⟨_, mutex, queues⟩ := UnlockOutcome.elsewhere outcome
      exact ⟨mutex m different, queues _ (by simp) (by simpa using different)⟩
  | semWait n =>
      obtain ⟨mutex, _, queues⟩ := WaitOutcome.elsewhere scheduled outcome
      exact ⟨congrFun mutex m, queues _ (by simp) (by simp)⟩
  | semNotify n =>
      obtain ⟨mutex, _, queues⟩ := NotifyOutcome.elsewhere outcome
      exact ⟨congrFun mutex m, queues _ (by simp) (by simp)⟩
  | _ =>
      have calm : Calm k place after placeAfter := outcome
      exact ⟨congrFun calm.mutex m, calm.waiting _ (by simp) (by simp)⟩

/-- Only the two semaphore calls touch a semaphore and its queue. -/
theorem Outcome.keeps_sem (scheduled : Scheduled idle k place tasks) {op : Op} {s : Nat}
    (outcome : Outcome k place op after placeAfter) (notWait : op ≠ .semWait s)
    (notNotify : op ≠ .semNotify s) :
    after.sem s = k.sem s ∧ placeAfter.on (.sem s) = place.on (.sem s) := by
  cases op with
  | mutexLock n =>
      obtain ⟨sem, _, queues⟩ := LockOutcome.elsewhere scheduled outcome
      exact ⟨congrFun sem s, queues _ (by simp) (by simp)⟩
  | mutexUnlock n =>
      obtain ⟨sem, _, queues⟩ := UnlockOutcome.elsewhere outcome
      exact ⟨congrFun sem s, queues _ (by simp) (by simp)⟩
  | semWait n =>
      have different : s ≠ n := fun same => notWait (same ▸ rfl)
      obtain ⟨_, sem, queues⟩ := WaitOutcome.elsewhere scheduled outcome
      exact ⟨sem s different, queues _ (by simp) (by simpa using different)⟩
  | semNotify n =>
      have different : s ≠ n := fun same => notNotify (same ▸ rfl)
      obtain ⟨_, sem, queues⟩ := NotifyOutcome.elsewhere outcome
      exact ⟨sem s different, queues _ (by simp) (by simpa using different)⟩
  | _ =>
      have calm : Calm k place after placeAfter := outcome
      exact ⟨congrFun calm.sem s, calm.waiting _ (by simp) (by simp)⟩

/-! ### A primitive that is initialised while the kernel runs -/

/-- `queue_init` of a queue on which no task stands changes no link. -/
theorem Scheduled.reset (scheduled : Scheduled idle k place tasks) {queue : Queue}
    (alone : place.on queue = []) (links : after.links = queueInit k.links (.head queue))
    (pid : after.pid = k.pid) (task : after.task = k.task)
    (current : after.current = k.current) : Scheduled idle after place tasks := by
  have ring := scheduled.rep.queues queue
  rw [alone, List.map_nil, Ring.nil_iff] at ring
  have same : ∀ node, (queueInit k.links (.head queue)).next node = k.links.next node ∧
      (queueInit k.links (.head queue)).prev node = k.links.prev node := by
    intro node
    by_cases isHead : node = .head queue
    · subst node
      simp [queueInit, ring.1, ring.2]
    · simp [queueInit, isHead]
  have rep : Represents after.links place tasks := by
    rw [links]
    constructor
    · intro other
      exact (scheduled.rep.queues other).congr (fun node _ => same node)
    · exact scheduled.rep.all.congr (fun node _ => same node)
  constructor
  · constructor
    · exact rep
    · exact pid.trans scheduled.pid
    · exact scheduled.placed
    · rw [task]
      exact scheduled.fits
    · rw [task]
      exact scheduled.awake
  · exact current ▸ scheduled.current
  · exact scheduled.idle

end MangoOS
