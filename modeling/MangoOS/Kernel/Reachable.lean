/-
Runs of the kernel from the end of `kernel_init`.

A run is any sequence of operations of any tasks, the timer and the disk
interrupt.  The only limits are those the sources keep: a `task_t` is initialised
once, a creator starts only a task it created, and the idle task, which just
halts in a loop, never suspends itself.
-/

import MangoOS.Kernel.Ipc

namespace MangoOS

open Intrusive

/-- The memory when `kernel_init` sets up its queues.  The mutexes and semaphores
of the drivers are initialised by then and nobody waits on them. -/
structure Boot where
  memory : Kernel
  idle : Nat
  init : Nat
  entry : UInt32
  distinct : init ≠ idle
  pid : memory.pid = 0
  mutexQueues : ∀ m, Ring memory.links (.head (.mutex m)) []
  semQueues : ∀ s, Ring memory.links (.head (.sem s)) []

def Boot.start (boot : Boot) : Option Kernel :=
  boot.memory.kernelInit boot.idle boot.init boot.entry

/-- The task is on `task_queue`, where `task_init` puts it and nothing removes it. -/
def Kernel.Initialised (k : Kernel) (t : Nat) : Prop :=
  ∃ nodes, Ring k.links .taskQueue nodes ∧ Node.q t ∈ nodes

def Kernel.Permits (idle : Nat) (k : Kernel) : Op → Prop
  | .taskInit t _ => ¬ k.Initialised t
  | .setRunning t => k.Initialised t ∧ (k.task t).state = .created
  | .sysSleep _ => k.current ≠ idle
  | .mutexLock _ => k.current ≠ idle
  | .semWait _ => k.current ≠ idle
  | .taskTick => True
  | .taskYield => True
  | .mutexUnlock _ => True
  | .semNotify _ => True

inductive Run (boot : Boot) : Kernel → Prop
  | start {k : Kernel} (booted : boot.start = some k) : Run boot k
  | step {k after : Kernel} (run : Run boot k) (op : Op)
      (permitted : k.Permits boot.idle op) (stepped : k.step op = some after) :
      Run boot after

/-! ### The start -/

private theorem queueInit_ring (links : Links Node) (q : Node) : Ring (queueInit links q) q [] := by
  rw [Ring.nil_iff]
  simp [queueInit]

private theorem queueInit_keeps {links : Links Node} {head q : Node}
    (ring : Ring links head []) (different : head ≠ q) : Ring (queueInit links q) head [] := by
  apply ring.congr
  intro node member
  have isHead : node = head := by simpa using member
  simp [queueInit, isHead, different]

/-- What `kernel_init` leaves: the idle task runs and the init task is behind it. -/
theorem Boot.start_spec (boot : Boot) :
    ∃ k place, boot.start = some k ∧
      Scheduled boot.idle k place [boot.idle, boot.init] ∧
      Calm boot.memory (Placement.empty Queue Nat) k place := by
  let links := queueInit (queueInit (queueInit boot.memory.links .taskQueue) (.head .ready))
    (.head .sleep)
  let cleared : Kernel := { boot.memory with links := links }
  have empty : Settled cleared (Placement.empty Queue Nat) [] := by
    constructor
    · constructor
      · intro queue
        cases queue with
        | ready => exact queueInit_keeps (queueInit_ring _ _) (by decide)
        | sleep => exact queueInit_ring _ _
        | mutex m =>
            exact queueInit_keeps (queueInit_keeps (queueInit_keeps (boot.mutexQueues m)
              (by simp)) (by simp)) (by simp)
        | sem s =>
            exact queueInit_keeps (queueInit_keeps (queueInit_keeps (boot.semQueues s)
              (by simp)) (by simp)) (by simp)
      · exact queueInit_keeps (queueInit_keeps (queueInit_ring _ _) (by simp)) (by simp)
    · exact boot.pid
    · intro t
      constructor
      · rintro ⟨queue, member⟩
        cases member
      · intro member
        cases member
    · intro queue t member
      cases member
    · intro t member
      cases member
  have idleNew : ¬ (Placement.empty Queue Nat).Placed boot.idle := by
    rintro ⟨queue, member⟩
    cases member
  have idleSettled := taskInit_settled empty idleNew 0
  have idleReady : boot.idle ∈
      ((Placement.empty Queue Nat).append .ready boot.idle idleNew).on .ready := by
    rw [Placement.append_on, if_pos rfl]
    exact List.mem_append_right _ (List.mem_singleton_self _)
  have idleRuns := setRunning_settled idleSettled idleReady
  have initNew : ¬ ((Placement.empty Queue Nat).append .ready boot.idle idleNew).Placed
      boot.init := by
    rw [idleSettled.placed, List.nil_append, List.mem_singleton]
    exact boot.distinct
  have initSettled := taskInit_settled idleRuns initNew boot.entry
  let place := ((Placement.empty Queue Nat).append .ready boot.idle idleNew).append .ready
    boot.init initNew
  have ready : place.on .ready = [boot.idle, boot.init] := by
    simp only [place, Placement.append_on, if_true]
    rfl
  have initReady : boot.init ∈ place.on .ready := by
    rw [ready]
    exact List.mem_cons_of_mem _ (List.mem_singleton_self _)
  have initRuns := setRunning_settled initSettled initReady
  let booted := (((cleared.taskInit boot.idle 0).setState boot.idle .running).taskInit
    boot.init boot.entry).setState boot.init .running
  have first : Kernel.queueData (queueFirst booted.links (.head .ready)) =
      some boot.idle := by
    rw [initRuns.rep.first_eq .ready]
    change Kernel.queueData (((place.on .ready).map Node.rq).headD _) = _
    rw [ready]
    rfl
  refine ⟨{ booted with current := boot.idle }, place, ?_, ?_, ?_⟩
  · change (Kernel.queueData (queueFirst booted.links (.head .ready))).map _ = _
    rw [first]
    rfl
  · constructor
    · exact initRuns.congr rfl rfl rfl
    · rw [ready]
      exact List.mem_cons_self ..
    · rw [ready]
      exact List.mem_cons_self ..
  · have idleCalm := taskInit_calm cleared (Placement.empty Queue Nat) idleNew 0
    have initCalm := taskInit_calm
      ((cleared.taskInit boot.idle 0).setState boot.idle .running) _ initNew boot.entry
    constructor
    · exact initCalm.mutex.trans idleCalm.mutex
    · exact initCalm.sem.trans idleCalm.sem
    · intro queue notReady notSleep
      exact (initCalm.waiting queue notReady notSleep).trans
        (idleCalm.waiting queue notReady notSleep)

/-! ### One step, and all runs -/

/-- What one step does to the mutexes, the semaphores and their queues. -/
def Outcome (k : Kernel) (place : Placement Queue Nat) (op : Op) (after : Kernel)
    (placeAfter : Placement Queue Nat) : Prop :=
  match op with
  | .mutexLock m => LockOutcome k place m after placeAfter
  | .mutexUnlock m => UnlockOutcome k place m after placeAfter
  | .semWait s => WaitOutcome k place s after placeAfter
  | .semNotify s => NotifyOutcome k place s after placeAfter
  | _ => Calm k place after placeAfter

variable {k after : Kernel} {place : Placement Queue Nat} {tasks : List Nat} {idle : Nat}

theorem Settled.initialised_iff (settled : Settled k place tasks) (t : Nat) :
    k.Initialised t ↔ t ∈ tasks := by
  constructor
  · rintro ⟨nodes, ring, member⟩
    rw [ring.unique settled.rep.all] at member
    simpa using member
  · intro known
    exact ⟨tasks.map .q, settled.rep.all, List.mem_map_of_mem known⟩

/-- Every permitted step succeeds, keeps the scheduling invariant and forgets no task. -/
theorem step_spec (scheduled : Scheduled idle k place tasks) (op : Op)
    (permitted : k.Permits idle op) :
    ∃ after placeAfter tasksAfter, k.step op = some after ∧
      Scheduled idle after placeAfter tasksAfter ∧ Outcome k place op after placeAfter ∧
        tasks ⊆ tasksAfter := by
  cases op with
  | taskInit t entry =>
      have fresh : t ∉ tasks :=
        fun known => permitted ((scheduled.initialised_iff t).mpr known)
      obtain ⟨placeAfter, next, calm⟩ := taskInit_spec scheduled fresh entry
      exact ⟨_, placeAfter, _, rfl, next, calm, List.subset_append_left tasks [t]⟩
  | setRunning t =>
      obtain ⟨known, created⟩ := permitted
      obtain ⟨next, calm⟩ :=
        setRunning_spec scheduled ((scheduled.initialised_iff t).mp known) created
      exact ⟨_, place, tasks, rfl, next, calm, List.Subset.refl tasks⟩
  | taskTick =>
      obtain ⟨after, placeAfter, stepped, next, calm⟩ := taskTick_spec scheduled
      exact ⟨after, placeAfter, tasks, stepped, next, calm, List.Subset.refl tasks⟩
  | taskYield =>
      obtain ⟨after, placeAfter, stepped, next, calm⟩ := taskYield_spec scheduled
      exact ⟨after, placeAfter, tasks, stepped, next, calm, List.Subset.refl tasks⟩
  | sysSleep ms =>
      obtain ⟨after, placeAfter, stepped, next, calm⟩ := sysSleep_spec scheduled permitted ms
      exact ⟨after, placeAfter, tasks, stepped, next, calm, List.Subset.refl tasks⟩
  | mutexLock m =>
      obtain ⟨after, placeAfter, stepped, next, outcome⟩ :=
        mutexLock_spec scheduled permitted m
      exact ⟨after, placeAfter, tasks, stepped, next, outcome, List.Subset.refl tasks⟩
  | mutexUnlock m =>
      obtain ⟨after, placeAfter, stepped, next, outcome⟩ := mutexUnlock_spec scheduled m
      exact ⟨after, placeAfter, tasks, stepped, next, outcome, List.Subset.refl tasks⟩
  | semWait s =>
      obtain ⟨after, placeAfter, stepped, next, outcome⟩ :=
        semWait_spec scheduled permitted s
      exact ⟨after, placeAfter, tasks, stepped, next, outcome, List.Subset.refl tasks⟩
  | semNotify s =>
      obtain ⟨after, placeAfter, stepped, next, outcome⟩ := semNotify_spec scheduled s
      exact ⟨after, placeAfter, tasks, stepped, next, outcome, List.Subset.refl tasks⟩

/-- The same for the kernel a step is known to lead to. -/
theorem step_outcome (scheduled : Scheduled idle k place tasks) (op : Op)
    (permitted : k.Permits idle op) (stepped : k.step op = some after) :
    ∃ placeAfter tasksAfter,
      Scheduled idle after placeAfter tasksAfter ∧ Outcome k place op after placeAfter := by
  obtain ⟨found, placeAfter, tasksAfter, foundAs, next, outcome, _⟩ :=
    step_spec scheduled op permitted
  rw [stepped] at foundAs
  cases foundAs
  exact ⟨placeAfter, tasksAfter, next, outcome⟩

theorem step_initialised (scheduled : Scheduled idle k place tasks) (op : Op)
    (permitted : k.Permits idle op) (stepped : k.step op = some after) {t : Nat}
    (known : k.Initialised t) : after.Initialised t := by
  obtain ⟨found, placeAfter, tasksAfter, foundAs, next, _, kept⟩ :=
    step_spec scheduled op permitted
  rw [stepped] at foundAs
  cases foundAs
  exact (next.initialised_iff t).mpr (kept ((scheduled.initialised_iff t).mp known))

theorem Run.scheduled {boot : Boot} (run : Run boot k) :
    ∃ place tasks, Scheduled boot.idle k place tasks := by
  induction run with
  | start booted =>
      obtain ⟨found, place, foundAs, scheduled, _⟩ := boot.start_spec
      rw [booted] at foundAs
      cases foundAs
      exact ⟨place, _, scheduled⟩
  | step run op permitted stepped ih =>
      obtain ⟨place, tasks, scheduled⟩ := ih
      obtain ⟨placeAfter, tasksAfter, next, _⟩ :=
        step_outcome scheduled op permitted stepped
      exact ⟨placeAfter, tasksAfter, next⟩

/-! ### No task is lost, duplicated or dispatched while blocked -/

/-- `place queue` is what the links of `queue` hold, in order, and the task states
agree with it. -/
structure QueuesIntact (k : Kernel) (place : Queue → List Nat) : Prop where
  linked : ∀ queue, Ring k.links (.head queue) ((place queue).map .rq)
  registered : ∃ tasks : List Nat, Ring k.links .taskQueue (tasks.map .q)
  known : ∀ queue t, t ∈ place queue → k.Initialised t
  once : ∀ t, k.Initialised t → ∃! queue, t ∈ place queue
  ready : ∀ t, k.Initialised t →
    (t ∈ place .ready ↔ (k.task t).state = .created ∨ (k.task t).state = .running)
  sleeping : ∀ t, k.Initialised t → (t ∈ place .sleep ↔ (k.task t).state = .sleep)
  awake : ∀ t, t ∈ place .sleep → 0 < (k.task t).sleepTicks
  waiting : ∀ t, k.Initialised t →
    ((∃ m, t ∈ place (.mutex m)) ∨ (∃ s, t ∈ place (.sem s)) ↔
      (k.task t).state = .waiting)
  current : k.current ∈ place .ready

theorem Scheduled.queuesIntact (scheduled : Scheduled idle k place tasks) :
    QueuesIntact k place.on := by
  have stateOf : ∀ t, k.Initialised t →
      ∃ queue, t ∈ place.on queue ∧ (k.task t).state.fits queue = true := by
    intro t known
    obtain ⟨queue, member⟩ :=
      (scheduled.placed t).mpr ((scheduled.initialised_iff t).mp known)
    exact ⟨queue, member, scheduled.fits queue t member⟩
  constructor
  · exact scheduled.rep.queues
  · exact ⟨tasks, scheduled.rep.all⟩
  · intro queue t member
    exact (scheduled.initialised_iff t).mpr ((scheduled.placed t).mp ⟨queue, member⟩)
  · intro t known
    obtain ⟨queue, member, _⟩ := stateOf t known
    exact ⟨queue, member, fun other inOther => place.unique other queue t inOther member⟩
  · intro t known
    obtain ⟨queue, member, fits⟩ := stateOf t known
    rw [← TaskState.fits_ready_iff]
    constructor
    · exact scheduled.fits .ready t
    · intro fitsReady
      have isReady := TaskState.fits_awake fits fitsReady (Or.inl rfl)
      exact isReady ▸ member
  · intro t known
    obtain ⟨queue, member, fits⟩ := stateOf t known
    rw [← TaskState.fits_sleep_iff]
    constructor
    · exact scheduled.fits .sleep t
    · intro fitsSleep
      have isSleep := TaskState.fits_awake fits fitsSleep (Or.inr rfl)
      exact isSleep ▸ member
  · intro t member
    exact UInt32.pos_iff_ne_zero.mpr (scheduled.awake t member)
  · intro t known
    obtain ⟨queue, member, fits⟩ := stateOf t known
    constructor
    · rintro (⟨m, inMutex⟩ | ⟨s, inSem⟩)
      · exact scheduled.state_waiting_mutex inMutex
      · exact scheduled.state_waiting_sem inSem
    · intro waits
      rw [waits] at fits
      cases queue with
      | ready => cases fits
      | sleep => cases fits
      | mutex m => exact Or.inl ⟨m, member⟩
      | sem s => exact Or.inr ⟨s, member⟩
  · exact scheduled.current

/-- In every state of every run the queues are intact, and the next operation,
whichever it is, completes. -/
theorem run_queuesIntact {boot : Boot} (run : Run boot k) :
    (∃ place, QueuesIntact k place) ∧
      ∀ op, k.Permits boot.idle op → ∃ after, k.step op = some after := by
  obtain ⟨place, tasks, scheduled⟩ := run.scheduled
  refine ⟨⟨place.on, scheduled.queuesIntact⟩, ?_⟩
  intro op permitted
  obtain ⟨after, _, _, stepped, _⟩ := step_spec scheduled op permitted
  exact ⟨after, stepped⟩

/-- Zeroed memory: no task yet, every link on itself. -/
def Boot.zeroed : Boot where
  memory :=
    { links := { next := id, prev := id }
      task := fun _ => { state := .zombie, pid := 0, slice := 0, sleepTicks := 0 }
      mutex := fun _ => { lockTimes := 0, owner := none }
      sem := fun _ => { count := 0 }
      current := 0
      idleTask := 0
      pid := 0 }
  idle := 0
  init := 1
  entry := 4096
  distinct := by decide
  pid := rfl
  mutexQueues := fun _ => (Ring.nil_iff _ _).mpr ⟨rfl, rfl⟩
  semQueues := fun _ => (Ring.nil_iff _ _).mpr ⟨rfl, rfl⟩

theorem Boot.zeroed_ready :
    ∃ k, Run Boot.zeroed k ∧ k.current = 1 ∧ Ring k.links (.head (.mutex 0)) [] ∧
      Ring k.links (.head (.sem 0)) [] ∧ (k.sem 0).count = 0 := by
  have started := Run.start (rfl : Boot.zeroed.start = some _)
  refine ⟨_, Run.step started .taskYield trivial rfl, rfl, ?_, ?_, rfl⟩
  · rw [Ring.nil_iff]
    exact ⟨rfl, rfl⟩
  · rw [Ring.nil_iff]
    exact ⟨rfl, rfl⟩

theorem Boot.zeroed_yielded :
    ∃ k, Run Boot.zeroed k ∧ k.current = 1 ∧ Ring k.links (.head (.mutex 0)) [] ∧
      Ring k.links (.head (.sem 0)) [] := by
  obtain ⟨k, run, current, alone, quiet, _⟩ := Boot.zeroed_ready
  exact ⟨k, run, current, alone, quiet⟩

theorem run_queuesIntact_yielded :
    ∃ k, k.current = 1 ∧ (∃ place, QueuesIntact k place) ∧
      ∀ op, k.Permits Boot.zeroed.idle op → ∃ after, k.step op = some after := by
  obtain ⟨k, run, current, _, _⟩ := Boot.zeroed_yielded
  exact ⟨k, current, run_queuesIntact run⟩

end MangoOS
