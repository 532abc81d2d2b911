/-
The order in which ready tasks get the processor.

`pick_next_task` goes on behind the current task as long as that one stays where it is in the
ready queue.  A task that gives up its place, or was never marked as running, makes it start at
the head again, and what stood behind the task is passed over.
-/

import MangoOS.Kernel.Reachable
import MangoOS.Library.Turns

namespace MangoOS

open Intrusive

namespace Kernel

/-- The current task is the last one of the ready queue. -/
def Last (k : Kernel) : Prop := k.links.next (.rq k.current) = .head .ready

/-- The current task is the first or the last one of the ready queue. -/
def AtEnd (k : Kernel) : Prop := k.links.prev (.rq k.current) = .head .ready ∨ k.Last

/-- Nothing else is ready. -/
def Alone (k : Kernel) : Prop := k.links.prev (.rq k.current) = .head .ready ∧ k.Last

def CurrentRuns (k : Kernel) : Prop := (k.task k.current).state = .running

instance (k : Kernel) : Decidable k.CurrentRuns :=
  inferInstanceAs (Decidable ((k.task k.current).state = .running))

/-- The next tick wakes no sleeper. -/
def NoneDue (k : Kernel) : Prop :=
  ∀ t, (k.task t).state = .sleep → (k.task t).sleepTicks - 1 ≠ 0

/-- The operation gets as far as its call of `schedule`. -/
def Schedules (k : Kernel) : Op → Prop
  | .taskInit _ _ => False
  | .setRunning _ => False
  | .taskTick => True
  | .taskYield => True
  | .sysSleep _ => True
  | .mutexLock m => (k.mutex m).lockTimes ≠ 0 ∧ (k.mutex m).owner ≠ some k.current
  | .mutexUnlock m =>
      (k.mutex m).owner = some k.current ∧ int32 ((k.mutex m).lockTimes - 1) = 0 ∧
        queueEmpty k.links (.head (.mutex m)) = false
  | .semWait s => (k.sem s).count ≤ 0
  | .semNotify s => queueEmpty k.links (.head (.sem s)) = false

/-- A current task that gives up its place is the first or the last one, one that keeps it is
marked as running or is the last one; and no sleeper wakes in the tick that ends a slice. -/
def InTurn (k : Kernel) : Op → Prop
  | .taskInit _ _ => True
  | .setRunning _ => True
  | .taskTick =>
      ((k.task k.current).slice - 1 = 0 →
        k.Alone ∨ k.AtEnd ∧ (k.CurrentRuns → k.NoneDue)) ∧
      ((k.task k.current).slice - 1 ≠ 0 → k.CurrentRuns ∨ k.Last)
  | .taskYield => k.AtEnd
  | .sysSleep ms => (ms / 10 = 0 → k.CurrentRuns ∨ k.Last) ∧ (ms / 10 ≠ 0 → k.AtEnd)
  | .mutexLock m => k.Schedules (.mutexLock m) → k.AtEnd
  | .mutexUnlock m => k.Schedules (.mutexUnlock m) → k.CurrentRuns ∨ k.Last
  | .semWait s => k.Schedules (.semWait s) → k.AtEnd
  | .semNotify s => k.Schedules (.semNotify s) → k.CurrentRuns ∨ k.Last

end Kernel

variable {k mid after : Kernel} {place placeMid : Placement Queue Nat} {tasks : List Nat}
  {idle next : Nat} {left right more : List Nat}

/-! ### Where the current task stands -/

theorem Settled.last_iff (settled : Settled k place tasks)
    (split : place.on .ready = left ++ k.current :: right) :
    k.Last ↔ right = [] := by
  unfold Kernel.Last
  have ring := settled.rep.queues .ready
  rw [split, List.map_append, List.map_cons] at ring
  rw [ring.next_of_split]
  cases right with
  | nil => simp
  | cons first rest => simp

theorem Settled.first_iff (settled : Settled k place tasks)
    (split : place.on .ready = left ++ k.current :: right) :
    k.links.prev (.rq k.current) = .head .ready ↔ left = [] := by
  have ring := settled.rep.queues .ready
  rw [split, List.map_append, List.map_cons] at ring
  rw [ring.prev_of_split]
  rcases List.eq_nil_or_concat left with empty | ⟨rest, last, isLast⟩
  · simp [empty]
  · simp [isLast]

theorem Settled.atEnd_iff (settled : Settled k place tasks)
    (split : place.on .ready = left ++ k.current :: right) :
    k.AtEnd ↔ left = [] ∨ right = [] := by
  unfold Kernel.AtEnd
  rw [settled.first_iff split, settled.last_iff split]

/-! ### One call of the scheduler -/

/-- The ready queue of `after`, with its current task, is a turn on from `left`, `cur`,
`right`. -/
def TurnTo (left : List Nat) (cur : Nat) (right : List Nat) (after : Kernel) : Prop :=
  ∃ left' right', Ring after.links (.head .ready)
      ((left' ++ after.current :: right').map .rq) ∧
    Turn left cur right left' after.current right'

theorem schedule_picked (picked : Kernel.pickNextTask mid = some next)
    (stepped : mid.schedule = some after) : after = { mid with current := next } := by
  rw [Kernel.schedule, picked, Option.map_some, Option.some.injEq] at stepped
  exact stepped.symm

theorem Settled.turnTo (settled : Settled mid placeMid tasks) {left' right' : List Nat}
    {cur : Nat} (ready : placeMid.on .ready = left' ++ next :: right')
    (turn : Turn left cur right left' next right') :
    TurnTo left cur right { mid with current := next } := by
  refine ⟨left', right', ?_, turn⟩
  rw [← ready]
  exact settled.rep.queues .ready

/-- The current task keeps its place and runs: the next one is behind it. -/
theorem turn_onward (settled : Settled mid placeMid tasks)
    (ready : placeMid.on .ready = left ++ mid.current :: (right ++ more))
    (runs : mid.CurrentRuns) (stepped : mid.schedule = some after) :
    TurnTo left mid.current right after := by
  cases behind : right ++ more with
  | cons first rest =>
      rw [behind] at ready
      rw [schedule_picked (pickNextTask_running settled ready runs rfl) stepped]
      apply settled.turnTo _ (Turn.forward behind)
      rw [ready, List.append_assoc, List.singleton_append]
  | nil =>
      obtain ⟨noRight, noMore⟩ := List.append_eq_nil_iff.mp behind
      rw [behind] at ready
      cases left with
      | nil =>
          rw [schedule_picked (pickNextTask_running settled ready runs rfl) stepped]
          apply settled.turnTo _ (Turn.alone [] (List.append_eq_nil_iff.mpr ⟨rfl, noRight⟩))
          rw [ready, noRight]
          rfl
      | cons first rest =>
          rw [schedule_picked (pickNextTask_running settled ready runs rfl) stepped]
          have turn : Turn (first :: rest) mid.current right [] first (rest ++ [mid.current]) :=
            Turn.wrap noRight rfl
          apply settled.turnTo _ turn
          rw [ready]
          rfl

/-- It keeps its place at the tail and is not marked as running: the queue starts again. -/
theorem turn_first (settled : Settled mid placeMid tasks)
    (ready : placeMid.on .ready = left ++ mid.current :: more) (last : right = [])
    (stopped : ¬ mid.CurrentRuns) (stepped : mid.schedule = some after) :
    TurnTo left mid.current right after := by
  cases left with
  | nil =>
      rw [schedule_picked (pickNextTask_first settled ready stopped) stepped]
      apply settled.turnTo _ (Turn.alone more (List.append_eq_nil_iff.mpr ⟨rfl, last⟩))
      rw [ready, last]
      rfl
  | cons first rest =>
      rw [schedule_picked (pickNextTask_first settled ready stopped) stepped]
      exact settled.turnTo ready (Turn.wrap last rfl)

theorem turn_kept (settled : Settled mid placeMid tasks)
    (ready : placeMid.on .ready = left ++ mid.current :: (right ++ more))
    (goesOn : mid.CurrentRuns ∨ right = []) (stepped : mid.schedule = some after) :
    TurnTo left mid.current right after := by
  by_cases runs : mid.CurrentRuns
  · exact turn_onward settled ready runs stepped
  · have last := goesOn.resolve_left runs
    rw [last, List.nil_append] at ready
    exact turn_first settled ready last runs stepped

/-- It has moved to the tail, from the head or from the tail. -/
theorem turn_back (settled : Settled mid placeMid tasks)
    (ready : placeMid.on .ready = left ++ right ++ mid.current :: more)
    (atEnd : left = [] ∨ right = []) (quiet : mid.CurrentRuns → left ++ right = [] ∨ more = [])
    (stepped : mid.schedule = some after) : TurnTo left mid.current right after := by
  cases order : left ++ right with
  | nil =>
      obtain ⟨noLeft, noRight⟩ := List.append_eq_nil_iff.mp order
      rw [order] at ready
      by_cases runs : mid.CurrentRuns
      · have behind : placeMid.on .ready = [] ++ mid.current :: (right ++ more) := by
          rw [ready, noRight]
          rfl
        rw [noLeft]
        exact turn_onward settled behind runs stepped
      · rw [noLeft]
        exact turn_first settled ready noRight runs stepped
  | cons first rest =>
      have turn : Turn left mid.current right [] first (rest ++ mid.current :: more) := by
        rcases atEnd with head | tail
        · rw [head, List.nil_append] at order
          exact Turn.back head order
        · rw [tail, List.append_nil] at order
          exact Turn.wrap tail order
      rw [order] at ready
      by_cases runs : mid.CurrentRuns
      · rcases quiet runs with empty | noMore
        · rw [order] at empty
          cases empty
        · rw [noMore] at ready turn
          have picked := pickNextTask_running settled ready runs rfl
          rw [schedule_picked picked stepped]
          exact settled.turnTo ready turn
      · rw [schedule_picked (pickNextTask_first settled ready runs) stepped]
        exact settled.turnTo ready turn

theorem turn_leave (settled : Settled mid placeMid tasks)
    (ready : placeMid.on .ready = left ++ right) (occupied : left ++ right ≠ [])
    (atEnd : left = [] ∨ right = []) (stopped : ¬ mid.CurrentRuns)
    (stepped : mid.schedule = some after) : TurnTo left mid.current right after := by
  obtain ⟨first, rest, order⟩ := List.exists_cons_of_ne_nil occupied
  rw [order] at ready
  rw [schedule_picked (pickNextTask_first settled ready stopped) stepped]
  exact settled.turnTo ready (Turn.leave atEnd order)

/-! ### One operation -/

theorem taskTick_turn (scheduled : Scheduled idle k place tasks)
    (split : place.on .ready = left ++ k.current :: right) (inTurn : k.InTurn .taskTick)
    (stepped : k.taskTick = some after) : TurnTo left k.current right after := by
  obtain ⟨walked, placeWalked, ticked, settled, _, current, charged, counted⟩ :=
    taskTick_walked scheduled
  have ready := counted.ready
  rw [ticked] at stepped
  have sameRuns : walked.CurrentRuns ↔ k.CurrentRuns := by
    unfold Kernel.CurrentRuns
    rw [current, charged]
    rfl
  unfold Kernel.readyCharged at ready
  rw [← current]
  by_cases expired : (k.task k.current).slice - 1 = 0
  · have distinct := place.nodup .ready
    rw [split] at distinct
    rw [if_pos expired, split, erase_middle distinct, List.append_assoc,
      List.singleton_append, ← current] at ready
    rcases inTurn.1 expired with alone | ⟨atEnd, calm⟩
    · have noLeft := (scheduled.toSettled.first_iff split).mp alone.1
      have noRight := (scheduled.toSettled.last_iff split).mp alone.2
      apply turn_back settled ready (Or.inl noLeft) _ stepped
      intro _
      exact Or.inl (List.append_eq_nil_iff.mpr ⟨noLeft, noRight⟩)
    · apply turn_back settled ready ((scheduled.toSettled.atEnd_iff split).mp atEnd) _ stepped
      intro runs
      right
      apply List.eq_nil_iff_forall_not_mem.mpr
      intro t inWoken
      obtain ⟨inSleep, isDue⟩ := List.mem_filter.mp inWoken
      have asleep := (TaskState.fits_sleep_iff _).mp (scheduled.fits .sleep t inSleep)
      exact calm (sameRuns.mp runs) t asleep (of_decide_eq_true isDue)
  · rw [if_neg expired, split, ← current, List.append_assoc, List.cons_append] at ready
    apply turn_kept settled ready _ stepped
    rw [sameRuns, ← scheduled.toSettled.last_iff split]
    exact inTurn.2 expired

theorem taskYield_turn (scheduled : Scheduled idle k place tasks)
    (split : place.on .ready = left ++ k.current :: right) (inTurn : k.AtEnd)
    (stepped : k.taskYield = some after) : TurnTo left k.current right after := by
  let requeued := (k.unlink (.rq k.current)).linkTail (.head .ready) (.rq k.current)
  have moved : Settled requeued (place.move k.current .ready) tasks :=
    requeue_settled scheduled.toSettled scheduled.current
  have distinct := place.nodup .ready
  have ready : (place.move k.current .ready).on .ready = left ++ right ++ [k.current] := by
    rw [split] at distinct
    rw [Placement.move_on, if_pos rfl, split, erase_middle distinct]
  have turned : TurnTo left requeued.current right after :=
    turn_back moved ready ((scheduled.toSettled.atEnd_iff split).mp inTurn)
      (fun _ => Or.inr rfl) stepped
  exact turned

/-- The current task moves to another queue in a state other than `TASK_RUNNING`. -/
theorem left_turn (scheduled : Scheduled idle k place tasks)
    (split : place.on .ready = left ++ k.current :: right) (notIdle : k.current ≠ idle)
    (inTurn : k.AtEnd) {queue : Queue} (elsewhere : queue ≠ .ready)
    (settled : Settled mid (place.move k.current queue) tasks) (current : mid.current = k.current)
    (stopped : ¬ mid.CurrentRuns) (stepped : mid.schedule = some after) :
    TurnTo left k.current right after := by
  have distinct := place.nodup .ready
  have ready : (place.move k.current queue).on .ready = left ++ right := by
    rw [split] at distinct
    rw [Placement.move_on, if_neg elsewhere.symm, split, erase_middle distinct]
  have idleReady : idle ∈ left ++ right := by
    rw [← ready, Placement.mem_move]
    exact Or.inl ⟨notIdle.symm, scheduled.idle⟩
  rw [← current]
  exact turn_leave settled ready (List.ne_nil_of_mem idleReady)
    ((scheduled.toSettled.atEnd_iff split).mp inTurn) stopped stepped

theorem sysSleep_turn (scheduled : Scheduled idle k place tasks)
    (split : place.on .ready = left ++ k.current :: right) (notIdle : k.current ≠ idle)
    {ms : UInt32} (inTurn : k.InTurn (.sysSleep ms)) (stepped : k.sysSleep ms = some after) :
    TurnTo left k.current right after := by
  rw [Kernel.sysSleep] at stepped
  by_cases zero : ms / 10 = 0
  · rw [Kernel.taskSleep, if_pos zero] at stepped
    have ready : place.on .ready = left ++ k.current :: (right ++ []) := by
      rw [split, List.append_nil]
    apply turn_kept scheduled.toSettled ready _ stepped
    rw [← scheduled.toSettled.last_iff split]
    exact inTurn.1 zero
  · have current : (k.taskSleep k.current (ms / 10)).current = k.current := by
      rw [Kernel.taskSleep, if_neg zero]
      rfl
    apply left_turn scheduled split notIdle (inTurn.2 zero) (by decide)
      (taskSleep_settled scheduled zero) current _ stepped
    unfold Kernel.CurrentRuns
    rw [current, Kernel.taskSleep, if_neg zero]
    simp [Kernel.linkTail, Kernel.unlink]

theorem block_turn (scheduled : Scheduled idle k place tasks)
    (split : place.on .ready = left ++ k.current :: right) (notIdle : k.current ≠ idle)
    (inTurn : k.AtEnd) {queue : Queue} (waits : TaskState.waiting.fits queue = true)
    (stepped : k.block queue = some after) : TurnTo left k.current right after := by
  apply left_turn scheduled split notIdle inTurn _ (blocked_settled scheduled queue waits)
  · rfl
  · simp [Kernel.CurrentRuns, Kernel.blocked, Kernel.setState, Kernel.withTask]
  · exact stepped
  · intro isReady
    rw [isReady] at waits
    cases waits

/-- A waiter joins at the tail; the current task keeps its place. -/
theorem unblock_turn (scheduled : Scheduled idle k place tasks)
    (split : place.on .ready = left ++ k.current :: right) (inTurn : k.CurrentRuns ∨ k.Last)
    {t : Nat} {queue : Queue} (member : t ∈ place.on queue) (elsewhere : queue ≠ .ready)
    (settled : Settled mid (place.move t .ready) tasks) (current : mid.current = k.current)
    (task : mid.task = (k.unblock t).task) (stepped : mid.schedule = some after) :
    TurnTo left k.current right after := by
  have notReady : t ∉ place.on .ready :=
    fun inReady => elsewhere (place.unique queue .ready t member inReady)
  have different : k.current ≠ t := fun same => notReady (same ▸ scheduled.current)
  have ready : (place.move t .ready).on .ready = left ++ mid.current :: (right ++ [t]) := by
    rw [place.move_on_target t .ready notReady, split, current, List.append_assoc,
      List.cons_append]
  have sameRuns : mid.CurrentRuns ↔ k.CurrentRuns := by
    unfold Kernel.CurrentRuns
    rw [current, task]
    simp [Kernel.unblock, Kernel.linkTail, Kernel.setState, Kernel.unlink, different]
  rw [← current]
  apply turn_kept settled ready _ stepped
  rw [sameRuns, ← scheduled.toSettled.last_iff split]
  exact inTurn

theorem queueNonempty_split (scheduled : Scheduled idle k place tasks) {queue : Queue}
    (occupied : queueEmpty k.links (.head queue) = false) :
    ∃ first, first ∈ place.on queue ∧
      Kernel.queueData (queueFirst k.links (.head queue)) = some first := by
  cases waiting : place.on queue with
  | nil =>
      rw [(scheduled.rep.empty_iff queue).mpr waiting] at occupied
      cases occupied
  | cons first rest =>
      refine ⟨first, List.mem_cons_self .., ?_⟩
      rw [scheduled.rep.first_eq, waiting]
      rfl

/-- Every call of `schedule` that meets the condition is one turn. -/
theorem step_turn (scheduled : Scheduled idle k place tasks)
    (split : place.on .ready = left ++ k.current :: right) {op : Op}
    (permitted : k.Permits idle op) (inTurn : k.InTurn op) (calls : k.Schedules op)
    (stepped : k.step op = some after) : TurnTo left k.current right after := by
  cases op with
  | taskInit t entry => exact absurd calls id
  | setRunning t => exact absurd calls id
  | taskTick => exact taskTick_turn scheduled split inTurn stepped
  | taskYield => exact taskYield_turn scheduled split inTurn stepped
  | sysSleep ms => exact sysSleep_turn scheduled split permitted inTurn stepped
  | mutexLock m =>
      rw [Kernel.step, Kernel.mutexLock, if_neg calls.1, if_neg calls.2] at stepped
      apply block_turn scheduled split permitted (inTurn calls) _ stepped
      rfl
  | mutexUnlock m =>
      obtain ⟨own, last, occupied⟩ := calls
      obtain ⟨first, member, isFirst⟩ := queueNonempty_split scheduled occupied
      simp only [Kernel.step, Kernel.mutexUnlock, own, if_true, Kernel.withMutex,
        Function.update_self, last, occupied, Bool.false_eq_true, if_false, isFirst,
        Option.bind_some] at stepped
      have moved := unblock_settled scheduled.toSettled member
      apply unblock_turn scheduled split (inTurn ⟨own, last, occupied⟩) member (by simp)
        (moved.congr _ _ _) _ _ stepped
      all_goals rfl
  | semWait s =>
      have empty : ¬ (k.sem s).count > 0 := Int.not_lt.mpr calls
      rw [Kernel.step, Kernel.semWait, if_neg empty] at stepped
      apply block_turn scheduled split permitted (inTurn calls) _ stepped
      rfl
  | semNotify s =>
      obtain ⟨first, member, isFirst⟩ := queueNonempty_split scheduled calls
      have occupied : ¬ queueEmpty k.links (.head (.sem s)) = true := by
        rw [calls]
        exact Bool.false_ne_true
      rw [Kernel.step, Kernel.semNotify, if_neg occupied, isFirst, Option.bind_some] at stepped
      exact unblock_turn scheduled split (inTurn calls) member (by simp)
        (unblock_settled scheduled.toSettled member) rfl rfl stepped

/-- Without a call of `schedule` the ready queue can only grow. -/
theorem step_stays (scheduled : Scheduled idle k place tasks)
    (split : place.on .ready = left ++ k.current :: right) {op : Op}
    (permitted : k.Permits idle op) (silent : ¬ k.Schedules op)
    (stepped : k.step op = some after) :
    after.current = k.current ∧ ∃ more,
      Ring after.links (.head .ready) ((left ++ k.current :: (right ++ more)).map .rq) := by
  have same : Ring k.links (.head .ready) ((left ++ k.current :: (right ++ [])).map .rq) := by
    rw [List.append_nil, ← split]
    exact scheduled.rep.queues .ready
  cases op with
  | taskInit t entry =>
      have fresh : t ∉ tasks :=
        fun known => permitted ((scheduled.initialised_iff t).mpr known)
      have unplaced : ¬ place.Placed t := fun placed => fresh ((scheduled.placed t).mp placed)
      have grown := (taskInit_settled scheduled.toSettled unplaced entry).rep.queues .ready
      rw [Placement.append_on, if_pos rfl, split, List.append_assoc, List.cons_append] at grown
      rw [Kernel.step, Option.some.injEq] at stepped
      rw [← stepped]
      exact ⟨taskInit_current k t entry, [t], grown⟩
  | setRunning t =>
      rw [Kernel.step, Option.some.injEq] at stepped
      rw [← stepped]
      exact ⟨rfl, [], same⟩
  | taskTick => exact absurd trivial silent
  | taskYield => exact absurd trivial silent
  | sysSleep ms => exact absurd trivial silent
  | mutexLock m =>
      rw [Kernel.step, Kernel.mutexLock] at stepped
      split at stepped
      next =>
        rw [Option.some.injEq] at stepped
        rw [← stepped]
        exact ⟨rfl, [], same⟩
      next held =>
        split at stepped
        next =>
          rw [Option.some.injEq] at stepped
          rw [← stepped]
          exact ⟨rfl, [], same⟩
        next other => exact absurd ⟨held, other⟩ silent
  | mutexUnlock m =>
      obtain ⟨found, placeAfter, foundAs, _, outcome⟩ := mutexUnlock_spec scheduled m
      rw [Kernel.step, foundAs, Option.some.injEq] at stepped
      rw [← stepped]
      cases outcome with
      | notOwner other => exact ⟨rfl, [], same⟩
      | nested own more => exact ⟨rfl, [], same⟩
      | released own last alone => exact ⟨rfl, [], same⟩
      | handed own last first rest waiting next =>
          have occupied : queueEmpty k.links (.head (.mutex m)) = false := by
            rw [← Bool.not_eq_true, scheduled.rep.empty_iff, waiting]
            exact List.cons_ne_nil first rest
          exact absurd ⟨own, last, occupied⟩ silent
  | semWait s =>
      have available : (k.sem s).count > 0 := Int.not_le.mp silent
      rw [Kernel.step, Kernel.semWait, if_pos available, Option.some.injEq] at stepped
      rw [← stepped]
      exact ⟨rfl, [], same⟩
  | semNotify s =>
      have empty : queueEmpty k.links (.head (.sem s)) = true := (Bool.not_eq_false _).mp silent
      rw [Kernel.step, Kernel.semNotify, if_pos empty, Option.some.injEq] at stepped
      rw [← stepped]
      exact ⟨rfl, [], same⟩

/-! ### Runs -/

/-- One operation of a run. -/
structure Event where
  before : Kernel
  op : Op
  after : Kernel

/-- `schedule` gives the processor to `t`, from another task or again. -/
def Event.Dispatches (event : Event) (t : Nat) : Prop :=
  event.before.Schedules event.op ∧ event.after.current = t

/-- The task is on `ready_task_queue`. -/
def Kernel.Ready (k : Kernel) (t : Nat) : Prop :=
  ∃ nodes, Ring k.links (.head .ready) nodes ∧ Node.rq t ∈ nodes

/-- Permitted steps one after another. -/
inductive Path (idle : Nat) : Kernel → List Event → Prop
  | nil {k : Kernel} : Path idle k []
  | cons {k after : Kernel} {op : Op} {events : List Event} (permitted : k.Permits idle op)
      (stepped : k.step op = some after) (others : Path idle after events) :
      Path idle k (⟨k, op, after⟩ :: events)

theorem Settled.ready_iff (settled : Settled k place tasks) (t : Nat) :
    k.Ready t ↔ t ∈ place.on .ready := by
  constructor
  · rintro ⟨nodes, ring, member⟩
    rw [ring.unique (settled.rep.queues .ready)] at member
    simpa using member
  · intro member
    exact ⟨_, settled.rep.queues .ready, List.mem_map_of_mem member⟩

/-- `t` is current, or `c` comes before it. -/
def Waits (c t : Nat) (left : List Nat) (cur : Nat) (right : List Nat) : Prop :=
  cur = t ∨ Ahead c t left cur right

theorem Settled.ready_split (settled : Settled k place tasks)
    (ring : Ring k.links (.head .ready) ((left ++ k.current :: right).map .rq)) :
    place.on .ready = left ++ k.current :: right := by
  have same := (settled.rep.queues .ready).unique ring
  exact List.map_injective_iff.mpr (fun _ _ h => Node.rq.inj h) same

/-- From a dispatch of `t` on, `c` is dispatched before `t` is again. -/
theorem Path.dispatched {events : List Event} {c t : Nat} (different : c ≠ t)
    (path : Path idle k events) (inTurn : ∀ event ∈ events, event.before.InTurn event.op)
    (scheduled : Scheduled idle k place tasks)
    (split : place.on .ready = left ++ k.current :: right)
    (waits : Waits c t left k.current right)
    (stays : ∀ event ∈ events, event.before.Ready c)
    (again : ∃ event ∈ events, event.Dispatches t) : ∃ event ∈ events, event.Dispatches c := by
  induction path generalizing place tasks left right with
  | nil =>
      obtain ⟨event, member, _⟩ := again
      cases member
  | @cons k after op events permitted stepped others ih =>
      obtain ⟨placeAfter, tasksAfter, next, _⟩ := step_outcome scheduled op permitted stepped
      have here : k.InTurn op := inTurn _ (List.mem_cons_self ..)
      have inTurnLater : ∀ event ∈ events, event.before.InTurn event.op :=
        fun event member => inTurn event (List.mem_cons_of_mem _ member)
      have staysLater : ∀ event ∈ events, event.before.Ready c :=
        fun event member => stays event (List.mem_cons_of_mem _ member)
      have later : (∃ event ∈ events, event.Dispatches c) →
          ∃ event ∈ (⟨k, op, after⟩ : Event) :: events, event.Dispatches c := by
        rintro ⟨event, member, isC⟩
        exact ⟨event, List.mem_cons_of_mem _ member, isC⟩
      have inReady : c ∈ left ++ k.current :: right := by
        rw [← split, ← scheduled.toSettled.ready_iff]
        exact stays _ (List.mem_cons_self ..)
      by_cases calls : k.Schedules op
      · obtain ⟨left', right', ring, turn⟩ := step_turn scheduled split permitted here calls
          stepped
        have splitAfter := next.toSettled.ready_split ring
        have distinct := place.nodup .ready
        have distinctAfter := placeAfter.nodup .ready
        rw [split] at distinct
        rw [splitAfter] at distinctAfter
        have passes : after.current = c ∨ Ahead c t left' after.current right' := by
          rcases waits with isT | ahead
          · rw [isT] at turn distinct inReady
            apply turn.passes distinct distinctAfter
            simpa [different] using inReady
          · exact turn.ahead distinctAfter ahead
        rcases passes with isC | ahead
        · exact ⟨_, List.mem_cons_self .., calls, isC⟩
        · apply later
          apply ih inTurnLater next splitAfter (Or.inr ahead) staysLater
          obtain ⟨event, member, isT⟩ := again
          rcases List.mem_cons.mp member with isHere | inRest
          · rw [isHere] at isT
            exact absurd isT.2 ahead.notTurn.1
          · exact ⟨event, inRest, isT⟩
      · obtain ⟨current, more, ring⟩ := step_stays scheduled split permitted calls stepped
        rw [← current] at ring waits
        apply later
        apply ih inTurnLater next (next.toSettled.ready_split ring) _ staysLater
        · obtain ⟨event, member, isT⟩ := again
          rcases List.mem_cons.mp member with isHere | inRest
          · rw [isHere] at isT
            exact absurd isT.1 calls
          · exact ⟨event, inRest, isT⟩
        · rcases waits with isT | ahead
          · exact Or.inl isT
          · exact Or.inr (ahead.joined more)

/-- In a run whose steps meet the condition, a task that stays ready between two dispatches of
another one is dispatched between them. -/
theorem run_roundRobin {boot : Boot} (run : Run boot k) {first second : Event}
    {between : List Event} {c t : Nat} (different : c ≠ t)
    (path : Path boot.idle k (first :: (between ++ [second])))
    (inTurn : ∀ event ∈ between ++ [second], event.before.InTurn event.op)
    (firstTo : first.Dispatches t) (secondTo : second.Dispatches t)
    (stays : ∀ event ∈ between ++ [second], event.before.Ready c) :
    ∃ event ∈ between, event.Dispatches c := by
  obtain ⟨place, tasks, scheduled⟩ := run.scheduled
  cases path with
  | @cons _ after op _ permitted stepped others =>
      obtain ⟨placeAfter, tasksAfter, next, _⟩ := step_outcome scheduled op permitted stepped
      obtain ⟨left, right, split⟩ := List.append_of_mem next.current
      have again : ∃ event ∈ between ++ [second], event.Dispatches t :=
        ⟨second, List.mem_append_right between (List.mem_singleton_self second), secondTo⟩
      obtain ⟨event, member, isC⟩ :=
        others.dispatched different inTurn next split (Or.inl firstTo.2) stays again
      rcases List.mem_append.mp member with inBetween | isSecond
      · exact ⟨event, inBetween, isC⟩
      · rw [List.mem_singleton.mp isSecond] at isC
        exact absurd (isC.2.symm.trans secondTo.2) different

/-! ### Four tasks -/

/-- The kernel after an operation that completes. -/
def Kernel.stepped (k : Kernel) (op : Op) : Kernel := (k.step op).getD k

def Kernel.events (k : Kernel) : List Op → List Event
  | [] => []
  | op :: ops => ⟨k, op, k.stepped op⟩ :: (k.stepped op).events ops

theorem Run.completes {boot : Boot} (run : Run boot k) {op : Op}
    (permitted : k.Permits boot.idle op) : k.step op = some (k.stepped op) := by
  obtain ⟨place, tasks, scheduled⟩ := run.scheduled
  obtain ⟨after, _, _, stepped, _⟩ := step_spec scheduled op permitted
  rw [Kernel.stepped, stepped, Option.getD_some]

theorem Run.onward {boot : Boot} (run : Run boot k) {op : Op}
    (permitted : k.Permits boot.idle op) : Run boot (k.stepped op) :=
  Run.step run op permitted (run.completes permitted)

theorem Run.path {boot : Boot} {ops : List Op} (run : Run boot k)
    (passive : ∀ op ∈ ops, op = .taskTick ∨ op = .taskYield) :
    Path boot.idle k (k.events ops) := by
  induction ops generalizing k with
  | nil => exact Path.nil
  | cons op ops ih =>
      have permitted : k.Permits boot.idle op := by
        rcases passive op (List.mem_cons_self ..) with isTick | isYield
        · rw [isTick]
          trivial
        · rw [isYield]
          trivial
      exact Path.cons permitted (run.completes permitted) (ih (run.onward permitted)
        (fun other member => passive other (List.mem_cons_of_mem op member)))

theorem Kernel.initialised_of_ring {nodes : List Node} {t : Nat}
    (ring : Ring k.links .taskQueue nodes) : k.Initialised t ↔ Node.q t ∈ nodes := by
  constructor
  · rintro ⟨others, ringOthers, member⟩
    rw [ring.unique ringOthers]
    exact member
  · intro member
    exact ⟨nodes, ring, member⟩

def Boot.two : Kernel := Boot.zeroed.start.getD Boot.zeroed.memory

/-- Besides the idle task and the init task, 2. -/
def Boot.three : Kernel := (Boot.two.stepped (.taskInit 2 4096)).stepped (.setRunning 2)

def Boot.four : Kernel := (Boot.three.stepped (.taskInit 3 4096)).stepped (.setRunning 3)

theorem Boot.created_run : Run Boot.zeroed (Boot.two.stepped (.taskInit 2 4096)) := by
  have two : Run Boot.zeroed Boot.two := Run.start rfl
  have atTwo : Ring Boot.two.links .taskQueue [.q 0, .q 1] := by decide +kernel
  have third : Boot.two.Permits 0 (.taskInit 2 4096) :=
    (not_congr (Kernel.initialised_of_ring atTwo)).mpr (by decide)
  exact two.onward third

theorem Boot.four_run : Run Boot.zeroed Boot.four := by
  have created := Boot.created_run
  have atCreated : Ring (Boot.two.stepped (.taskInit 2 4096)).links .taskQueue
      [.q 0, .q 1, .q 2] := by decide +kernel
  have three : Run Boot.zeroed Boot.three :=
    created.onward ⟨(Kernel.initialised_of_ring atCreated).mpr (by decide), by decide +kernel⟩
  have atThree : Ring Boot.three.links .taskQueue [.q 0, .q 1, .q 2] := by decide +kernel
  have fourth : Boot.three.Permits 0 (.taskInit 3 4096) :=
    (not_congr (Kernel.initialised_of_ring atThree)).mpr (by decide)
  have last := three.onward fourth
  have atLast : Ring (Boot.three.stepped (.taskInit 3 4096)).links .taskQueue
      [.q 0, .q 1, .q 2, .q 3] := by decide +kernel
  exact last.onward ⟨(Kernel.initialised_of_ring atLast).mpr (by decide), by decide +kernel⟩

theorem Kernel.inTurn_tick (runs : k.CurrentRuns) (more : (k.task k.current).slice - 1 ≠ 0) :
    k.InTurn .taskTick := by
  constructor
  · intro expired
    exact absurd expired more
  · intro _
    exact Or.inl runs

theorem Kernel.ready_of_ring {nodes : List Node} {t : Nat}
    (ring : Ring k.links (.head .ready) nodes) (member : Node.rq t ∈ nodes) : k.Ready t :=
  ⟨nodes, ring, member⟩

/-- 1 is current. -/
def Boot.first : Kernel := Boot.four.stepped .taskTick

/-- 2 is current. -/
def Boot.second : Kernel := Boot.first.stepped .taskTick

/-- 3 is current. -/
def Boot.third : Kernel := Boot.second.stepped .taskTick

/-- The idle task is current. -/
def Boot.fourth : Kernel := Boot.third.stepped .taskTick

/-- 2 yields to the idle task. -/
def Boot.yielded : Kernel := Boot.second.stepped .taskYield

theorem run_roundRobin_four :
    ∃ event ∈ Boot.first.events [.taskTick, .taskTick, .taskTick], event.Dispatches 2 := by
  have path : Path 0 Boot.four (⟨Boot.four, .taskTick, Boot.first⟩ ::
      (Boot.first.events [.taskTick, .taskTick, .taskTick] ++
        [⟨Boot.fourth, .taskTick, Boot.fourth.stepped .taskTick⟩])) :=
    Boot.four_run.path (by decide :
      ∀ op ∈ [Op.taskTick, .taskTick, .taskTick, .taskTick, .taskTick],
        op = .taskTick ∨ op = .taskYield)
  have inTurn : ∀ k ∈ [Boot.first, Boot.second, Boot.third, Boot.fourth],
      k.InTurn .taskTick := by
    simp only [List.forall_mem_cons, List.not_mem_nil, false_imp_iff, implies_true, and_true]
    refine ⟨?_, ?_, ?_, ?_⟩
    all_goals exact Kernel.inTurn_tick (by decide +kernel) (by decide +kernel)
  have ready : ∀ k ∈ [Boot.first, Boot.second, Boot.third, Boot.fourth], k.Ready 2 := by
    have ring : ∀ k ∈ [Boot.first, Boot.second, Boot.third, Boot.fourth],
        Ring k.links (.head .ready) [.rq 0, .rq 1, .rq 2, .rq 3] := by
      simp only [List.forall_mem_cons, List.not_mem_nil, false_imp_iff, implies_true, and_true]
      decide +kernel
    exact fun k member => Kernel.ready_of_ring (ring k member) (by decide)
  apply run_roundRobin Boot.four_run (by decide : 2 ≠ 1) path
  · simpa [Kernel.events, Boot.second, Boot.third, Boot.fourth] using inTurn
  · exact ⟨trivial, by decide +kernel⟩
  · exact ⟨trivial, by decide +kernel⟩
  · simpa [Kernel.events, Boot.second, Boot.third, Boot.fourth] using ready

/-- The yield of 2 makes the scheduler start at the head again, and 3 is passed over. -/
theorem roundRobin_skips :
    ¬ ∀ (boot : Boot) (k : Kernel) (first second : Event) (between : List Event) (c t : Nat),
      Run boot k → Path boot.idle k (first :: (between ++ [second])) →
      first.Dispatches t → (∀ event ∈ between, ¬ event.Dispatches t) → second.Dispatches t →
      c ≠ t → c ≠ boot.idle → (∀ event ∈ between ++ [second], event.before.Ready c) →
      ∃ event ∈ between, event.Dispatches c := by
  intro served
  have path : Path 0 Boot.four (⟨Boot.four, .taskTick, Boot.first⟩ ::
      (Boot.first.events [.taskTick, .taskYield] ++
        [⟨Boot.yielded, .taskTick, Boot.yielded.stepped .taskTick⟩])) :=
    Boot.four_run.path (by decide :
      ∀ op ∈ [Op.taskTick, .taskTick, .taskYield, .taskTick],
        op = .taskTick ∨ op = .taskYield)
  have current : Boot.second.current = 2 ∧ Boot.yielded.current = 0 := by decide +kernel
  have here : ∀ t, (∃ event ∈ Boot.first.events [.taskTick, .taskYield],
      event.Dispatches t) → t = 2 ∨ t = 0 := by
    rintro t ⟨event, member, isT⟩
    simp only [Kernel.events, List.mem_cons, List.not_mem_nil, or_false] at member
    rcases member with isTick | isYield
    · rw [isTick] at isT
      exact Or.inl (isT.2.symm.trans current.1)
    · rw [isYield] at isT
      exact Or.inr (isT.2.symm.trans current.2)
  have ready : Boot.first.Ready 3 ∧ Boot.second.Ready 3 ∧ Boot.yielded.Ready 3 := by
    have before : ∀ k ∈ [Boot.first, Boot.second],
        Ring k.links (.head .ready) [.rq 0, .rq 1, .rq 2, .rq 3] := by
      simp only [List.forall_mem_cons, List.not_mem_nil, false_imp_iff, implies_true, and_true]
      decide +kernel
    have after : Ring Boot.yielded.links (.head .ready) [.rq 0, .rq 1, .rq 3, .rq 2] := by
      decide +kernel
    exact ⟨Kernel.ready_of_ring (before _ (by simp)) (by decide),
      Kernel.ready_of_ring (before _ (by simp)) (by decide),
      Kernel.ready_of_ring after (by decide)⟩
  have found := served Boot.zeroed Boot.four _ _ _ 3 1 Boot.four_run path
    ⟨trivial, by decide +kernel⟩ (fun event member isOne => absurd (here 1 ⟨event, member, isOne⟩)
      (by decide)) ⟨trivial, by decide +kernel⟩ (by decide) (by decide)
    (by simpa [Kernel.events, Boot.second, Boot.yielded] using ready)
  exact absurd (here 3 found) (by decide)

end MangoOS
