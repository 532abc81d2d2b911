/-
How long a task sleeps (kernel/task.c): what one tick does to the sleep queue, and
the tick at which a caller of `sys_sleep` is ready again.
-/

import MangoOS.Kernel.Reachable

namespace MangoOS

open Intrusive

variable {k after : Kernel} {place : Placement Queue Nat} {tasks : List Nat} {idle t n : Nat}

/-- What permitted operations lead to, with how many ticks among them. -/
inductive After (idle : Nat) (k : Kernel) : Nat → Kernel → Prop
  | start : After idle k 0 k
  | tick {n : Nat} {mid after : Kernel} : After idle k n mid → mid.taskTick = some after →
      After idle k (n + 1) after
  | other {n : Nat} {mid after : Kernel} (op : Op) : After idle k n mid → op ≠ .taskTick →
      mid.Permits idle op → mid.step op = some after → After idle k n after

/-- The task is on the sleep queue and on no other. -/
def Kernel.Sleeps (k : Kernel) (t : Nat) : Prop :=
  (k.task t).state = .sleep ∧ ∃ place, QueuesIntact k place ∧ t ∈ place .sleep

def Kernel.IsReady (k : Kernel) (t : Nat) : Prop :=
  (k.task t).state = .running ∧ ∃ place, QueuesIntact k place ∧ t ∈ place .ready

/-! ### A sleeper between two ticks -/

theorem Settled.mem_sleep (settled : Settled k place tasks) (known : t ∈ tasks)
    (asleep : (k.task t).state = .sleep) : t ∈ place.on .sleep := by
  obtain ⟨queue, member⟩ := (settled.placed t).mpr known
  have fits := settled.fits queue t member
  rw [asleep] at fits
  cases queue with
  | sleep => exact member
  | ready => cases fits
  | mutex m => cases fits
  | sem s => cases fits

theorem Settled.state_sleep (settled : Settled k place tasks) (member : t ∈ place.on .sleep) :
    (k.task t).state = .sleep :=
  (TaskState.fits_sleep_iff _).mp (settled.fits .sleep t member)

theorem schedule_task (stepped : k.schedule = some after) : after.task = k.task := by
  unfold Kernel.schedule at stepped
  obtain ⟨next, _, rfl⟩ := Option.map_eq_some_iff.mp stepped
  rfl

theorem taskInit_task (k : Kernel) {u : Nat} (different : t ≠ u) (entry : UInt32) :
    (k.taskInit u entry).task t = k.task t := by
  unfold Kernel.taskInit
  split <;> simp [Kernel.linkTail, Kernel.setState, different]

theorem taskSleep_task (different : t ≠ k.current) (ticks : UInt32) :
    (k.taskSleep k.current ticks).task t = k.task t := by
  unfold Kernel.taskSleep
  by_cases none : ticks = 0
  · rw [if_pos none]
  · rw [if_neg none]
    exact Function.update_of_ne different _ _

theorem setState_task (different : t ≠ n) (state : TaskState) :
    (k.setState n state).task t = k.task t := Function.update_of_ne different _ _

/-- A sleeper is not the current task and waits for nothing. -/
theorem sleeper_ne (member : t ∈ place.on .sleep) {u : Nat} {queue : Queue}
    (elsewhere : u ∈ place.on queue) (other : queue ≠ .sleep) : t ≠ u := by
  intro same
  exact other (place.unique queue .sleep u elsewhere (same ▸ member))

theorem step_sleeper (scheduled : Scheduled idle k place tasks) (member : t ∈ place.on .sleep)
    {op : Op} (notTick : op ≠ .taskTick) (permitted : k.Permits idle op)
    (stepped : k.step op = some after) :
    ∃ placeAfter tasksAfter, Scheduled idle after placeAfter tasksAfter ∧
      t ∈ placeAfter.on .sleep ∧ after.task t = k.task t := by
  have asleep := scheduled.toSettled.state_sleep member
  have known : t ∈ tasks := (scheduled.placed t).mp ⟨.sleep, member⟩
  have notCurrent : t ≠ k.current := sleeper_ne member scheduled.current (by decide)
  have stays : ∀ {next : Kernel} {placeNext : Placement Queue Nat} {tasksNext : List Nat},
      Scheduled idle next placeNext tasksNext → t ∈ tasksNext → next.task t = k.task t →
      next = after → ∃ placeAfter tasksAfter, Scheduled idle after placeAfter tasksAfter ∧
        t ∈ placeAfter.on .sleep ∧ after.task t = k.task t := by
    intro next placeNext tasksNext scheduledNext knownNext same isAfter
    subst isAfter
    exact ⟨placeNext, tasksNext, scheduledNext,
      scheduledNext.toSettled.mem_sleep knownNext (same ▸ asleep), same⟩
  cases op with
  | taskInit u entry =>
      have fresh : u ∉ tasks := fun isTask =>
        permitted ((scheduled.initialised_iff u).mpr isTask)
      obtain ⟨_, next, _⟩ := taskInit_spec scheduled fresh entry
      have different : t ≠ u := fun same => fresh (same ▸ known)
      exact stays next (List.mem_append_left _ known) (taskInit_task k different entry)
        (Option.some.inj stepped)
  | setRunning u =>
      obtain ⟨isTask, created⟩ := permitted
      obtain ⟨next, _⟩ :=
        setRunning_spec scheduled ((scheduled.initialised_iff u).mp isTask) created
      have different : t ≠ u := by
        intro same
        rw [← same, asleep] at created
        cases created
      exact stays next known (setState_task different .running) (Option.some.inj stepped)
  | taskTick => exact absurd rfl notTick
  | taskYield =>
      obtain ⟨found, _, foundAs, next, _⟩ := taskYield_spec scheduled
      have same : found.task t = k.task t := by
        rw [schedule_task foundAs]
        rfl
      exact stays next known same (Option.some.inj (foundAs.symm.trans stepped))
  | sysSleep ms =>
      obtain ⟨found, _, foundAs, next, _⟩ := sysSleep_spec scheduled permitted ms
      have same : found.task t = k.task t := by
        rw [schedule_task foundAs]
        exact taskSleep_task notCurrent (ms / 10)
      exact stays next known same (Option.some.inj (foundAs.symm.trans stepped))
  | mutexLock m =>
      obtain ⟨found, _, foundAs, next, outcome⟩ := mutexLock_spec scheduled permitted m
      have same : found.task t = k.task t := by
        cases outcome with
        | taken free => rfl
        | nested held own => rfl
        | blocked held other next => exact setState_task notCurrent .waiting
      exact stays next known same (Option.some.inj (foundAs.symm.trans stepped))
  | mutexUnlock m =>
      obtain ⟨found, _, foundAs, next, outcome⟩ := mutexUnlock_spec scheduled m
      have same : found.task t = k.task t := by
        cases outcome with
        | notOwner other => rfl
        | nested own more => rfl
        | released own last alone => rfl
        | handed own last first rest waiting next =>
            have inQueue : first ∈ place.on (.mutex m) := waiting ▸ List.mem_cons_self ..
            exact setState_task (sleeper_ne member inQueue (by simp)) .running
      exact stays next known same (Option.some.inj (foundAs.symm.trans stepped))
  | semWait s =>
      obtain ⟨found, _, foundAs, next, outcome⟩ := semWait_spec scheduled permitted s
      have same : found.task t = k.task t := by
        cases outcome with
        | granted available => rfl
        | blocked empty next => exact setState_task notCurrent .waiting
      exact stays next known same (Option.some.inj (foundAs.symm.trans stepped))
  | semNotify s =>
      obtain ⟨found, _, foundAs, next, outcome⟩ := semNotify_spec scheduled s
      have same : found.task t = k.task t := by
        cases outcome with
        | counted alone => rfl
        | woken first rest waiting next =>
            have inQueue : first ∈ place.on (.sem s) := waiting ▸ List.mem_cons_self ..
            exact setState_task (sleeper_ne member inQueue (by simp)) .running
      exact stays next known same (Option.some.inj (foundAs.symm.trans stepped))

/-! ### A sleeper and a tick -/

theorem UInt32.toNat_pred {ticks : UInt32} (some : ticks ≠ 0) :
    (ticks - 1).toNat + 1 = ticks.toNat := by
  have positive : 0 < ticks.toNat := Nat.pos_of_ne_zero fun zero =>
    some (UInt32.toNat_inj.mp zero)
  have atLeast : (1 : UInt32) ≤ ticks := by
    rw [UInt32.le_iff_toNat_le]
    exact positive
  rw [UInt32.toNat_sub_of_le _ _ atLeast]
  exact Nat.sub_add_cancel positive

theorem Kernel.due_iff (awake : (k.task t).sleepTicks ≠ 0) :
    k.due t = true ↔ (k.task t).sleepTicks.toNat = 1 := by
  have counted := UInt32.toNat_pred awake
  unfold due
  rw [decide_eq_true_iff, ← UInt32.toNat_inj]
  change ((k.task t).sleepTicks - 1).toNat = 0 ↔ _
  omega

/-- A tick wakes a sleeper with one tick left and counts down any other. -/
theorem tick_sleeper (scheduled : Scheduled idle k place tasks) (member : t ∈ place.on .sleep)
    (stepped : k.taskTick = some after) :
    ∃ placeAfter, Scheduled idle after placeAfter tasks ∧
      if (k.task t).sleepTicks.toNat = 1 then
        t ∈ placeAfter.on .ready ∧ (after.task t).state = .running
      else t ∈ placeAfter.on .sleep ∧
        (after.task t).sleepTicks.toNat + 1 = (k.task t).sleepTicks.toNat := by
  obtain ⟨found, placeAfter, foundAs, next, _, counted⟩ := taskTick_counted scheduled
  obtain rfl := Option.some.inj (foundAs.symm.trans stepped)
  have due := Kernel.due_iff (scheduled.awake t member)
  refine ⟨placeAfter, next, ?_⟩
  by_cases last : (k.task t).sleepTicks.toNat = 1
  · have isDue := due.mpr last
    rw [if_pos last, counted.ready, counted.state t member, if_pos isDue]
    exact ⟨List.mem_append_right _ (List.mem_filter.mpr ⟨member, isDue⟩), rfl⟩
  · have notDue : k.due t = false := Bool.eq_false_iff.mpr fun isDue => last (due.mp isDue)
    rw [if_neg last, counted.sleep, counted.ticks t member]
    refine ⟨List.mem_filter.mpr ⟨member, by rw [notDue]; rfl⟩, ?_⟩
    exact UInt32.toNat_pred (scheduled.awake t member)

/-- As long as fewer ticks have come than a sleeper has left, it sleeps on. -/
theorem After.sleeps {start : Kernel} (scheduled : Scheduled idle start place tasks)
    (member : t ∈ place.on .sleep) (path : After idle start n k)
    (early : n < (start.task t).sleepTicks.toNat) :
    ∃ placeNow tasksNow, Scheduled idle k placeNow tasksNow ∧ t ∈ placeNow.on .sleep ∧
      (k.task t).sleepTicks.toNat + n = (start.task t).sleepTicks.toNat := by
  induction path with
  | start => exact ⟨place, tasks, scheduled, member, rfl⟩
  | tick _ ticked ih =>
      obtain ⟨placeMid, tasksMid, scheduledMid, memberMid, left⟩ := ih (by omega)
      obtain ⟨placeNow, scheduledNow, outcome⟩ := tick_sleeper scheduledMid memberMid ticked
      rw [if_neg (by omega)] at outcome
      have counted := outcome.2
      exact ⟨placeNow, tasksMid, scheduledNow, outcome.1, by omega⟩
  | other op _ notTick permitted stepped ih =>
      obtain ⟨placeMid, tasksMid, scheduledMid, memberMid, left⟩ := ih early
      obtain ⟨placeNow, tasksNow, scheduledNow, memberNow, same⟩ :=
        step_sleeper scheduledMid memberMid notTick permitted stepped
      exact ⟨placeNow, tasksNow, scheduledNow, memberNow, same ▸ left⟩

/-- The caller of `sys_sleep` is on the sleep queue with its ticks. -/
theorem sysSleep_sleeper (scheduled : Scheduled idle k place tasks) (notIdle : k.current ≠ idle)
    {ms : UInt32} (sleeps : ms / 10 ≠ 0) (stepped : k.sysSleep ms = some after) :
    ∃ placeAfter, Scheduled idle after placeAfter tasks ∧ k.current ∈ placeAfter.on .sleep ∧
      (after.task k.current).sleepTicks = ms / 10 := by
  have moved := taskSleep_settled scheduled sleeps
  have current : (k.taskSleep k.current (ms / 10)).current = k.current := by
    rw [Kernel.taskSleep, if_neg sleeps]
    rfl
  have inSleep : k.current ∈ (place.move k.current .sleep).on .sleep :=
    (place.mem_move k.current k.current .sleep .sleep).mpr (Or.inr ⟨rfl, rfl⟩)
  have idleReady : idle ∈ (place.move k.current .sleep).on .ready :=
    (place.mem_move k.current idle .sleep .ready).mpr (Or.inl ⟨notIdle.symm, scheduled.idle⟩)
  have known : (place.move k.current .sleep).Placed
      (k.taskSleep k.current (ms / 10)).current := by
    rw [current]
    exact ⟨.sleep, inSleep⟩
  obtain ⟨next, scheduledAs, scheduledNext⟩ := schedule_spec moved known idleReady
  obtain rfl := Option.some.inj (scheduledAs.symm.trans stepped)
  refine ⟨_, scheduledNext, inSleep, ?_⟩
  change ((k.taskSleep k.current (ms / 10)).task k.current).sleepTicks = ms / 10
  rw [Kernel.taskSleep, if_neg sleeps]
  simp [Kernel.unlink, Kernel.linkTail]

/-- A tick counts every sleeper once, wakes those whose time is over in their order and leaves the
others in theirs; so a task that sleeps for `n` ticks is ready at the `n`th one and at none
before. -/
theorem run_sleepersCounted :
    (∀ (idle : Nat) (k : Kernel) (place : Placement Queue Nat) (tasks : List Nat),
      Scheduled idle k place tasks → ∃ after placeAfter, k.taskTick = some after ∧
        Scheduled idle after placeAfter tasks ∧ SleepersCounted k place after placeAfter) ∧
    ∀ (boot : Boot) (k slept : Kernel) (ms : UInt32), Run boot k → k.current ≠ boot.idle →
      ms / 10 ≠ 0 → k.sysSleep ms = some slept →
      (∀ n mid, After boot.idle slept n mid → n < (ms / 10).toNat → mid.Sleeps k.current) ∧
      ∀ n mid, After boot.idle slept n mid → n + 1 = (ms / 10).toNat →
        ∃ after, mid.taskTick = some after ∧ after.IsReady k.current := by
  constructor
  · intro idle k place tasks scheduled
    obtain ⟨after, placeAfter, ticked, next, _, counted⟩ := taskTick_counted scheduled
    exact ⟨after, placeAfter, ticked, next, counted⟩
  · intro boot k slept ms run notIdle sleeps stepped
    obtain ⟨place, tasks, scheduled⟩ := run.scheduled
    obtain ⟨placeSlept, scheduledSlept, member, ticks⟩ :=
      sysSleep_sleeper scheduled notIdle sleeps stepped
    constructor
    · intro n mid path early
      obtain ⟨placeNow, _, scheduledNow, memberNow, _⟩ :=
        path.sleeps scheduledSlept member (ticks ▸ early)
      exact ⟨scheduledNow.toSettled.state_sleep memberNow, placeNow.on,
        scheduledNow.queuesIntact, memberNow⟩
    · intro n mid path last
      obtain ⟨placeNow, tasksNow, scheduledNow, memberNow, left⟩ :=
        path.sleeps scheduledSlept member (by rw [ticks]; omega)
      obtain ⟨after, _, ticked, _, _⟩ := taskTick_spec scheduledNow
      obtain ⟨placeAfter, scheduledAfter, outcome⟩ := tick_sleeper scheduledNow memberNow ticked
      rw [ticks] at left
      rw [if_pos (by omega)] at outcome
      exact ⟨after, ticked, outcome.2, placeAfter.on, scheduledAfter.queuesIntact, outcome.1⟩

/-- The init task sleeps for 20 ms: through one tick, and up to the second. -/
theorem run_sleepersCounted_twice :
    ∃ k slept mid after, Run Boot.zeroed k ∧ k.current = 1 ∧ k.sysSleep 20 = some slept ∧
      (∃ place placeMid, SleepersCounted slept place mid placeMid) ∧
      slept.taskTick = some mid ∧ mid.Sleeps 1 ∧ mid.taskTick = some after ∧
      after.IsReady 1 := by
  obtain ⟨k, run, current, _, _⟩ := Boot.zeroed_yielded
  have notIdle : k.current ≠ Boot.zeroed.idle := by
    rw [current]
    exact Nat.one_ne_zero
  obtain ⟨slept, stepped⟩ := (run_queuesIntact run).2 (.sysSleep 20) notIdle
  have sleeps := Run.step run (.sysSleep 20) notIdle stepped
  obtain ⟨place, tasks, scheduled⟩ := sleeps.scheduled
  obtain ⟨mid, placeMid, ticked, _, counted⟩ :=
    run_sleepersCounted.1 Boot.zeroed.idle slept place tasks scheduled
  obtain ⟨asleep, ready⟩ := run_sleepersCounted.2 Boot.zeroed k slept 20 run notIdle
    (by decide) stepped
  have path : After Boot.zeroed.idle slept 1 mid := .tick .start ticked
  obtain ⟨after, again, isReady⟩ := ready 1 mid path rfl
  rw [current] at isReady
  exact ⟨k, slept, mid, after, run, current, stepped, ⟨place, placeMid, counted⟩, ticked,
    current ▸ asleep 1 mid path (by decide), again, isReady⟩

end MangoOS
