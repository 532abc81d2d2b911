/-
How often a task holds a mutex, across a stretch of its own code (kernel/ipc.c).

A stretch lists the calls that the task makes itself; the timer, the interrupts and all
other tasks may run in between.  Only its own calls change how often it holds the mutex.
-/

import MangoOS.Kernel.MutexLaw

namespace MangoOS

/-- How many times a task holds a mutex. -/
def Mutex.heldBy (mutex : Mutex) (t : Nat) : Int :=
  if mutex.owner = some t then mutex.lockTimes else 0

/-- The same, where a task that is suspended in `mutex_lock` counts as holding it once. -/
def Mutex.level (mutex : Mutex) (waiting : List Nat) (t : Nat) : Int :=
  if mutex.owner = some t then mutex.lockTimes else if t ∈ waiting then 1 else 0

/-- A task runs through a piece of its code, in which it makes the calls `ops`.  Whatever
else happens in between is done by others or leaves the mutex alone. -/
inductive Passes (boot : Boot) (m t : Nat) : Kernel → Calls → List Op → Kernel → Calls → Prop
  | start (k : Kernel) (calls : Calls) : Passes boot m t k calls [] k calls
  | aside {k mid after : Kernel} {calls middle : Calls} {ops : List Op}
      (passes : Passes boot m t k calls ops mid middle) (op : Op)
      (elsewhere : mid.current ≠ t ∨ op ≠ .mutexLock m ∧ op ≠ .mutexUnlock m)
      (permitted : mid.Permits boot.idle op) (stepped : mid.step op = some after)
      (admitted : (middle.record m mid op after).Within) :
      Passes boot m t k calls ops after (middle.record m mid op after)
  | own {k mid after : Kernel} {calls middle : Calls} {ops : List Op}
      (passes : Passes boot m t k calls ops mid middle) (op : Op) (current : mid.current = t)
      (permitted : mid.Permits boot.idle op) (stepped : mid.step op = some after)
      (admitted : (middle.record m mid op after).Within) :
      Passes boot m t k calls (ops ++ [op]) after (middle.record m mid op after)

/-- Every unlock comes after more locks than unlocks. -/
def UnlocksOwn (m : Nat) (ops : List Op) : Prop :=
  ∀ before rest, ops = before ++ .mutexUnlock m :: rest →
    before.count (.mutexUnlock m) < before.count (.mutexLock m)

variable {k after : Kernel} {place placeAfter : Placement Queue Nat}
variable {tasks tasksAfter : List Nat} {idle m t : Nat} {calls callsAfter : Calls}
variable {boot : Boot} {ops : List Op}

/-! ### One step -/

section Level

variable {mutex : Mutex} {waiting : List Nat}

theorem Mutex.level_owner (owner : mutex.owner = some t) :
    mutex.level waiting t = mutex.lockTimes := if_pos owner

theorem Mutex.level_other (other : mutex.owner ≠ some t) :
    mutex.level waiting t = if t ∈ waiting then 1 else 0 := if_neg other

theorem Mutex.level_waits (other : mutex.owner ≠ some t) (member : t ∈ waiting) :
    mutex.level waiting t = 1 := (Mutex.level_other other).trans (if_pos member)

theorem Mutex.level_out (other : mutex.owner ≠ some t) (absent : t ∉ waiting) :
    mutex.level waiting t = 0 := (Mutex.level_other other).trans (if_neg absent)

end Level

theorem Guarded.lockTimes_lt (guarded : Guarded m k place calls) {t : Nat}
    (owner : (k.mutex m).owner = some t) :
    0 < (k.mutex m).lockTimes ∧ (k.mutex m).lockTimes < 2147483648 := by
  refine ⟨(guarded.account.held t owner).1, ?_⟩
  by_cases pending : t ∈ calls.resumed
  · rw [(guarded.account.pending t owner pending).1]
    decide
  · have depth := guarded.account.nesting t owner pending
    have bound := guarded.within t
    omega

theorem Guarded.level_nonneg (guarded : Guarded m k place calls) (t : Nat) :
    0 ≤ (k.mutex m).level calls.waiting t := by
  unfold Mutex.level
  by_cases owner : (k.mutex m).owner = some t
  · rw [if_pos owner]
    exact Int.le_of_lt (guarded.lockTimes_lt owner).1
  · rw [if_neg owner]
    split_ifs <;> decide

/-- A running task waits for nothing, so its level is how often it holds the mutex. -/
theorem Guarded.level_current (scheduled : Scheduled idle k place tasks)
    (guarded : Guarded m k place calls) :
    (k.mutex m).level calls.waiting k.current = (k.mutex m).heldBy k.current := by
  have absent : k.current ∉ calls.waiting := by
    rw [← guarded.queue]
    exact scheduled.current_notMem (by simp)
  unfold Mutex.level Mutex.heldBy
  rw [if_neg absent]

private theorem other_owner {mutex : Mutex} {u : Nat} (own : mutex.owner = some u)
    (different : t ≠ u) : mutex.owner ≠ some t := by
  intro owner
  rw [own] at owner
  cases owner
  exact different rfl

private theorem LockOutcome.level (scheduled : Scheduled idle k place tasks)
    (guarded : Guarded m k place calls) (guardedAfter : Guarded m after placeAfter callsAfter)
    (outcome : LockOutcome k place m after placeAfter) (t : Nat) :
    (after.mutex m).level (placeAfter.on (.mutex m)) t =
      (k.mutex m).level (place.on (.mutex m)) t + if t = k.current then 1 else 0 := by
  have absent : k.current ∉ place.on (.mutex m) := scheduled.current_notMem (by simp)
  cases outcome with
  | taken free =>
      have noOwner := guarded.account.owner_none free
      have alone : place.on (.mutex m) = [] :=
        guarded.queue.trans (guarded.account.free noOwner).2
      have before : (k.mutex m).level [] t = 0 :=
        Mutex.level_out (by rw [noOwner]; exact (Option.some_ne_none t).symm) List.not_mem_nil
      rw [Kernel.withMutex_mutex, if_pos rfl, free, alone, before]
      by_cases same : t = k.current
      · rw [if_pos same, same, Mutex.level_owner rfl]
        exact int32_of_range (by decide) (by decide)
      · rw [if_neg same, Mutex.level_out (other_owner rfl same) List.not_mem_nil]
        rfl
  | nested held own =>
      have bounds := guarded.lockTimes_lt own
      have positive := (guardedAfter.account.held k.current (by
        rw [Kernel.withMutex_mutex, if_pos rfl]
        exact own)).1
      rw [Kernel.withMutex_mutex, if_pos rfl] at positive ⊢
      change 0 < int32 ((k.mutex m).lockTimes + 1) at positive
      -- a counter that wrapped would be negative
      have more : int32 ((k.mutex m).lockTimes + 1) = (k.mutex m).lockTimes + 1 := by
        unfold int32 at positive ⊢
        omega
      by_cases same : t = k.current
      · rw [if_pos same, same, Mutex.level_owner own, Mutex.level_owner (by exact own)]
        exact more
      · have other := other_owner own same
        rw [if_neg same, Int.add_zero, Mutex.level_other other, Mutex.level_other (by exact other)]
  | blocked held other next =>
      change (k.mutex m).level ((place.move k.current (.mutex m)).on (.mutex m)) t = _
      rw [Placement.move_on_target _ _ _ absent]
      by_cases same : t = k.current
      · rw [if_pos same, same, Mutex.level_waits other (by simp), Mutex.level_out other absent]
        rfl
      · have members : t ∈ place.on (.mutex m) ++ [k.current] ↔ t ∈ place.on (.mutex m) := by
          simp [same]
        unfold Mutex.level
        simp only [members, if_neg same, Int.add_zero]

private theorem UnlockOutcome.level (scheduled : Scheduled idle k place tasks)
    (guarded : Guarded m k place calls) (outcome : UnlockOutcome k place m after placeAfter)
    (t : Nat) :
    (after.mutex m).level (placeAfter.on (.mutex m)) t =
      (k.mutex m).level (place.on (.mutex m)) t -
        if t = k.current ∧ (k.mutex m).owner = some t then 1 else 0 := by
  have absent : k.current ∉ place.on (.mutex m) := scheduled.current_notMem (by simp)
  cases outcome with
  | notOwner other =>
      have idle : ¬ (t = k.current ∧ (k.mutex m).owner = some t) := by
        rintro ⟨isCurrent, isOwner⟩
        exact other (isCurrent ▸ isOwner)
      rw [if_neg idle, Int.sub_zero]
  | nested own more =>
      have bounds := guarded.lockTimes_lt own
      have less : int32 ((k.mutex m).lockTimes - 1) = (k.mutex m).lockTimes - 1 :=
        int32_of_range (by omega) (by omega)
      rw [Kernel.withMutex_mutex, if_pos rfl]
      by_cases same : t = k.current
      · subst same
        rw [if_pos ⟨rfl, own⟩, Mutex.level_owner own, Mutex.level_owner (by exact own)]
        exact less
      · have other := other_owner own same
        rw [if_neg (by rintro ⟨isCurrent, _⟩; exact same isCurrent), Int.sub_zero,
          Mutex.level_other other, Mutex.level_other (by exact other)]
  | released own last alone =>
      have bounds := guarded.lockTimes_lt own
      have once : (k.mutex m).lockTimes = 1 := by
        unfold int32 at last
        omega
      change Mutex.level (Function.update k.mutex m { lockTimes := 0, owner := none } m) _ _ = _
      rw [Function.update_self, alone,
        Mutex.level_out (by exact (Option.some_ne_none t).symm) List.not_mem_nil]
      by_cases same : t = k.current
      · subst same
        rw [if_pos ⟨rfl, own⟩, Mutex.level_owner own, once]
        rfl
      · rw [if_neg (by rintro ⟨isCurrent, _⟩; exact same isCurrent),
          Mutex.level_out (other_owner own same) List.not_mem_nil]
        rfl
  | handed own last first rest waiting next =>
      have bounds := guarded.lockTimes_lt own
      have once : (k.mutex m).lockTimes = 1 := by
        unfold int32 at last
        omega
      have queue : (place.move first .ready).on (.mutex m) = rest := wake_rest waiting (by simp)
      change Mutex.level (Function.update k.mutex m { lockTimes := 1, owner := some first } m)
        _ _ = _
      rw [waiting] at absent
      have different : k.current ≠ first := fun same => absent (same ▸ List.mem_cons_self ..)
      have gone : k.current ∉ rest := fun member => absent (List.mem_cons_of_mem _ member)
      rw [Function.update_self, queue, waiting]
      by_cases same : t = k.current
      · subst same
        rw [if_pos ⟨rfl, own⟩, Mutex.level_owner own, once,
          Mutex.level_out (other_owner rfl different) gone]
        rfl
      · have other := other_owner own same
        rw [if_neg (by rintro ⟨isCurrent, _⟩; exact same isCurrent), Int.sub_zero]
        by_cases isFirst : t = first
        · subst isFirst
          rw [Mutex.level_owner rfl, Mutex.level_waits other (List.mem_cons_self ..)]
        · rw [Mutex.level_other other, Mutex.level_other (other_owner rfl isFirst)]
          simp [isFirst]

private theorem Guarded.level_step (scheduled : Scheduled idle k place tasks)
    (guarded : Guarded m k place calls) {op : Op} (outcome : Outcome k place op after placeAfter)
    (guardedAfter : Guarded m after placeAfter callsAfter) (t : Nat) :
    (after.mutex m).level callsAfter.waiting t = (k.mutex m).level calls.waiting t +
      (if op = .mutexLock m ∧ t = k.current then 1 else 0) -
      (if op = .mutexUnlock m ∧ t = k.current ∧ (k.mutex m).owner = some t then 1 else 0) := by
  rw [← guarded.queue, ← guardedAfter.queue]
  by_cases isLock : op = .mutexLock m
  · subst op
    have level := LockOutcome.level scheduled guarded guardedAfter outcome t
    rw [level]
    simp
  · by_cases isUnlock : op = .mutexUnlock m
    · subst op
      have level := UnlockOutcome.level scheduled guarded outcome t
      rw [level]
      simp
    · obtain ⟨mutex, queue⟩ := Outcome.keeps_mutex scheduled outcome isLock isUnlock
      rw [mutex, queue, if_neg (fun both => isLock both.1), if_neg (fun both => isUnlock both.1),
        Int.add_zero, Int.sub_zero]

/-- The owner keeps a mutex that it does not unlock itself. -/
private theorem Guarded.owner_step (scheduled : Scheduled idle k place tasks)
    (guarded : Guarded m k place calls) {op : Op} (outcome : Outcome k place op after placeAfter)
    (elsewhere : k.current ≠ t ∨ op ≠ .mutexUnlock m) (owner : (k.mutex m).owner = some t) :
    (after.mutex m).owner = some t := by
  by_cases isLock : op = .mutexLock m
  · subst op
    have locked : LockOutcome k place m after placeAfter := outcome
    cases locked with
    | taken free =>
        have positive := (guarded.lockTimes_lt owner).1
        omega
    | nested held own =>
        rw [Kernel.withMutex_mutex, if_pos rfl]
        exact owner
    | blocked held other next => exact owner
  · by_cases isUnlock : op = .mutexUnlock m
    · subst op
      have notOwner : (k.mutex m).owner ≠ some k.current :=
        other_owner owner (elsewhere.resolve_right fun different => different rfl)
      have unlocked : UnlockOutcome k place m after placeAfter := outcome
      cases unlocked with
      | notOwner other => exact owner
      | nested own more => exact False.elim (notOwner own)
      | released own last alone => exact False.elim (notOwner own)
      | handed own last first rest waiting next => exact False.elim (notOwner own)
    · rw [(Outcome.keeps_mutex scheduled outcome isLock isUnlock).1]
      exact owner

/-! ### A stretch of code -/

theorem UnlocksOwn.shorten {op : Op} (ownUnlocks : UnlocksOwn m (ops ++ [op])) :
    UnlocksOwn m ops := by
  intro before rest split
  apply ownUnlocks before (rest ++ [op])
  rw [split, List.append_assoc, List.cons_append]

/-- A call that locks first and unlocks at most once. -/
theorem unlocksOwn_lock {rest : List Op} (once : rest.count (.mutexUnlock m) ≤ 1) :
    UnlocksOwn m (.mutexLock m :: rest) := by
  intro before behind split
  cases before with
  | nil => cases split
  | cons first before =>
      rw [List.cons_append, List.cons.injEq] at split
      obtain ⟨isFirst, split⟩ := split
      subst isFirst
      rw [split, List.count_append, List.count_cons_self] at once
      rw [List.count_cons_self, List.count_cons_of_ne (by simp)]
      omega

/-- Only the calls of the stretch count for the task that runs through it. -/
theorem Passes.level (passes : Passes boot m t k calls ops after callsAfter)
    (run : MutexRun boot m Calls.Within k calls) (ownUnlocks : UnlocksOwn m ops) :
    MutexRun boot m Calls.Within after callsAfter ∧
      (after.mutex m).level callsAfter.waiting t = (k.mutex m).level calls.waiting t +
        ops.count (.mutexLock m) - ops.count (.mutexUnlock m) := by
  induction passes with
  | start =>
      refine ⟨run, ?_⟩
      rw [List.count_nil, List.count_nil]
      omega
  | aside passes op elsewhere permitted stepped admitted ih =>
      obtain ⟨midRun, level⟩ := ih run ownUnlocks
      refine ⟨MutexRun.step midRun op permitted stepped admitted, ?_⟩
      obtain ⟨place, tasks, scheduled, guarded⟩ := midRun.guarded
      obtain ⟨placeAfter, tasksAfter, next, outcome⟩ :=
        step_outcome scheduled op permitted stepped
      have guardedAfter := guarded.step scheduled outcome next admitted
      rw [guarded.level_step scheduled outcome guardedAfter t, level, if_neg ?_, if_neg ?_,
        Int.add_zero, Int.sub_zero]
      · rintro ⟨isUnlock, isCurrent, _⟩
        rcases elsewhere with other | ⟨_, different⟩
        · exact other isCurrent.symm
        · exact different isUnlock
      · rintro ⟨isLock, isCurrent⟩
        rcases elsewhere with other | ⟨different, _⟩
        · exact other isCurrent.symm
        · exact different isLock
  | @own mid after calls middle ops passes op current permitted stepped admitted ih =>
      obtain ⟨midRun, level⟩ := ih run ownUnlocks.shorten
      refine ⟨MutexRun.step midRun op permitted stepped admitted, ?_⟩
      obtain ⟨place, tasks, scheduled, guarded⟩ := midRun.guarded
      obtain ⟨placeAfter, tasksAfter, next, outcome⟩ :=
        step_outcome scheduled op permitted stepped
      have guardedAfter := guarded.step scheduled outcome next admitted
      have step := guarded.level_step scheduled outcome guardedAfter t
      rw [List.count_append, List.count_append, List.count_singleton, List.count_singleton]
      by_cases isLock : op = .mutexLock m
      · subst op
        rw [if_pos ⟨rfl, current.symm⟩, if_neg (by simp)] at step
        simp only [beq_self_eq_true, if_true, beq_iff_eq, reduceCtorEq, if_false]
        omega
      · by_cases isUnlock : op = .mutexUnlock m
        · subst op
          -- the task runs and is ahead by a lock, so the mutex is its own
          have ahead := ownUnlocks ops [] rfl
          obtain ⟨_, _, _, guardedStart⟩ := run.guarded
          have nonneg := guardedStart.level_nonneg t
          have held := guarded.level_current scheduled
          rw [current, level] at held
          have owner : (mid.mutex m).owner = some t := by
            by_contra other
            unfold Mutex.heldBy at held
            rw [if_neg other] at held
            omega
          rw [if_neg (by simp), if_pos ⟨rfl, current.symm, owner⟩] at step
          simp only [beq_self_eq_true, if_true, beq_iff_eq, reduceCtorEq, if_false]
          omega
        · rw [if_neg (fun both => isLock both.1), if_neg (fun both => isUnlock both.1)] at step
          simp only [beq_iff_eq, isLock, isUnlock, if_false]
          omega

theorem Passes.heldBy (passes : Passes boot m t k calls ops after callsAfter)
    (run : MutexRun boot m Calls.Within k calls) (ownUnlocks : UnlocksOwn m ops)
    (begins : k.current = t) (ends : after.current = t) :
    (after.mutex m).heldBy t = (k.mutex m).heldBy t + ops.count (.mutexLock m) -
      ops.count (.mutexUnlock m) := by
  obtain ⟨runAfter, level⟩ := passes.level run ownUnlocks
  obtain ⟨_, _, scheduled, guarded⟩ := run.guarded
  obtain ⟨_, _, scheduledAfter, guardedAfter⟩ := runAfter.guarded
  have before := guarded.level_current scheduled
  have behind := guardedAfter.level_current scheduledAfter
  rw [begins] at before
  rw [ends] at behind
  rw [← before, ← behind, level]

/-- A mutex that its owner does not unlock stays with it, whatever the others do. -/
theorem Passes.owner_stays (passes : Passes boot m t k calls [] after callsAfter)
    (run : MutexRun boot m Calls.Within k calls) (owner : (k.mutex m).owner = some t) :
    (after.mutex m).owner = some t := by
  have empty : UnlocksOwn m [] := by
    intro before rest split
    cases before <;> cases split
  generalize isEmpty : ([] : List Op) = ops at passes
  induction passes with
  | start => exact owner
  | aside passes op elsewhere permitted stepped admitted ih =>
      subst isEmpty
      obtain ⟨midRun, _⟩ := passes.level run empty
      obtain ⟨place, tasks, scheduled, guarded⟩ := midRun.guarded
      obtain ⟨placeAfter, tasksAfter, next, outcome⟩ :=
        step_outcome scheduled op permitted stepped
      exact guarded.owner_step scheduled outcome (elsewhere.imp_right fun both => both.2)
        (ih run rfl)
  | own passes op current permitted stepped admitted ih =>
      exact False.elim (List.append_ne_nil_of_right_ne_nil _ (List.cons_ne_nil _ _) isEmpty.symm)

end MangoOS
