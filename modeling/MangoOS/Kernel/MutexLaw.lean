/-
Mutual exclusion over runs (kernel/ipc.c).

`Calls` is what an observer of one mutex writes down: who is suspended in
`mutex_lock`, who has been let go but has not run yet, and how often each task
has returned from `mutex_lock` and effectively unlocked.  `lock_times` is a C
`int`, so the account holds while no task nests 2^31 locks.
-/

import MangoOS.Kernel.Callers

namespace MangoOS

open Intrusive

structure Calls where
  waiting : List Nat
  resumed : List Nat
  returned : Nat → Nat
  released : Nat → Nat

namespace Calls

def none : Calls := { waiting := [], resumed := [], returned := fun _ => 0, released := fun _ => 0 }

def returns (calls : Calls) (t : Nat) : Calls :=
  { calls with returned := Function.update calls.returned t (calls.returned t + 1) }

/-- The caller of an operation on `m` is the current task. -/
def enter (calls : Calls) (m : Nat) (k : Kernel) (op : Op) (after : Kernel) : Calls :=
  if op = .mutexLock m then
    if (after.task k.current).state = .waiting then
      { calls with waiting := calls.waiting ++ [k.current] }
    else calls.returns k.current
  else if op = .mutexUnlock m ∧ (k.mutex m).owner = some k.current then
    { calls with
      released := Function.update calls.released k.current (calls.released k.current + 1) }
  else calls

/-- Callers that are not suspended any more have been let go. -/
def wake (calls : Calls) (after : Kernel) : Calls :=
  { calls with
    waiting := after.suspended calls.waiting
    resumed := calls.resumed ++ after.awakened calls.waiting }

/-- A caller that was let go returns from `mutex_lock` when it runs. -/
def dispatch (calls : Calls) (t : Nat) : Calls :=
  if t ∈ calls.resumed then
    { calls with resumed := calls.resumed.filter (· ≠ t) }.returns t
  else calls

def record (calls : Calls) (m : Nat) (k : Kernel) (op : Op) (after : Kernel) : Calls :=
  ((calls.enter m k op after).wake after).dispatch after.current

/-- No task is more than 2^31 - 1 locks deep. -/
def Within (calls : Calls) : Prop :=
  ∀ t, calls.returned t < calls.released t + 2147483648

end Calls

/-- Runs in which `m` is initialised at some point where nobody waits on it and
every account that follows is allowed. -/
inductive MutexRun (boot : Boot) (m : Nat) (allowed : Calls → Prop) : Kernel → Calls → Prop
  | start {k : Kernel} (run : Run boot k) (alone : Ring k.links (.head (.mutex m)) []) :
      MutexRun boot m allowed (k.mutexInit m) Calls.none
  | step {k after : Kernel} {calls : Calls} (run : MutexRun boot m allowed k calls) (op : Op)
      (permitted : k.Permits boot.idle op) (stepped : k.step op = some after)
      (admitted : allowed (calls.record m k op after)) :
      MutexRun boot m allowed after (calls.record m k op after)

/-! ### The account of one mutex -/

/-- The mutex agrees with the account.  The owner's nesting counts a lock that was
handed over but whose call has not returned yet. -/
structure Accounted (mutex : Mutex) (calls : Calls) : Prop where
  free : mutex.owner = none → mutex.lockTimes = 0 ∧ calls.waiting = []
  held : ∀ t, mutex.owner = some t → 0 < mutex.lockTimes ∧ t ∉ calls.waiting
  balance : ∀ t, mutex.owner ≠ some t →
    calls.returned t = calls.released t ∧ t ∉ calls.resumed
  nesting : ∀ t, mutex.owner = some t → t ∉ calls.resumed →
    mutex.lockTimes + calls.released t = calls.returned t
  pending : ∀ t, mutex.owner = some t → t ∈ calls.resumed →
    mutex.lockTimes = 1 ∧ calls.returned t = calls.released t

variable {mutex : Mutex} {calls : Calls}

theorem Accounted.owner_none (accounted : Accounted mutex calls)
    (free : mutex.lockTimes = 0) : mutex.owner = none := by
  cases owner : mutex.owner with
  | none => rfl
  | some t =>
      have positive := (accounted.held t owner).1
      omega

theorem Accounted.dispatch (accounted : Accounted mutex calls) (t : Nat) :
    Accounted mutex (calls.dispatch t) ∧ t ∉ (calls.dispatch t).resumed := by
  by_cases waits : t ∈ calls.resumed
  · have owner : mutex.owner = some t := by
      by_contra other
      exact (accounted.balance t other).2 waits
    obtain ⟨once, even⟩ := accounted.pending t owner waits
    have ran : calls.dispatch t =
        { calls with resumed := calls.resumed.filter (· ≠ t) }.returns t := if_pos waits
    have gone : t ∉ (calls.dispatch t).resumed := by
      rw [ran]
      simp [Calls.returns]
    refine ⟨?_, gone⟩
    constructor
    · intro free
      rw [owner] at free
      cases free
    · intro u isOwner
      rw [ran]
      exact accounted.held u isOwner
    · intro u other
      have different : u ≠ t := by
        intro same
        exact other (same ▸ owner)
      have old := accounted.balance u other
      rw [ran]
      simpa [Calls.returns, different] using old
    · intro u isOwner _
      rw [owner] at isOwner
      cases isOwner
      rw [ran]
      simp only [Calls.returns, Function.update_self]
      omega
    · intro u isOwner inResumed
      rw [owner] at isOwner
      cases isOwner
      exact False.elim (gone inResumed)
  · rw [Calls.dispatch, if_neg waits]
    exact ⟨accounted, waits⟩

/-- The caller takes a free mutex and returns at once. -/
theorem Accounted.take (accounted : Accounted mutex calls) (free : mutex.lockTimes = 0)
    (t : Nat) : Accounted { lockTimes := int32 (mutex.lockTimes + 1), owner := some t }
      (calls.returns t) := by
  have noOwner := accounted.owner_none free
  have none : calls.waiting = [] := (accounted.free noOwner).2
  have old : ∀ u, calls.returned u = calls.released u ∧ u ∉ calls.resumed := by
    intro u
    apply accounted.balance
    rw [noOwner]
    exact Option.some_ne_none u |>.symm
  have one : int32 (mutex.lockTimes + 1) = 1 := by
    rw [free]
    exact int32_of_range (by decide) (by decide)
  constructor
  · intro isNone
    cases isNone
  · intro u _
    rw [Calls.returns, none, one]
    exact ⟨Int.one_pos, List.not_mem_nil⟩
  · intro u other
    have different : u ≠ t := fun same => other (same ▸ rfl)
    simpa [Calls.returns, different] using old u
  · intro u isOwner _
    cases isOwner
    have even := (old t).1
    simp only [Calls.returns, Function.update_self, one]
    omega
  · intro u isOwner inResumed
    exact False.elim ((old u).2 inResumed)

theorem Accounted.nest (accounted : Accounted mutex calls) {t : Nat}
    (owner : mutex.owner = some t) (runs : t ∉ calls.resumed)
    (within : (calls.returns t).Within) :
    Accounted { mutex with lockTimes := int32 (mutex.lockTimes + 1) } (calls.returns t) := by
  have depth := accounted.nesting t owner runs
  have positive := (accounted.held t owner).1
  have bound := within t
  simp only [Calls.returns, Function.update_self] at bound
  have more : int32 (mutex.lockTimes + 1) = mutex.lockTimes + 1 := by
    apply int32_of_range <;> omega
  constructor
  · intro isNone
    rw [owner] at isNone
    cases isNone
  · intro u isOwner
    rw [more]
    refine ⟨?_, (accounted.held u isOwner).2⟩
    change 0 < mutex.lockTimes + 1
    omega
  · intro u other
    have different : u ≠ t := fun same => other (same ▸ owner)
    simpa [Calls.returns, different] using accounted.balance u other
  · intro u isOwner _
    change mutex.owner = some u at isOwner
    rw [owner] at isOwner
    cases isOwner
    simp only [Calls.returns, Function.update_self, more]
    omega
  · intro u isOwner inResumed
    change mutex.owner = some u at isOwner
    rw [owner] at isOwner
    cases isOwner
    exact False.elim (runs inResumed)

/-- A caller that does not own a held mutex queues up. -/
theorem Accounted.suspend (accounted : Accounted mutex calls) {t : Nat}
    (held : mutex.lockTimes ≠ 0) (other : mutex.owner ≠ some t) :
    Accounted mutex { calls with waiting := calls.waiting ++ [t] } := by
  constructor
  · intro free
    exact False.elim (held (accounted.free free).1)
  · intro u isOwner
    obtain ⟨positive, absent⟩ := accounted.held u isOwner
    refine ⟨positive, ?_⟩
    rw [List.mem_append, List.mem_singleton, not_or]
    exact ⟨absent, fun same => other (same ▸ isOwner)⟩
  · exact accounted.balance
  · exact accounted.nesting
  · exact accounted.pending

def Calls.releases (calls : Calls) (t : Nat) : Calls :=
  { calls with released := Function.update calls.released t (calls.released t + 1) }

theorem Accounted.unnest (accounted : Accounted mutex calls) {t : Nat}
    (owner : mutex.owner = some t) (runs : t ∉ calls.resumed) (within : calls.Within)
    (more : int32 (mutex.lockTimes - 1) ≠ 0) :
    Accounted { mutex with lockTimes := int32 (mutex.lockTimes - 1) } (calls.releases t) := by
  have depth := accounted.nesting t owner runs
  have positive := (accounted.held t owner).1
  have bound := within t
  have fewer : int32 (mutex.lockTimes - 1) = mutex.lockTimes - 1 := by
    apply int32_of_range <;> omega
  rw [fewer] at more
  constructor
  · intro isNone
    rw [owner] at isNone
    cases isNone
  · intro u isOwner
    rw [fewer]
    refine ⟨?_, (accounted.held u isOwner).2⟩
    change 0 < mutex.lockTimes - 1
    omega
  · intro u other
    have different : u ≠ t := fun same => other (same ▸ owner)
    simpa [Calls.releases, different] using accounted.balance u other
  · intro u isOwner _
    change mutex.owner = some u at isOwner
    rw [owner] at isOwner
    cases isOwner
    simp only [Calls.releases, Function.update_self, fewer]
    omega
  · intro u isOwner inResumed
    change mutex.owner = some u at isOwner
    rw [owner] at isOwner
    cases isOwner
    exact False.elim (runs inResumed)

/-- After the owner's last unlock every task is even and nobody has been let go. -/
private theorem Accounted.evens (accounted : Accounted mutex calls) {t : Nat}
    (owner : mutex.owner = some t) (runs : t ∉ calls.resumed) (within : calls.Within)
    (last : int32 (mutex.lockTimes - 1) = 0) :
    ∀ u, (calls.releases t).returned u = (calls.releases t).released u ∧
      u ∉ calls.resumed := by
  have depth := accounted.nesting t owner runs
  have positive := (accounted.held t owner).1
  have bound := within t
  have fewer : int32 (mutex.lockTimes - 1) = mutex.lockTimes - 1 := by
    apply int32_of_range <;> omega
  rw [fewer] at last
  intro u
  by_cases same : u = t
  · subst u
    simp only [Calls.releases, Function.update_self]
    exact ⟨by omega, runs⟩
  · have other : mutex.owner ≠ some u := by
      rw [owner]
      exact fun isSame => same (Option.some.inj isSame).symm
    simpa [Calls.releases, same] using accounted.balance u other

theorem Accounted.release (accounted : Accounted mutex calls) {t : Nat}
    (owner : mutex.owner = some t) (runs : t ∉ calls.resumed) (within : calls.Within)
    (last : int32 (mutex.lockTimes - 1) = 0) (alone : calls.waiting = []) :
    Accounted { lockTimes := 0, owner := none } (calls.releases t) := by
  have evens := accounted.evens owner runs within last
  constructor
  · intro _
    exact ⟨rfl, alone⟩
  · intro u isOwner
    cases isOwner
  · intro u _
    exact evens u
  · intro u isOwner
    cases isOwner
  · intro u isOwner
    cases isOwner

/-- The owner's last unlock hands the mutex to the first waiter. -/
theorem Accounted.handOver (accounted : Accounted mutex calls) {t first : Nat}
    {rest : List Nat} (owner : mutex.owner = some t) (runs : t ∉ calls.resumed)
    (within : calls.Within) (last : int32 (mutex.lockTimes - 1) = 0)
    (distinct : first ∉ rest) :
    Accounted { lockTimes := 1, owner := some first }
      { calls.releases t with waiting := rest, resumed := calls.resumed ++ [first] } := by
  have evens := accounted.evens owner runs within last
  constructor
  · intro isNone
    cases isNone
  · intro u isOwner
    cases isOwner
    exact ⟨Int.one_pos, distinct⟩
  · intro u other
    have different : u ≠ first := fun same => other (same ▸ rfl)
    refine ⟨(evens u).1, ?_⟩
    rw [List.mem_append, List.mem_singleton, not_or]
    exact ⟨(evens u).2, different⟩
  · intro u isOwner absent
    cases isOwner
    exact False.elim (absent (List.mem_append_right _ (List.mem_singleton_self _)))
  · intro u isOwner _
    exact ⟨rfl, (evens u).1⟩

/-! ### Steps -/

structure Guarded (m : Nat) (k : Kernel) (place : Placement Queue Nat) (calls : Calls) :
    Prop where
  account : Accounted (k.mutex m) calls
  queue : place.on (.mutex m) = calls.waiting
  runs : k.current ∉ calls.resumed
  within : calls.Within

variable {k after : Kernel} {place placeAfter : Placement Queue Nat}
variable {tasks tasksAfter : List Nat} {idle m : Nat}

theorem Calls.wake_quiet (settled : Settled after placeAfter tasksAfter)
    (queue : placeAfter.on (.mutex m) = calls.waiting) : calls.wake after = calls := by
  have waiting : ∀ t, t ∈ calls.waiting → (after.task t).state = .waiting := by
    intro t member
    rw [← queue] at member
    exact settled.state_waiting_mutex member
  rw [Calls.wake, Kernel.suspended_all waiting, Kernel.awakened_none waiting,
    List.append_nil]

theorem Calls.dispatch_waiting (calls : Calls) (t : Nat) :
    (calls.dispatch t).waiting = calls.waiting := by
  unfold Calls.dispatch
  split <;> rfl

theorem Calls.dispatch_idle {t : Nat} (absent : t ∉ calls.resumed) :
    calls.dispatch t = calls := if_neg absent

/-- Dispatching finishes every step, once the wake-ups are accounted for. -/
private theorem Guarded.settle {woken : Calls}
    (account : Accounted (after.mutex m) woken)
    (queue : placeAfter.on (.mutex m) = woken.waiting)
    (within : (woken.dispatch after.current).Within) :
    Guarded m after placeAfter (woken.dispatch after.current) := by
  obtain ⟨accountAfter, runs⟩ := account.dispatch after.current
  constructor
  · exact accountAfter
  · rw [Calls.dispatch_waiting]
    exact queue
  · exact runs
  · exact within

private theorem Guarded.lock (scheduled : Scheduled idle k place tasks)
    (guarded : Guarded m k place calls) (outcome : LockOutcome k place m after placeAfter)
    (next : Scheduled idle after placeAfter tasksAfter)
    (within : (calls.record m k (.mutexLock m) after).Within) :
    Guarded m after placeAfter (calls.record m k (.mutexLock m) after) := by
  have returns : after.task = k.task →
      calls.enter m k (.mutexLock m) after = calls.returns k.current := by
    intro task
    rw [Calls.enter, if_pos rfl, task, if_neg scheduled.current_awake]
  cases outcome with
  | taken free =>
      have entered := returns rfl
      have account := guarded.account.take free k.current
      have quiet : (calls.returns k.current).wake _ = _ :=
        Calls.wake_quiet next.toSettled guarded.queue
      unfold Calls.record at within ⊢
      rw [entered, quiet] at within ⊢
      apply Guarded.settle
      · simpa using account
      · exact guarded.queue
      · exact within
  | nested held own =>
      have entered := returns rfl
      have quiet : (calls.returns k.current).wake _ = _ :=
        Calls.wake_quiet next.toSettled guarded.queue
      unfold Calls.record at within ⊢
      rw [entered, quiet] at within ⊢
      have deeper : (calls.returns k.current).Within := by
        change ((calls.returns k.current).dispatch k.current).Within at within
        rw [Calls.dispatch_idle] at within
        · exact within
        · exact guarded.runs
      have account := guarded.account.nest own guarded.runs deeper
      apply Guarded.settle
      · simpa using account
      · exact guarded.queue
      · exact within
  | blocked held other picked =>
      have absent : k.current ∉ place.on (.mutex m) :=
        scheduled.current_notMem (by simp)
      have entered : calls.enter m k (.mutexLock m)
          { k.blocked (.mutex m) with current := picked } =
          { calls with waiting := calls.waiting ++ [k.current] } := by
        rw [Calls.enter, if_pos rfl, if_pos]
        simp [Kernel.blocked, Kernel.setState]
      have queue : (place.move k.current (.mutex m)).on (.mutex m) =
          calls.waiting ++ [k.current] := by
        rw [Placement.move_on_target _ _ _ absent, guarded.queue]
      have quiet : Calls.wake { calls with waiting := calls.waiting ++ [k.current] } _ = _ :=
        Calls.wake_quiet next.toSettled queue
      unfold Calls.record at within ⊢
      rw [entered, quiet] at within ⊢
      apply Guarded.settle
      · exact guarded.account.suspend held other
      · exact queue
      · exact within

private theorem Guarded.unlock (guarded : Guarded m k place calls)
    (outcome : UnlockOutcome k place m after placeAfter)
    (next : Scheduled idle after placeAfter tasksAfter)
    (within : (calls.record m k (.mutexUnlock m) after).Within) :
    Guarded m after placeAfter (calls.record m k (.mutexUnlock m) after) := by
  have releases : (k.mutex m).owner = some k.current →
      calls.enter m k (.mutexUnlock m) after = calls.releases k.current := by
    intro own
    rw [Calls.enter, if_neg (by simp), if_pos ⟨rfl, own⟩]
    rfl
  cases outcome with
  | notOwner other =>
      have entered : calls.enter m k (.mutexUnlock m) k = calls := by
        rw [Calls.enter, if_neg (by simp), if_neg (fun both => other both.2)]
      have quiet : calls.wake k = calls := Calls.wake_quiet next.toSettled guarded.queue
      unfold Calls.record at within ⊢
      rw [entered, quiet] at within ⊢
      exact Guarded.settle guarded.account guarded.queue within
  | nested own more =>
      have entered := releases own
      have quiet : (calls.releases k.current).wake _ = _ :=
        Calls.wake_quiet next.toSettled guarded.queue
      have account := guarded.account.unnest own guarded.runs guarded.within more
      unfold Calls.record at within ⊢
      rw [entered, quiet] at within ⊢
      apply Guarded.settle
      · simpa using account
      · exact guarded.queue
      · exact within
  | released own last alone =>
      have entered := releases own
      have quiet : (calls.releases k.current).wake _ = _ :=
        Calls.wake_quiet next.toSettled guarded.queue
      have account := guarded.account.release own guarded.runs guarded.within last
        (guarded.queue.symm.trans alone)
      unfold Calls.record at within ⊢
      rw [entered, quiet] at within ⊢
      apply Guarded.settle
      · simpa using account
      · exact guarded.queue
      · exact within
  | handed own last first rest waiting picked =>
      have entered := releases own
      have queue : (place.move first .ready).on (.mutex m) = rest :=
        wake_rest waiting (by simp)
      have distinct : first ∉ rest := by
        have nodup := place.nodup (.mutex m)
        rw [waiting] at nodup
        exact (List.nodup_cons.mp nodup).1
      have restWaits : ∀ t, t ∈ rest →
          ((k.unblock first).task t).state = .waiting := by
        intro t member
        rw [← queue] at member
        exact next.state_waiting_mutex member
      have firstRuns : ((k.unblock first).task first).state ≠ .waiting := by
        simp [Kernel.unblock, Kernel.unlink, Kernel.linkTail, Kernel.setState]
      have callers : calls.waiting = first :: rest := guarded.queue.symm.trans waiting
      have woken : (calls.releases k.current).wake
          { k.unblock first with
            mutex := Function.update k.mutex m { lockTimes := 1, owner := some first }
            current := picked } =
          { calls.releases k.current with
            waiting := rest, resumed := calls.resumed ++ [first] } := by
        change Calls.mk ((k.unblock first).suspended calls.waiting)
          (calls.resumed ++ (k.unblock first).awakened calls.waiting) _ _ = _
        rw [callers, Kernel.suspended_first firstRuns restWaits,
          Kernel.awakened_first firstRuns restWaits]
      have account := guarded.account.handOver own guarded.runs guarded.within last distinct
      unfold Calls.record at within ⊢
      rw [entered, woken] at within ⊢
      apply Guarded.settle
      · simpa using account
      · exact queue
      · exact within

theorem Guarded.step (scheduled : Scheduled idle k place tasks)
    (guarded : Guarded m k place calls) {op : Op}
    (outcome : Outcome k place op after placeAfter)
    (next : Scheduled idle after placeAfter tasksAfter)
    (within : (calls.record m k op after).Within) :
    Guarded m after placeAfter (calls.record m k op after) := by
  by_cases isLock : op = .mutexLock m
  · subst op
    exact guarded.lock scheduled outcome next within
  · by_cases isUnlock : op = .mutexUnlock m
    · subst op
      exact guarded.unlock outcome next within
    · obtain ⟨mutex, queue⟩ := Outcome.keeps_mutex scheduled outcome isLock isUnlock
      have entered : calls.enter m k op after = calls := by
        rw [Calls.enter, if_neg isLock, if_neg (fun both => isUnlock both.1)]
      have same : placeAfter.on (.mutex m) = calls.waiting := queue.trans guarded.queue
      have quiet : calls.wake after = calls := Calls.wake_quiet next.toSettled same
      unfold Calls.record at within ⊢
      rw [entered, quiet] at within ⊢
      apply Guarded.settle
      · rw [mutex]
        exact guarded.account
      · exact same
      · exact within

/-! ### Runs -/

theorem mutexInit_spec (scheduled : Scheduled idle k place tasks)
    (alone : Ring k.links (.head (.mutex m)) []) :
    Scheduled idle (k.mutexInit m) place tasks ∧
      Guarded m (k.mutexInit m) place Calls.none := by
  have unwaited : place.on (.mutex m) = [] := by
    have same := (scheduled.rep.queues (.mutex m)).unique alone
    exact List.map_eq_nil_iff.mp same
  refine ⟨scheduled.reset unwaited rfl rfl rfl rfl, ?_⟩
  have cleared : (k.mutexInit m).mutex m = { lockTimes := 0, owner := none } := by
    simp [Kernel.mutexInit, Kernel.withMutex]
  constructor
  · rw [cleared]
    constructor
    · intro _
      exact ⟨rfl, rfl⟩
    · intro t isOwner
      cases isOwner
    · intro t _
      exact ⟨rfl, List.not_mem_nil⟩
    · intro t isOwner
      cases isOwner
    · intro t isOwner
      cases isOwner
  · exact unwaited
  · exact List.not_mem_nil
  · intro t
    exact Nat.zero_lt_succ _

theorem MutexRun.guarded {boot : Boot} (run : MutexRun boot m Calls.Within k calls) :
    ∃ place tasks, Scheduled boot.idle k place tasks ∧ Guarded m k place calls := by
  induction run with
  | start run alone =>
      obtain ⟨place, tasks, scheduled⟩ := run.scheduled
      exact ⟨place, tasks, mutexInit_spec scheduled alone⟩
  | step run op permitted stepped admitted ih =>
      obtain ⟨place, tasks, scheduled, guarded⟩ := ih
      obtain ⟨placeAfter, tasksAfter, next, outcome⟩ :=
        step_outcome scheduled op permitted stepped
      exact ⟨placeAfter, tasksAfter, next, guarded.step scheduled outcome next admitted⟩

/-- What holds of a mutex in every state.  `calls.waiting` are the callers blocked in
`mutex_lock`, in the order in which they blocked. -/
structure MutexLaw (m : Nat) (k : Kernel) (calls : Calls) : Prop where
  free : (k.mutex m).lockTimes = 0 ↔ (k.mutex m).owner = none
  empty : (k.mutex m).owner = none → Ring k.links (.head (.mutex m)) []
  queue : Ring k.links (.head (.mutex m)) (calls.waiting.map .rq)
  blocked : ∀ t, t ∈ calls.waiting → (k.task t).state = .waiting
  ownerOut : ∀ t, (k.mutex m).owner = some t → t ∉ calls.waiting
  inside : ∀ t, calls.released t < calls.returned t →
    (k.mutex m).owner = some t ∧
      (k.mutex m).lockTimes = calls.returned t - calls.released t
  exclusive : ∀ t u, calls.released t < calls.returned t →
    calls.released u < calls.returned u → t = u

/-- What holds of a mutex across one step. -/
structure MutexStepLaw (m : Nat) (k : Kernel) (calls : Calls) (op : Op) (after : Kernel) :
    Prop where
  handOver : ∀ t, t ∈ calls.waiting → (after.task t).state ≠ .waiting →
    op = .mutexUnlock m ∧ calls.waiting.head? = some t ∧
      after.mutex m = { lockTimes := 1, owner := some t }
  inOrder : ∀ t, t ∈ calls.waiting → (after.mutex m).owner = some t →
    calls.waiting.head? = some t
  foreign : op = .mutexUnlock m → (k.mutex m).owner ≠ some k.current → after = k

theorem Guarded.law (scheduled : Scheduled idle k place tasks)
    (guarded : Guarded m k place calls) : MutexLaw m k calls := by
  have ring := scheduled.rep.queues (.mutex m)
  rw [guarded.queue] at ring
  have inside : ∀ t, calls.released t < calls.returned t →
      (k.mutex m).owner = some t ∧
        (k.mutex m).lockTimes = calls.returned t - calls.released t := by
    intro t ahead
    have owner : (k.mutex m).owner = some t := by
      by_contra other
      have even := (guarded.account.balance t other).1
      omega
    refine ⟨owner, ?_⟩
    have runs : t ∉ calls.resumed := by
      intro inResumed
      have even := (guarded.account.pending t owner inResumed).2
      omega
    have depth := guarded.account.nesting t owner runs
    omega
  constructor
  · constructor
    · exact guarded.account.owner_none
    · intro noOwner
      exact (guarded.account.free noOwner).1
  · intro noOwner
    rw [(guarded.account.free noOwner).2] at ring
    exact ring
  · exact ring
  · intro t member
    rw [← guarded.queue] at member
    exact scheduled.state_waiting_mutex member
  · intro t isOwner
    exact (guarded.account.held t isOwner).2
  · exact inside
  · intro t u tAhead uAhead
    have tOwner := (inside t tAhead).1
    have uOwner := (inside u uAhead).1
    rw [tOwner] at uOwner
    exact Option.some.inj uOwner

/-- Either every waiter stays queued without the mutex, or the step is the unlock that
hands it to the first one. -/
private theorem Guarded.waiters (scheduled : Scheduled idle k place tasks)
    (guarded : Guarded m k place calls) {op : Op}
    (outcome : Outcome k place op after placeAfter) :
    (∀ t, t ∈ calls.waiting →
        t ∈ placeAfter.on (.mutex m) ∧ (after.mutex m).owner ≠ some t) ∨
      (op = .mutexUnlock m ∧ ∃ first rest, calls.waiting = first :: rest ∧
        placeAfter.on (.mutex m) = rest ∧
        after.mutex m = { lockTimes := 1, owner := some first }) := by
  have stays : ∀ t, t ∈ calls.waiting →
      t ∈ place.on (.mutex m) ∧ (k.mutex m).owner ≠ some t := by
    intro t member
    rw [guarded.queue]
    exact ⟨member, fun isOwner => (guarded.account.held t isOwner).2 member⟩
  by_cases isLock : op = .mutexLock m
  · subst op
    left
    intro t member
    have locked : LockOutcome k place m after placeAfter := outcome
    cases locked with
    | taken free =>
        have none := (guarded.account.free (guarded.account.owner_none free)).2
        rw [none] at member
        cases member
    | nested held own => simpa using stays t member
    | blocked held other picked =>
        refine ⟨?_, (stays t member).2⟩
        rw [Placement.mem_move]
        by_cases isCaller : t = k.current
        · exact Or.inr ⟨rfl, isCaller⟩
        · exact Or.inl ⟨isCaller, (stays t member).1⟩
  · by_cases isUnlock : op = .mutexUnlock m
    · subst op
      have unlocked : UnlockOutcome k place m after placeAfter := outcome
      cases unlocked with
      | notOwner other => exact Or.inl stays
      | nested own more =>
          left
          intro t member
          simpa using stays t member
      | released own last alone =>
          left
          intro t member
          rw [← guarded.queue, alone] at member
          cases member
      | handed own last first rest waiting picked =>
          right
          refine ⟨rfl, first, rest, guarded.queue.symm.trans waiting,
            wake_rest waiting (by simp), ?_⟩
          simp
    · obtain ⟨mutex, queue⟩ := Outcome.keeps_mutex scheduled outcome isLock isUnlock
      left
      rw [mutex, queue]
      exact stays

theorem Guarded.stepLaw (scheduled : Scheduled idle k place tasks)
    (guarded : Guarded m k place calls) {op : Op}
    (outcome : Outcome k place op after placeAfter)
    (next : Scheduled idle after placeAfter tasksAfter) : MutexStepLaw m k calls op after := by
  constructor
  · intro t member awake
    rcases guarded.waiters scheduled outcome with stay | handed
    · exact False.elim (awake (next.state_waiting_mutex (stay t member).1))
    · obtain ⟨isUnlock, first, rest, waiting, queue, mutex⟩ := handed
      rw [waiting, List.mem_cons] at member
      rcases member with isFirst | inRest
      · subst t
        rw [waiting]
        exact ⟨isUnlock, rfl, mutex⟩
      · rw [← queue] at inRest
        exact False.elim (awake (next.state_waiting_mutex inRest))
  · intro t member isOwner
    rcases guarded.waiters scheduled outcome with stay | handed
    · exact False.elim ((stay t member).2 isOwner)
    · obtain ⟨_, first, rest, waiting, _, mutex⟩ := handed
      rw [mutex] at isOwner
      rw [waiting, List.head?_cons]
      exact isOwner
  · intro isUnlock other
    subst op
    have unlocked : UnlockOutcome k place m after placeAfter := outcome
    cases unlocked with
    | notOwner _ => rfl
    | nested own more => exact False.elim (other own)
    | released own last alone => exact False.elim (other own)
    | handed own last first rest waiting picked => exact False.elim (other own)

/-- Mutual exclusion, recursion and first-come hand-over in every run that keeps
`lock_times` within a C `int`. -/
theorem run_mutexLaw {boot : Boot} (run : MutexRun boot m Calls.Within k calls) :
    MutexLaw m k calls ∧
      ∀ op after, k.Permits boot.idle op → k.step op = some after →
        MutexStepLaw m k calls op after := by
  obtain ⟨place, tasks, scheduled, guarded⟩ := run.guarded
  refine ⟨guarded.law scheduled, ?_⟩
  intro op after permitted stepped
  obtain ⟨placeAfter, tasksAfter, next, outcome⟩ :=
    step_outcome scheduled op permitted stepped
  exact guarded.stepLaw scheduled outcome next

/-- A task that nobody competes with locks and returns at once. -/
theorem lock_alone (calls : Calls) (awake : (k.task k.current).state ≠ .waiting)
    (mine : (k.mutex m).lockTimes = 0 ∨ (k.mutex m).owner = some k.current)
    (waiting : calls.waiting = []) (resumed : calls.resumed = []) :
    k.mutexLock m = some (k.withMutex m (fun mutex =>
        { lockTimes := int32 (mutex.lockTimes + 1), owner := some k.current })) ∧
      calls.record m k (.mutexLock m) (k.withMutex m (fun mutex =>
        { lockTimes := int32 (mutex.lockTimes + 1), owner := some k.current })) =
        calls.returns k.current := by
  constructor
  · unfold Kernel.mutexLock
    by_cases free : (k.mutex m).lockTimes = 0
    · rw [if_pos free]
    · have own := mine.resolve_left free
      rw [if_neg free, if_pos own]
      simp [Kernel.withMutex, own]
  · unfold Calls.record
    rw [Calls.enter, if_pos rfl, if_neg (by exact awake), Calls.dispatch_idle]
    · simp [Calls.wake, Calls.returns, waiting, Kernel.suspended, Kernel.awakened]
    · simp [Calls.wake, Calls.returns, waiting, resumed, Kernel.awakened]

/-- The init task holds a mutex once. -/
theorem run_mutexLaw_held :
    ∃ k calls, (k.mutex 0).owner = some 1 ∧ calls.returned 1 = 1 ∧ calls.released 1 = 0 ∧
      MutexLaw 0 k calls ∧
      ∀ op after, k.Permits Boot.zeroed.idle op → k.step op = some after →
        MutexStepLaw 0 k calls op after := by
  obtain ⟨k, run, current, alone, _⟩ := Boot.zeroed_yielded
  obtain ⟨place, tasks, scheduled⟩ := run.scheduled
  have start : MutexRun Boot.zeroed 0 Calls.Within (k.mutexInit 0) Calls.none :=
    MutexRun.start run alone
  have free : ((k.mutexInit 0).mutex 0).lockTimes = 0 := by
    simp [Kernel.mutexInit, Kernel.withMutex]
  have awake : ((k.mutexInit 0).task (k.mutexInit 0).current).state ≠ .waiting :=
    scheduled.current_awake
  obtain ⟨locked, recorded⟩ :=
    lock_alone Calls.none awake (Or.inl free) rfl rfl
  have held := MutexRun.step start (.mutexLock 0)
    (by change k.current ≠ 0; rw [current]; exact Nat.one_ne_zero) locked
    (by
      rw [recorded]
      intro t
      by_cases same : t = k.current
      · subst same
        simp [Calls.returns, Calls.none, Kernel.mutexInit, Kernel.withMutex]
      · simp [Calls.returns, Calls.none, Kernel.mutexInit, Kernel.withMutex, same])
  refine ⟨_, _, ?_, ?_, ?_, run_mutexLaw held⟩
  · simp [Kernel.mutexInit, Kernel.withMutex, current]
  · rw [recorded]
    simp [Calls.returns, Calls.none, Kernel.mutexInit, Kernel.withMutex, current]
  · rw [recorded]
    rfl

private theorem int32_succ (n : Nat) : int32 (int32 n + 1) = int32 ((n + 1 : Nat) : Int) := by
  unfold int32
  omega

/-- `n` locks in a row, with nothing to stop the counter. -/
private theorem locks_run {boot : Boot} (n : Nat)
    (run : MutexRun boot m (fun _ => True) k Calls.none)
    (notIdle : k.current ≠ boot.idle) (awake : (k.task k.current).state ≠ .waiting)
    (free : (k.mutex m).lockTimes = 0) :
    ∃ after calls, MutexRun boot m (fun _ => True) after calls ∧
      after.current = k.current ∧ after.task = k.task ∧
      (after.mutex m).lockTimes = int32 n ∧
      ((after.mutex m).lockTimes = 0 ∨ (after.mutex m).owner = some k.current) ∧
      calls.waiting = [] ∧ calls.resumed = [] ∧
      calls.returned k.current = n ∧ calls.released k.current = 0 := by
  induction n with
  | zero =>
      have zero : (k.mutex m).lockTimes = int32 (0 : Nat) := by
        rw [free]
        exact (int32_of_range (by decide) (by decide)).symm
      exact ⟨k, Calls.none, run, rfl, rfl, zero, Or.inl free, rfl, rfl, rfl, rfl⟩
  | succ n ih =>
      obtain ⟨mid, calls, ran, current, task, lockTimes, mine, waiting, resumed, returned,
        released⟩ := ih
      rw [← current, ← task] at awake
      rw [← current] at notIdle mine returned released
      obtain ⟨locked, recorded⟩ := lock_alone calls awake mine waiting resumed
      have longer := MutexRun.step ran (.mutexLock m) notIdle locked trivial
      rw [recorded] at longer
      refine ⟨_, _, longer, current, task, ?_, ?_, waiting, resumed, ?_, ?_⟩
      · rw [Kernel.withMutex_mutex, if_pos rfl]
        change int32 ((mid.mutex m).lockTimes + 1) = _
        rw [lockTimes, int32_succ]
      · right
        rw [Kernel.withMutex_mutex, if_pos rfl, ← current]
      · rw [← current]
        simp [Calls.returns, returned]
      · rw [← current]
        exact released

/-- After 2^31 locks by one task `lock_times` is negative. -/
theorem mutexLaw_overflow :
    ∃ k calls, MutexRun Boot.zeroed 0 (fun _ => True) k calls ∧
      calls.returned 1 = 2147483648 ∧ calls.released 1 = 0 ∧
      (k.mutex 0).lockTimes = -2147483648 ∧ ¬ MutexLaw 0 k calls := by
  obtain ⟨k, run, current, alone, _⟩ := Boot.zeroed_yielded
  obtain ⟨place, tasks, scheduled⟩ := run.scheduled
  have start : MutexRun Boot.zeroed 0 (fun _ => True) (k.mutexInit 0) Calls.none :=
    MutexRun.start run alone
  have notIdle : (k.mutexInit 0).current ≠ Boot.zeroed.idle := by
    change k.current ≠ 0
    rw [current]
    exact Nat.one_ne_zero
  have free : ((k.mutexInit 0).mutex 0).lockTimes = 0 := by
    simp [Kernel.mutexInit, Kernel.withMutex]
  obtain ⟨after, calls, ran, _, _, lockTimes, _, _, _, returned, released⟩ :=
    locks_run 2147483648 start notIdle scheduled.current_awake free
  have isInit : (k.mutexInit 0).current = 1 := current
  rw [isInit] at returned released
  have wrapped : int32 ((2147483648 : Nat) : Int) = -2147483648 := by
    unfold int32
    decide
  rw [wrapped] at lockTimes
  refine ⟨after, calls, ran, returned, released, lockTimes, ?_⟩
  intro law
  have ahead : calls.released 1 < calls.returned 1 := by omega
  have depth := (law.inside 1 ahead).2
  rw [lockTimes, returned, released] at depth
  omega

end MangoOS
