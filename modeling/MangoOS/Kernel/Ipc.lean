/-
Mutexes and semaphores under the scheduling invariant (kernel/ipc.c).

An outcome lists every way one call can end, with the condition that leads there
and the kernel it leaves.
-/

import MangoOS.Kernel.Operations

namespace MangoOS

open Intrusive

inductive LockOutcome (k : Kernel) (place : Placement Queue Nat) (m : Nat) :
    Kernel → Placement Queue Nat → Prop
  | taken (free : (k.mutex m).lockTimes = 0) :
      LockOutcome k place m
        (k.withMutex m (fun mutex =>
          { lockTimes := int32 (mutex.lockTimes + 1), owner := some k.current })) place
  | nested (held : (k.mutex m).lockTimes ≠ 0) (own : (k.mutex m).owner = some k.current) :
      LockOutcome k place m
        (k.withMutex m (fun mutex =>
          { mutex with lockTimes := int32 (mutex.lockTimes + 1) })) place
  | blocked (held : (k.mutex m).lockTimes ≠ 0)
      (other : (k.mutex m).owner ≠ some k.current) (next : Nat) :
      LockOutcome k place m { k.blocked (.mutex m) with current := next }
        (place.move k.current (.mutex m))

inductive UnlockOutcome (k : Kernel) (place : Placement Queue Nat) (m : Nat) :
    Kernel → Placement Queue Nat → Prop
  | notOwner (other : (k.mutex m).owner ≠ some k.current) : UnlockOutcome k place m k place
  | nested (own : (k.mutex m).owner = some k.current)
      (more : int32 ((k.mutex m).lockTimes - 1) ≠ 0) :
      UnlockOutcome k place m
        (k.withMutex m (fun mutex =>
          { mutex with lockTimes := int32 (mutex.lockTimes - 1) })) place
  | released (own : (k.mutex m).owner = some k.current)
      (last : int32 ((k.mutex m).lockTimes - 1) = 0) (alone : place.on (.mutex m) = []) :
      UnlockOutcome k place m
        { k with mutex := Function.update k.mutex m { lockTimes := 0, owner := none } }
        place
  | handed (own : (k.mutex m).owner = some k.current)
      (last : int32 ((k.mutex m).lockTimes - 1) = 0) (first : Nat) (rest : List Nat)
      (waiting : place.on (.mutex m) = first :: rest) (next : Nat) :
      UnlockOutcome k place m
        { k.unblock first with
          mutex := Function.update k.mutex m { lockTimes := 1, owner := some first }
          current := next }
        (place.move first .ready)

inductive WaitOutcome (k : Kernel) (place : Placement Queue Nat) (s : Nat) :
    Kernel → Placement Queue Nat → Prop
  | granted (available : 0 < (k.sem s).count) :
      WaitOutcome k place s
        (k.withSem s (fun sem => { sem with count := int32 (sem.count - 1) })) place
  | blocked (empty : (k.sem s).count ≤ 0) (next : Nat) :
      WaitOutcome k place s { k.blocked (.sem s) with current := next }
        (place.move k.current (.sem s))

inductive NotifyOutcome (k : Kernel) (place : Placement Queue Nat) (s : Nat) :
    Kernel → Placement Queue Nat → Prop
  | counted (alone : place.on (.sem s) = []) :
      NotifyOutcome k place s
        (k.withSem s (fun sem => { sem with count := int32 (sem.count + 1) })) place
  | woken (first : Nat) (rest : List Nat) (waiting : place.on (.sem s) = first :: rest)
      (next : Nat) :
      NotifyOutcome k place s { k.unblock first with current := next }
        (place.move first .ready)

variable {k : Kernel} {place : Placement Queue Nat} {tasks : List Nat} {idle : Nat}

theorem Scheduled.congr (scheduled : Scheduled idle k place tasks) {after : Kernel}
    (links : after.links = k.links) (pid : after.pid = k.pid) (task : after.task = k.task)
    (current : after.current = k.current) : Scheduled idle after place tasks where
  toSettled := scheduled.toSettled.congr links pid task
  current := current ▸ scheduled.current
  idle := scheduled.idle

private theorem wake_spec (scheduled : Scheduled idle k place tasks) {first : Nat}
    {queue : Queue} (member : first ∈ place.on queue) :
    ∃ next, (k.unblock first).schedule = some { k.unblock first with current := next } ∧
      Scheduled idle { k.unblock first with current := next }
        (place.move first .ready) tasks := by
  have moved := unblock_settled scheduled.toSettled member
  have stays : ∀ t, t ∈ place.on .ready → t ∈ (place.move first .ready).on .ready := by
    intro t inReady
    rw [Placement.mem_move]
    by_cases same : t = first
    · exact Or.inr ⟨rfl, same⟩
    · exact Or.inl ⟨same, inReady⟩
  exact schedule_spec moved ⟨.ready, stays _ scheduled.current⟩ (stays _ scheduled.idle)

private theorem first_waiter (scheduled : Scheduled idle k place tasks) {queue : Queue}
    {first : Nat} {rest : List Nat} (waiting : place.on queue = first :: rest) :
    queueEmpty k.links (.head queue) = false ∧
      Kernel.queueData (queueFirst k.links (.head queue)) = some first := by
  constructor
  · rw [← Bool.not_eq_true, scheduled.rep.empty_iff, waiting]
    exact List.cons_ne_nil first rest
  · rw [scheduled.rep.first_eq, waiting]
    rfl

theorem mutexLock_spec (scheduled : Scheduled idle k place tasks)
    (notIdle : k.current ≠ idle) (m : Nat) :
    ∃ after placeAfter, k.mutexLock m = some after ∧
      Scheduled idle after placeAfter tasks ∧ LockOutcome k place m after placeAfter := by
  by_cases free : (k.mutex m).lockTimes = 0
  · refine ⟨_, place, ?_, ?_, LockOutcome.taken free⟩
    · rw [Kernel.mutexLock, if_pos free]
    · exact scheduled.congr rfl rfl rfl rfl
  · by_cases own : (k.mutex m).owner = some k.current
    · refine ⟨_, place, ?_, ?_, LockOutcome.nested free own⟩
      · rw [Kernel.mutexLock, if_neg free, if_pos own]
      · exact scheduled.congr rfl rfl rfl rfl
    · obtain ⟨next, blockedAs, scheduledNext⟩ :=
        block_spec scheduled notIdle (.mutex m) rfl
      refine ⟨_, _, ?_, scheduledNext, LockOutcome.blocked free own next⟩
      rw [Kernel.mutexLock, if_neg free, if_neg own, blockedAs]

theorem mutexUnlock_spec (scheduled : Scheduled idle k place tasks) (m : Nat) :
    ∃ after placeAfter, k.mutexUnlock m = some after ∧
      Scheduled idle after placeAfter tasks ∧ UnlockOutcome k place m after placeAfter := by
  by_cases own : (k.mutex m).owner = some k.current
  · by_cases last : int32 ((k.mutex m).lockTimes - 1) = 0
    · cases waiting : place.on (.mutex m) with
      | nil =>
          have alone := (scheduled.rep.empty_iff (.mutex m)).mpr waiting
          refine ⟨_, place, ?_, ?_, UnlockOutcome.released own last waiting⟩
          · simp [Kernel.mutexUnlock, own, last, Kernel.withMutex, alone]
          · exact scheduled.congr rfl rfl rfl rfl
      | cons first rest =>
          obtain ⟨nonempty, isFirst⟩ := first_waiter scheduled waiting
          have member : first ∈ place.on (.mutex m) := by
            rw [waiting]
            exact List.mem_cons_self ..
          obtain ⟨next, wokenAs, scheduledNext⟩ := wake_spec scheduled member
          refine ⟨_, _, ?_, ?_, UnlockOutcome.handed own last first rest waiting next⟩
          · -- `schedule` does not read the mutexes
            have picked : Kernel.pickNextTask (k.unblock first) = some next := by
              have mapped := congrArg (Option.map Kernel.current) wokenAs
              simpa [Kernel.schedule, Function.comp_def] using mapped
            simp only [Kernel.mutexUnlock, own, if_true, Kernel.withMutex,
              Function.update_self, last, nonempty, Bool.false_eq_true, if_false, isFirst,
              Option.bind_some, Kernel.schedule]
            change (Kernel.pickNextTask (k.unblock first)).map _ = _
            rw [picked]
            simp [Kernel.unblock, Kernel.unlink, Kernel.linkTail, Kernel.setState,
              Kernel.withTask]
          · exact scheduledNext.congr rfl rfl rfl rfl
    · refine ⟨_, place, ?_, ?_, UnlockOutcome.nested own last⟩
      · simp [Kernel.mutexUnlock, own, last, Kernel.withMutex]
      · exact scheduled.congr rfl rfl rfl rfl
  · refine ⟨k, place, ?_, scheduled, UnlockOutcome.notOwner own⟩
    rw [Kernel.mutexUnlock, if_neg own]

theorem semWait_spec (scheduled : Scheduled idle k place tasks)
    (notIdle : k.current ≠ idle) (s : Nat) :
    ∃ after placeAfter, k.semWait s = some after ∧
      Scheduled idle after placeAfter tasks ∧ WaitOutcome k place s after placeAfter := by
  by_cases available : 0 < (k.sem s).count
  · refine ⟨_, place, ?_, ?_, WaitOutcome.granted available⟩
    · rw [Kernel.semWait, if_pos available]
    · exact scheduled.congr rfl rfl rfl rfl
  · obtain ⟨next, blockedAs, scheduledNext⟩ := block_spec scheduled notIdle (.sem s) rfl
    refine ⟨_, _, ?_, scheduledNext, WaitOutcome.blocked (Int.not_lt.mp available) next⟩
    rw [Kernel.semWait, if_neg available, blockedAs]

theorem semNotify_spec (scheduled : Scheduled idle k place tasks) (s : Nat) :
    ∃ after placeAfter, k.semNotify s = some after ∧
      Scheduled idle after placeAfter tasks ∧ NotifyOutcome k place s after placeAfter := by
  cases waiting : place.on (.sem s) with
  | nil =>
      have alone := (scheduled.rep.empty_iff (.sem s)).mpr waiting
      refine ⟨_, place, ?_, ?_, NotifyOutcome.counted waiting⟩
      · rw [Kernel.semNotify, if_pos alone]
      · exact scheduled.congr rfl rfl rfl rfl
  | cons first rest =>
      obtain ⟨nonempty, isFirst⟩ := first_waiter scheduled waiting
      have member : first ∈ place.on (.sem s) := by
        rw [waiting]
        exact List.mem_cons_self ..
      obtain ⟨next, wokenAs, scheduledNext⟩ := wake_spec scheduled member
      refine ⟨_, _, ?_, scheduledNext, NotifyOutcome.woken first rest waiting next⟩
      rw [Kernel.semNotify, if_neg (by rw [nonempty]; exact Bool.false_ne_true), isFirst,
        Option.bind_some, wokenAs]

end MangoOS
