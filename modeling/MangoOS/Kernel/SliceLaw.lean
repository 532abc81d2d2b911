/-
Time slices (kernel/task.c, kernel/sched.c): whom a tick dispatches while the slice
of the current task lasts.
-/

import MangoOS.Kernel.RoundRobin

namespace MangoOS

open Intrusive

/-- The current task was never marked as running and is the first one of the ready queue. -/
def Kernel.KeptAt (k : Kernel) : Prop :=
  ¬ k.CurrentRuns ∧ k.links.prev (.rq k.current) = .head .ready

instance (k : Kernel) : Decidable k.KeptAt :=
  inferInstanceAs (Decidable (¬ k.CurrentRuns ∧ k.links.prev (.rq k.current) = .head .ready))

/-- Since `t` was dispatched with a full slice there were some ticks, but fewer than the slice has,
and nothing else that schedules. -/
inductive SliceRun (boot : Boot) (allowed : Kernel → Prop) (t : Nat) : Nat → Kernel → Prop
  | dispatched {k : Kernel} : Run boot k → k.current = t → t ≠ boot.idle →
      (k.task t).slice = taskSlice → SliceRun boot allowed t 0 k
  | tick {n : Nat} {mid after : Kernel} : SliceRun boot allowed t n mid → n + 1 < taskSlice →
      allowed mid → mid.taskTick = some after → SliceRun boot allowed t (n + 1) after
  | other {n : Nat} {mid after : Kernel} (op : Op) : SliceRun boot allowed t n mid →
      ¬ mid.Schedules op → mid.Permits boot.idle op → mid.step op = some after →
      SliceRun boot allowed t n after

variable {k after : Kernel} {place : Placement Queue Nat} {tasks : List Nat} {idle t n : Nat}

/-! ### One tick -/

theorem schedule_current {next : Nat} (picked : Kernel.pickNextTask k = some next)
    (stepped : k.schedule = some after) : after.current = next := by
  rw [schedule_picked picked stepped]

/-- While its slice lasts a task that is not the idle one stays current in a tick if and only if
it is the first ready one and not marked as running. -/
theorem taskTick_keeps_iff (scheduled : Scheduled idle k place tasks) (notIdle : k.current ≠ idle)
    (lasts : (k.task k.current).slice - 1 ≠ 0) (stepped : k.taskTick = some after) :
    after.current = k.current ↔ k.KeptAt := by
  obtain ⟨walked, placeWalked, ticked, settled, _, current, charged, counted⟩ :=
    taskTick_walked scheduled
  obtain ⟨left, right, split⟩ := List.append_of_mem scheduled.current
  have ready := counted.ready
  unfold Kernel.readyCharged at ready
  rw [if_neg lasts, split, ← current, List.append_assoc, List.cons_append] at ready
  have sameRuns : walked.CurrentRuns ↔ k.CurrentRuns := by
    unfold Kernel.CurrentRuns
    rw [current, charged]
    rfl
  have distinct := placeWalked.nodup .ready
  rw [ready] at distinct
  have first := scheduled.toSettled.first_iff split
  unfold Kernel.KeptAt
  rw [ticked] at stepped
  rw [← current, ← sameRuns, current, first]
  by_cases runs : walked.CurrentRuns
  · refine iff_of_false ?_ (fun kept => kept.1 runs)
    intro same
    obtain ⟨next, rest, order⟩ : ∃ next rest, (right ++ (place.on .sleep).filter k.due) ++
        (left ++ [walked.current]) = next :: rest := List.exists_cons_of_ne_nil (by simp)
    have isNext := schedule_current (pickNextTask_running settled ready runs order) stepped
    have idleReady := scheduled.idle
    rw [split, List.mem_append, List.mem_cons] at idleReady
    rw [same, ← current] at isNext
    rw [← isNext] at order
    -- the current task occurs once, so nothing may stand in front of it
    have absent := List.nodup_append.mp distinct
    have notBehind := (List.nodup_cons.mp absent.2.1).1
    cases behind : right ++ (place.on .sleep).filter k.due with
    | cons head tail =>
        rw [behind, List.cons_append, List.cons.injEq] at order
        rw [behind, order.1] at notBehind
        exact notBehind (List.mem_cons_self ..)
    | nil =>
        have noRight := (List.append_eq_nil_iff.mp behind).1
        rw [behind, List.nil_append] at order
        cases left with
        | nil =>
            rw [noRight] at idleReady
            rcases idleReady with impossible | isCurrent | impossible
            · cases impossible
            · exact notIdle isCurrent.symm
            · cases impossible
        | cons head tail =>
            rw [List.cons_append, List.cons.injEq] at order
            exact absent.2.2 head (List.mem_cons_self ..) head
              (order.1 ▸ List.mem_cons_self ..) rfl
  · rw [and_iff_right runs]
    cases left with
    | nil =>
        rw [List.nil_append] at ready
        have isNext := schedule_current (pickNextTask_first settled ready runs) stepped
        exact iff_of_true (isNext.trans current) rfl
    | cons head tail =>
        rw [List.cons_append] at ready
        have isNext := schedule_current (pickNextTask_first settled ready runs) stepped
        refine iff_of_false ?_ (List.cons_ne_nil head tail)
        intro same
        rw [List.cons_append, List.nodup_cons] at distinct
        rw [isNext, ← current] at same
        refine distinct.1 ?_
        rw [same]
        exact List.mem_append_right _ (List.mem_cons_self ..)

/-- The slice of the current task is one tick shorter. -/
theorem taskTick_slice (scheduled : Scheduled idle k place tasks)
    (lasts : (k.task k.current).slice - 1 ≠ 0) (stepped : k.taskTick = some after) :
    (after.task k.current).slice = (k.task k.current).slice - 1 := by
  obtain ⟨walked, _, ticked, _, _, _, charged, _⟩ := taskTick_walked scheduled
  rw [ticked] at stepped
  unfold Kernel.schedule at stepped
  obtain ⟨next, _, rfl⟩ := Option.map_eq_some_iff.mp stepped
  change (walked.task k.current).slice = _
  rw [charged]
  exact if_neg lasts

/-! ### What does not schedule -/

theorem step_quiet (scheduled : Scheduled idle k place tasks) {op : Op}
    (quiet : ¬ k.Schedules op) (permitted : k.Permits idle op) (stepped : k.step op = some after) :
    after.current = k.current ∧
      (after.task k.current).slice = (k.task k.current).slice := by
  cases op with
  | taskInit u entry =>
      obtain rfl := Option.some.inj stepped
      have different : k.current ≠ u := by
        intro same
        have known := (scheduled.placed k.current).mp ⟨.ready, scheduled.current⟩
        exact permitted ((scheduled.initialised_iff u).mpr (same ▸ known))
      refine ⟨taskInit_current k u entry, ?_⟩
      unfold Kernel.taskInit
      split <;> simp [Kernel.linkTail, Kernel.setState, different]
  | setRunning u =>
      obtain rfl := Option.some.inj stepped
      refine ⟨rfl, ?_⟩
      by_cases same : k.current = u
      · simp [Kernel.setState, same]
      · simp [Kernel.setState, same]
  | taskTick => exact absurd trivial quiet
  | taskYield => exact absurd trivial quiet
  | sysSleep ms => exact absurd trivial quiet
  | mutexLock m =>
      obtain ⟨found, _, foundAs, _, outcome⟩ := mutexLock_spec scheduled permitted m
      obtain rfl := Option.some.inj (foundAs.symm.trans stepped)
      cases outcome with
      | taken free => exact ⟨rfl, rfl⟩
      | nested held own => exact ⟨rfl, rfl⟩
      | blocked held other next => exact absurd ⟨held, other⟩ quiet
  | mutexUnlock m =>
      obtain ⟨found, _, foundAs, _, outcome⟩ := mutexUnlock_spec scheduled m
      obtain rfl := Option.some.inj (foundAs.symm.trans stepped)
      cases outcome with
      | notOwner other => exact ⟨rfl, rfl⟩
      | nested own more => exact ⟨rfl, rfl⟩
      | released own last alone => exact ⟨rfl, rfl⟩
      | handed own last first rest waiting next =>
          have nonempty : queueEmpty k.links (.head (.mutex m)) = false := by
            rw [← Bool.not_eq_true, scheduled.rep.empty_iff, waiting]
            exact List.cons_ne_nil first rest
          exact absurd ⟨own, last, nonempty⟩ quiet
  | semWait s =>
      obtain ⟨found, _, foundAs, _, outcome⟩ := semWait_spec scheduled permitted s
      obtain rfl := Option.some.inj (foundAs.symm.trans stepped)
      cases outcome with
      | granted available => exact ⟨rfl, rfl⟩
      | blocked empty next => exact absurd empty quiet
  | semNotify s =>
      obtain ⟨found, _, foundAs, _, outcome⟩ := semNotify_spec scheduled s
      obtain rfl := Option.some.inj (foundAs.symm.trans stepped)
      cases outcome with
      | counted alone => exact ⟨rfl, rfl⟩
      | woken first rest waiting next =>
          have nonempty : queueEmpty k.links (.head (.sem s)) = false := by
            rw [← Bool.not_eq_true, scheduled.rep.empty_iff, waiting]
            exact List.cons_ne_nil first rest
          exact absurd nonempty quiet

/-! ### Runs -/

/-- As long as every tick met its condition the task is current and each tick cost one of its
slice. -/
theorem SliceRun.kept {boot : Boot} (run : SliceRun boot Kernel.KeptAt t n k) :
    Run boot k ∧ n < taskSlice ∧ k.current = t ∧ t ≠ boot.idle ∧
      (k.task t).slice = (taskSlice : Int) - n := by
  induction run with
  | dispatched reached current notIdle full =>
      refine ⟨reached, by decide, current, notIdle, ?_⟩
      rw [full]
      rfl
  | @tick n mid after _ early kept ticked ih =>
      obtain ⟨reached, _, current, notIdle, slice⟩ := ih
      obtain ⟨place, tasks, scheduled⟩ := reached.scheduled
      have lasts : (mid.task mid.current).slice - 1 ≠ 0 := by
        rw [current, slice]
        omega
      have stays := (taskTick_keeps_iff scheduled (current ▸ notIdle) lasts ticked).mpr kept
      have shorter := taskTick_slice scheduled lasts ticked
      rw [current, slice] at shorter
      refine ⟨reached.step .taskTick trivial ticked, early, stays.trans current, notIdle, ?_⟩
      rw [shorter]
      omega
  | @other n mid after op _ quiet permitted stepped ih =>
      obtain ⟨reached, early, current, notIdle, slice⟩ := ih
      obtain ⟨place, tasks, scheduled⟩ := reached.scheduled
      obtain ⟨stays, sameSlice⟩ := step_quiet scheduled quiet permitted stepped
      rw [current] at sameSlice
      exact ⟨reached.step op permitted stepped, early, stays.trans current, notIdle,
        sameSlice.trans slice⟩

/-- Where every tick so far met its condition the task that was dispatched is current, and the
next tick before its slice is over leaves it so if and only if it meets its own. -/
theorem sliceRun_kept {boot : Boot} (run : SliceRun boot Kernel.KeptAt t n k) :
    k.current = t ∧ ∀ after, n + 1 < taskSlice → k.taskTick = some after →
      (after.current = t ↔ k.KeptAt) := by
  obtain ⟨reached, _, current, notIdle, slice⟩ := run.kept
  refine ⟨current, ?_⟩
  intro after early ticked
  obtain ⟨place, tasks, scheduled⟩ := reached.scheduled
  have lasts : (k.task k.current).slice - 1 ≠ 0 := by
    rw [current, slice]
    omega
  rw [← current]
  exact taskTick_keeps_iff scheduled (current ▸ notIdle) lasts ticked

theorem Run.ticks {boot : Boot} (run : Run boot k) :
    k.taskTick = some (k.stepped .taskTick) := by
  have permitted : k.Permits boot.idle .taskTick := trivial
  exact run.completes permitted

/-- Beside the idle and the init task there is 2, which was never marked as running, and the idle
and the init task have yielded. -/
def Boot.kept : Kernel :=
  ((Boot.two.stepped (.taskInit 2 4096)).stepped .taskYield).stepped .taskYield

theorem sliceRun_kept_ticked :
    ∃ k after : Kernel, k.current = 2 ∧ k.taskTick = some after ∧ after.current = 2 := by
  have yielded : Run Boot.zeroed
      ((Boot.two.stepped (.taskInit 2 4096)).stepped .taskYield) :=
    Boot.created_run.onward trivial
  have reached : Run Boot.zeroed Boot.kept := yielded.onward trivial
  have reachedNext : Run Boot.zeroed (Boot.kept.stepped .taskTick) := reached.onward trivial
  have current : Boot.kept.current = 2 ∧ (Boot.kept.task 2).slice = taskSlice := by
    decide +kernel
  have kept : Boot.kept.KeptAt ∧ (Boot.kept.stepped .taskTick).KeptAt := by decide +kernel
  have dispatched : SliceRun Boot.zeroed Kernel.KeptAt 2 0 Boot.kept :=
    .dispatched reached current.1 (by decide) current.2
  obtain ⟨stays, keeps⟩ :=
    sliceRun_kept (.tick dispatched (by decide) kept.1 reached.ticks)
  exact ⟨_, _, stays, reachedNext.ticks,
    (keeps _ (by decide) reachedNext.ticks).mpr kept.2⟩

/-- The init task was marked as running and just dispatched; the first tick dispatches another. -/
theorem sliceRun_kept_not :
    ¬ ∀ (boot : Boot) (t n : Nat) (k : Kernel), SliceRun boot (fun _ => True) t n k →
      k.current = t := by
  intro stays
  have started : Run Boot.zeroed Boot.two := Run.start rfl
  have reached : Run Boot.zeroed (Boot.two.stepped .taskYield) := started.onward trivial
  have current : (Boot.two.stepped .taskYield).current = 1 ∧
      ((Boot.two.stepped .taskYield).task 1).slice = taskSlice := by
    decide +kernel
  have dispatched : SliceRun Boot.zeroed (fun _ => True) 1 0 (Boot.two.stepped .taskYield) :=
    .dispatched reached current.1 (by decide) current.2
  have ticked := SliceRun.tick dispatched (by decide) trivial reached.ticks
  have leaves : ((Boot.two.stepped .taskYield).stepped .taskTick).current ≠ 1 := by
    decide +kernel
  exact leaves (stays _ 1 1 _ ticked)

end MangoOS
