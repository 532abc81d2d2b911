/-
Conservation of notifications over runs (kernel/ipc.c).

`Grants` is what an observer of one semaphore writes down: who is suspended in
`sem_wait`, how many `sem_wait` calls have been granted and how many
`sem_notify` calls were made.
-/

import MangoOS.Kernel.Callers

namespace MangoOS

open Intrusive

structure Grants where
  pending : List Nat
  granted : Nat
  notified : Nat

namespace Grants

def none : Grants := { pending := [], granted := 0, notified := 0 }

/-- The caller of an operation on `s` is the current task; a `sem_wait` that does not
suspend it is granted. -/
def enter (grants : Grants) (s : Nat) (k : Kernel) (op : Op) (after : Kernel) : Grants :=
  if op = .semWait s then
    if (after.task k.current).state = .waiting then
      { grants with pending := grants.pending ++ [k.current] }
    else { grants with granted := grants.granted + 1 }
  else if op = .semNotify s then { grants with notified := grants.notified + 1 }
  else grants

/-- Callers that are not suspended any more have been granted by a wake-up. -/
def wake (grants : Grants) (after : Kernel) : Grants :=
  { grants with
    pending := after.suspended grants.pending
    granted := grants.granted + (after.awakened grants.pending).length }

def record (grants : Grants) (s : Nat) (k : Kernel) (op : Op) (after : Kernel) : Grants :=
  (grants.enter s k op after).wake after

/-- The count that the account calls for fits a C `int`. -/
def Below (count : Int) (grants : Grants) : Prop :=
  count + grants.notified - grants.granted < 2147483648

end Grants

/-- Runs in which `s` is initialised with `count` at some point where nobody waits on it. -/
inductive SemRun (boot : Boot) (s : Nat) (count : Int) : Kernel → Grants → Prop
  | start {k : Kernel} (run : Run boot k) (alone : Ring k.links (.head (.sem s)) [])
      (valid : 0 ≤ count) (below : Grants.none.Below count) :
      SemRun boot s count (k.semInit s count) Grants.none
  | step {k after : Kernel} {grants : Grants} (run : SemRun boot s count k grants) (op : Op)
      (permitted : k.Permits boot.idle op) (stepped : k.step op = some after)
      (below : (grants.record s k op after).Below count) :
      SemRun boot s count after (grants.record s k op after)

/-- The semaphore agrees with the account. -/
structure Balanced (s : Nat) (count : Int) (k : Kernel) (place : Placement Queue Nat)
    (grants : Grants) : Prop where
  nonneg : 0 ≤ (k.sem s).count
  alone : 0 < (k.sem s).count → grants.pending = []
  balance : (k.sem s).count + grants.granted = count + grants.notified
  queue : place.on (.sem s) = grants.pending
  below : grants.Below count

variable {k after : Kernel} {place placeAfter : Placement Queue Nat} {grants : Grants}
variable {tasks tasksAfter : List Nat} {idle s : Nat} {count : Int}

theorem Grants.wake_quiet (settled : Settled after placeAfter tasksAfter)
    (queue : placeAfter.on (.sem s) = grants.pending) : grants.wake after = grants := by
  have waiting : ∀ t, t ∈ grants.pending → (after.task t).state = .waiting := by
    intro t member
    rw [← queue] at member
    exact settled.state_waiting_sem member
  rw [Grants.wake, Kernel.suspended_all waiting, Kernel.awakened_none waiting,
    List.length_nil, Nat.add_zero]

/-- A notification with waiters grants the first one and nothing else. -/
private theorem Grants.record_woken {first : Nat} {rest : List Nat} {picked : Nat}
    (waiting : place.on (.sem s) = first :: rest)
    (queue : place.on (.sem s) = grants.pending)
    (next : Settled { k.unblock first with current := picked } (place.move first .ready)
      tasksAfter) :
    grants.record s k (.semNotify s) { k.unblock first with current := picked } =
      { pending := rest, granted := grants.granted + 1, notified := grants.notified + 1 } := by
  have left : (place.move first .ready).on (.sem s) = rest := wake_rest waiting (by simp)
  have restWaits : ∀ t, t ∈ rest → ((k.unblock first).task t).state = .waiting := by
    intro t member
    rw [← left] at member
    exact next.state_waiting_sem member
  have firstRuns : ((k.unblock first).task first).state ≠ .waiting := by
    simp [Kernel.unblock, Kernel.unlink, Kernel.linkTail, Kernel.setState]
  have callers : grants.pending = first :: rest := queue.symm.trans waiting
  unfold Grants.record Grants.wake
  rw [Grants.enter, if_neg (by simp), if_pos rfl]
  change Grants.mk ((k.unblock first).suspended grants.pending)
    (grants.granted + ((k.unblock first).awakened grants.pending).length) _ = _
  rw [callers, Kernel.suspended_first firstRuns restWaits,
    Kernel.awakened_first firstRuns restWaits, List.length_singleton]

private theorem Balanced.wait (scheduled : Scheduled idle k place tasks)
    (balanced : Balanced s count k place grants)
    (outcome : WaitOutcome k place s after placeAfter)
    (next : Scheduled idle after placeAfter tasksAfter)
    (below : (grants.record s k (.semWait s) after).Below count) :
    Balanced s count after placeAfter (grants.record s k (.semWait s) after) := by
  have balance := balanced.balance
  have within := balanced.below
  unfold Grants.Below at within
  cases outcome with
  | granted available =>
      have unwaited := balanced.alone available
      have awake : (k.task k.current).state ≠ .waiting := scheduled.current_awake
      have entered : grants.enter s k (.semWait s)
          (k.withSem s (fun sem => { sem with count := int32 (sem.count - 1) })) =
          { grants with granted := grants.granted + 1 } := by
        rw [Grants.enter, if_pos rfl, if_neg (by exact awake)]
      have quiet : Grants.wake { grants with granted := grants.granted + 1 } _ = _ :=
        Grants.wake_quiet next.toSettled balanced.queue
      have fewer : int32 ((k.sem s).count - 1) = (k.sem s).count - 1 := by
        apply int32_of_range <;> omega
      unfold Grants.record at below ⊢
      rw [entered, quiet] at below ⊢
      constructor
      · rw [Kernel.withSem_sem, if_pos rfl, fewer]
        change 0 ≤ (k.sem s).count - 1
        omega
      · intro _
        exact unwaited
      · rw [Kernel.withSem_sem, if_pos rfl, fewer]
        change (k.sem s).count - 1 + ((grants.granted + 1 : Nat) : Int) = _
        rw [Int.natCast_add]
        change _ = count + grants.notified
        omega
      · exact balanced.queue
      · exact below
  | blocked empty picked =>
      have absent : k.current ∉ place.on (.sem s) := scheduled.current_notMem (by simp)
      have entered : grants.enter s k (.semWait s)
          { k.blocked (.sem s) with current := picked } =
          { grants with pending := grants.pending ++ [k.current] } := by
        rw [Grants.enter, if_pos rfl, if_pos]
        simp [Kernel.blocked, Kernel.setState]
      have queue : (place.move k.current (.sem s)).on (.sem s) =
          grants.pending ++ [k.current] := by
        rw [Placement.move_on_target _ _ _ absent, balanced.queue]
      have quiet : Grants.wake { grants with pending := grants.pending ++ [k.current] } _ = _ :=
        Grants.wake_quiet next.toSettled queue
      unfold Grants.record at below ⊢
      rw [entered, quiet] at below ⊢
      constructor
      · exact balanced.nonneg
      · intro positive
        change 0 < (k.sem s).count at positive
        omega
      · exact balance
      · exact queue
      · exact below

private theorem Balanced.notify (balanced : Balanced s count k place grants)
    (outcome : NotifyOutcome k place s after placeAfter)
    (next : Scheduled idle after placeAfter tasksAfter)
    (below : (grants.record s k (.semNotify s) after).Below count) :
    Balanced s count after placeAfter (grants.record s k (.semNotify s) after) := by
  have balance := balanced.balance
  have nonneg := balanced.nonneg
  cases outcome with
  | counted alone =>
      have unwaited : grants.pending = [] := balanced.queue.symm.trans alone
      have entered : grants.enter s k (.semNotify s)
          (k.withSem s (fun sem => { sem with count := int32 (sem.count + 1) })) =
          { grants with notified := grants.notified + 1 } := by
        rw [Grants.enter, if_neg (by simp), if_pos rfl]
      have quiet : Grants.wake { grants with notified := grants.notified + 1 } _ = _ :=
        Grants.wake_quiet next.toSettled balanced.queue
      unfold Grants.record at below ⊢
      rw [entered, quiet] at below ⊢
      have within := below
      unfold Grants.Below at within
      change count + ((grants.notified + 1 : Nat) : Int) - grants.granted < _ at within
      rw [Int.natCast_add] at within
      have more : int32 ((k.sem s).count + 1) = (k.sem s).count + 1 := by
        apply int32_of_range <;> omega
      constructor
      · rw [Kernel.withSem_sem, if_pos rfl, more]
        change 0 ≤ (k.sem s).count + 1
        omega
      · intro _
        exact unwaited
      · rw [Kernel.withSem_sem, if_pos rfl, more]
        change (k.sem s).count + 1 + grants.granted =
          count + ((grants.notified + 1 : Nat) : Int)
        rw [Int.natCast_add]
        omega
      · exact balanced.queue
      · exact below
  | woken first rest waiting picked =>
      have recorded := Grants.record_woken waiting balanced.queue next.toSettled
      rw [recorded] at below ⊢
      have zero : (k.sem s).count = 0 := by
        by_contra different
        have none := balanced.alone (by omega)
        rw [← balanced.queue, waiting] at none
        cases none
      constructor
      · exact nonneg
      · intro positive
        change 0 < (k.sem s).count at positive
        omega
      · change (k.sem s).count + ((grants.granted + 1 : Nat) : Int) =
          count + ((grants.notified + 1 : Nat) : Int)
        rw [Int.natCast_add, Int.natCast_add]
        omega
      · exact wake_rest waiting (by simp)
      · exact below

theorem Balanced.step (scheduled : Scheduled idle k place tasks)
    (balanced : Balanced s count k place grants) {op : Op}
    (outcome : Outcome k place op after placeAfter)
    (next : Scheduled idle after placeAfter tasksAfter)
    (below : (grants.record s k op after).Below count) :
    Balanced s count after placeAfter (grants.record s k op after) := by
  by_cases isWait : op = .semWait s
  · subst op
    exact balanced.wait scheduled outcome next below
  · by_cases isNotify : op = .semNotify s
    · subst op
      exact balanced.notify outcome next below
    · obtain ⟨sem, queue⟩ := Outcome.keeps_sem scheduled outcome isWait isNotify
      have entered : grants.enter s k op after = grants := by
        rw [Grants.enter, if_neg isWait, if_neg isNotify]
      have same : placeAfter.on (.sem s) = grants.pending := queue.trans balanced.queue
      have quiet : grants.wake after = grants := Grants.wake_quiet next.toSettled same
      unfold Grants.record
      rw [entered, quiet]
      constructor
      · rw [sem]
        exact balanced.nonneg
      · rw [sem]
        exact balanced.alone
      · rw [sem]
        exact balanced.balance
      · exact same
      · exact balanced.below

/-! ### Runs -/

theorem semInit_spec (scheduled : Scheduled idle k place tasks)
    (alone : Ring k.links (.head (.sem s)) []) (valid : 0 ≤ count)
    (below : Grants.none.Below count) :
    Scheduled idle (k.semInit s count) place tasks ∧
      Balanced s count (k.semInit s count) place Grants.none := by
  have unwaited : place.on (.sem s) = [] := by
    have same := (scheduled.rep.queues (.sem s)).unique alone
    exact List.map_eq_nil_iff.mp same
  refine ⟨scheduled.reset unwaited rfl rfl rfl rfl, ?_⟩
  have initial : ((k.semInit s count).sem s).count = count := by
    simp [Kernel.semInit, Kernel.withSem]
  constructor
  · rw [initial]
    exact valid
  · intro _
    rfl
  · rw [initial]
    rfl
  · exact unwaited
  · exact below

theorem SemRun.balanced {boot : Boot} (run : SemRun boot s count k grants) :
    ∃ place tasks, Scheduled boot.idle k place tasks ∧ Balanced s count k place grants := by
  induction run with
  | start run alone valid below =>
      obtain ⟨place, tasks, scheduled⟩ := run.scheduled
      exact ⟨place, tasks, semInit_spec scheduled alone valid below⟩
  | step run op permitted stepped below ih =>
      obtain ⟨place, tasks, scheduled, balanced⟩ := ih
      obtain ⟨placeAfter, tasksAfter, next, outcome⟩ :=
        step_outcome scheduled op permitted stepped
      exact ⟨placeAfter, tasksAfter, next, balanced.step scheduled outcome next below⟩

/-- What holds of a semaphore in every state.  `grants.pending` are the suspended callers
of `sem_wait`, the longest-waiting first. -/
structure SemLaw (s : Nat) (count : Int) (k : Kernel) (grants : Grants) : Prop where
  nonneg : 0 ≤ (k.sem s).count
  alone : 0 < (k.sem s).count → Ring k.links (.head (.sem s)) []
  balance : (k.sem s).count + grants.granted = count + grants.notified
  queue : Ring k.links (.head (.sem s)) (grants.pending.map .rq)
  blocked : ∀ t, t ∈ grants.pending → (k.task t).state = .waiting
  once : grants.pending.Nodup

/-- One `sem_notify` lets the longest-waiting caller go and leaves the count. -/
def GrantsFirst (s : Nat) (k : Kernel) (grants : Grants) (after : Kernel) : Prop :=
  ∃ first rest, grants.pending = first :: rest ∧ (after.task first).state = .running ∧
    (∀ t, t ∈ rest → (after.task t).state = .waiting) ∧
    (grants.record s k (.semNotify s) after).pending = rest ∧
    (grants.record s k (.semNotify s) after).granted = grants.granted + 1 ∧
    (after.sem s).count = (k.sem s).count

/-- One `sem_notify` increments the count and lets nobody go. -/
def Counts (s : Nat) (k : Kernel) (grants : Grants) (after : Kernel) : Prop :=
  (after.sem s).count = (k.sem s).count + 1 ∧
    grants.record s k (.semNotify s) after = { grants with notified := grants.notified + 1 }

/-- What holds of a semaphore across one step. -/
structure SemStepLaw (s : Nat) (k : Kernel) (grants : Grants) (op : Op) (after : Kernel) :
    Prop where
  notify : op = .semNotify s →
    (GrantsFirst s k grants after ∧ ¬ Counts s k grants after) ∨
      (Counts s k grants after ∧ ¬ GrantsFirst s k grants after)
  inOrder : ∀ t, t ∈ grants.pending → (after.task t).state ≠ .waiting →
    op = .semNotify s ∧ grants.pending.head? = some t

theorem Balanced.law (scheduled : Scheduled idle k place tasks)
    (balanced : Balanced s count k place grants) : SemLaw s count k grants := by
  have ring := scheduled.rep.queues (.sem s)
  rw [balanced.queue] at ring
  constructor
  · exact balanced.nonneg
  · intro positive
    rw [balanced.alone positive] at ring
    exact ring
  · exact balanced.balance
  · exact ring
  · intro t member
    rw [← balanced.queue] at member
    exact scheduled.state_waiting_sem member
  · rw [← balanced.queue]
    exact place.nodup (.sem s)

private theorem Balanced.notifies (balanced : Balanced s count k place grants)
    (outcome : NotifyOutcome k place s after placeAfter)
    (next : Scheduled idle after placeAfter tasksAfter)
    (below : (grants.record s k (.semNotify s) after).Below count) :
    (GrantsFirst s k grants after ∧ ¬ Counts s k grants after) ∨
      (Counts s k grants after ∧ ¬ GrantsFirst s k grants after) := by
  have balancedAfter := balanced.notify outcome next below
  have balance := balanced.balance
  have balanceAfter := balancedAfter.balance
  cases outcome with
  | counted alone =>
      right
      have unwaited : grants.pending = [] := balanced.queue.symm.trans alone
      have recorded : grants.record s k (.semNotify s)
          (k.withSem s (fun sem => { sem with count := int32 (sem.count + 1) })) =
          { grants with notified := grants.notified + 1 } := by
        unfold Grants.record
        rw [Grants.enter, if_neg (by simp), if_pos rfl]
        exact Grants.wake_quiet next.toSettled balanced.queue
      rw [recorded] at balanceAfter
      change _ + (grants.granted : Int) = count + ((grants.notified + 1 : Nat) : Int)
        at balanceAfter
      rw [Int.natCast_add] at balanceAfter
      refine ⟨⟨?_, recorded⟩, ?_⟩
      · omega
      · rintro ⟨first, rest, waiting, _⟩
        rw [unwaited] at waiting
        cases waiting
  | woken first rest waiting picked =>
      left
      have recorded := Grants.record_woken waiting balanced.queue next.toSettled
      have left : (place.move first .ready).on (.sem s) = rest :=
        wake_rest waiting (by simp)
      refine ⟨⟨first, rest, balanced.queue.symm.trans waiting, ?_, ?_, ?_, ?_, rfl⟩, ?_⟩
      · simp [Kernel.unblock, Kernel.unlink, Kernel.linkTail, Kernel.setState]
      · intro t member
        rw [← left] at member
        exact next.state_waiting_sem member
      · rw [recorded]
      · rw [recorded]
      · rintro ⟨counted, _⟩
        change (k.sem s).count = (k.sem s).count + 1 at counted
        omega

theorem Balanced.stepLaw (scheduled : Scheduled idle k place tasks)
    (balanced : Balanced s count k place grants) {op : Op}
    (outcome : Outcome k place op after placeAfter)
    (next : Scheduled idle after placeAfter tasksAfter)
    (below : (grants.record s k op after).Below count) : SemStepLaw s k grants op after := by
  constructor
  · intro isNotify
    subst op
    exact balanced.notifies outcome next below
  · intro t member awake
    have stays : t ∈ place.on (.sem s) := balanced.queue ▸ member
    by_cases isWait : op = .semWait s
    · subst op
      have waited : WaitOutcome k place s after placeAfter := outcome
      cases waited with
      | granted available => exact False.elim (awake (next.state_waiting_sem stays))
      | blocked empty picked =>
          have queued : t ∈ (place.move k.current (.sem s)).on (.sem s) := by
            rw [Placement.mem_move]
            by_cases isCaller : t = k.current
            · exact Or.inr ⟨rfl, isCaller⟩
            · exact Or.inl ⟨isCaller, stays⟩
          exact False.elim (awake (next.state_waiting_sem queued))
    · by_cases isNotify : op = .semNotify s
      · subst op
        refine ⟨rfl, ?_⟩
        have notified : NotifyOutcome k place s after placeAfter := outcome
        cases notified with
        | counted alone => exact False.elim (awake (next.state_waiting_sem stays))
        | woken first rest waiting picked =>
            rw [← balanced.queue, waiting, List.head?_cons]
            rw [waiting, List.mem_cons] at stays
            rcases stays with isFirst | inRest
            · rw [isFirst]
            · rw [← wake_rest waiting (by simp)] at inRest
              exact False.elim (awake (next.state_waiting_sem inRest))
      · obtain ⟨_, queue⟩ := Outcome.keeps_sem scheduled outcome isWait isNotify
        rw [← queue] at stays
        exact False.elim (awake (next.state_waiting_sem stays))

/-- No notification is lost and none is granted twice. -/
theorem run_semLaw {boot : Boot} (run : SemRun boot s count k grants) :
    SemLaw s count k grants ∧
      ∀ op after, k.Permits boot.idle op → k.step op = some after →
        (grants.record s k op after).Below count → SemStepLaw s k grants op after := by
  obtain ⟨place, tasks, scheduled, balanced⟩ := run.balanced
  refine ⟨balanced.law scheduled, ?_⟩
  intro op after permitted stepped below
  obtain ⟨placeAfter, tasksAfter, next, outcome⟩ :=
    step_outcome scheduled op permitted stepped
  exact balanced.stepLaw scheduled outcome next below

/-- A task is suspended in `sem_wait`, and an interrupt hands the grant over to it. -/
theorem run_semLaw_driver :
    ∃ blocked k,
      SemRun Boot.zeroed 0 0 blocked { pending := [1], granted := 0, notified := 0 } ∧
      blocked.step (.semNotify 0) = some k ∧
      SemLaw 0 0 k { pending := [], granted := 1, notified := 1 } ∧
      ∀ op after, k.Permits Boot.zeroed.idle op → k.step op = some after →
        (Grants.record { pending := [], granted := 1, notified := 1 } 0 k op after).Below 0 →
          SemStepLaw 0 k { pending := [], granted := 1, notified := 1 } op after := by
  have started := Run.start (rfl : Boot.zeroed.start = some _)
  have ticked := Run.step started .taskTick trivial rfl
  have below : ∀ pending granted,
      Grants.Below 0 { pending := pending, granted := granted, notified := granted } := by
    intro pending granted
    unfold Grants.Below
    dsimp only
    omega
  have fresh : SemRun Boot.zeroed 0 0 _ _ :=
    SemRun.start ticked ((Ring.nil_iff _ _).mpr ⟨rfl, rfl⟩) (Int.le_refl 0) (below [] 0)
  have waits : SemRun Boot.zeroed 0 0 _ { pending := [1], granted := 0, notified := 0 } :=
    SemRun.step fresh (.semWait 0) (by exact (by decide : (1 : Nat) ≠ 0)) rfl (below [1] 0)
  have granted : SemRun Boot.zeroed 0 0 _ { pending := [], granted := 1, notified := 1 } :=
    SemRun.step waits (.semNotify 0) trivial rfl (below [] 1)
  exact ⟨_, _, waits, rfl, run_semLaw granted⟩

end MangoOS
