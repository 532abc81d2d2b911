/-
Tasks that take their mutexes in order (kernel/ipc.c): what each of them holds, and whom it waits
for, in any run of the kernel.

The trace of a task lists its own calls on mutexes, on semaphores and of `sys_sleep`, one that
suspends it included.  The timer, the interrupts and the other tasks may run between any two.
-/

import MangoOS.Library.LockOrder
import MangoOS.Kernel.Callers
import MangoOS.Kernel.SleepLaw

namespace MangoOS

open Intrusive

/-- The mutexes in their order, and the one under which a task waits for a semaphore. -/
structure LockPlan where
  rank : Nat → Nat
  guard : Nat → Nat

namespace LockPlan

/-- What an operation does with the locks of the task that calls it. -/
def lockStep (plan : LockPlan) : Op → Option (LockOrder.Step Nat)
  | .mutexLock m => some (.acquire m)
  | .mutexUnlock m => some (.release m)
  | .sysSleep _ => some .pause
  | .semWait s => some (.await (plan.guard s))
  | _ => none

def steps (plan : LockPlan) (trace : List Op) : List (LockOrder.Step Nat) :=
  trace.filterMap plan.lockStep

/-- The trace takes its mutexes in order. -/
def Follows (plan : LockPlan) (trace : List Op) : Prop :=
  ∃ held, LockOrder.holds plan.rank [] (plan.steps trace) = some held

end LockPlan

/-- Runs from boot in which every trace is allowed. -/
inductive LockRun (plan : LockPlan) (boot : Boot) (allowed : List Op → Prop) :
    Kernel → (Nat → List Op) → Prop
  | start {k : Kernel} (booted : boot.start = some k)
      (free : ∀ m, boot.memory.mutex m = { lockTimes := 0, owner := none }) :
      LockRun plan boot allowed k (fun _ => [])
  | aside {k after : Kernel} {traces : Nat → List Op} (run : LockRun plan boot allowed k traces)
      (op : Op) (other : plan.lockStep op = none) (permitted : k.Permits boot.idle op)
      (stepped : k.step op = some after) : LockRun plan boot allowed after traces
  | own {k after : Kernel} {traces : Nat → List Op} (run : LockRun plan boot allowed k traces)
      (op : Op) {step : LockOrder.Step Nat} (isStep : plan.lockStep op = some step)
      (permitted : k.Permits boot.idle op) (stepped : k.step op = some after)
      (admitted : allowed (traces k.current ++ [op])) :
      LockRun plan boot allowed after
        (Function.update traces k.current (traces k.current ++ [op]))

/-- The mutexes and their queues agree with what the tasks hold; a task that waits for a mutex
counts it as its last one. -/
structure Consistent (k : Kernel) (place : Placement Queue Nat) (held : Nat → List Nat) :
    Prop where
  owner : ∀ m t, (k.mutex m).owner = some t → m ∈ held t ∧ t ∉ place.on (.mutex m)
  taken : ∀ m t, m ∈ held t → (k.mutex m).owner = some t ∨ t ∈ place.on (.mutex m)
  waiting : ∀ m t, t ∈ place.on (.mutex m) → (held t).head? = some m
  count : ∀ m, (k.mutex m).lockTimes = if (k.mutex m).owner = none then 0 else 1
  alone : ∀ m, (k.mutex m).owner = none → place.on (.mutex m) = []

structure Ordered (plan : LockPlan) (k : Kernel) (place : Placement Queue Nat)
    (traces : Nat → List Op) (held : Nat → List Nat) : Prop extends Consistent k place held where
  follows : ∀ t, LockOrder.holds plan.rank [] (plan.steps (traces t)) = some (held t)
  asleep : ∀ t, t ∈ place.on .sleep → held t = []
  awaits : ∀ s t, t ∈ place.on (.sem s) → (held t).head? = some (plan.guard s)
  known : ∀ t, held t ≠ [] → place.Placed t

variable {plan : LockPlan} {k after : Kernel} {place placeAfter : Placement Queue Nat}
variable {tasks tasksAfter : List Nat} {idle : Nat} {traces : Nat → List Op}
variable {held : Nat → List Nat}

/-! ### Sleepers -/

/-- The links determine what is on a queue. -/
theorem Settled.on_eq (settled : Settled k place tasks) {other : Placement Queue Nat}
    {otherTasks : List Nat} (again : Settled k other otherTasks) (queue : Queue) :
    place.on queue = other.on queue := by
  have same := (settled.rep.queues queue).unique (again.rep.queues queue)
  exact (List.map_inj_right fun _ _ equal => Node.rq.inj equal).mp same

theorem move_sleepers {t u : Nat} {queue : Queue} (notSleep : queue ≠ .sleep)
    (member : t ∈ (place.move u queue).on .sleep) : t ∈ place.on .sleep := by
  rcases (place.mem_move u t queue .sleep).mp member with old | new
  · exact old.2
  · exact absurd new.1.symm notSleep

/-- Only `sys_sleep` puts a task to sleep, and it is the caller. -/
theorem sleepers_step (scheduled : Scheduled idle k place tasks) {op : Op}
    (permitted : k.Permits idle op) (stepped : k.step op = some after)
    (next : Scheduled idle after placeAfter tasksAfter)
    (outcome : Outcome k place op after placeAfter) {t : Nat}
    (member : t ∈ placeAfter.on .sleep) :
    t ∈ place.on .sleep ∨ ((∃ ms, op = .sysSleep ms) ∧ t = k.current) := by
  cases op with
  | taskInit u entry =>
      cases stepped
      have fresh : u ∉ tasks :=
        fun known => permitted ((scheduled.initialised_iff u).mpr known)
      have unplaced : ¬ place.Placed u := fun placed => fresh ((scheduled.placed u).mp placed)
      have settled := taskInit_settled scheduled.toSettled unplaced entry
      rw [next.toSettled.on_eq settled, Placement.append_on, if_neg (by decide)] at member
      exact Or.inl member
  | setRunning u =>
      cases stepped
      obtain ⟨known, created⟩ := permitted
      obtain ⟨settled, _⟩ :=
        setRunning_spec scheduled ((scheduled.initialised_iff u).mp known) created
      rw [next.toSettled.on_eq settled.toSettled] at member
      exact Or.inl member
  | taskTick =>
      obtain ⟨found, placeFound, foundAs, settled, _, counted⟩ := taskTick_counted scheduled
      cases foundAs.symm.trans stepped
      rw [next.toSettled.on_eq settled.toSettled, counted.sleep] at member
      exact Or.inl (List.mem_of_mem_filter member)
  | taskYield =>
      have moved := requeue_settled scheduled.toSettled scheduled.current
      have settled : Settled after (place.move k.current .ready) tasks := by
        obtain ⟨chosen, _, rfl⟩ := Option.map_eq_some_iff.mp
          (show Option.map _ (Kernel.pickNextTask _) = some after from stepped)
        exact moved.congr rfl rfl rfl
      rw [next.toSettled.on_eq settled] at member
      exact Or.inl (move_sleepers (by decide) member)
  | sysSleep ms =>
      by_cases caller : t = k.current
      · exact Or.inr ⟨⟨ms, rfl⟩, caller⟩
      · obtain ⟨chosen, _, rfl⟩ := Option.map_eq_some_iff.mp
          (show Option.map _ (Kernel.pickNextTask _) = some after from stepped)
        by_cases none : ms / 10 = 0
        · have settled : Settled { k.taskSleep k.current (ms / 10) with current := chosen }
              place tasks := by
            refine scheduled.toSettled.congr ?_ ?_ ?_ <;> rw [Kernel.taskSleep, if_pos none]
          rw [next.toSettled.on_eq settled] at member
          exact Or.inl member
        · have settled : Settled { k.taskSleep k.current (ms / 10) with current := chosen }
              (place.move k.current .sleep) tasks :=
            (taskSleep_settled scheduled none).congr rfl rfl rfl
          rw [next.toSettled.on_eq settled] at member
          rcases (place.mem_move k.current t .sleep .sleep).mp member with old | new
          · exact Or.inl old.2
          · exact absurd new.2 caller
  | mutexLock m =>
      have locked : LockOutcome k place m after placeAfter := outcome
      cases locked with
      | taken free => exact Or.inl member
      | nested taken own => exact Or.inl member
      | blocked taken other chosen => exact Or.inl (move_sleepers (by simp) member)
  | mutexUnlock m =>
      have unlocked : UnlockOutcome k place m after placeAfter := outcome
      cases unlocked with
      | notOwner other => exact Or.inl member
      | nested own more => exact Or.inl member
      | released own last alone => exact Or.inl member
      | handed own last first rest waiting chosen =>
          exact Or.inl (move_sleepers (by decide) member)
  | semWait s =>
      have waited : WaitOutcome k place s after placeAfter := outcome
      cases waited with
      | granted available => exact Or.inl member
      | blocked empty chosen => exact Or.inl (move_sleepers (by simp) member)
  | semNotify s =>
      have notified : NotifyOutcome k place s after placeAfter := outcome
      cases notified with
      | counted alone => exact Or.inl member
      | woken first rest waiting chosen => exact Or.inl (move_sleepers (by decide) member)

/-- Only `sem_wait` puts a task on the queue of a semaphore, and it is the caller. -/
theorem Outcome.awaits {op : Op} (outcome : Outcome k place op after placeAfter) {s t : Nat}
    (member : t ∈ placeAfter.on (.sem s)) :
    t ∈ place.on (.sem s) ∨ (op = .semWait s ∧ t = k.current) := by
  have moved : ∀ {u : Nat} {queue : Queue}, queue ≠ .sem s →
      t ∈ (place.move u queue).on (.sem s) → t ∈ place.on (.sem s) := by
    intro u queue other inside
    rcases (place.mem_move u t queue (.sem s)).mp inside with old | new
    · exact old.2
    · exact absurd new.1.symm other
  cases op with
  | mutexLock m =>
      have locked : LockOutcome k place m after placeAfter := outcome
      cases locked with
      | taken free => exact Or.inl member
      | nested taken own => exact Or.inl member
      | blocked taken other chosen => exact Or.inl (moved (by simp) member)
  | mutexUnlock m =>
      have unlocked : UnlockOutcome k place m after placeAfter := outcome
      cases unlocked with
      | notOwner other => exact Or.inl member
      | nested own more => exact Or.inl member
      | released own last alone => exact Or.inl member
      | handed own last first rest waiting chosen => exact Or.inl (moved (by simp) member)
  | semWait n =>
      have waited : WaitOutcome k place n after placeAfter := outcome
      cases waited with
      | granted available => exact Or.inl member
      | blocked empty chosen =>
          rcases (place.mem_move k.current t (.sem n) (.sem s)).mp member with old | new
          · exact Or.inl old.2
          · cases new.1
            exact Or.inr ⟨rfl, new.2⟩
  | semNotify n =>
      have notified : NotifyOutcome k place n after placeAfter := outcome
      cases notified with
      | counted alone => exact Or.inl member
      | woken first rest waiting chosen => exact Or.inl (moved (by simp) member)
  | _ =>
      have calm : Calm k place after placeAfter := outcome
      rw [calm.waiting _ (by simp) (by simp)] at member
      exact Or.inl member

/-! ### The mutexes -/

theorem Consistent.congr (consistent : Consistent k place held)
    (mutex : ∀ m, after.mutex m = k.mutex m)
    (queues : ∀ m, placeAfter.on (.mutex m) = place.on (.mutex m)) :
    Consistent after placeAfter held where
  owner := fun m t => by
    rw [mutex, queues]
    exact consistent.owner m t
  taken := fun m t => by
    rw [mutex, queues]
    exact consistent.taken m t
  waiting := fun m t => by
    rw [queues]
    exact consistent.waiting m t
  count := fun m => by
    rw [mutex]
    exact consistent.count m
  alone := fun m => by
    rw [mutex, queues]
    exact consistent.alone m

theorem Consistent.free_iff (consistent : Consistent k place held) (m : Nat) :
    (k.mutex m).lockTimes = 0 ↔ (k.mutex m).owner = none := by
  rw [consistent.count m]
  by_cases none : (k.mutex m).owner = none
  · rw [if_pos none]
    exact iff_of_true rfl none
  · rw [if_neg none]
    exact iff_of_false (by decide) none

section Mutexes

variable {m : Nat} {rest : List Nat}

/-- The running task stands on no other queue than the ready queue. -/
theorem Scheduled.current_off (scheduled : Scheduled idle k place tasks) (n : Nat) :
    k.current ∉ place.on (.mutex n) := scheduled.current_notMem (by simp)

theorem Consistent.lock (consistent : Consistent k place held)
    (scheduled : Scheduled idle k place tasks) (new : m ∉ held k.current)
    (outcome : LockOutcome k place m after placeAfter) :
    Consistent after placeAfter (Function.update held k.current (m :: held k.current)) := by
  have notOwner : (k.mutex m).owner ≠ some k.current :=
    fun own => new (consistent.owner m _ own).1
  have off := scheduled.current_off
  have stays : ∀ n t, n ∈ held t →
      n ∈ Function.update held k.current (m :: held k.current) t := by
    intro n t member
    by_cases caller : t = k.current
    · subst caller
      rw [Function.update_self]
      exact List.mem_cons_of_mem _ member
    · rw [Function.update_of_ne caller]
      exact member
  have queued : ∀ n t, t ∈ place.on (.mutex n) →
      (Function.update held k.current (m :: held k.current) t).head? = some n := by
    intro n t member
    have other : t ≠ k.current := fun caller => off n (caller ▸ member)
    rw [Function.update_of_ne other]
    exact consistent.waiting n t member
  have taken : ∀ n t, n ∈ Function.update held k.current (m :: held k.current) t →
      (n = m ∧ t = k.current) ∨ (k.mutex n).owner = some t ∨ t ∈ place.on (.mutex n) := by
    intro n t member
    by_cases caller : t = k.current
    · subst caller
      rw [Function.update_self] at member
      rcases List.mem_cons.mp member with isNew | old
      · exact Or.inl ⟨isNew, rfl⟩
      · exact Or.inr (consistent.taken n _ old)
    · rw [Function.update_of_ne caller] at member
      exact Or.inr (consistent.taken n t member)
  cases outcome with
  | taken free =>
      have none := (consistent.free_iff m).mp free
      have owner : ∀ n, n ≠ m → ((k.withMutex m fun mutex =>
          { lockTimes := int32 (mutex.lockTimes + 1), owner := some k.current }).mutex n) =
          k.mutex n := fun n other => by simp [other]
      have mine : ((k.withMutex m fun mutex =>
          { lockTimes := int32 (mutex.lockTimes + 1), owner := some k.current }).mutex m) =
          { lockTimes := 1, owner := some k.current } := by
        simp [free, int32_of_range]
      refine ⟨?_, ?_, queued, ?_, ?_⟩
      · intro n t own
        by_cases here : n = m
        · subst here
          rw [mine] at own
          cases own
          rw [consistent.alone n none, Function.update_self]
          exact ⟨List.mem_cons_self, List.not_mem_nil⟩
        · rw [owner n here] at own
          exact ⟨stays n t (consistent.owner n t own).1, (consistent.owner n t own).2⟩
      · intro n t member
        rcases taken n t member with ⟨rfl, rfl⟩ | own | waits
        · rw [mine]
          exact Or.inl rfl
        · by_cases here : n = m
          · subst here
            rw [none] at own
            cases own
          · rw [owner n here]
            exact Or.inl own
        · exact Or.inr waits
      · intro n
        by_cases here : n = m
        · rw [here, mine]
          rfl
        · rw [owner n here]
          exact consistent.count n
      · intro n free'
        by_cases here : n = m
        · rw [here, mine] at free'
          cases free'
        · rw [owner n here] at free'
          exact consistent.alone n free'
  | nested locked own => exact absurd own notOwner
  | blocked locked other chosen =>
      refine ⟨?_, ?_, ?_, consistent.count, ?_⟩
      · intro n t own
        have old := consistent.owner n t own
        refine ⟨stays n t old.1, fun waits => ?_⟩
        rcases (place.mem_move _ t (.mutex m) (.mutex n)).mp waits with before | moved
        · exact old.2 before.2
        · cases moved.1
          exact notOwner (moved.2 ▸ own)
      · intro n t member
        rcases taken n t member with ⟨rfl, rfl⟩ | own | waits
        · exact Or.inr ((place.mem_move _ _ _ _).mpr (Or.inr ⟨rfl, rfl⟩))
        · exact Or.inl own
        · have notCaller : t ≠ k.current := fun caller => off n (caller ▸ waits)
          exact Or.inr ((place.mem_move _ _ _ _).mpr (Or.inl ⟨notCaller, waits⟩))
      · intro n t waits
        rcases (place.mem_move _ t (.mutex m) (.mutex n)).mp waits with before | moved
        · exact queued n t before.2
        · cases moved.1
          rw [moved.2, Function.update_self]
          rfl
      · intro n none
        have different : n ≠ m := by
          rintro rfl
          exact locked ((consistent.free_iff n).mpr none)
        rw [place.move_on_other _ _ _ (by simpa using different) (off n)]
        exact consistent.alone n none

theorem Consistent.unlock (consistent : Consistent k place held)
    (scheduled : Scheduled idle k place tasks) (last : held k.current = m :: rest)
    (once : m ∉ rest) (outcome : UnlockOutcome k place m after placeAfter) :
    Consistent after placeAfter (Function.update held k.current rest) := by
  have off := scheduled.current_off
  have own : (k.mutex m).owner = some k.current :=
    (consistent.taken m _ (last ▸ List.mem_cons_self)).resolve_right (off m)
  have single : (k.mutex m).lockTimes = 1 := by
    rw [consistent.count m, own]
    rfl
  have zero : int32 ((k.mutex m).lockTimes - 1) = 0 := by
    rw [single]
    exact int32_of_range (by decide) (by decide)
  have kept : ∀ n t, n ≠ m → n ∈ held t → n ∈ Function.update held k.current rest t := by
    intro n t other member
    by_cases caller : t = k.current
    · subst caller
      rw [last] at member
      rw [Function.update_self]
      exact (List.mem_cons.mp member).resolve_left other
    · rw [Function.update_of_ne caller]
      exact member
  have before : ∀ n t, n ∈ Function.update held k.current rest t →
      n ∈ held t ∧ (n = m → t ≠ k.current) := by
    intro n t member
    by_cases caller : t = k.current
    · subst caller
      rw [Function.update_self] at member
      exact ⟨last ▸ List.mem_cons_of_mem _ member, fun same => absurd (same ▸ member) once⟩
    · rw [Function.update_of_ne caller] at member
      exact ⟨member, fun _ => caller⟩
  have queued : ∀ n t, t ∈ place.on (.mutex n) →
      (Function.update held k.current rest t).head? = some n := by
    intro n t member
    have other : t ≠ k.current := fun caller => off n (caller ▸ member)
    rw [Function.update_of_ne other]
    exact consistent.waiting n t member
  cases outcome with
  | notOwner other => exact absurd own other
  | nested mine more => exact absurd zero more
  | released mine isLast empty =>
      refine ⟨?_, ?_, queued, ?_, ?_⟩
      · intro n t owner
        by_cases here : n = m
        · subst here
          simp at owner
        · simp only [Function.update_of_ne here] at owner
          exact ⟨kept n t here (consistent.owner n t owner).1, (consistent.owner n t owner).2⟩
      · intro n t member
        obtain ⟨old, notMine⟩ := before n t member
        rcases consistent.taken n t old with owner | waits
        · have here : n ≠ m := by
            rintro rfl
            rw [own] at owner
            exact notMine rfl (Option.some.inj owner).symm
          simp only [Function.update_of_ne here]
          exact Or.inl owner
        · exact Or.inr waits
      · intro n
        by_cases here : n = m
        · subst here
          simp
        · simp only [Function.update_of_ne here]
          exact consistent.count n
      · intro n none
        by_cases here : n = m
        · rw [here]
          exact empty
        · simp only [Function.update_of_ne here] at none
          exact consistent.alone n none
  | handed mine isLast first others waiting chosen =>
      have firstWaits : first ∈ place.on (.mutex m) := by
        rw [waiting]
        exact List.mem_cons_self
      have notCaller : first ≠ k.current := fun caller => off m (caller ▸ firstWaits)
      have firstHolds : m ∈ held first :=
        List.mem_of_mem_head? (consistent.waiting m first firstWaits)
      refine ⟨?_, ?_, ?_, ?_, ?_⟩
      · intro n t owner
        by_cases here : n = m
        · subst here
          simp only [Function.update_self] at owner
          cases owner
          refine ⟨?_, fun waits => ?_⟩
          · rw [Function.update_of_ne notCaller]
            exact firstHolds
          · rcases (place.mem_move first first .ready (.mutex n)).mp waits with old | new
            · exact old.1 rfl
            · cases new.1
        · simp only [Function.update_of_ne here] at owner
          have old := consistent.owner n t owner
          refine ⟨kept n t here old.1, fun waits => ?_⟩
          rcases (place.mem_move first t .ready (.mutex n)).mp waits with stays | new
          · exact old.2 stays.2
          · cases new.1
      · intro n t member
        obtain ⟨old, notMine⟩ := before n t member
        rcases consistent.taken n t old with owner | waits
        · have here : n ≠ m := by
            rintro rfl
            rw [own] at owner
            exact notMine rfl (Option.some.inj owner).symm
          simp only [Function.update_of_ne here]
          exact Or.inl owner
        · by_cases isFirst : t = first
          · subst isFirst
            cases place.unique _ _ t waits firstWaits
            simp
          · exact Or.inr ((place.mem_move _ _ _ _).mpr (Or.inl ⟨isFirst, waits⟩))
      · intro n t waits
        rcases (place.mem_move first t .ready (.mutex n)).mp waits with old | new
        · exact queued n t old.2
        · cases new.1
      · intro n
        by_cases here : n = m
        · subst here
          simp
        · simp only [Function.update_of_ne here]
          exact consistent.count n
      · intro n none
        by_cases here : n = m
        · subst here
          simp at none
        · simp only [Function.update_of_ne here] at none
          rw [place.move_on, if_neg (by simp), consistent.alone n none]
          rfl

end Mutexes

/-! ### Steps -/

theorem LockPlan.steps_append (plan : LockPlan) (trace : List Op) {op : Op}
    {step : LockOrder.Step Nat} (isStep : plan.lockStep op = some step) :
    plan.steps (trace ++ [op]) = plan.steps trace ++ [step] := by
  unfold steps
  rw [List.filterMap_append, List.filterMap_cons_some isStep]
  rfl

/-- What the new call does to the locks of its task. -/
theorem Ordered.next_hold (ordered : Ordered plan k place traces held) {t : Nat} {op : Op}
    {step : LockOrder.Step Nat} (isStep : plan.lockStep op = some step)
    (admitted : plan.Follows (traces t ++ [op])) :
    ∃ now, LockOrder.hold plan.rank (held t) step = some now ∧
      LockOrder.holds plan.rank [] (plan.steps (traces t ++ [op])) = some now := by
  obtain ⟨now, follows⟩ := admitted
  have whole := follows
  rw [plan.steps_append _ isStep, LockOrder.holds_append, ordered.follows t,
    Option.bind_some, LockOrder.holds_cons_eq] at follows
  obtain ⟨between, stepped, done⟩ := Option.bind_eq_some_iff.mp follows
  cases done
  exact ⟨now, stepped, whole⟩

theorem Ordered.descending (ordered : Ordered plan k place traces held) (t : Nat) :
    LockOrder.Descending plan.rank (held t) :=
  LockOrder.Descending.holds List.Pairwise.nil (ordered.follows t)

/-- The mutexes after a call of the running task. -/
theorem Ordered.consistent_own (ordered : Ordered plan k place traces held)
    (scheduled : Scheduled idle k place tasks) {op : Op} {step : LockOrder.Step Nat}
    {now : List Nat} (isStep : plan.lockStep op = some step)
    (stepped : LockOrder.hold plan.rank (held k.current) step = some now)
    (outcome : Outcome k place op after placeAfter) :
    Consistent after placeAfter (Function.update held k.current now) := by
  have same : now = held k.current → (∀ m, op ≠ .mutexLock m ∧ op ≠ .mutexUnlock m) →
      Consistent after placeAfter (Function.update held k.current now) := by
    intro isSame other
    rw [isSame, Function.update_eq_self]
    exact ordered.toConsistent.congr
      (fun m => (outcome.keeps_mutex scheduled (other m).1 (other m).2).1)
      (fun m => (outcome.keeps_mutex scheduled (other m).1 (other m).2).2)
  cases op with
  | mutexLock m =>
      cases isStep
      obtain ⟨rfl, above⟩ := LockOrder.hold_acquire stepped
      exact ordered.toConsistent.lock scheduled
        (fun member => Nat.lt_irrefl _ (above m member)) outcome
  | mutexUnlock m =>
      cases isStep
      have last := LockOrder.hold_release stepped
      have descending := ordered.descending k.current
      rw [last] at descending
      exact ordered.toConsistent.unlock scheduled last
        (fun member => Nat.lt_irrefl _ ((List.pairwise_cons.mp descending).1 m member)) outcome
  | sysSleep ms =>
      cases isStep
      obtain ⟨none, after⟩ := LockOrder.hold_pause stepped
      exact same (after.trans none.symm) (fun m => ⟨by simp, by simp⟩)
  | semWait s =>
      cases isStep
      exact same (LockOrder.hold_await stepped).1 (fun m => ⟨by simp, by simp⟩)
  | taskInit t entry => cases isStep
  | setRunning t => cases isStep
  | taskTick => cases isStep
  | taskYield => cases isStep
  | semNotify s => cases isStep

theorem Ordered.own (ordered : Ordered plan k place traces held)
    (scheduled : Scheduled idle k place tasks) {op : Op} {step : LockOrder.Step Nat}
    (isStep : plan.lockStep op = some step) (permitted : k.Permits idle op)
    (stepped : k.step op = some after)
    (admitted : plan.Follows (traces k.current ++ [op]))
    (next : Scheduled idle after placeAfter tasksAfter)
    (outcome : Outcome k place op after placeAfter) (known : tasks ⊆ tasksAfter) :
    ∃ heldAfter, Ordered plan after placeAfter
      (Function.update traces k.current (traces k.current ++ [op])) heldAfter := by
  obtain ⟨now, holds, follows⟩ := ordered.next_hold isStep admitted
  refine ⟨Function.update held k.current now,
    ordered.consistent_own scheduled isStep holds outcome, ?_, ?_, ?_, ?_⟩
  · intro t
    by_cases caller : t = k.current
    · subst caller
      rw [Function.update_self, Function.update_self]
      exact follows
    · rw [Function.update_of_ne caller, Function.update_of_ne caller]
      exact ordered.follows t
  · intro t member
    rcases sleepers_step scheduled permitted stepped next outcome member with old | ⟨⟨ms, rfl⟩, rfl⟩
    · have other : t ≠ k.current := sleeper_ne old scheduled.current (by decide)
      rw [Function.update_of_ne other]
      exact ordered.asleep t old
    · cases isStep
      rw [Function.update_self]
      exact (LockOrder.hold_pause holds).2
  · intro s t member
    rcases outcome.awaits member with old | ⟨rfl, rfl⟩
    · have other : t ≠ k.current := by
        rintro rfl
        exact scheduled.current_notMem (by simp) old
      rw [Function.update_of_ne other]
      exact ordered.awaits s t old
    · cases isStep
      rw [Function.update_self, (LockOrder.hold_await holds).1]
      exact (LockOrder.hold_await holds).2
  · intro t some
    rw [next.placed]
    apply known
    rw [← scheduled.placed]
    by_cases caller : t = k.current
    · exact caller ▸ ⟨.ready, scheduled.current⟩
    · rw [Function.update_of_ne caller] at some
      exact ordered.known t some

theorem Ordered.aside (ordered : Ordered plan k place traces held)
    (scheduled : Scheduled idle k place tasks) {op : Op} (other : plan.lockStep op = none)
    (permitted : k.Permits idle op) (stepped : k.step op = some after)
    (next : Scheduled idle after placeAfter tasksAfter)
    (outcome : Outcome k place op after placeAfter) (known : tasks ⊆ tasksAfter) :
    Ordered plan after placeAfter traces held := by
  have keeps : ∀ m, after.mutex m = k.mutex m ∧
      placeAfter.on (.mutex m) = place.on (.mutex m) := by
    intro m
    refine outcome.keeps_mutex scheduled ?_ ?_
    · rintro rfl
      cases other
    · rintro rfl
      cases other
  refine ⟨ordered.toConsistent.congr (fun m => (keeps m).1) (fun m => (keeps m).2),
    ordered.follows, ?_, ?_, ?_⟩
  · intro t member
    rcases sleepers_step scheduled permitted stepped next outcome member with old | ⟨⟨ms, rfl⟩, _⟩
    · exact ordered.asleep t old
    · cases other
  · intro s t member
    rcases outcome.awaits member with old | ⟨rfl, _⟩
    · exact ordered.awaits s t old
    · cases other
  · intro t some
    rw [next.placed]
    apply known
    rw [← scheduled.placed]
    exact ordered.known t some

/-! ### Who waits for whom -/

def WaitsFor (place : Queue → List Nat) (t m : Nat) : Prop := t ∈ place (.mutex m)

def Kernel.Owns (k : Kernel) (t m : Nat) : Prop := (k.mutex m).owner = some t

/-- The task waits for a mutex that the other one owns. -/
def Kernel.Behind (k : Kernel) (place : Queue → List Nat) : Nat → Nat → Prop :=
  LockOrder.Behind (WaitsFor place) k.Owns

theorem Consistent.owned (consistent : Consistent k place held) {t m : Nat}
    (waits : WaitsFor place.on t m) : ∃ o, k.Owns o m := by
  cases owner : (k.mutex m).owner with
  | none =>
      unfold WaitsFor at waits
      rw [consistent.alone m owner] at waits
      cases waits
  | some o => exact ⟨o, owner⟩

theorem Ordered.rank_lt (ordered : Ordered plan k place traces held) {o l m : Nat}
    (owns : k.Owns o l) (waits : WaitsFor place.on o m) : plan.rank l < plan.rank m := by
  obtain ⟨holds, off⟩ := ordered.owner l o owns
  have last := ordered.waiting m o waits
  have descending := ordered.descending o
  cases isHeld : held o with
  | nil =>
      rw [isHeld] at last
      cases last
  | cons first rest =>
      rw [isHeld] at last holds descending
      cases last
      rcases List.mem_cons.mp holds with same | older
      · exact absurd (same ▸ waits) off
      · exact (List.pairwise_cons.mp descending).1 l older

/-- The owner at the end of a chain runs or waits for a semaphore. -/
theorem Ordered.last_owner (ordered : Ordered plan k place traces held) {o l : Nat}
    (owns : k.Owns o l) (free : ∀ m, ¬ WaitsFor place.on o m) :
    o ∈ place.on .ready ∨ ∃ s, o ∈ place.on (.sem s) ∧ k.Owns o (plan.guard s) := by
  have holds := (ordered.owner l o owns).1
  obtain ⟨queue, member⟩ := ordered.known o (List.ne_nil_of_mem holds)
  cases queue with
  | ready => exact Or.inl member
  | sleep =>
      rw [ordered.asleep o member] at holds
      cases holds
  | mutex m => exact absurd member (free m)
  | sem s =>
      have last := List.mem_of_mem_head? (ordered.awaits s o member)
      exact Or.inr ⟨s, member, (ordered.taken _ o last).resolve_right (free _)⟩

theorem Ordered.no_circle (ordered : Ordered plan k place traces held) (t : Nat) :
    ¬ Relation.TransGen (k.Behind place.on) t t := by
  have climbs : ∀ o l m, k.Owns o l → WaitsFor place.on o m → plan.rank l < plan.rank m :=
    fun o l m => ordered.rank_lt
  have single : ∀ t l m, WaitsFor place.on t l → WaitsFor place.on t m → l = m :=
    fun t l m first second => Queue.mutex.inj (place.unique _ _ t first second)
  exact LockOrder.no_circle climbs single t

theorem Ordered.chain_ends (ordered : Ordered plan k place traces held) {bound : Nat}
    (bounded : ∀ m, plan.rank m ≤ bound) {t m : Nat} (waits : WaitsFor place.on t m) :
    ∃ o, Relation.TransGen (k.Behind place.on) t o ∧
      (o ∈ place.on .ready ∨ ∃ s, o ∈ place.on (.sem s) ∧ k.Owns o (plan.guard s)) := by
  have owned : ∀ t m, WaitsFor place.on t m → ∃ o, k.Owns o m :=
    fun t m => ordered.toConsistent.owned
  have climbs : ∀ o l m, k.Owns o l → WaitsFor place.on o m → plan.rank l < plan.rank m :=
    fun o l m => ordered.rank_lt
  obtain ⟨o, l, chain, owns, free⟩ := LockOrder.exists_last owned climbs bounded waits
  exact ⟨o, chain, ordered.last_owner owns free⟩

/-! ### Runs -/

/-- `kernel_init` leaves the mutexes as the drivers have initialised them. -/
theorem Boot.ordered (boot : Boot) (plan : LockPlan) {k : Kernel}
    (booted : boot.start = some k)
    (free : ∀ m, boot.memory.mutex m = { lockTimes := 0, owner := none }) :
    ∃ place tasks, Scheduled boot.idle k place tasks ∧
      Ordered plan k place (fun _ => []) (fun _ => []) := by
  obtain ⟨found, place, foundAs, scheduled, calm⟩ := boot.start_spec
  cases booted.symm.trans foundAs
  have mutex : ∀ m, k.mutex m = { lockTimes := 0, owner := none } :=
    fun m => (congrFun calm.mutex m).trans (free m)
  have empty : ∀ queue, queue ≠ .ready → queue ≠ .sleep → place.on queue = [] :=
    fun queue notReady notSleep => calm.waiting queue notReady notSleep
  refine ⟨place, _, scheduled, ⟨?_, ?_, ?_, ?_, ?_⟩, fun _ => rfl, fun _ _ => rfl, ?_, ?_⟩
  · intro m t owner
    rw [mutex m] at owner
    cases owner
  · intro m t member
    cases member
  · intro m t member
    rw [empty _ (by simp) (by simp)] at member
    cases member
  · intro m
    rw [mutex m]
    rfl
  · intro m _
    exact empty _ (by simp) (by simp)
  · intro s t member
    rw [empty _ (by simp) (by simp)] at member
    cases member
  · exact fun t some => absurd rfl some

variable {boot : Boot} {allowed : List Op → Prop}

theorem LockRun.ordered (run : LockRun plan boot allowed k traces)
    (inOrder : ∀ trace, allowed trace → plan.Follows trace) :
    ∃ place tasks held, Scheduled boot.idle k place tasks ∧
      Ordered plan k place traces held := by
  induction run with
  | start booted free =>
      obtain ⟨place, tasks, scheduled, ordered⟩ := boot.ordered plan booted free
      exact ⟨place, tasks, _, scheduled, ordered⟩
  | aside run op other permitted stepped ih =>
      obtain ⟨place, tasks, held, scheduled, ordered⟩ := ih
      obtain ⟨found, placeAfter, tasksAfter, foundAs, next, outcome, known⟩ :=
        step_spec scheduled op permitted
      cases foundAs.symm.trans stepped
      exact ⟨placeAfter, tasksAfter, held, next,
        ordered.aside scheduled other permitted stepped next outcome known⟩
  | own run op isStep permitted stepped admitted ih =>
      obtain ⟨place, tasks, held, scheduled, ordered⟩ := ih
      obtain ⟨found, placeAfter, tasksAfter, foundAs, next, outcome, known⟩ :=
        step_spec scheduled op permitted
      cases foundAs.symm.trans stepped
      obtain ⟨heldAfter, after⟩ := ordered.own scheduled isStep permitted stepped
        (inOrder _ admitted) next outcome known
      exact ⟨placeAfter, tasksAfter, heldAfter, next, after⟩

end MangoOS
