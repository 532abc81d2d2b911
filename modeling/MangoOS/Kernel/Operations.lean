/-
One lemma for each kernel operation: it succeeds, the scheduling invariant holds
again, and the lemma says what happened to the waiting queues.
-/

import MangoOS.Kernel.Schedule

namespace MangoOS

open Intrusive

/-- A step that touches no mutex, no semaphore and none of their queues. -/
structure Calm (k : Kernel) (place : Placement Queue Nat) (after : Kernel)
    (placeAfter : Placement Queue Nat) : Prop where
  mutex : after.mutex = k.mutex
  sem : after.sem = k.sem
  waiting : ∀ queue, queue ≠ .ready → queue ≠ .sleep →
    placeAfter.on queue = place.on queue

variable {k after final : Kernel} {place placeAfter placeFinal : Placement Queue Nat}
variable {tasks : List Nat} {idle : Nat}

theorem Calm.refl (k : Kernel) (place : Placement Queue Nat) : Calm k place k place :=
  ⟨rfl, rfl, fun _ _ _ => rfl⟩

theorem Calm.trans (first : Calm k place after placeAfter)
    (second : Calm after placeAfter final placeFinal) :
    Calm k place final placeFinal where
  mutex := second.mutex.trans first.mutex
  sem := second.sem.trans first.sem
  waiting := fun queue notReady notSleep =>
    (second.waiting queue notReady notSleep).trans (first.waiting queue notReady notSleep)

/-- Moving a ready or sleeping task to the ready or sleep queue is calm. -/
theorem Calm.move {t : Nat} {source queue : Queue} (member : t ∈ place.on source)
    (fromAwake : source = .ready ∨ source = .sleep)
    (toAwake : queue = .ready ∨ queue = .sleep)
    (mutex : after.mutex = k.mutex) (sem : after.sem = k.sem) :
    Calm k place after (place.move t queue) where
  mutex := mutex
  sem := sem
  waiting := by
    intro other notReady notSleep
    apply place.move_on_other
    · rcases toAwake with isReady | isSleep
      · exact isReady ▸ notReady
      · exact isSleep ▸ notSleep
    · intro inOther
      have same := place.unique other source t inOther member
      rcases fromAwake with isReady | isSleep
      · exact notReady (same.trans isReady)
      · exact notSleep (same.trans isSleep)

/-! ### The timer -/

private theorem next_sleeper (settled : Settled k place tasks) {t : Nat}
    {kept rest : List Nat} (split : place.on .sleep = kept ++ t :: rest) :
    k.links.next (.rq t) = (rest.map Node.rq).headD (.head .sleep) := by
  have ring := settled.rep.queues .sleep
  rw [split, List.map_append, List.map_cons] at ring
  exact ring.next_of_split

theorem erase_middle {t : Nat} {kept rest : List Nat}
    (distinct : (kept ++ t :: rest).Nodup) : (kept ++ t :: rest).erase t = kept ++ rest := by
  have absent : t ∉ kept := by
    intro inKept
    exact (List.nodup_append.mp distinct).2.2 t inKept t (List.mem_cons_self ..) rfl
  rw [List.erase_append_right _ absent, List.erase_cons_head]

/-- The next tick ends the task's sleep. -/
def Kernel.due (k : Kernel) (t : Nat) : Bool := (k.task t).sleepTicks - 1 = 0

/-- A sleeper that was counted once. -/
def Task.counted (task : Task) : Task :=
  { task with
    sleepTicks := task.sleepTicks - 1
    state := if task.sleepTicks - 1 = 0 then .running else task.state }

theorem filter_due_congr {rest : List Nat} (same : ∀ u, u ∈ rest → after.task u = k.task u) :
    rest.filter after.due = rest.filter k.due ∧
      rest.filter (fun u => !after.due u) = rest.filter (fun u => !k.due u) := by
  have due : ∀ u, u ∈ rest → after.due u = k.due u := by
    intro u member
    unfold Kernel.due
    rw [same u member]
  constructor
  · exact List.filter_congr due
  · exact List.filter_congr fun u member => by rw [due u member]

/-- The walk over the sleep queue ends, whichever sleepers it wakes.  `kept` are
the sleepers already passed over, `rest` those still ahead. -/
theorem tickSleepers_spec (rest kept : List Nat) (fuel : Nat)
    (settled : Settled k place tasks) (split : place.on .sleep = kept ++ rest)
    (enough : rest.length < fuel) :
    ∃ after placeAfter,
      Kernel.tickSleepers fuel k ((rest.map Node.rq).headD (.head .sleep)) = some after ∧
      Settled after placeAfter tasks ∧ Calm k place after placeAfter ∧
      after.current = k.current ∧
      (∀ u, after.task u = if u ∈ rest then (k.task u).counted else k.task u) ∧
      placeAfter.on .ready = place.on .ready ++ rest.filter k.due ∧
      placeAfter.on .sleep = kept ++ rest.filter (fun t => !k.due t) := by
  induction rest generalizing k place kept fuel with
  | nil =>
      cases fuel with
      | zero => cases enough
      | succ fuel =>
          refine ⟨k, place, ?_, settled, Calm.refl k place, rfl, ?_, ?_, ?_⟩
          · simp [Kernel.tickSleepers]
          · exact fun u => (if_neg List.not_mem_nil).symm
          · rw [List.filter_nil, List.append_nil]
          · rw [split, List.filter_nil]
  | cons t rest ih =>
      cases fuel with
      | zero => cases enough
      | succ fuel =>
          have shorter : rest.length < fuel := by
            rw [List.length_cons] at enough
            omega
          have member : t ∈ place.on .sleep := by
            rw [split]
            exact List.mem_append_right kept (List.mem_cons_self ..)
          have next := next_sleeper settled split
          have notAgain : t ∉ rest := by
            have distinct := place.nodup .sleep
            rw [split] at distinct
            exact (List.nodup_cons.mp (List.nodup_append.mp distinct).2.1).1
          have different : ∀ u, u ∈ rest → u ≠ t := fun u inRest same => notAgain (same ▸ inRest)
          have stays : ∀ u, u ≠ t → (u ∈ rest ↔ u ∈ t :: rest) := by
            intro u isT
            rw [List.mem_cons, or_iff_right isT]
          by_cases woken : (k.task t).sleepTicks - 1 = 0
          · let woke := (k.withTask t (fun task =>
              { task with sleepTicks := task.sleepTicks - 1 })).taskWakeup t
            have due : k.due t = true := decide_eq_true woken
            have moved : Settled woke (place.move t .ready) tasks := by
              apply settled.move member
              · rfl
              · rfl
              · intro u different
                simp [woke, Kernel.taskWakeup, Kernel.unlink, Kernel.linkTail,
                  Kernel.setState, different]
              · simp [woke, Kernel.taskWakeup, Kernel.unlink, Kernel.linkTail,
                  Kernel.setState, TaskState.fits]
              · intro isSleep
                cases isSleep
            have sleepers : (place.move t .ready).on .sleep = kept ++ rest := by
              have distinct := place.nodup .sleep
              rw [split] at distinct
              rw [Placement.move_on, if_neg (by decide), split, erase_middle distinct]
            obtain ⟨last, placeLast, walked, settledLast, calm, current, counted, ready, asleep⟩ :=
              ih kept fuel moved sleepers shorter
            have sameTask : ∀ u, u ≠ t → woke.task u = k.task u := by
              intro u different
              simp [woke, Kernel.taskWakeup, Kernel.unlink, Kernel.linkTail,
                Kernel.setState, different]
            have isCounted : woke.task t = (k.task t).counted := by
              simp [woke, Kernel.taskWakeup, Kernel.unlink, Kernel.linkTail,
                Kernel.setState, Task.counted, woken]
            have sameDue := filter_due_congr (fun u inRest => sameTask u (different u inRest))
            have notReady : t ∉ place.on .ready := by
              intro inReady
              cases place.unique .ready .sleep t inReady member
            have calmHere : Calm k place woke (place.move t .ready) :=
              Calm.move member (Or.inr rfl) (Or.inl rfl) rfl rfl
            refine ⟨last, placeLast, ?_, settledLast, calmHere.trans calm, current, ?_, ?_, ?_⟩
            · rw [← walked]
              simp [Kernel.tickSleepers, Kernel.queueData, next, woken, woke]
            · intro u
              rw [counted u]
              by_cases isT : u = t
              · rw [isT, if_neg notAgain, if_pos (List.mem_cons_self ..), isCounted]
              · rw [sameTask u isT, if_congr (stays u isT) rfl rfl]
            · rw [ready, sameDue.1, place.move_on_target t .ready notReady, List.append_assoc,
                List.singleton_append, List.filter_cons_of_pos due]
            · rw [asleep, sameDue.2, List.filter_cons_of_neg (by rw [due]; decide)]
          · let ticked := k.withTask t (fun task =>
              { task with sleepTicks := task.sleepTicks - 1 })
            have due : k.due t = false := decide_eq_false woken
            have same : Settled ticked place tasks := by
              apply settled.retask
              · rfl
              · rfl
              · intro queue u inQueue
                have fits := settled.fits queue u inQueue
                by_cases isT : u = t
                · subst u
                  simpa [ticked] using fits
                · simpa [ticked, isT] using fits
              · intro u inSleep
                by_cases isT : u = t
                · subst u
                  simpa [ticked] using woken
                · simpa [ticked, isT] using settled.awake u inSleep
            have splitNext : place.on .sleep = (kept ++ [t]) ++ rest := by
              rw [split, List.append_assoc, List.singleton_append]
            obtain ⟨last, placeLast, walked, settledLast, calm, current, counted, ready, asleep⟩ :=
              ih (kept ++ [t]) fuel same splitNext shorter
            have sameTask : ∀ u, u ≠ t → ticked.task u = k.task u := by
              intro u different
              simp [ticked, different]
            have isCounted : ticked.task t = (k.task t).counted := by
              simp [ticked, Task.counted, woken]
            have sameDue := filter_due_congr (fun u inRest => sameTask u (different u inRest))
            refine ⟨last, placeLast, ?_, settledLast,
              ⟨calm.mutex, calm.sem, calm.waiting⟩, current, ?_, ?_, ?_⟩
            · rw [← walked]
              simp [Kernel.tickSleepers, Kernel.queueData, next, woken, ticked]
            · intro u
              rw [counted u]
              by_cases isT : u = t
              · rw [isT, if_neg notAgain, if_pos (List.mem_cons_self ..), isCounted]
              · rw [sameTask u isT, if_congr (stays u isT) rfl rfl]
            · rw [ready, sameDue.1, List.filter_cons_of_neg (by rw [due]; decide)]
            · rw [asleep, sameDue.2, List.append_assoc, List.singleton_append,
                List.filter_cons_of_pos (by rw [due]; decide)]

/-- The sleepers are some of the `pid` tasks ever created. -/
theorem Settled.sleepers_le (settled : Settled k place tasks) :
    (place.on .sleep).length ≤ k.pid := by
  rw [settled.pid]
  apply (place.nodup .sleep).length_le_of_subset
  intro t member
  exact (settled.placed t).mp ⟨.sleep, member⟩

/-- The ready queue when a tick has charged the current task: it goes to the tail when its
slice is over. -/
def Kernel.readyCharged (k : Kernel) (ready : List Nat) : List Nat :=
  if (k.task k.current).slice - 1 = 0 then ready.erase k.current ++ [k.current] else ready

/-- The current task after it was charged for a tick. -/
def Task.charged (task : Task) : Task :=
  { task with slice := if task.slice - 1 = 0 then taskSlice else task.slice - 1 }

theorem tickBegun_spec (scheduled : Scheduled idle k place tasks) :
    ∃ begun placeBegun,
      k.taskTick = (Kernel.tickSleepers (begun.pid + 1) begun
        (queueFirst begun.links (.head .sleep))).bind Kernel.schedule ∧
      Settled begun placeBegun tasks ∧ Calm k place begun placeBegun ∧
      begun.current = k.current ∧
      (∀ t, (begun.task t).state = (k.task t).state ∧
        (begun.task t).sleepTicks = (k.task t).sleepTicks) ∧
      begun.task k.current = (k.task k.current).charged ∧
      placeBegun.on .ready = k.readyCharged (place.on .ready) ∧
      placeBegun.on .sleep = place.on .sleep := by
  let slice : Kernel :=
    k.withTask k.current (fun task => { task with slice := task.slice - 1 })
  let full : Kernel :=
    slice.withTask k.current (fun task => { task with slice := taskSlice })
  let begun : Kernel := if (slice.task k.current).slice = 0 then
    (full.unlink (.rq k.current)).linkTail (.head .ready) (.rq k.current) else slice
  have unfolded : k.taskTick = (Kernel.tickSleepers (begun.pid + 1) begun
      (queueFirst begun.links (.head .sleep))).bind Kernel.schedule := rfl
  have charged : (slice.task k.current).slice = (k.task k.current).slice - 1 := by
    simp [slice]
  by_cases expired : (slice.task k.current).slice = 0
  · have isBegun : begun =
        (full.unlink (.rq k.current)).linkTail (.head .ready) (.rq k.current) := if_pos expired
    rw [isBegun] at unfolded
    refine ⟨_, place.move k.current .ready, unfolded, ?_,
      Calm.move scheduled.current (Or.inl rfl) (Or.inl rfl) rfl rfl, rfl, ?_, ?_, ?_, ?_⟩
    · apply scheduled.toSettled.move scheduled.current
      · rfl
      · rfl
      · intro u different
        simp [full, slice, Kernel.unlink, Kernel.linkTail, different]
      · have fits := scheduled.fits .ready k.current scheduled.current
        simpa [full, slice, Kernel.unlink, Kernel.linkTail] using fits
      · intro isSleep
        cases isSleep
    · intro t
      by_cases same : t = k.current
      · simp [full, slice, Kernel.unlink, Kernel.linkTail, same]
      · simp [full, slice, Kernel.unlink, Kernel.linkTail, same]
    · unfold Task.charged
      rw [← charged, if_pos expired]
      simp [full, slice, Kernel.unlink, Kernel.linkTail]
    · rw [Placement.move_on, if_pos rfl]
      unfold Kernel.readyCharged
      rw [← charged, if_pos expired]
    · apply place.move_on_other k.current .ready .sleep (by decide)
      intro inSleep
      cases place.unique .sleep .ready k.current inSleep scheduled.current
  · have isBegun : begun = slice := if_neg expired
    rw [isBegun] at unfolded
    have sameTask : ∀ t, (slice.task t).state = (k.task t).state ∧
        (slice.task t).sleepTicks = (k.task t).sleepTicks := by
      intro t
      by_cases same : t = k.current
      · simp [slice, same]
      · simp [slice, same]
    refine ⟨_, place, unfolded, ?_, ⟨rfl, rfl, fun _ _ _ => rfl⟩, rfl, sameTask, ?_, ?_, rfl⟩
    · apply scheduled.toSettled.retask
      · rfl
      · rfl
      · intro queue t member
        rw [(sameTask t).1]
        exact scheduled.fits queue t member
      · intro t member
        rw [(sameTask t).2]
        exact scheduled.awake t member
    · unfold Task.charged
      rw [← charged, if_neg expired]
      simp [slice]
    · unfold Kernel.readyCharged
      rw [← charged, if_neg expired]

theorem Kernel.mem_readyCharged (k : Kernel) {ready : List Nat} {t : Nat} (member : t ∈ ready) :
    t ∈ k.readyCharged ready := by
  unfold readyCharged
  split
  · rw [List.mem_append, List.mem_singleton]
    by_cases same : t = k.current
    · exact Or.inr same
    · exact Or.inl ((List.mem_erase_of_ne same).mpr member)
  · exact member

/-- Every sleeper was counted once.  Those whose time is over run, behind the other ready
tasks; the others sleep on in their order. -/
structure SleepersCounted (k : Kernel) (place : Placement Queue Nat) (after : Kernel)
    (placeAfter : Placement Queue Nat) : Prop where
  ticks : ∀ t, t ∈ place.on .sleep → (after.task t).sleepTicks = (k.task t).sleepTicks - 1
  state : ∀ t, t ∈ place.on .sleep →
    (after.task t).state = if k.due t then .running else .sleep
  ready : placeAfter.on .ready =
    k.readyCharged (place.on .ready) ++ (place.on .sleep).filter k.due
  sleep : placeAfter.on .sleep = (place.on .sleep).filter (fun t => !k.due t)

theorem taskTick_walked (scheduled : Scheduled idle k place tasks) :
    ∃ walked placeWalked, k.taskTick = walked.schedule ∧
      Settled walked placeWalked tasks ∧ Calm k place walked placeWalked ∧
      walked.current = k.current ∧
      walked.task k.current = (k.task k.current).charged ∧
      SleepersCounted k place walked placeWalked := by
  obtain ⟨begun, placeBegun, unfolded, settledBegun, calmBegun, currentBegun, sameTask, charged,
    ready, sleepers⟩ := tickBegun_spec scheduled
  have enough : (placeBegun.on .sleep).length < begun.pid + 1 :=
    Nat.lt_succ_of_le settledBegun.sleepers_le
  obtain ⟨walked, placeWalked, walk, settledWalked, calmWalked, currentWalked, counted,
    readyWalked, asleep⟩ :=
    tickSleepers_spec (placeBegun.on .sleep) [] (begun.pid + 1) settledBegun rfl enough
  have awake : k.current ∉ placeBegun.on .sleep := by
    rw [sleepers]
    intro inSleep
    cases place.unique .sleep .ready k.current inSleep scheduled.current
  have due : ∀ t, begun.due t = k.due t := by
    intro t
    unfold Kernel.due
    rw [(sameTask t).2]
  have isCounted : ∀ t, t ∈ place.on .sleep → walked.task t = (begun.task t).counted := by
    intro t member
    rw [counted t, if_pos (sleepers.symm ▸ member)]
  refine ⟨walked, placeWalked, ?_, settledWalked, calmBegun.trans calmWalked,
    currentWalked.trans currentBegun, ?_, ?_⟩
  · rw [← settledBegun.rep.first_eq .sleep] at walk
    rw [unfolded, walk, Option.bind_some]
  · rw [counted k.current, if_neg awake, charged]
  · constructor
    · intro t member
      rw [isCounted t member]
      exact congrArg (· - 1) (sameTask t).2
    · intro t member
      have asleepBefore := (TaskState.fits_sleep_iff _).mp (scheduled.fits .sleep t member)
      rw [isCounted t member, ← due t]
      unfold Task.counted Kernel.due
      dsimp only
      rw [(sameTask t).1, asleepBefore]
      by_cases over' : (begun.task t).sleepTicks - 1 = 0
      · rw [if_pos over', if_pos (decide_eq_true over')]
      · rw [if_neg over', if_neg (fun isDue => over' (of_decide_eq_true isDue))]
    · rw [readyWalked, ready, sleepers, List.filter_congr fun t _ => due t]
    · rw [asleep, sleepers, List.nil_append, List.filter_congr fun t _ => by rw [due t]]

theorem taskTick_counted (scheduled : Scheduled idle k place tasks) :
    ∃ after placeAfter, k.taskTick = some after ∧
      Scheduled idle after placeAfter tasks ∧ Calm k place after placeAfter ∧
      SleepersCounted k place after placeAfter := by
  obtain ⟨walked, placeWalked, ticked, settled, calm, current, _, counted⟩ :=
    taskTick_walked scheduled
  have stays : ∀ t, t ∈ place.on .ready → t ∈ placeWalked.on .ready := by
    intro t member
    rw [counted.ready]
    exact List.mem_append_left _ (k.mem_readyCharged member)
  have known : placeWalked.Placed walked.current := by
    rw [current]
    exact ⟨.ready, stays _ scheduled.current⟩
  obtain ⟨next, scheduledAs, scheduledNext⟩ :=
    schedule_spec settled known (stays _ scheduled.idle)
  exact ⟨_, placeWalked, ticked.trans scheduledAs, scheduledNext,
    ⟨calm.mutex, calm.sem, calm.waiting⟩,
    ⟨counted.ticks, counted.state, counted.ready, counted.sleep⟩⟩

theorem taskTick_spec (scheduled : Scheduled idle k place tasks) :
    ∃ after placeAfter, k.taskTick = some after ∧
      Scheduled idle after placeAfter tasks ∧ Calm k place after placeAfter := by
  obtain ⟨after, placeAfter, ticked, next, calm, _⟩ := taskTick_counted scheduled
  exact ⟨after, placeAfter, ticked, next, calm⟩

/-! ### Creation, yielding and sleeping -/

theorem taskInit_calm (k : Kernel) (place : Placement Queue Nat) {t : Nat}
    (unplaced : ¬ place.Placed t) (entry : UInt32) :
    Calm k place (k.taskInit t entry) (place.append .ready t unplaced) where
  mutex := by
    unfold Kernel.taskInit
    split <;> rfl
  sem := by
    unfold Kernel.taskInit
    split <;> rfl
  waiting := by
    intro queue notReady _
    rw [Placement.append_on, if_neg notReady]

theorem taskInit_current (k : Kernel) (t : Nat) (entry : UInt32) :
    (k.taskInit t entry).current = k.current := by
  unfold Kernel.taskInit
  split <;> rfl

theorem taskInit_settled (settled : Settled k place tasks) {t : Nat}
    (unplaced : ¬ place.Placed t) (entry : UInt32) :
    Settled (k.taskInit t entry) (place.append .ready t unplaced) (tasks ++ [t]) := by
  have fresh : t ∉ tasks := fun known => unplaced ((settled.placed t).mpr known)
  have links : (k.taskInit t entry).links =
      queueInsertTail (queueInsertTail k.links .taskQueue (.q t)) (.head .ready)
        (.rq t) := by
    unfold Kernel.taskInit
    split <;> rfl
  have pid : (k.taskInit t entry).pid = k.pid + 1 := by
    unfold Kernel.taskInit
    split <;> rfl
  have others : ∀ u, u ≠ t → (k.taskInit t entry).task u = k.task u := by
    intro u different
    unfold Kernel.taskInit
    split <;> simp [Kernel.linkTail, Kernel.setState, different]
  have created : ((k.taskInit t entry).task t).state = .created := by
    unfold Kernel.taskInit
    split <;> simp [Kernel.linkTail, Kernel.setState]
  constructor
  · rw [links]
    exact (settled.rep.register fresh).append unplaced .ready
  · rw [pid, settled.pid, List.length_append, List.length_singleton]
  · intro u
    rw [List.mem_append, List.mem_singleton, ← settled.placed u]
    constructor
    · rintro ⟨queue, member⟩
      rcases (place.mem_append .ready queue t u unplaced).mp member with old | new
      · exact Or.inl ⟨queue, old⟩
      · exact Or.inr new.2
    · rintro (⟨queue, member⟩ | same)
      · exact ⟨queue, (place.mem_append .ready queue t u unplaced).mpr (Or.inl member)⟩
      · exact ⟨.ready, (place.mem_append .ready .ready t u unplaced).mpr
          (Or.inr ⟨rfl, same⟩)⟩
  · intro queue u member
    rcases (place.mem_append .ready queue t u unplaced).mp member with old | ⟨at_, same⟩
    · rw [others u (fun same => unplaced (same ▸ ⟨queue, old⟩))]
      exact settled.fits queue u old
    · subst at_ same
      rw [created]
      rfl
  · intro u member
    rcases (place.mem_append .ready .sleep t u unplaced).mp member with old | ⟨at_, _⟩
    · rw [others u (fun same => unplaced (same ▸ ⟨.sleep, old⟩))]
      exact settled.awake u old
    · cases at_

theorem taskInit_spec (scheduled : Scheduled idle k place tasks) {t : Nat}
    (fresh : t ∉ tasks) (entry : UInt32) :
    ∃ placeAfter, Scheduled idle (k.taskInit t entry) placeAfter (tasks ++ [t]) ∧
      Calm k place (k.taskInit t entry) placeAfter := by
  have unplaced : ¬ place.Placed t := fun placed => fresh ((scheduled.placed t).mp placed)
  refine ⟨place.append .ready t unplaced, ?_, taskInit_calm k place unplaced entry⟩
  constructor
  · exact taskInit_settled scheduled.toSettled unplaced entry
  · rw [taskInit_current, Placement.append_on, if_pos rfl]
    exact List.mem_append_left _ scheduled.current
  · rw [Placement.append_on, if_pos rfl]
    exact List.mem_append_left _ scheduled.idle

theorem setRunning_settled (settled : Settled k place tasks) {t : Nat}
    (member : t ∈ place.on .ready) : Settled (k.setState t .running) place tasks := by
  apply settled.retask
  · rfl
  · rfl
  · intro queue u inQueue
    by_cases same : u = t
    · subst u
      have at_ := place.unique queue .ready t inQueue member
      subst at_
      simp [Kernel.setState, TaskState.fits]
    · simpa [Kernel.setState, same] using settled.fits queue u inQueue
  · intro u inSleep
    have awake := settled.awake u inSleep
    by_cases same : u = t
    · subst u
      simpa [Kernel.setState] using awake
    · simpa [Kernel.setState, same] using awake

theorem setRunning_spec (scheduled : Scheduled idle k place tasks) {t : Nat}
    (known : t ∈ tasks) (created : (k.task t).state = .created) :
    Scheduled idle (k.setState t .running) place tasks ∧
      Calm k place (k.setState t .running) place := by
  obtain ⟨queue, member⟩ := (scheduled.placed t).mpr known
  have isReady : queue = .ready := by
    have fits := scheduled.fits queue t member
    rw [created] at fits
    cases queue <;> simp [TaskState.fits] at fits
    rfl
  subst queue
  exact ⟨⟨setRunning_settled scheduled.toSettled member, scheduled.current, scheduled.idle⟩,
    ⟨rfl, rfl, fun _ _ _ => rfl⟩⟩

theorem taskYield_spec (scheduled : Scheduled idle k place tasks) :
    ∃ after placeAfter, k.taskYield = some after ∧
      Scheduled idle after placeAfter tasks ∧ Calm k place after placeAfter := by
  have moved := requeue_settled scheduled.toSettled scheduled.current
  have stays : ∀ t, t ∈ place.on .ready → t ∈ (place.move k.current .ready).on .ready := by
    intro t member
    rw [Placement.mem_move]
    by_cases same : t = k.current
    · exact Or.inr ⟨rfl, same⟩
    · exact Or.inl ⟨same, member⟩
  obtain ⟨next, scheduledAs, scheduledNext⟩ :=
    schedule_spec moved ⟨.ready, stays _ scheduled.current⟩ (stays _ scheduled.idle)
  exact ⟨_, _, scheduledAs, scheduledNext,
    Calm.move scheduled.current (Or.inl rfl) (Or.inl rfl) rfl rfl⟩

theorem taskSleep_settled (scheduled : Scheduled idle k place tasks) {ticks : UInt32}
    (sleeps : ticks ≠ 0) :
    Settled (k.taskSleep k.current ticks) (place.move k.current .sleep) tasks := by
  rw [Kernel.taskSleep, if_neg sleeps]
  apply scheduled.toSettled.move scheduled.current
  · rfl
  · rfl
  · intro u different
    simp [Kernel.unlink, Kernel.linkTail, different]
  · simp [Kernel.unlink, Kernel.linkTail, TaskState.fits]
  · intro _
    simpa [Kernel.unlink, Kernel.linkTail] using sleeps

theorem sysSleep_spec (scheduled : Scheduled idle k place tasks)
    (notIdle : k.current ≠ idle) (ms : UInt32) :
    ∃ after placeAfter, k.sysSleep ms = some after ∧
      Scheduled idle after placeAfter tasks ∧ Calm k place after placeAfter := by
  by_cases none : ms / 10 = 0
  · obtain ⟨next, scheduledAs, scheduledNext⟩ :=
      schedule_spec scheduled.toSettled ⟨.ready, scheduled.current⟩ scheduled.idle
    refine ⟨_, place, ?_, scheduledNext, ⟨rfl, rfl, fun _ _ _ => rfl⟩⟩
    rw [Kernel.sysSleep, Kernel.taskSleep, if_pos none, scheduledAs]
  · have moved := taskSleep_settled scheduled none
    have calm : Calm k place (k.taskSleep k.current (ms / 10))
        (place.move k.current .sleep) := by
      rw [Kernel.taskSleep, if_neg none]
      exact Calm.move scheduled.current (Or.inl rfl) (Or.inr rfl) rfl rfl
    have current : (k.taskSleep k.current (ms / 10)).current = k.current := by
      rw [Kernel.taskSleep, if_neg none]
      rfl
    have known : (place.move k.current .sleep).Placed
        (k.taskSleep k.current (ms / 10)).current := by
      rw [current]
      exact (place.placed_move k.current k.current .sleep).mpr (Or.inl rfl)
    have idleReady : idle ∈ (place.move k.current .sleep).on .ready :=
      (place.mem_move k.current idle .sleep .ready).mpr
        (Or.inl ⟨notIdle.symm, scheduled.idle⟩)
    obtain ⟨next, scheduledAs, scheduledNext⟩ := schedule_spec moved known idleReady
    exact ⟨_, _, scheduledAs, scheduledNext, ⟨calm.mutex, calm.sem, calm.waiting⟩⟩

end MangoOS
