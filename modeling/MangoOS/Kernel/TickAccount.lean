/-
The clock while the system runs (kernel/time.c): `sys_tick` and `timestamp` when the
timer handler may be left in `task_tick`, by a switch to another task, and is finished
when its task is dispatched again.
-/

import MangoOS.Kernel.Clock
import MangoOS.Kernel.RoundRobin
import Mathlib.Data.Finset.Card
import Mathlib.Data.Int.ModEq

namespace MangoOS

/-- The caller of `schedule` that a task goes on in when it is dispatched again. -/
inductive Frame
  | handlerTime
  | other
  deriving DecidableEq

/-- What the processor executes: code of the current task between two handlers, or the rest of
`do_handler_time` behind `task_tick`, where interrupts are disabled. -/
inductive Mode
  | between
  | handlerTime
  deriving DecidableEq

/-- `loop` is the counter of `update_timestamp`; the stacks are those of the tasks, as far as
they hold calls that have not returned. -/
structure Ticking where
  kernel : Kernel
  sysTick : UInt32
  timestamp : UInt32
  loop : UInt8
  stack : Nat → List Frame
  mode : Mode

namespace Ticking

/-! ### The handler -/

/-- The value `time_init` stores in `timestamp`. -/
def bootTime (rtc : Nat → Nat) : UInt32 :=
  UInt32.ofNat (Clock.kernelMktime (Clock.getRtcTime rtc))

/-- `time_init`, and the end of `kernel_init` with its `sti`. -/
def timeInit (rtc : Nat → Nat) (k : Kernel) : Ticking where
  kernel := k
  sysTick := 0
  timestamp := bootTime rtc
  loop := 0
  stack := fun _ => []
  mode := .between

def updateTimestamp (m : Ticking) : Ticking :=
  let m := { m with loop := m.loop + 1 }
  if m.loop = 100 then { m with timestamp := m.timestamp + 1, loop := 0 } else m

/-- A write to the stack of the current task. -/
def setStack (m : Ticking) (frames : List Frame) : Ticking :=
  { m with stack := Function.update m.stack m.kernel.current frames }

/-- The current task calls a function that may switch to another task. -/
def call (m : Ticking) (frame : Frame) : Ticking :=
  m.setStack (frame :: m.stack m.kernel.current)

/-- The last call of the current task returns. -/
def leave (m : Ticking) : Ticking :=
  { m.setStack (m.stack m.kernel.current).tail with mode := .between }

/-- `__switch_to` returns on the stack of the task that is current now.  A new task starts at its
entry. -/
def resume (m : Ticking) : Ticking :=
  match m.stack m.kernel.current with
  | [] => { m with mode := .between }
  | .handlerTime :: _ => { m with mode := .handlerTime }
  | .other :: _ => m.leave

/-- `task_init` prepares an empty stack. -/
def prepare (m : Ticking) : Op → Ticking
  | .taskInit t _ => { m with stack := Function.update m.stack t [] }
  | _ => m

/-- `do_handler_time` until `task_tick` returns, in this task or in another one. -/
def handlerTime (m : Ticking) : Option Ticking :=
  let m := { m with sysTick := m.sysTick + 1 }
  let m := m.call .handlerTime
  m.kernel.taskTick.map fun k => { m with kernel := k }.resume

/-- `do_handler_time` from there. -/
def handlerReturn (m : Ticking) : Ticking := m.updateTimestamp.leave

/-- What the current task or a device does between two timer handlers. -/
def operate (m : Ticking) (op : Op) : Option Ticking :=
  let m := m.call .other
  (m.kernel.step op).map fun k => ({ m with kernel := k }.prepare op).resume

end Ticking

/-- Runs from the boot.  Interrupts are disabled in `do_handler_time`. -/
inductive TickRun (boot : Boot) (rtc : Nat → Nat) : Ticking → Prop
  | start {k : Kernel} : boot.start = some k → TickRun boot rtc (Ticking.timeInit rtc k)
  | interrupt {m after : Ticking} : TickRun boot rtc m → m.mode = .between →
      m.handlerTime = some after → TickRun boot rtc after
  | finish {m : Ticking} : TickRun boot rtc m → m.mode = .handlerTime →
      TickRun boot rtc m.handlerReturn
  | operate {m after : Ticking} (op : Op) : TickRun boot rtc m → m.mode = .between →
      op ≠ .taskTick → m.kernel.Permits boot.idle op → m.operate op = some after →
      TickRun boot rtc after

/-! ### The account -/

/-- Every tick is in `timestamp`, in `loop`, or due when a task in `mid` goes on. -/
structure Ticking.Balanced (start : UInt32) (m : Ticking) (mid : Finset Nat) : Prop where
  known : ∀ t, m.stack t ≠ [] → m.kernel.Initialised t
  short : ∀ t, (m.stack t).length ≤ 1
  inside : ∀ t, t ∈ mid ↔ Frame.handlerTime ∈ m.stack t
  loop : m.loop.toNat < 100
  ticks : (m.sysTick.toNat : Int) ≡
    100 * ((m.timestamp.toNat : Int) - start.toNat) + m.loop.toNat + mid.card
      [ZMOD 2 ^ 32]

/-- The stack of the current task, which the processor works on. -/
def Mode.stack : Mode → List Frame
  | .between => []
  | .handlerTime => [.handlerTime]

structure Ticking.Accounted (start : UInt32) (m : Ticking) (mid : Finset Nat) : Prop
    extends Ticking.Balanced start m mid where
  here : m.stack m.kernel.current = m.mode.stack

variable {m after : Ticking} {mid : Finset Nat} {start : UInt32} {boot : Boot} {rtc : Nat → Nat}

open Ticking

theorem timeInit_accounted (rtc : Nat → Nat) (k : Kernel) :
    (timeInit rtc k).Accounted (bootTime rtc) ∅ where
  known := fun _ called => absurd rfl called
  short := fun _ => Nat.zero_le 1
  inside := fun t => by simp [timeInit]
  loop := by
    change (0 : UInt8).toNat < 100
    decide
  ticks := by simp [timeInit]
  here := rfl

/-- The current task, of which nothing is left on its stack, is not in the middle of a handler. -/
theorem Ticking.Accounted.not_mid (accounted : m.Accounted start mid)
    (between : m.mode = .between) : m.kernel.current ∉ mid := by
  rw [accounted.inside, accounted.here, between]
  exact List.not_mem_nil

/-! ### Calls and switches -/

theorem Ticking.resume_kernel (m : Ticking) : m.resume.kernel = m.kernel := by
  unfold Ticking.resume
  split <;> rfl

@[simp] theorem Ticking.setStack_same (m : Ticking) (frames : List Frame) :
    (m.setStack frames).stack m.kernel.current = frames := by
  simp [setStack]

theorem Ticking.setStack_other (m : Ticking) (frames : List Frame) {t : Nat}
    (other : t ≠ m.kernel.current) : (m.setStack frames).stack t = m.stack t := by
  simp [setStack, other]

/-- A write to the stack of the current task, and who is in the middle of a handler then. -/
theorem Ticking.Balanced.written {midAfter : Finset Nat} {frames : List Frame}
    {sysTick timestamp : UInt32} {loop : UInt8} {mode : Mode}
    (balanced : m.Balanced start mid) (known : m.kernel.Initialised m.kernel.current)
    (short : frames.length ≤ 1)
    (here : m.kernel.current ∈ midAfter ↔ Frame.handlerTime ∈ frames)
    (others : ∀ t, t ≠ m.kernel.current → (t ∈ midAfter ↔ t ∈ mid))
    (reset : loop.toNat < 100)
    (ticks : (sysTick.toNat : Int) ≡
      100 * ((timestamp.toNat : Int) - start.toNat) + loop.toNat + midAfter.card
        [ZMOD 2 ^ 32]) :
    Ticking.Balanced start
      ⟨m.kernel, sysTick, timestamp, loop, (m.setStack frames).stack, mode⟩ midAfter where
  known := by
    intro t called
    by_cases current : t = m.kernel.current
    · rw [current]
      exact known
    · change (m.setStack frames).stack t ≠ [] at called
      rw [m.setStack_other frames current] at called
      exact balanced.known t called
  short := by
    intro t
    change ((m.setStack frames).stack t).length ≤ 1
    by_cases current : t = m.kernel.current
    · rw [current, m.setStack_same]
      exact short
    · rw [m.setStack_other frames current]
      exact balanced.short t
  inside := by
    intro t
    change t ∈ midAfter ↔ Frame.handlerTime ∈ (m.setStack frames).stack t
    by_cases current : t = m.kernel.current
    · rw [current, m.setStack_same]
      exact here
    · rw [m.setStack_other frames current, others t current]
      exact balanced.inside t
  loop := reset
  ticks := ticks

/-- One more tick, and one more task in the middle of a handler. -/
theorem Ticking.Accounted.handlerTime (accounted : m.Accounted start mid)
    (between : m.mode = .between) (known : m.kernel.Initialised m.kernel.current) :
    (Ticking.call { m with sysTick := m.sysTick + 1 } .handlerTime).Balanced start
      (insert m.kernel.current mid) := by
  have fresh := accounted.not_mid between
  have empty : m.stack m.kernel.current = [] := accounted.here.trans (by rw [between]; rfl)
  apply accounted.toBalanced.written known
  · change (Frame.handlerTime :: m.stack m.kernel.current).length ≤ 1
    rw [empty]
    exact Nat.le_refl 1
  · exact iff_of_true (Finset.mem_insert_self ..) (List.mem_cons_self ..)
  · intro t other
    rw [Finset.mem_insert, or_iff_right other]
  · exact accounted.loop
  · have ticks := accounted.ticks
    have more : (m.sysTick + 1).toNat = (m.sysTick.toNat + 1) % 2 ^ 32 := UInt32.toNat_add ..
    rw [Finset.card_insert_of_notMem fresh, more]
    change _ ≡ 100 * ((m.timestamp.toNat : Int) - start.toNat) + m.loop.toNat + _ [ZMOD _]
    unfold Int.ModEq at *
    omega

theorem Ticking.Accounted.other (accounted : m.Accounted start mid)
    (between : m.mode = .between) (known : m.kernel.Initialised m.kernel.current) :
    (m.call .other).Balanced start mid := by
  have empty : m.stack m.kernel.current = [] := accounted.here.trans (by rw [between]; rfl)
  apply accounted.toBalanced.written known
  · rw [empty]
    exact Nat.le_refl 1
  · refine iff_of_false (accounted.not_mid between) ?_
    rw [empty]
    decide
  · exact fun _ _ => Iff.rfl
  · exact accounted.loop
  · exact accounted.ticks

theorem Ticking.Balanced.kernel {k : Kernel} (balanced : m.Balanced start mid)
    (kept : ∀ t, m.kernel.Initialised t → k.Initialised t) :
    Ticking.Balanced start { m with kernel := k } mid where
  known := fun t called => kept t (balanced.known t called)
  short := balanced.short
  inside := balanced.inside
  loop := balanced.loop
  ticks := balanced.ticks

theorem Ticking.Balanced.resume (balanced : m.Balanced start mid)
    (known : m.kernel.Initialised m.kernel.current) : m.resume.Accounted start mid := by
  have short := balanced.short m.kernel.current
  cases called : m.stack m.kernel.current with
  | nil =>
      have resumed : m.resume = { m with mode := .between } := by
        rw [Ticking.resume, called]
      rw [resumed]
      exact ⟨⟨balanced.known, balanced.short, balanced.inside, balanced.loop, balanced.ticks⟩,
        called⟩
  | cons frame rest =>
      rw [called, List.length_cons] at short
      obtain rfl := List.length_eq_zero_iff.mp (Nat.le_zero.mp (Nat.le_of_succ_le_succ short))
      cases frame with
      | handlerTime =>
          have resumed : m.resume = { m with mode := .handlerTime } := by
            rw [Ticking.resume, called]
          rw [resumed]
          exact ⟨⟨balanced.known, balanced.short, balanced.inside, balanced.loop,
            balanced.ticks⟩, called⟩
      | other =>
          have resumed : m.resume = { m.setStack [] with mode := .between } := by
            rw [Ticking.resume, called, Ticking.leave, called]
            rfl
          have outside : m.kernel.current ∉ mid := by
            rw [balanced.inside, called]
            decide
          rw [resumed]
          have nothing : ([] : List Frame).length ≤ 1 := Nat.zero_le 1
          refine ⟨?_, m.setStack_same []⟩
          apply balanced.written known nothing
          · exact iff_of_false outside List.not_mem_nil
          · exact fun _ _ => Iff.rfl
          · exact balanced.loop
          · exact balanced.ticks

/-! ### The rest of the handler -/

theorem updateTimestamp_eq (m : Ticking) :
    m.updateTimestamp =
      if m.loop + 1 = 100 then { m with timestamp := m.timestamp + 1, loop := 0 }
      else { m with loop := m.loop + 1 } := rfl

theorem updateTimestamp_counted (m : Ticking) (upper : m.loop.toNat < 100) :
    ∃ timestamp loop, m.updateTimestamp = { m with timestamp := timestamp, loop := loop } ∧
      loop.toNat < 100 ∧
      100 * (timestamp.toNat : Int) + loop.toNat ≡
        100 * (m.timestamp.toNat : Int) + m.loop.toNat + 1 [ZMOD 2 ^ 32] := by
  have more : (m.loop + 1).toNat = (m.loop.toNat + 1) % 2 ^ 8 := UInt8.toNat_add ..
  have stamp : (m.timestamp + 1).toNat = (m.timestamp.toNat + 1) % 2 ^ 32 :=
    UInt32.toNat_add ..
  rw [updateTimestamp_eq]
  by_cases full : m.loop + 1 = 100
  · have last := congrArg UInt8.toNat full
    change (m.loop + 1).toNat = 100 at last
    rw [if_pos full]
    refine ⟨m.timestamp + 1, 0, rfl, by decide, ?_⟩
    rw [stamp]
    change 100 * (((m.timestamp.toNat + 1) % 2 ^ 32 : Nat) : Int) + (0 : Nat) ≡ _ [ZMOD 2 ^ 32]
    unfold Int.ModEq
    omega
  · have notFull : (m.loop + 1).toNat ≠ 100 := fun same => full (UInt8.toNat_inj.mp same)
    rw [if_neg full]
    refine ⟨m.timestamp, m.loop + 1, rfl, ?_, ?_⟩
    · omega
    · rw [more]
      unfold Int.ModEq
      omega

/-- One task less in the middle of a handler, and its tick is counted. -/
theorem Ticking.Accounted.handlerReturn (accounted : m.Accounted start mid)
    (inHandler : m.mode = .handlerTime) (known : m.kernel.Initialised m.kernel.current) :
    m.handlerReturn.Accounted start (mid.erase m.kernel.current) := by
  obtain ⟨timestamp, loop, updated, upper, counted⟩ :=
    updateTimestamp_counted m accounted.loop
  have called : m.stack m.kernel.current = [.handlerTime] :=
    accounted.here.trans (by rw [inHandler]; rfl)
  have inMid : m.kernel.current ∈ mid := by
    rw [accounted.inside, called]
    decide
  have returned : m.handlerReturn =
      ⟨m.kernel, m.sysTick, timestamp, loop, (m.setStack []).stack, .between⟩ := by
    unfold Ticking.handlerReturn Ticking.leave
    rw [updated]
    change Ticking.mk _ _ _ _ (m.setStack (m.stack m.kernel.current).tail).stack _ = _
    rw [called, List.tail_cons]
    rfl
  rw [returned]
  have nothing : ([] : List Frame).length ≤ 1 := Nat.zero_le 1
  refine ⟨?_, m.setStack_same []⟩
  apply accounted.toBalanced.written known nothing
  · exact iff_of_false (Finset.notMem_erase m.kernel.current mid) List.not_mem_nil
  · intro t other
    rw [Finset.mem_erase, and_iff_right other]
  · exact upper
  · have ticks := accounted.ticks
    have positive := Finset.card_pos.mpr ⟨_, inMid⟩
    rw [Finset.card_erase_of_mem inMid]
    unfold Int.ModEq at *
    omega

/-! ### Runs -/

theorem Run.current_known {k : Kernel} (run : Run boot k) : k.Initialised k.current := by
  obtain ⟨place, tasks, scheduled⟩ := run.scheduled
  exact (scheduled.initialised_iff _).mpr
    ((scheduled.placed _).mp ⟨.ready, scheduled.current⟩)

theorem Run.keeps_known {k next : Kernel} (run : Run boot k) (op : Op)
    (permitted : k.Permits boot.idle op) (stepped : k.step op = some next) (t : Nat)
    (known : k.Initialised t) : next.Initialised t := by
  obtain ⟨place, tasks, scheduled⟩ := run.scheduled
  exact step_initialised scheduled op permitted stepped known

/-- A task that is made now has nothing on its stack yet. -/
theorem Ticking.Balanced.prepare (balanced : m.Balanced start mid) {k : Kernel} {op : Op}
    (permitted : m.kernel.Permits boot.idle op) :
    Ticking.prepare { m with kernel := k } op = { m with kernel := k } := by
  cases op with
  | taskInit t entry =>
      have empty : m.stack t = [] := by
        by_contra called
        exact permitted (balanced.known t called)
      have same : Function.update m.stack t [] = m.stack := by
        rw [← empty, Function.update_eq_self]
      change Ticking.mk _ _ _ _ (Function.update m.stack t []) _ = _
      rw [same]
  | setRunning t => rfl
  | taskTick => rfl
  | taskYield => rfl
  | sysSleep ms => rfl
  | mutexLock id => rfl
  | mutexUnlock id => rfl
  | semWait id => rfl
  | semNotify id => rfl

theorem TickRun.accounted (run : TickRun boot rtc m) :
    Run boot m.kernel ∧ ∃ mid, m.Accounted (bootTime rtc) mid := by
  induction run with
  | @start k booted => exact ⟨.start booted, ∅, timeInit_accounted rtc k⟩
  | @interrupt m after _ between interrupted ih =>
      obtain ⟨reached, mid, accounted⟩ := ih
      obtain ⟨k, ticked, rfl⟩ := Option.map_eq_some_iff.mp interrupted
      have next : Run boot k := reached.step .taskTick trivial ticked
      have balanced := (accounted.handlerTime between reached.current_known).kernel
        (reached.keeps_known .taskTick trivial ticked)
      have resumed := balanced.resume next.current_known
      rw [Ticking.resume_kernel]
      exact ⟨next, _, resumed⟩
  | @finish m _ inHandler ih =>
      obtain ⟨reached, mid, accounted⟩ := ih
      obtain ⟨timestamp, loop, updated, _⟩ := updateTimestamp_counted m accounted.loop
      have same : m.handlerReturn.kernel = m.kernel := by
        unfold Ticking.handlerReturn Ticking.leave
        rw [updated]
        rfl
      rw [same]
      exact ⟨reached, _, accounted.handlerReturn inHandler reached.current_known⟩
  | @operate m after op _ between other permitted operated ih =>
      obtain ⟨reached, mid, accounted⟩ := ih
      obtain ⟨k, stepped, rfl⟩ := Option.map_eq_some_iff.mp operated
      have next : Run boot k := reached.step op permitted stepped
      have called := accounted.other between reached.current_known
      have balanced := called.kernel (reached.keeps_known op permitted stepped)
      rw [called.prepare permitted, Ticking.resume_kernel]
      exact ⟨next, mid, balanced.resume next.current_known⟩

/-- Between two handlers `sys_tick` exceeds what `timestamp` and `loop` show by the number of
tasks that are switched out in the middle of `do_handler_time`, each of them once. -/
theorem tickRun_accounted (run : TickRun boot rtc m) (between : m.mode = .between) :
    ∃ mid : Finset Nat,
      (∀ t, t ∈ mid ↔ t ≠ m.kernel.current ∧ Frame.handlerTime ∈ m.stack t) ∧
      (∀ t, (m.stack t).count .handlerTime ≤ 1) ∧ m.loop.toNat < 100 ∧
      (m.sysTick.toNat : Int) ≡
        100 * ((m.timestamp.toNat : Int) - (bootTime rtc).toNat) + m.loop.toNat + mid.card
        [ZMOD 2 ^ 32] := by
  obtain ⟨_, mid, accounted⟩ := run.accounted
  refine ⟨mid, ?_, ?_, accounted.loop, accounted.ticks⟩
  · intro t
    rw [accounted.inside, iff_and_self]
    intro called current
    rw [← accounted.inside, current] at called
    exact accounted.not_mid between called
  · intro t
    exact Nat.le_trans List.count_le_length (accounted.short t)

/-- A tick leaves the idle task for the init task, and the next one leaves that for the idle task,
which finishes the first handler. -/
theorem tickRun_accounted_twice :
    ∃ m : Ticking, m.sysTick = 2 ∧ m.loop = 1 ∧ m.kernel.current = 0 ∧
      ∃ mid : Finset Nat,
        (∀ t, t ∈ mid ↔ t ≠ m.kernel.current ∧ Frame.handlerTime ∈ m.stack t) ∧
        (∀ t, (m.stack t).count .handlerTime ≤ 1) ∧ m.loop.toNat < 100 ∧
        (m.sysTick.toNat : Int) ≡
          100 * ((m.timestamp.toNat : Int) - (bootTime (fun _ => 0)).toNat) + m.loop.toNat +
            mid.card [ZMOD 2 ^ 32] := by
  have booted : TickRun Boot.zeroed (fun _ => 0) (timeInit (fun _ => 0) Boot.two) := .start rfl
  have left : TickRun Boot.zeroed (fun _ => 0) _ := .interrupt booted rfl rfl
  have back : TickRun Boot.zeroed (fun _ => 0) _ := .interrupt left rfl rfl
  have finished : TickRun Boot.zeroed (fun _ => 0) _ := .finish back rfl
  exact ⟨_, rfl, rfl, rfl, tickRun_accounted finished rfl⟩

end MangoOS
