/-
What a task sees of the others: a call of schedule returns with the stack and the registers that
a C function keeps, and a trap ends with the processor as it was, whatever ran in between.
-/

import MangoOS.Kernel.ThreadRuns

namespace MangoOS

open Machine TaskBytes

variable {L : Stacks} {s : SwitchKernel} {a : Threads} {e : KernelEvent}
  {events : List KernelEvent} {task : Nat}

/-! ### The stacks of the other tasks -/

/-- No event writes the stack of a task that does not run. -/
theorem Agrees.step_stack (agrees : Agrees L s a) (permitted : Permitted L s a e)
    (known : task ∈ s.tasks) (other : task ≠ a.current) {x : Nat} (lower : L.low task ≤ x)
    (upper : x < L.high task) : (s.step L e).memory.mem x = s.memory.mem x := by
  have kept : Kept L s.tasks a x := .stack known other lower upper
  have kernelStacks := agrees.apart.kernelStacks task known a.current agrees.known other
  have below := bottom_le agrees.memory.own
  cases e with
  | work cpu memory => exact permitted.bytes x kept
  | schedule next work eip =>
      change (s.schedule L next work).memory.mem x = _
      unfold SwitchKernel.schedule
      dsimp only
      rw [agrees.memory.current]
      by_cases same : a.current = next
      · rw [if_pos same]
      · rw [if_neg same]
        have away := (agrees.apart.current task known).2
        unfold WordApart at away
        exact (agrees.switchedAway permitted same).bytes x kept (by omega)
  | taskInit task entry dir =>
      exact fillTask_spared entry (permitted.spared agrees.known agrees.low_bottom kept)
  | trap t =>
      have ready := agrees.trapReady (t := t) permitted.2
      have low := ready.low
      have top := ready.top
      have enough : 84 ≤ s.machine.trapStack s.tr := by omega
      have stop := trapFrame_stop s.machine s.tr t enough
      have trapped := trap_trapped s.machine s.tr t enough
      have length := (s.machine.trapFrame s.tr t).words_length
      have size : 4 * (s.machine.trapFrame s.tr t).words.length ≤ 76 := by
        rw [length]
        split <;> omega
      unfold ExceptionFrame.stop at stop
      exact trapped.bytes x (by unfold ExceptionFrame.stop; omega)
  | answer frame value =>
      obtain ⟨ring0, f, fs, isFrames, rfl⟩ := permitted
      rw [agrees.cpu] at ring0
      have own := agrees.memory.own
      have least := (agrees.kernel ring0).1
      rw [isFrames] at own least
      obtain ⟨⟨room, _, stop, _⟩, rest⟩ := own
      have length := f.words_length
      have inside := bottom_le rest
      have inStack : a.cpu.esp ≤ f.start - 4 := least.2
      have fields : f.start + 68 ≤ f.stop := by
        unfold ExceptionFrame.stop
        split at length <;> omega
      exact ByteMemory.setWord_other _ _ (by omega)
  | leave =>
      change s.machine.leave.mem x = _
      rw [leave_mem]
      rfl
  | execve dir =>
      have off := kept.off_field agrees.apart agrees.known agrees.low_bottom
      unfold SwitchField at off
      change (s.memory.mem.setWord (s.memory.mem.word L.currentAt + cr3At) dir.toNat) x = _
      rw [agrees.memory.current]
      exact ByteMemory.setWord_other _ _ (by omega)
  | userMode work entry stackTop =>
      obtain ⟨ring0, _, room⟩ := permitted
      have isKernel : ¬ a.cpu.User := by
        rw [← agrees.cpu]
        exact ring0
      obtain ⟨low, high⟩ := (agrees.kernel isKernel).1
      rw [agrees.cpu] at room
      have bytes := (switchToUserMode_cpu (m := s.machine) work entry stackTop
        ring0 (by
          change 20 ≤ s.cpu.esp
          rw [agrees.cpu]
          omega)).2 x
      exact bytes (by
        change x < s.cpu.esp - 20 ∨ s.cpu.esp ≤ x
        rw [agrees.cpu]
        omega)

theorem step_tasks (L : Stacks) (s : SwitchKernel) (e : KernelEvent) (known : task ∈ s.tasks) :
    task ∈ (s.step L e).tasks := by
  cases e with
  | schedule next work eip =>
      change task ∈ (s.schedule L next work).tasks
      unfold SwitchKernel.schedule
      dsimp only
      split
      · exact known
      · exact known
  | taskInit task entry dir => exact List.mem_cons_of_mem _ known
  | work cpu memory => exact known
  | trap t => exact known
  | answer frame value => exact known
  | leave => exact known
  | execve dir => exact known
  | userMode work entry stackTop => exact known

theorem setFrames_thread (a : Threads) (fs : List ExceptionFrame) (other : task ≠ a.current) :
    (a.setFrames fs).thread task = a.thread task := Function.update_of_ne other _ _

/-- Only the running task and a new one change. -/
theorem step_thread (permitted : Permitted L s a e) (known : task ∈ s.tasks)
    (other : task ≠ a.current) : (a.step e).thread task = a.thread task := by
  cases e with
  | work cpu memory => rfl
  | schedule next work eip =>
      change (if a.current = next then a else (a.park work eip).resume next).thread task = _
      by_cases same : a.current = next
      · rw [if_pos same]
      · rw [if_neg same]
        exact Function.update_of_ne other _ _
  | taskInit new entry dir =>
      refine Function.update_of_ne ?_ _ _
      rintro rfl
      exact permitted.new known
  | trap t => exact setFrames_thread a _ other
  | answer frame value =>
      change (a.answer value).thread task = _
      unfold Threads.answer
      split
      · rfl
      · exact setFrames_thread a _ other
  | leave =>
      change a.leave.thread task = _
      unfold Threads.leave
      split
      · rfl
      · exact setFrames_thread a _ other
  | execve dir => rfl
  | userMode work entry stackTop => exact setFrames_thread a _ other

/-! ### schedule returns -/

/-- The task does not run. -/
def Away (task : Nat) : Threads → List KernelEvent → Prop
  | a, [] => task ≠ a.current
  | a, e :: events => task ≠ a.current ∧ Away task (a.step e) events

theorem run_append (L : Stacks) (s : SwitchKernel) (first second : List KernelEvent) :
    s.run L (first ++ second) = (s.run L first).run L second := List.foldl_append

theorem threads_append (a : Threads) (first second : List KernelEvent) :
    a.run (first ++ second) = (a.run first).run second := List.foldl_append

theorem permitted_append {first second : List KernelEvent} :
    PermittedRun L s a (first ++ second) ↔
      PermittedRun L s a first ∧ PermittedRun L (s.run L first) (a.run first) second := by
  induction first generalizing s a with
  | nil => exact ⟨fun later => ⟨trivial, later⟩, And.right⟩
  | cons e first ih =>
      rw [List.cons_append]
      change Permitted L s a e ∧ PermittedRun _ _ _ _ ↔
        (Permitted L s a e ∧ PermittedRun _ _ _ _) ∧ _
      rw [ih, and_assoc]
      exact Iff.rfl

/-- What the other tasks do while a task does not run. -/
structure AwayUntouched (L : Stacks) (s : SwitchKernel) (a : Threads) (task : Nat)
    (events : List KernelEvent) : Prop where
  thread : (a.run events).thread task = a.thread task
  known : task ∈ (s.run L events).tasks
  other : task ≠ (a.run events).current
  stack : ∀ x, L.low task ≤ x → x < L.high task →
    (s.run L events).memory.mem x = s.memory.mem x

theorem Away.untouched (away : Away task a events) (agrees : Agrees L s a)
    (permitted : PermittedRun L s a events) (known : task ∈ s.tasks) :
    AwayUntouched L s a task events := by
  induction events generalizing s a with
  | nil => exact ⟨rfl, known, away, fun _ _ _ => rfl⟩
  | cons e events ih =>
      obtain ⟨other, away⟩ := away
      have later := ih away (agrees.step permitted.1) permitted.2 (step_tasks L s e known)
      refine ⟨later.thread.trans (step_thread permitted.1 known other), later.known, later.other,
        ?_⟩
      intro x lower upper
      exact (later.stack x lower upper).trans
        (agrees.step_stack permitted.1 known other lower upper)

/-- What a task finds when `schedule` returns to it. -/
structure ScheduleReturned (L : Stacks) (s after : SwitchKernel) (task : Nat) (eip : BitVec 32) :
    Prop where
  calleeSaved : ∀ r ∈ [Reg.ebx, .ebp, .esi, .edi], after.cpu.reg r = s.cpu.reg r
  esp : after.cpu.esp = s.cpu.esp + 4
  eip : after.cpu.eip = eip
  eflags : after.cpu.eflags = s.cpu.eflags
  cr3 : after.cpu.cr3 = s.cpu.cr3
  current : after.memory.mem.word L.currentAt = task
  tr : task ≠ L.idle → after.tr = task + tssAt
  stack : ∀ x, s.cpu.esp + 4 ≤ x → x < L.high task → after.memory.mem x = s.memory.mem x

theorem step_switched {next : Nat} {work : Reg → BitVec 32} {eip : BitVec 32}
    (different : a.current ≠ next) :
    a.step (.schedule next work eip) = (a.park work eip).resume next := if_neg different

/-- The switch does not write the stack from the return address upwards. -/
theorem Agrees.schedule_own {next : Nat} {work : Reg → BitVec 32} {eip : BitVec 32}
    (agrees : Agrees L s a) (permitted : Permitted L s a (.schedule next work eip))
    (different : a.current ≠ next) {x : Nat} (lower : s.cpu.esp ≤ x)
    (upper : x < L.high a.current) :
    (s.step L (.schedule next work eip)).memory.mem x = s.memory.mem x := by
  have own := (agrees.switchedAway permitted different).own x lower upper
  change (s.schedule L next work).memory.mem x = _
  unfold SwitchKernel.schedule
  dsimp only
  rw [agrees.memory.current, if_neg different]
  exact own

/-- A call of `schedule` returns like a call of any C function, whatever the other tasks did. -/
theorem schedule_returns {next : Nat} {work later : Reg → BitVec 32} {eip back : BitVec 32}
    (agrees : Agrees L s a)
    (permitted : PermittedRun L s a
      (.schedule next work eip :: (events ++ [.schedule a.current later back])))
    (kept : ∀ r ∈ [Reg.ebp, .esi, .edi], work r = s.cpu.reg r) (different : a.current ≠ next)
    (away : Away a.current (a.step (.schedule next work eip)) events) :
    ScheduleReturned L s
      (s.run L (.schedule next work eip :: (events ++ [.schedule a.current later back])))
      a.current eip := by
  obtain ⟨leaves, rest⟩ := permitted
  obtain ⟨others, returns⟩ := permitted_append.mp rest
  have isCpu := agrees.cpu
  have low := (agrees.kernel (isCpu ▸ leaves.1)).1.1
  have left := agrees.step leaves
  have untouched := away.untouched left others (step_tasks L s _ agrees.known)
  have between := left.run others
  have own := fun x => agrees.schedule_own leaves different (x := x)
  have parked : (a.step (.schedule next work eip)).thread a.current =
      { a.thread a.current with
        context := Context.ofCpu a.cpu work eip
        esp := a.cpu.esp + 4
        dir := a.cpu.cr3 } := by
    rw [step_switched different]
    exact Function.update_self ..
  have thread := untouched.thread.trans parked
  have stack := untouched.stack
  have known := untouched.known
  have other := untouched.other
  change ScheduleReturned L s ((s.step L (.schedule next work eip)).run L (events ++ _)) _ _
  rw [run_append]
  generalize (s.step L (.schedule next work eip)).run L events = s2 at *
  generalize (a.step (.schedule next work eip)).run events = a2 at *
  have ends := between.step returns.1
  have lastBytes := fun x => between.step_stack returns.1 known other (x := x)
  have isThread : (a2.park later back).thread a.current = a2.thread a.current :=
    Function.update_of_ne other _ _
  have resumed : (a2.step (.schedule a.current later back)).cpu =
      { (Context.ofCpu a.cpu work eip).resume a2.cpu (a.cpu.esp + 4) with cr3 := a.cpu.cr3 } := by
    rw [step_switched (Ne.symm other)]
    unfold Threads.resume
    rw [isThread, thread]
    rfl
  have isCurrent : (a2.step (.schedule a.current later back)).current = a.current := by
    rw [step_switched (Ne.symm other)]
    rfl
  have finalCpu := ends.cpu.trans resumed
  have finalCurrent := ends.memory.current.trans isCurrent
  have finalTr := ends.tss
  rw [isCurrent] at finalTr
  change ScheduleReturned L s (s2.step L (.schedule a.current later back)) _ _
  refine ⟨?_, ?_, ?_, ?_, ?_, finalCurrent, finalTr, ?_⟩
  · intro r saved
    rw [finalCpu]
    rw [isCpu] at kept ⊢
    exact Context.ofCpu_calleeSaved eip kept r saved
  · rw [finalCpu, isCpu]
    rfl
  · rw [finalCpu]
    rfl
  · rw [finalCpu, isCpu]
    rfl
  · rw [finalCpu, isCpu]
  · intro x lower upper
    have inside : L.low a.current ≤ x := by
      rw [isCpu] at lower
      omega
    exact (lastBytes x inside upper).trans ((stack x inside upper).trans (own x (by omega) upper))

/-- The kernel with the init task, which has not run yet. -/
def secondKernel : SwitchKernel := firstKernel.step firstStacks (.taskInit 8192 1000 4096)

def secondThreads : Threads := firstThreads.step (.taskInit 8192 1000 4096)

theorem secondKernel_agrees : Agrees firstStacks secondKernel secondThreads :=
  firstKernel_booted.agrees.step (e := .taskInit 8192 1000 4096) firstKernel_begins

/-- The idle task calls `schedule`, and the init task does. -/
def leaveIdle : KernelEvent := .schedule 8192 (fun _ => 0) secondKernel.machine.top

def intoSchedule : KernelEvent :=
  .work { (secondThreads.step leaveIdle).cpu with esp := 16300 }
    (secondKernel.step firstStacks leaveIdle).memory

def backToIdle : KernelEvent :=
  .schedule 0 (fun _ => 0)
    ((secondKernel.step firstStacks leaveIdle).step firstStacks intoSchedule).machine.top

theorem leaveIdle_permitted : Permitted firstStacks secondKernel secondThreads leaveIdle :=
  ⟨by decide, List.mem_cons_self .., rfl, by decide, by decide⟩

theorem intoSchedule_permitted :
    Permitted firstStacks (secondKernel.step firstStacks leaveIdle)
      (secondThreads.step leaveIdle) intoSchedule := by
  have isCpu := (secondKernel_agrees.step leaveIdle_permitted).cpu
  refine ⟨?_, ?_, ?_, by decide, fun _ => by decide, fun _ _ => rfl⟩
  · rw [isCpu]
  · rw [isCpu]
  · rw [isCpu]

theorem idle_away_permitted :
    PermittedRun firstStacks secondKernel secondThreads
      (leaveIdle :: ([intoSchedule] ++ [backToIdle])) := by
  have known : 0 ∈ secondKernel.tasks := List.mem_cons_of_mem _ (List.mem_cons_self ..)
  have later := step_tasks firstStacks _ intoSchedule (step_tasks firstStacks _ leaveIdle known)
  exact ⟨leaveIdle_permitted, intoSchedule_permitted,
    ⟨by decide, later, rfl, by decide, by decide⟩, trivial⟩

theorem schedule_returns_idle :
    ScheduleReturned firstStacks secondKernel
      (secondKernel.run firstStacks (leaveIdle :: ([intoSchedule] ++ [backToIdle]))) 0
      secondKernel.machine.top :=
  schedule_returns secondKernel_agrees idle_away_permitted (by decide) (by decide)
    ⟨by decide, show 0 ≠ 8192 by decide⟩

/-! ### Traps return -/

namespace Threads

/-- The page directory of a task. -/
def directory (a : Threads) (task : Nat) : BitVec 32 :=
  if task = a.current then a.cpu.cr3 else (a.thread task).dir

/-- The task does not execute another program, nor answer the trap with `depth` traps below. -/
def Gentle (a : Threads) (task depth : Nat) : KernelEvent → Prop
  | .answer _ _ => task = a.current → depth + 1 < a.frames.length
  | .execve _ => task ≠ a.current
  | _ => True

/-- The handler of the trap with `depth` traps below it runs, and comes to its end. -/
def Handling (task depth : Nat) : Threads → List KernelEvent → Prop
  | a, [] => task = a.current ∧ a.frames.length = depth + 1
  | a, e :: events =>
      depth < (a.thread task).frames.length ∧ a.Gentle task depth e ∧
        Handling task depth (a.step e) events

end Threads

theorem thread_setFrames (a : Threads) (fs : List ExceptionFrame) :
    ((a.setFrames fs).thread a.current).frames = fs := frames_setFrames a fs

/-- The directory of a task that does not run is the one that it goes on with. -/
theorem step_directory (permitted : Permitted L s a e) (known : task ∈ s.tasks)
    (other : task ≠ a.current) : (a.step e).directory task = a.directory task := by
  have thread := step_thread permitted known other
  have same : ∀ current, (a.step e).current = current → task ≠ current →
      (a.step e).directory task = a.directory task := by
    rintro current rfl away
    unfold Threads.directory
    rw [if_neg away, if_neg other, thread]
  cases e with
  | schedule next work eip =>
      by_cases stays : a.current = next
      · have isSame : a.step (.schedule next work eip) = a := if_pos stays
        rw [isSame]
      · by_cases isNext : task = next
        · have resumed : (a.park work eip).thread task = a.thread task :=
            Function.update_of_ne other _ _
          rw [step_switched stays]
          unfold Threads.directory
          rw [if_neg other, ← resumed, isNext]
          exact if_pos rfl
        · refine same next ?_ isNext
          rw [step_switched stays]
          rfl
  | answer frame value =>
      refine same a.current ?_ other
      change (a.answer value).current = _
      unfold Threads.answer
      split <;> rfl
  | leave =>
      refine same a.current ?_ other
      change a.leave.current = _
      unfold Threads.leave
      split <;> rfl
  | work cpu memory => exact same a.current rfl other
  | taskInit new entry dir => exact same a.current rfl other
  | trap t => exact same a.current rfl other
  | execve dir => exact same a.current rfl other
  | userMode work entry stackTop => exact same a.current rfl other

/-- The running task pushes and pops traps above the handler. -/
theorem step_running {depth : Nat} {above kept : List ExceptionFrame} (permitted : Permitted L s a e)
    (isCpu : s.cpu = a.cpu) (known : a.current ∈ s.tasks) (gentle : a.Gentle a.current depth e)
    (frames : a.frames = above ++ kept) (length : kept.length = depth + 1)
    (inside : depth < ((a.step e).thread a.current).frames.length) :
    (∃ above, ((a.step e).thread a.current).frames = above ++ kept) ∧
      (a.step e).directory a.current = a.directory a.current := by
  have running : a.directory a.current = a.cpu.cr3 := if_pos rfl
  have cr3 : ∀ cpu : Cpu, ∀ fs, ({ a.setFrames fs with cpu := cpu } : Threads).directory a.current =
      cpu.cr3 := fun _ _ => if_pos rfl
  rw [running]
  cases e with
  | work cpu memory =>
      refine ⟨⟨above, frames⟩, ?_⟩
      have kept : cpu.cr3 = s.cpu.cr3 := permitted.cr3
      rw [isCpu] at kept
      exact (if_pos rfl).trans kept
  | schedule next work eip =>
      by_cases stays : a.current = next
      · have isSame : a.step (.schedule next work eip) = a := if_pos stays
        rw [isSame]
        exact ⟨⟨above, frames⟩, running⟩
      · have parked : ((a.park work eip).resume next).thread a.current =
            { a.thread a.current with
              context := Context.ofCpu a.cpu work eip
              esp := a.cpu.esp + 4
              dir := a.cpu.cr3 } := Function.update_self ..
        rw [step_switched stays]
        unfold Threads.directory
        rw [parked]
        exact ⟨⟨above, frames⟩, if_neg stays⟩
  | taskInit new entry dir =>
      have other : a.current ≠ new := by
        intro same
        exact permitted.new (same ▸ known)
      have isThread : (a.step (.taskInit new entry dir)).thread a.current = a.thread a.current :=
        Function.update_of_ne other _ _
      rw [isThread]
      exact ⟨⟨above, frames⟩, if_pos rfl⟩
  | trap t =>
      refine ⟨⟨a.trapFrame t :: above, ?_⟩, cr3 _ _⟩
      change ((a.setFrames _).thread a.current).frames = _
      rw [thread_setFrames, frames]
      rfl
  | answer frame value =>
      obtain ⟨_, f, fs, isFrames, _⟩ := permitted
      have deep : depth + 1 < a.frames.length := gentle rfl
      have answered : a.step (.answer frame value) = a.setFrames (f.setEax value :: fs) := by
        change a.answer value = _
        unfold Threads.answer
        rw [isFrames]
      rw [answered]
      refine ⟨?_, if_pos rfl⟩
      rw [thread_setFrames]
      cases above with
      | nil =>
          rw [frames, List.nil_append, length] at deep
          exact absurd deep (Nat.lt_irrefl _)
      | cons g above =>
          rw [frames] at isFrames
          obtain ⟨_, rfl⟩ := List.cons.inj isFrames
          exact ⟨f.setEax value :: above, rfl⟩
  | leave =>
      obtain ⟨_, f, fs, isFrames, _⟩ := permitted
      have left : a.step .leave =
          { a.setFrames fs with cpu := { f.cpu with cr3 := a.cpu.cr3 } } := by
        change a.leave = _
        unfold Threads.leave
        rw [isFrames]
      rw [left] at inside ⊢
      refine ⟨?_, cr3 _ _⟩
      change depth < ((a.setFrames fs).thread a.current).frames.length at inside
      change ∃ above, ((a.setFrames fs).thread a.current).frames = _
      rw [thread_setFrames] at inside ⊢
      cases above with
      | nil =>
          rw [frames, List.nil_append] at isFrames
          rw [isFrames, List.length_cons] at length
          omega
      | cons g above =>
          rw [frames] at isFrames
          obtain ⟨_, rfl⟩ := List.cons.inj isFrames
          exact ⟨above, rfl⟩
  | execve dir => exact absurd rfl gentle
  | userMode work entry stackTop =>
      change depth < ((a.setFrames []).thread a.current).frames.length at inside
      rw [thread_setFrames] at inside
      exact absurd inside (Nat.not_lt_zero _)

/-- A step in a handler changes neither its frame nor those below. -/
theorem step_suffix {depth : Nat} {above kept : List ExceptionFrame} (permitted : Permitted L s a e)
    (isCpu : s.cpu = a.cpu) (known : task ∈ s.tasks) (gentle : a.Gentle task depth e)
    (frames : (a.thread task).frames = above ++ kept) (length : kept.length = depth + 1)
    (inside : depth < ((a.step e).thread task).frames.length) :
    (∃ above, ((a.step e).thread task).frames = above ++ kept) ∧
      (a.step e).directory task = a.directory task := by
  by_cases running : task = a.current
  · subst running
    exact step_running permitted isCpu known gentle frames length inside
  · refine ⟨⟨above, ?_⟩, step_directory permitted known running⟩
    rw [step_thread permitted known running]
    exact frames

/-- The frames of a stack lie one below the other. -/
theorem FramesOn.below {mem : ByteMemory} {high : Nat} {above fs : List ExceptionFrame} {f : ExceptionFrame}
    (frames : FramesOn mem high (above ++ f :: fs)) :
    bottom high (above ++ f :: fs) < f.stop ∧ ∀ g ∈ above, g.stop < f.stop := by
  have upward : ∀ g : ExceptionFrame, 4 ≤ g.start → g.start - 4 < g.stop := by
    intro g room
    unfold ExceptionFrame.stop
    omega
  induction above with
  | nil => exact ⟨upward f frames.1.1, fun g member => absurd member List.not_mem_nil⟩
  | cons g above ih =>
      obtain ⟨first, others⟩ := ih frames.2
      have own := upward g frames.1.1
      have stop : g.stop ≤ bottom high (above ++ f :: fs) := frames.1.2.2.1
      refine ⟨?_, ?_⟩
      · change g.start - 4 < f.stop
        omega
      · intro h member
        rcases List.mem_cons.mp member with rfl | inside
        · omega
        · exact others h inside

/-- No event of a handler writes the stack behind its frame. -/
theorem Agrees.step_behind {above fs : List ExceptionFrame} {f : ExceptionFrame} {depth : Nat}
    (agrees : Agrees L s a) (permitted : Permitted L s a e)
    (isFrames : a.frames = above ++ f :: fs)
    (inside : depth < ((a.step e).thread a.current).frames.length) {x : Nat}
    (lower : f.stop ≤ x) (upper : x < L.high a.current) :
    (s.step L e).memory.mem x = s.memory.mem x := by
  have own := agrees.memory.own
  rw [isFrames] at own
  obtain ⟨bottomBelow, others⟩ := own.below
  have isBottom : bottom (L.high a.current) a.frames < f.stop := isFrames ▸ bottomBelow
  have kept : Kept L s.tasks a x := .frame (by omega) upper
  have across := agrees.apart.across a.current agrees.known a.current agrees.known
  cases e with
  | work cpu memory => exact permitted.bytes x kept
  | schedule next work eip =>
      have top := permitted.2.2.2.2
      by_cases same : a.current = next
      · change (s.schedule L next work).memory.mem x = _
        unfold SwitchKernel.schedule
        dsimp only
        rw [agrees.memory.current, if_pos same]
      · exact agrees.schedule_own permitted same (by omega) upper
  | taskInit task entry dir =>
      exact fillTask_spared entry (permitted.spared agrees.known agrees.low_bottom kept)
  | trap t =>
      have ready := agrees.trapReady (t := t) permitted.2
      have low := ready.low
      have top := ready.top
      have enough : 84 ≤ s.machine.trapStack s.tr := by omega
      have stop := trapFrame_stop s.machine s.tr t enough
      exact (trap_trapped s.machine s.tr t enough).bytes x (by omega)
  | answer frame value =>
      obtain ⟨_, g, gs, isTop, rfl⟩ := permitted
      have fields : g.start + 68 ≤ g.stop := by
        have length := g.words_length
        unfold ExceptionFrame.stop
        split at length <;> omega
      have topStop : g.stop ≤ f.stop := by
        cases above with
        | nil =>
            obtain ⟨rfl, _⟩ := List.cons.inj (isTop.symm.trans isFrames)
            exact Nat.le_refl _
        | cons h above =>
            obtain ⟨rfl, _⟩ := List.cons.inj (isTop.symm.trans isFrames)
            exact Nat.le_of_lt (others g (List.mem_cons_self ..))
      exact ByteMemory.setWord_other _ _ (by omega)
  | leave =>
      change s.machine.leave.mem x = _
      rw [leave_mem]
      rfl
  | execve dir =>
      have off := kept.off_field agrees.apart agrees.known agrees.low_bottom
      unfold SwitchField at off
      change (s.memory.mem.setWord (s.memory.mem.word L.currentAt + cr3At) dir.toNat) x = _
      rw [agrees.memory.current]
      exact ByteMemory.setWord_other _ _ (by omega)
  | userMode work entry stackTop =>
      change depth < ((a.setFrames []).thread a.current).frames.length at inside
      rw [thread_setFrames] at inside
      exact absurd inside (Nat.not_lt_zero _)

theorem Threads.Handling.inside {depth : Nat} (handling : a.Handling task depth events) :
    depth < (a.thread task).frames.length := by
  cases events with
  | nil =>
      obtain ⟨isCurrent, length⟩ := handling
      rw [isCurrent]
      change depth < a.frames.length
      omega
  | cons e events => exact handling.1

/-- The end of a handler: its frame is on top, with the directory and the stack behind it that
the task had. -/
structure HandlerEnds (L : Stacks) (s : SwitchKernel) (a : Threads) (task : Nat) (f : ExceptionFrame)
    (fs : List ExceptionFrame) (last : SwitchKernel) (lastThreads : Threads) : Prop where
  current : lastThreads.current = task
  frames : lastThreads.frames = f :: fs
  cr3 : lastThreads.cpu.cr3 = a.directory task
  stack : ∀ x, f.stop ≤ x → L.low task ≤ x → x < L.high task →
    last.memory.mem x = s.memory.mem x

theorem Threads.Handling.ends {depth : Nat} {above fs : List ExceptionFrame} {f : ExceptionFrame}
    (agrees : Agrees L s a) (permitted : PermittedRun L s a events) (known : task ∈ s.tasks)
    (handling : a.Handling task depth events) (frames : (a.thread task).frames = above ++ f :: fs)
    (length : (f :: fs).length = depth + 1) :
    HandlerEnds L s a task f fs (s.run L events) (a.run events) := by
  induction events generalizing s a above with
  | nil =>
      obtain ⟨isCurrent, total⟩ := handling
      have same : a.frames = above ++ f :: fs := by
        rw [isCurrent] at frames
        exact frames
      rw [same, List.length_append, length] at total
      have empty : above = [] := List.length_eq_zero_iff.mp (by omega)
      refine ⟨isCurrent.symm, ?_, ?_, fun _ _ _ _ => rfl⟩
      · change a.frames = _
        rw [same, empty]
        rfl
      · rw [isCurrent]
        exact (if_pos rfl).symm
  | cons e events ih =>
      obtain ⟨inside, gentle, later⟩ := handling
      have deep := later.inside
      obtain ⟨⟨next, suffix⟩, directory⟩ :=
        step_suffix permitted.1 agrees.cpu known gentle frames length deep
      have ends := ih (agrees.step permitted.1) permitted.2 (step_tasks L s e known) later suffix
      refine ⟨ends.current, ends.frames, ends.cr3.trans directory, ?_⟩
      intro x lower low upper
      refine (ends.stack x lower low upper).trans ?_
      by_cases running : task = a.current
      · subst running
        exact agrees.step_behind permitted.1 frames deep lower upper
      · exact agrees.step_stack permitted.1 known running low upper

theorem frames_trap (a : Threads) (t : Trap) :
    ((a.step (.trap t)).thread a.current).frames = a.trapFrame t :: a.frames :=
  thread_setFrames a _

/-- The frame of a trap is on top again when its handler ends. -/
theorem Threads.Handling.trapEnds {t : Trap} (agrees : Agrees L s a)
    (permitted : Permitted L s a (.trap t))
    (later : PermittedRun L (s.step L (.trap t)) (a.step (.trap t)) events)
    (handling : (a.step (.trap t)).Handling a.current a.frames.length events) :
    HandlerEnds L (s.step L (.trap t)) (a.step (.trap t)) a.current (a.trapFrame t) a.frames
      ((s.step L (.trap t)).run L events) ((a.step (.trap t)).run events) :=
  handling.ends (agrees.step permitted) later (step_tasks L s (.trap t) agrees.known)
    (show _ = [] ++ a.trapFrame t :: a.frames from frames_trap a t) rfl

theorem leave_cpu {f : ExceptionFrame} {fs : List ExceptionFrame} (isFrames : a.frames = f :: fs) :
    (a.step .leave).cpu = { f.cpu with cr3 := a.cpu.cr3 } := by
  change a.leave.cpu = _
  unfold Threads.leave
  rw [isFrames]

theorem trap_cpu {t : Trap} (agrees : Agrees L s a)
    (permitted : PermittedRun L s a (.trap t :: (events ++ [.leave])))
    (handling : (a.step (.trap t)).Handling a.current a.frames.length events) :
    (s.run L (.trap t :: (events ++ [.leave]))).cpu = s.cpu := by
  obtain ⟨enters, rest⟩ := permitted
  have final := (agrees.step enters).run rest
  obtain ⟨handles, leaves⟩ := permitted_append.mp rest
  have ends := handling.trapEnds agrees enters handles
  refine final.cpu.trans ?_
  rw [threads_append]
  refine (leave_cpu ends.frames).trans ?_
  rw [ends.cr3, agrees.cpu]
  have same : (a.step (.trap t)).directory a.current = a.cpu.cr3 := if_pos rfl
  rw [same]
  rfl

/-- What an interrupted program finds. -/
structure TrapReturned (L : Stacks) (s after : SwitchKernel) (task : Nat) : Prop where
  cpu : after.cpu = s.cpu
  current : after.memory.mem.word L.currentAt = task
  tr : task ≠ L.idle → after.tr = task + tssAt
  stack : ∀ x, s.machine.trapStack s.tr ≤ x → x < L.high task → after.memory.mem x = s.memory.mem x

/-- An interrupted program cannot tell that it was interrupted: whatever the handler does and
whichever tasks run before it returns, the processor and the stack are as they were. -/
theorem trap_returns {t : Trap} (agrees : Agrees L s a)
    (permitted : PermittedRun L s a (.trap t :: (events ++ [.leave])))
    (handling : (a.step (.trap t)).Handling a.current a.frames.length events) :
    TrapReturned L s (s.run L (.trap t :: (events ++ [.leave]))) a.current := by
  have cpu := trap_cpu agrees permitted handling
  have final := agrees.run permitted
  obtain ⟨enters, rest⟩ := permitted
  obtain ⟨handles, leaves⟩ := permitted_append.mp rest
  have ends := handling.trapEnds agrees enters handles
  have ready := agrees.trapReady (t := t) enters.2
  have low := ready.low
  have enough : 84 ≤ s.machine.trapStack s.tr := by omega
  have stop := trapFrame_stop s.machine s.tr t enough
  have trapped := trap_trapped s.machine s.tr t enough
  rw [ready.frame] at stop trapped
  have left : ((a.step (.trap t)).run events).step .leave =
      { ((a.step (.trap t)).run events).setFrames a.frames with
        cpu := { (a.trapFrame t).cpu with cr3 := ((a.step (.trap t)).run events).cpu.cr3 } } := by
    change ((a.step (.trap t)).run events).leave = _
    unfold Threads.leave
    rw [ends.frames]
  have isCurrent : (a.run (.trap t :: (events ++ [.leave]))).current = a.current := by
    change ((a.step (.trap t)).run (events ++ [.leave])).current = _
    rw [threads_append]
    change (((a.step (.trap t)).run events).step .leave).current = _
    rw [left]
    exact ends.current
  have tss := final.tss
  rw [isCurrent] at tss
  refine ⟨cpu, final.memory.current.trans isCurrent, tss, ?_⟩
  intro x lower upper
  have behind : ((s.step L (.trap t)).run L events).memory.mem x =
      (s.step L (.trap t)).memory.mem x :=
    ends.stack x (by omega) (by omega) upper
  change ((s.step L (.trap t)).run L (events ++ [.leave])).memory.mem x = _
  rw [run_append]
  change ((s.step L (.trap t)).run L events).machine.leave.mem x = _
  rw [leave_mem]
  exact behind.trans (trapped.bytes x (by omega))

/-- The timer interrupts the idle task, and its handler returns. -/
def timerTrap : Trap where
  gate := ⟨8, 4660⟩
  num := 0x20
  error := none
  returnTo := 0

def handlerReturns (start : Nat) (s : SwitchKernel) (a : Threads) : KernelEvent :=
  .work { a.cpu with esp := start - 4 } s.memory

theorem handlerReturns_permitted {f : ExceptionFrame} {fs : List ExceptionFrame} (agrees : Agrees L s a)
    (kernel : ¬ a.cpu.User) (isFrames : a.frames = f :: fs) (enters : a.cpu.esp + 4 = f.start - 4) :
    PermittedRun L s a [handlerReturns f.start s a, .leave] := by
  have least := (agrees.kernel kernel).1
  have small := agrees.small
  have same : Works L s a { a.cpu with esp := f.start - 4 } s.memory := by
    refine ⟨?_, ?_, ?_, ?_, ?_, fun _ _ => rfl⟩
    · rw [agrees.cpu]
    · rw [agrees.cpu]
    · rw [agrees.cpu]
    · have top := bottom_le agrees.memory.own
      have limit := (agrees.apart.small a.current agrees.known).2
      rw [isFrames] at top
      change f.start - 4 ≤ _ at top
      exact Nat.lt_of_le_of_lt top limit
    · intro _
      rw [isFrames]
      refine ⟨?_, Nat.le_refl _⟩
      change L.low a.current ≤ f.start - 4
      omega
  have own := agrees.memory.own
  rw [isFrames] at own
  refine ⟨same, ⟨kernel, f, fs, isFrames, ?_⟩, trivial⟩
  change f.start - 4 + 4 = f.start
  exact Nat.sub_add_cancel own.1.1

theorem timerTrap_permitted : Permitted firstStacks firstKernel firstThreads (.trap timerTrap) :=
  ⟨by decide, fun _ => by decide⟩

theorem trap_returns_idle :
    TrapReturned firstStacks firstKernel (firstKernel.run firstStacks (.trap timerTrap ::
      ([handlerReturns 3932 (firstKernel.step firstStacks (.trap timerTrap))
        (firstThreads.step (.trap timerTrap))] ++ [.leave]))) 0 := by
  have booted : Agrees firstStacks firstKernel firstThreads := firstKernel_booted.agrees
  have handles := handlerReturns_permitted (booted.step timerTrap_permitted) (by decide)
    (show _ = [firstThreads.trapFrame timerTrap] from rfl) (by decide)
  exact trap_returns booted ⟨timerTrap_permitted, handles⟩ ⟨by decide, trivial, rfl, rfl⟩

/-- A system call changes one register of the program that makes it. -/
theorem syscall_cpu {t : Trap} {frame : Nat} {value : BitVec 32} (agrees : Agrees L s a)
    (permitted : PermittedRun L s a (.trap t :: (events ++ [.answer frame value, .leave])))
    (handling : (a.step (.trap t)).Handling a.current a.frames.length events) :
    (s.run L (.trap t :: (events ++ [.answer frame value, .leave]))).cpu =
      { s.cpu with reg := Function.update s.cpu.reg .eax value } := by
  obtain ⟨enters, rest⟩ := permitted
  have final := (agrees.step enters).run rest
  obtain ⟨handles, leaves⟩ := permitted_append.mp rest
  have ends := handling.trapEnds agrees enters handles
  have isFrames := ends.frames
  have cr3 : ((a.step (.trap t)).run events).cpu.cr3 = a.cpu.cr3 := ends.cr3.trans (if_pos rfl)
  refine final.cpu.trans ?_
  rw [threads_append]
  generalize (a.step (.trap t)).run events = last at isFrames cr3 ⊢
  have answered : last.step (.answer frame value) =
      last.setFrames ((a.trapFrame t).setEax value :: a.frames) := by
    change last.answer value = _
    unfold Threads.answer
    rw [isFrames]
  change ((last.step (.answer frame value)).step .leave).cpu = _
  rw [answered, leave_cpu (frames_setFrames last _), agrees.cpu]
  change { ((a.trapFrame t).setEax value).cpu with cr3 := last.cpu.cr3 } = _
  rw [cr3]
  rfl

end MangoOS
