/-
The kernel as coroutines: schedule (kernel/sched.c), the entry and exit of start.S, task_init and
switch_to_user_mode (kernel/task.c) on one processor and one byte memory.

The abstract machine has no memory: a task that does not run is a context, and the traps that it
has not returned from are a list of frames.  What the running task does in between is any step
that keeps to its own stack and leaves alone the fields that these functions use.
-/

import MangoOS.Kernel.SwitchTo
import MangoOS.Kernel.ExceptionFrame

namespace MangoOS

open Machine TaskBytes

/-- Where the kernel keeps `current`, `idle_task` and the kernel stack of a task.  The idle task
runs on the stack of the boot code. -/
structure Stacks where
  currentAt : Nat
  idle : Nat
  low : Nat → Nat
  high : Nat → Nat

structure SwitchKernel where
  cpu : Cpu
  memory : PhysicalMemory
  /-- The base of the segment in the task register. -/
  tr : Nat
  /-- The task structures that `task_init` has filled. -/
  tasks : List Nat

namespace SwitchKernel

def machine (s : SwitchKernel) : Machine where
  cpu := s.cpu
  mem := s.memory.mem

def withMachine (s : SwitchKernel) (m : Machine) : SwitchKernel :=
  { s with
    cpu := m.cpu
    memory := s.memory.setMem m.mem }

@[simp] theorem withMachine_mem (s : SwitchKernel) (m : Machine) :
    (s.withMachine m).memory.mem = m.mem := rfl

end SwitchKernel

inductive KernelEvent
  /-- The running task gets to this processor and memory. -/
  | work (cpu : Cpu) (memory : PhysicalMemory)
  /-- `schedule` has picked `next`; `eip` is the return address. -/
  | schedule (next : Nat) (work : Reg → BitVec 32) (eip : BitVec 32)
  /-- `task_init` of a new task; `dir` is the result of `create_pde`. -/
  | taskInit (task entry : Nat) (dir : BitVec 32)
  | trap (t : Trap)
  /-- `frame->eax = value` -/
  | answer (frame : Nat) (value : BitVec 32)
  /-- The handler returns to the code that was interrupted. -/
  | leave
  /-- `task->cr3 = dir` and `write_cr3(dir)` -/
  | execve (dir : BitVec 32)
  | userMode (work : Reg → BitVec 32) (entry stackTop : BitVec 32)

/-! ### The kernel -/

/-- `switch_mm`, for two different tasks. -/
def Machine.switchMm (m : Machine) (prev next : Nat) : Machine :=
  let saved := m.store (prev + cr3At) m.cpu.cr3
  { saved with cpu := { saved.cpu with cr3 := saved.load (next + cr3At) } }

namespace SwitchKernel

/-- `schedule` with `next` picked; `switch_tss` loads the task register with `next->tss`. -/
def schedule (L : Stacks) (s : SwitchKernel) (next : Nat) (work : Reg → BitVec 32) : SwitchKernel :=
  let prev := s.memory.mem.word L.currentAt
  if prev = next then s
  else
    let s := { s with tr := next + tssAt }
    s.withMachine
      (Instr.run (s.machine.switchMm prev next) (switchToCode L.currentAt prev next work))

def step (L : Stacks) (s : SwitchKernel) : KernelEvent → SwitchKernel
  | .work cpu memory =>
      { s with
        cpu := cpu
        memory := memory }
  | .schedule next work _ => s.schedule L next work
  | .taskInit task entry _ =>
      { s with
        memory := fillTask s.memory task entry
        tasks := task :: s.tasks }
  | .trap t => s.withMachine (s.machine.trap s.tr t)
  | .answer frame value => s.withMachine (s.machine.store (frame + 44) value)
  | .leave => s.withMachine s.machine.leave
  | .execve dir =>
      let m := s.machine.store (s.memory.mem.word L.currentAt + cr3At) dir
      s.withMachine { m with cpu := { m.cpu with cr3 := dir } }
  | .userMode work entry stackTop =>
      s.withMachine (s.machine.switchToUserMode work entry stackTop)

def run (L : Stacks) (s : SwitchKernel) (events : List KernelEvent) : SwitchKernel :=
  events.foldl (step L) s

end SwitchKernel

/-! ### The coroutines -/

/-- A task: its traps, the innermost first, and what it goes on with when it does not run. -/
structure Thread where
  frames : List ExceptionFrame
  context : Context
  /-- The stack pointer behind the context. -/
  esp : Nat
  dir : BitVec 32

structure Threads where
  cpu : Cpu
  current : Nat
  thread : Nat → Thread
  /-- `tss.esp0` -/
  esp0 : Nat → Nat

namespace Threads

def setThread (a : Threads) (task : Nat) (t : Thread) : Threads :=
  { a with thread := Function.update a.thread task t }

def setFrames (a : Threads) (frames : List ExceptionFrame) : Threads :=
  a.setThread a.current { a.thread a.current with frames := frames }

/-- The frames of the running task. -/
def frames (a : Threads) : List ExceptionFrame := (a.thread a.current).frames

def kernelSelectorDs : BitVec 16 := 16

/-- The frame of a trap out of the running task. -/
def trapFrame (a : Threads) (t : Trap) : ExceptionFrame :=
  ExceptionFrame.ofTrap a.cpu (if a.cpu.User then a.esp0 a.current - 8 else a.cpu.esp) t

def park (a : Threads) (work : Reg → BitVec 32) (eip : BitVec 32) : Threads :=
  a.setThread a.current
    { a.thread a.current with
      context := Context.ofCpu a.cpu work eip
      esp := a.cpu.esp + 4
      dir := a.cpu.cr3 }

/-- The processor goes on with another task. -/
def resume (a : Threads) (next : Nat) : Threads :=
  let t := a.thread next
  { a with
    cpu := { t.context.resume a.cpu t.esp with cr3 := t.dir }
    current := next }

def answer (a : Threads) (value : BitVec 32) : Threads :=
  match a.frames with
  | [] => a
  | f :: fs => a.setFrames (f.setEax value :: fs)

def leave (a : Threads) : Threads :=
  match a.frames with
  | [] => a
  | f :: fs =>
      { a.setFrames fs with cpu := { f.cpu with cr3 := a.cpu.cr3 } }

def step (a : Threads) : KernelEvent → Threads
  | .work cpu _ => { a with cpu := cpu }
  | .schedule next work eip =>
      if a.current = next then a else (a.park work eip).resume next
  | .taskInit task entry dir =>
      { a.setThread task
          { frames := []
            context := Context.first (BitVec.ofNat 32 entry)
            esp := task + taskSize
            dir := dir } with
        esp0 := Function.update a.esp0 task (task + taskSize - 44) }
  | .trap t =>
      { a.setFrames (a.trapFrame t :: a.frames) with
        cpu := (a.trapFrame t).handlerCpu t.gate kernelSelectorDs }
  | .answer _ value => a.answer value
  | .leave => a.leave
  | .execve dir => { a with cpu := { a.cpu with cr3 := dir } }
  | .userMode work entry stackTop =>
      { a.setFrames [] with cpu := a.cpu.inUserMode work entry stackTop }

def run (a : Threads) (events : List KernelEvent) : Threads := events.foldl step a

end Threads

/-! ### What the rest of the kernel leaves alone -/

/-- `task->cr3` and `task->esp`, which only count while the task does not run. -/
def SwitchField (task x : Nat) : Prop :=
  (task + cr3At ≤ x ∧ x < task + cr3At + 4) ∨ (task + espAt ≤ x ∧ x < task + espAt + 4)

/-- `tss.esp0` and `tss.ss0`. -/
def TssField (task x : Nat) : Prop := task + tssAt + 4 ≤ x ∧ x < task + tssAt + 12

/-- The frames of a stack that ends at `high` lie above this address. -/
def bottom (high : Nat) : List ExceptionFrame → Nat
  | [] => high
  | f :: _ => f.start - 4

/-- The bytes that other code than this does not write while a task runs. -/
inductive Kept (L : Stacks) (tasks : List Nat) (a : Threads) (x : Nat) : Prop
  | current (lower : L.currentAt ≤ x) (upper : x < L.currentAt + 4)
  | field {t : Nat} (known : t ∈ tasks) (other : t ≠ a.current) (inside : SwitchField t x)
  | tss {t : Nat} (known : t ∈ tasks) (inside : TssField t x)
  | stack {t : Nat} (known : t ∈ tasks) (other : t ≠ a.current) (lower : L.low t ≤ x)
      (upper : x < L.high t)
  | frame (lower : bottom (L.high a.current) a.frames ≤ x) (upper : x < L.high a.current)

/-- The structures and the stacks of the tasks lie apart. -/
structure Stacks.Apart (L : Stacks) (tasks : List Nat) : Prop where
  structures : ∀ t ∈ tasks, ∀ u ∈ tasks, t ≠ u →
    t + openFileTableAt ≤ u ∨ u + openFileTableAt ≤ t
  kernelStacks : ∀ t ∈ tasks, ∀ u ∈ tasks, t ≠ u → L.high t ≤ L.low u ∨ L.high u ≤ L.low t
  across : ∀ t ∈ tasks, ∀ u ∈ tasks, t + openFileTableAt ≤ L.low u ∨ L.high u ≤ t
  current : ∀ t ∈ tasks, WordApart L.currentAt t (t + openFileTableAt) ∧
    WordApart L.currentAt (L.low t) (L.high t)
  small : ∀ t ∈ tasks, t + openFileTableAt < 4294967296 ∧ L.high t < 4294967296

/-- What the running task does between two of the other events. -/
structure Works (L : Stacks) (s : SwitchKernel) (a : Threads) (cpu : Cpu)
    (memory : PhysicalMemory) : Prop where
  cs : cpu.cs = s.cpu.cs
  ss : cpu.ss = s.cpu.ss
  cr3 : cpu.cr3 = s.cpu.cr3
  small : cpu.esp < 4294967296
  stack : ¬ cpu.User →
    L.low a.current ≤ cpu.esp ∧ cpu.esp ≤ bottom (L.high a.current) a.frames
  bytes : ∀ x, Kept L s.tasks a x → memory.mem x = s.memory.mem x

/-- A task structure that `task_init` may fill. -/
structure Begins (L : Stacks) (s : SwitchKernel) (a : Threads) (task entry : Nat)
    (dir : BitVec 32) : Prop where
  kernel : ¬ s.cpu.User
  new : task ∉ s.tasks
  notIdle : task ≠ L.idle
  apart : L.Apart (task :: s.tasks)
  high : L.high task = task + taskSize
  low : L.low task + 128 ≤ task + taskSize
  entrySmall : entry < 4294967296
  isDir : dir = BitVec.ofNat 32 s.memory.allocPage.1
  page : ∀ x, Kept L s.tasks a x ∨ (task ≤ x ∧ x < task + taskSize) →
    s.memory.allocPage.1 = 0 ∨ x < s.memory.allocPage.1 ∨ s.memory.allocPage.1 + 4096 ≤ x

/-- The calls that the kernel makes in a state. -/
def Permitted (L : Stacks) (s : SwitchKernel) (a : Threads) : KernelEvent → Prop
  | .work cpu memory => Works L s a cpu memory
  | .schedule next _ eip =>
      ¬ s.cpu.User ∧ next ∈ s.tasks ∧ s.machine.top = eip ∧
        L.low a.current + 40 ≤ s.cpu.esp ∧
        s.cpu.esp + 4 ≤ bottom (L.high a.current) a.frames
  | .taskInit task entry dir => Begins L s a task entry dir
  | .trap t =>
      t.gate.selector.toNat % 4 ≠ 3 ∧ (¬ s.cpu.User → L.low a.current + 84 ≤ s.cpu.esp)
  | .answer frame _ => ¬ s.cpu.User ∧ ∃ f fs, a.frames = f :: fs ∧ frame = f.start
  | .leave => ¬ s.cpu.User ∧ ∃ f fs, a.frames = f :: fs ∧ s.cpu.esp + 4 = f.start
  | .execve _ => ¬ s.cpu.User
  | .userMode _ _ _ =>
      ¬ s.cpu.User ∧ a.current ≠ L.idle ∧ L.low a.current + 20 ≤ s.cpu.esp

/-- Every event of a run is one of those calls. -/
def PermittedRun (L : Stacks) : SwitchKernel → Threads → List KernelEvent → Prop
  | _, _, [] => True
  | s, a, e :: events => Permitted L s a e ∧ PermittedRun L (s.step L e) (a.step e) events

/-! ### The kernel holds the coroutines -/

/-- The traps of a task lie on its stack, which ends at `high`. -/
def FramesOn (mem : ByteMemory) (high : Nat) : List ExceptionFrame → Prop
  | [] => True
  | f :: fs =>
      (4 ≤ f.start ∧ Stacked mem f.start f.words ∧ f.stop ≤ bottom high fs ∧
        f.cpu.esp < 4294967296 ∧ (f.cpu.User → fs = []) ∧
        (¬ f.cpu.User → f.cpu.esp = f.stop ∧ f.cpu.ss = Threads.kernelSelectorDs)) ∧
      FramesOn mem high fs

/-- A task that does not run can be switched to. -/
structure Saved (mem : ByteMemory) (low high task : Nat) (t : Thread) : Prop where
  low : low ≤ mem.word (task + espAt)
  esp : mem.word (task + espAt) + 44 = t.esp
  stacked : Stacked mem (mem.word (task + espAt)) (t.context.words task)
  top : t.esp ≤ bottom high t.frames
  frames : FramesOn mem high t.frames
  dir : mem.word (task + cr3At) = t.dir.toNat

/-- `tss.esp0` and `tss.ss0` of a task. -/
structure InnerStack (mem : ByteMemory) (low high task esp0 : Nat) : Prop where
  isEsp0 : mem.word (task + tssAt + 4) = esp0
  isSs0 : mem.word (task + tssAt + 8) = 16
  low : low + 84 ≤ esp0
  high : esp0 ≤ high

structure MemoryAgrees (L : Stacks) (tasks : List Nat) (mem : ByteMemory) (a : Threads) : Prop where
  current : mem.word L.currentAt = a.current
  own : FramesOn mem (L.high a.current) a.frames
  saved : ∀ t ∈ tasks, t ≠ a.current → Saved mem (L.low t) (L.high t) t (a.thread t)
  inner : ∀ t ∈ tasks, t ≠ L.idle → InnerStack mem (L.low t) (L.high t) t (a.esp0 t)

structure Agrees (L : Stacks) (s : SwitchKernel) (a : Threads) : Prop where
  cpu : s.cpu = a.cpu
  known : a.current ∈ s.tasks
  apart : L.Apart s.tasks
  small : a.cpu.esp < 4294967296
  memory : MemoryAgrees L s.tasks s.memory.mem a
  /-- The idle task starts before the task register is loaded, and stays in ring 0. -/
  tss : a.current ≠ L.idle → s.tr = a.current + tssAt
  idle : ∀ f ∈ (a.thread L.idle).frames, ¬ f.cpu.User
  user : a.cpu.User → a.current ≠ L.idle ∧ a.frames = []
  kernel : ¬ a.cpu.User →
    (L.low a.current ≤ a.cpu.esp ∧ a.cpu.esp ≤ bottom (L.high a.current) a.frames) ∧
      a.cpu.ss = Threads.kernelSelectorDs

end MangoOS
