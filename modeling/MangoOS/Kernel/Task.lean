/-
Tasks, the scheduler and the blocking primitives (kernel/task.c, kernel/sched.c,
kernel/ipc.c and the task part of kernel/init.c).

One value of `Kernel` is the memory these files work on: the links of every
queue head and of both queue nodes of every `task_t`, the scheduling fields of
the tasks, the mutexes, the semaphores and the globals.  A function that follows
a pointer which is not a task returns `none`.
-/

import MangoOS.Kernel.Queue
import MangoOS.Library.Words

namespace MangoOS

open Intrusive

/-- The queues a task's `rq` node can be linked into. -/
inductive Queue
  | ready
  | sleep
  | mutex (id : Nat)
  | sem (id : Nat)
  deriving DecidableEq, Repr

/-- Everything that has queue links: the queue heads and the two nodes of a task. -/
inductive Node
  | head (queue : Queue)
  | taskQueue
  | q (task : Nat)
  | rq (task : Nat)
  deriving DecidableEq, Repr

inductive TaskState
  | created
  | running
  | sleep
  | waiting
  | zombie
  deriving DecidableEq, Repr

structure Task where
  state : TaskState
  pid : Nat
  slice : Int
  sleepTicks : UInt32

structure Mutex where
  lockTimes : Int
  owner : Option Nat

structure Sem where
  count : Int

/-- `current` and `idle_task` are never NULL once `kernel_init` has set them. -/
structure Kernel where
  links : Links Node
  task : Nat → Task
  mutex : Nat → Mutex
  sem : Nat → Sem
  current : Nat
  idleTask : Nat
  pid : Nat

def taskSlice : Nat := 10

namespace Kernel

/-! ### Writes of single fields -/

def withTask (k : Kernel) (t : Nat) (change : Task → Task) : Kernel :=
  { k with task := Function.update k.task t (change (k.task t)) }

def withMutex (k : Kernel) (m : Nat) (change : Mutex → Mutex) : Kernel :=
  { k with mutex := Function.update k.mutex m (change (k.mutex m)) }

def withSem (k : Kernel) (s : Nat) (change : Sem → Sem) : Kernel :=
  { k with sem := Function.update k.sem s (change (k.sem s)) }

def setState (k : Kernel) (t : Nat) (state : TaskState) : Kernel :=
  k.withTask t (fun task => { task with state := state })

/-- `queue_remove(node)`. -/
def unlink (k : Kernel) (node : Node) : Kernel :=
  { k with links := queueRemove k.links node }

/-- `queue_insert_tail(head, node)`. -/
def linkTail (k : Kernel) (head node : Node) : Kernel :=
  { k with links := queueInsertTail k.links head node }

/-! ### Scheduling -/

/-- `queue_data(q, task_t, rq)`; only an `rq` node lies inside a task. -/
def queueData : Node → Option Nat
  | .rq t => some t
  | _ => none

def pickNextTask (k : Kernel) : Option Nat :=
  let next := k.links.next (.rq k.current)
  let next :=
    if (k.task k.current).state ≠ .running then queueFirst k.links (.head .ready)
    else next
  let next := if next = .head .ready then k.links.next next else next
  let next := if next = .head .ready then .rq k.idleTask else next
  queueData next

/-- `schedule` up to the context switch, which makes the picked task current. -/
def schedule (k : Kernel) : Option Kernel :=
  (pickNextTask k).map fun next => { k with current := next }

/-- `task_init`; a new task is created ready.  An `entry` of 0 makes it the idle
task. -/
def taskInit (k : Kernel) (t : Nat) (entry : UInt32) : Kernel :=
  let k := k.withTask t (fun task => { task with pid := k.pid, slice := taskSlice })
  let k := { k with pid := k.pid + 1 }
  let k := k.setState t .created
  let k := if entry = 0 then { k with idleTask := t } else k
  let k := k.linkTail .taskQueue (.q t)
  k.linkTail (.head .ready) (.rq t)

def taskSleep (k : Kernel) (t : Nat) (ticks : UInt32) : Kernel :=
  if ticks = 0 then k
  else
    let k := k.withTask t (fun task => { task with sleepTicks := ticks, state := .sleep })
    let k := k.unlink (.rq t)
    k.linkTail (.head .sleep) (.rq t)

def taskWakeup (k : Kernel) (t : Nat) : Kernel :=
  let k := k.unlink (.rq t)
  let k := k.linkTail (.head .ready) (.rq t)
  k.setState t .running

/-- The walk of `task_tick` over the sleep queue.  The successor is read before
the node may move.  `fuel` bounds the walk and only a broken ring exhausts it. -/
def tickSleepers : Nat → Kernel → Node → Option Kernel
  | 0, _, _ => none
  | fuel + 1, k, q =>
      if q = .head .sleep then some k
      else
        let next := k.links.next q
        match queueData q with
        | none => none
        | some t =>
            let k := k.withTask t (fun task =>
              { task with sleepTicks := task.sleepTicks - 1 })
            let k := if (k.task t).sleepTicks = 0 then k.taskWakeup t else k
            tickSleepers fuel k next

def taskTick (k : Kernel) : Option Kernel := do
  let t := k.current
  let k := k.withTask t (fun task => { task with slice := task.slice - 1 })
  let k :=
    if (k.task t).slice = 0 then
      let k := k.withTask t (fun task => { task with slice := taskSlice })
      let k := k.unlink (.rq t)
      k.linkTail (.head .ready) (.rq t)
    else k
  let k ← tickSleepers (k.pid + 1) k (queueFirst k.links (.head .sleep))
  schedule k

def taskYield (k : Kernel) : Option Kernel :=
  let k := k.unlink (.rq k.current)
  schedule (k.linkTail (.head .ready) (.rq k.current))

def sysSleep (k : Kernel) (ms : UInt32) : Option Kernel :=
  schedule (k.taskSleep k.current (ms / 10))

/-! ### Semaphores and mutexes -/

def semInit (k : Kernel) (s : Nat) (count : Int) : Kernel :=
  { k.withSem s (fun _ => { count := count }) with
    links := queueInit k.links (.head (.sem s)) }

/-- How `sem_wait` and `mutex_lock` suspend the caller on `queue`. -/
def block (k : Kernel) (queue : Queue) : Option Kernel :=
  let t := k.current
  let k := k.unlink (.rq t)
  let k := k.setState t .waiting
  schedule (k.linkTail (.head queue) (.rq t))

/-- How `sem_notify` and `mutex_unlock` make a waiter ready. -/
def unblock (k : Kernel) (t : Nat) : Kernel :=
  let k := k.unlink (.rq t)
  let k := k.setState t .running
  k.linkTail (.head .ready) (.rq t)

def semWait (k : Kernel) (s : Nat) : Option Kernel :=
  if (k.sem s).count > 0 then
    some (k.withSem s (fun sem => { sem with count := int32 (sem.count - 1) }))
  else k.block (.sem s)

def semNotify (k : Kernel) (s : Nat) : Option Kernel :=
  if queueEmpty k.links (.head (.sem s)) then
    some (k.withSem s (fun sem => { sem with count := int32 (sem.count + 1) }))
  else
    (queueData (queueFirst k.links (.head (.sem s)))).bind fun t =>
      schedule (k.unblock t)

def mutexInit (k : Kernel) (m : Nat) : Kernel :=
  { k.withMutex m (fun _ => { lockTimes := 0, owner := none }) with
    links := queueInit k.links (.head (.mutex m)) }

def mutexLock (k : Kernel) (m : Nat) : Option Kernel :=
  if (k.mutex m).lockTimes = 0 then
    some (k.withMutex m (fun mutex =>
      { lockTimes := int32 (mutex.lockTimes + 1), owner := some k.current }))
  else if (k.mutex m).owner = some k.current then
    some (k.withMutex m (fun mutex =>
      { mutex with lockTimes := int32 (mutex.lockTimes + 1) }))
  else k.block (.mutex m)

def mutexUnlock (k : Kernel) (m : Nat) : Option Kernel :=
  if (k.mutex m).owner = some k.current then
    let k := k.withMutex m (fun mutex =>
      { mutex with lockTimes := int32 (mutex.lockTimes - 1) })
    if (k.mutex m).lockTimes = 0 then
      let k := k.withMutex m (fun mutex => { mutex with owner := none })
      if queueEmpty k.links (.head (.mutex m)) then some k
      else
        (queueData (queueFirst k.links (.head (.mutex m)))).bind fun t =>
          let k := k.unblock t
          schedule (k.withMutex m (fun _ => { lockTimes := 1, owner := some t }))
    else some k
  else some k

/-! ### Start-up and steps -/

/-- The scheduling part of `kernel_init`. -/
def kernelInit (k : Kernel) (idle init : Nat) (entry : UInt32) : Option Kernel :=
  let k := { k with links := queueInit k.links .taskQueue }
  let k := { k with links := queueInit k.links (.head .ready) }
  let k := { k with links := queueInit k.links (.head .sleep) }
  let k := (k.taskInit idle 0).setState idle .running
  let k := (k.taskInit init entry).setState init .running
  (queueData (queueFirst k.links (.head .ready))).map fun t => { k with current := t }

end Kernel

/-- What a task, its creator, the timer or the disk interrupt can do.  `setRunning`
is the creator's assignment after `task_init`. -/
inductive Op
  | taskInit (task : Nat) (entry : UInt32)
  | setRunning (task : Nat)
  | taskTick
  | taskYield
  | sysSleep (ms : UInt32)
  | mutexLock (id : Nat)
  | mutexUnlock (id : Nat)
  | semWait (id : Nat)
  | semNotify (id : Nat)
  deriving DecidableEq, Repr

def Kernel.step (k : Kernel) : Op → Option Kernel
  | .taskInit t entry => some (k.taskInit t entry)
  | .setRunning t => some (k.setState t .running)
  | .taskTick => k.taskTick
  | .taskYield => k.taskYield
  | .sysSleep ms => k.sysSleep ms
  | .mutexLock m => k.mutexLock m
  | .mutexUnlock m => k.mutexUnlock m
  | .semWait s => k.semWait s
  | .semNotify s => k.semNotify s

end MangoOS
