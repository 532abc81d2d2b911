/-
Disk commands, their interrupts and the tasks that wait for them (device/disk.c).

While `current` is NULL a transfer polls.  Later it waits for each sector on the semaphore
that `do_handler_ide` notifies.  The drive raises one interrupt for each sector of the
command it accepted, and an interrupt stays pending until a handler can take it.
-/

import MangoOS.Kernel.Callers

namespace MangoOS

open Intrusive

/-- The sector count goes out in 16 bits, and 0 stands for 65536. -/
def acceptedSectors (count : Int) : Nat :=
  if count % 65536 = 0 then 65536 else (count % 65536).toNat

/-- The command that the drive works on and its interrupts. -/
structure DiskLine where
  /-- The commands so far; the last one counts in the fields behind. -/
  issued : Nat
  write : Bool
  accepted : Nat
  /-- The sectors that went through port 0x1F0. -/
  moved : Nat
  raised : Nat
  /-- The interrupts that no handler has taken yet, by their commands. -/
  pending : List Nat

namespace DiskLine

def quiet : DiskLine :=
  { issued := 0, write := false, accepted := 0, moved := 0, raised := 0, pending := [] }

def sendCmd (line : DiskLine) (write : Bool) (accepted : Nat) : DiskLine :=
  { line with issued := line.issued + 1, write := write, accepted := accepted, moved := 0,
              raised := 0 }

def moveSector (line : DiskLine) : DiskLine := { line with moved := line.moved + 1 }

/-- A sector is ready for reading or has been accepted, and the drive has not told. -/
def CanRaise (line : DiskLine) : Prop :=
  line.raised < line.accepted ∧ line.raised < line.moved + if line.write then 0 else 1

instance (line : DiskLine) : Decidable line.CanRaise := inferInstanceAs (Decidable (_ ∧ _))

def raise (line : DiskLine) : DiskLine :=
  { line with raised := line.raised + 1, pending := line.pending ++ [line.issued] }

/-- The drive shows `wait_data` the next sector, or that it has the last one. -/
def Ready (line : DiskLine) : Prop :=
  line.moved + (if line.write then 0 else 1) ≤ line.raised

instance (line : DiskLine) : Decidable line.Ready := inferInstanceAs (Decidable (_ ≤ _))

end DiskLine

/-- Where the loop of a transfer stands: at its head, in front of `sem_wait`, behind it. -/
inductive DiskPoint
  | head
  | due
  | granted
  deriving DecidableEq, Repr

/-- What a task, or `kernel_init` while `current` is NULL, does in the driver. -/
inductive DiskPc
  | out
  /-- `load_disk_info` and `load_part_info` in front of their `send_cmd`. -/
  | diskInfo
  | partInfo
  /-- Behind `mutex_lock` of `disk_read` or `disk_write`. -/
  | locked (write : Bool) (count : Int)
  | loop (point : DiskPoint) (command : Nat) (write : Bool) (left : Nat)
  /-- `load_disk_info`, or with `parts` `load_part_info`, behind `send_cmd`. -/
  | probe (parts : Bool) (command : Nat)
  deriving DecidableEq, Repr

def DiskPc.command : DiskPc → Option Nat
  | .loop _ command _ _ => some command
  | .probe _ command => some command
  | _ => none

/-- `mutex_lock` while `current` is NULL. -/
def Kernel.bootLock (k : Kernel) (m : Nat) : Option Kernel :=
  if (k.mutex m).lockTimes = 0 ∨ (k.mutex m).owner = none then
    some (k.withMutex m fun mutex =>
      { lockTimes := int32 (mutex.lockTimes + 1), owner := none })
  else none

/-- `mutex_unlock` while `current` is NULL. -/
def Kernel.bootUnlock (k : Kernel) (m : Nat) : Option Kernel :=
  if (k.mutex m).owner = none then
    some (k.withMutex m fun mutex =>
      { mutex with lockTimes := int32 (mutex.lockTimes - 1) })
  else some k

/-- The task that `sem_notify` would wake. -/
def Kernel.firstWaiter (k : Kernel) (s : Nat) : Option Nat :=
  if queueEmpty k.links (.head (.sem s)) then none
  else queueData (queueFirst k.links (.head (.sem s)))

structure DiskSystem where
  kernel : Kernel
  /-- `current` is not NULL any more and interrupts are on. -/
  started : Bool
  waitInterupt : Bool
  /-- `enable_8259(0x2E)`. -/
  enabled : Bool
  /-- `load_disk_info` has filled `part_info[0]`; before, each `count` is 0. -/
  found : Bool
  line : DiskLine
  /-- The code that runs while `current` is NULL is `none`. -/
  pc : Option Nat → DiskPc

inductive DiskEvent
  /-- `send_cmd` of `load_disk_info` or `load_part_info`. -/
  | probe
  /-- `kernel_init` sets `current` and calls `sti`; without the disk the root is not mounted,
  and the boot halts. -/
  | start
  | lock (write : Bool) (count : Int)
  /-- The return with `-ENOPART`. -/
  | noPart
  | sendCmd
  /-- The loop up to `sem_wait`. -/
  | put
  | semWait
  /-- `wait_data` without an error, and the rest of the loop. -/
  | ready
  /-- The return with `-ENODISK`. -/
  | fail
  | finish
  /-- `disk_open` and `disk_close`. -/
  | enable (on : Bool)
  /-- What tasks and the timer do besides. -/
  | other (op : Op)
  | raise
  /-- `do_handler_ide`. -/
  | handle
  deriving DecidableEq, Repr

namespace DiskSystem

/-- Whom `current` names. -/
def caller (σ : DiskSystem) : Option Nat := if σ.started then some σ.kernel.current else none

def setPc (σ : DiskSystem) (pc : DiskPc) : DiskSystem :=
  { σ with pc := Function.update σ.pc σ.caller pc }

/-- Whether an operation is one of the driver's own. -/
def Driver (m s : Nat) (op : Op) : Prop :=
  op = .mutexLock m ∨ op = .mutexUnlock m ∨ op = .semWait s ∨ op = .semNotify s

instance (m s : Nat) (op : Op) : Decidable (Driver m s op) :=
  inferInstanceAs (Decidable (_ ∨ _ ∨ _ ∨ _))

def step (boot : Boot) (m s : Nat) (σ : DiskSystem) : DiskEvent → Option DiskSystem
  | .probe =>
      match σ.pc σ.caller with
      | .diskInfo =>
          some { σ.setPc (.probe false (σ.line.issued + 1)) with line := σ.line.sendCmd false 1 }
      | .partInfo =>
          some { σ.setPc (.probe true (σ.line.issued + 1)) with line := σ.line.sendCmd false 1 }
      | _ => none
  | .start =>
      if σ.started = false ∧ σ.pc none = .out ∧ σ.found = true then
        (σ.kernel.kernelInit boot.idle boot.init boot.entry).map fun k =>
          { σ with kernel := k, started := true }
      else none
  | .lock write count =>
      if σ.pc σ.caller = .out then
        (if σ.started then σ.kernel.mutexLock m else σ.kernel.bootLock m).map fun k =>
          { σ.setPc (.locked write count) with kernel := k }
      else none
  | .noPart =>
      match σ.pc σ.caller with
      | .locked _ _ => some (σ.setPc .out)
      | _ => none
  | .sendCmd =>
      match σ.pc σ.caller with
      | .locked write count =>
          if σ.found then
            some { σ.setPc (.loop .head (σ.line.issued + 1) write count.toNat) with
                   waitInterupt := true
                   line := σ.line.sendCmd write (acceptedSectors count) }
          else none
      | _ => none
  | .put =>
      match σ.pc σ.caller with
      | .loop .head command write (left + 1) =>
          some { σ.setPc (.loop .due command write (left + 1)) with
                 line := if write then σ.line.moveSector else σ.line }
      | _ => none
  | .semWait =>
      match σ.pc σ.caller with
      | .loop .due command write left =>
          (if σ.started then σ.kernel.semWait s else some σ.kernel).map fun k =>
            { σ.setPc (.loop .granted command write left) with kernel := k }
      | _ => none
  | .ready =>
      if σ.line.Ready then
        match σ.pc σ.caller with
        | .loop .granted command write (left + 1) =>
            some { σ.setPc (.loop .head command write left) with
                   line := if write then σ.line else σ.line.moveSector }
        | .probe false _ =>
            some { σ.setPc .partInfo with found := true, line := σ.line.moveSector }
        | .probe true _ => some { σ.setPc .out with line := σ.line.moveSector }
        | _ => none
      else none
  | .fail =>
      match σ.pc σ.caller with
      | .loop .granted _ _ _ => some (σ.setPc .out)
      | .probe _ _ => some (σ.setPc .out)
      | _ => none
  | .finish =>
      match σ.pc σ.caller with
      | .loop .head _ _ 0 =>
          (if σ.started then σ.kernel.mutexUnlock m else σ.kernel.bootUnlock m).map fun k =>
            { σ.setPc .out with kernel := k }
      | _ => none
  | .enable on =>
      if σ.pc σ.caller = .out ∧ (on = true → σ.found = true) then
        some { σ with enabled := on }
      else none
  | .other op =>
      if σ.started = true ∧ ¬ Driver m s op then
        (σ.kernel.step op).map fun k => { σ with kernel := k }
      else none
  | .raise => if σ.line.CanRaise then some { σ with line := σ.line.raise } else none
  | .handle =>
      match σ.line.pending with
      | [] => none
      | _ :: rest =>
          if σ.started && σ.enabled then
            (if σ.waitInterupt && σ.started then σ.kernel.semNotify s
              else some σ.kernel).map fun k =>
                { σ with kernel := k, line := { σ.line with pending := rest } }
          else none

/-- What the sources keep: only the idle task halts in a loop. -/
def Permits (boot : Boot) (σ : DiskSystem) : DiskEvent → Prop
  | .lock _ _ => σ.started = true → σ.kernel.current ≠ boot.idle
  | .semWait => σ.started = true → σ.kernel.current ≠ boot.idle
  | .other op => σ.kernel.Permits boot.idle op
  | _ => True

end DiskSystem

/-- `disk_init` in front of `load_disk_info`. -/
def Boot.diskInit (boot : Boot) (m s : Nat) : DiskSystem where
  kernel := (boot.memory.mutexInit m).semInit s 0
  started := false
  waitInterupt := false
  enabled := false
  found := false
  line := .quiet
  pc := Function.update (fun _ => .out) none .diskInfo

/-- What an observer of the drive and of the semaphore writes down. -/
structure DiskNotes where
  /-- The commands whose interrupts `sem.count` counts, the oldest first. -/
  credit : List Nat
  /-- The semaphore and the pending interrupts at each `send_cmd`. -/
  issued : List (Int × List Nat)
  /-- For each `sem_wait` that came back: its command, and that of the interrupt. -/
  released : List (Option Nat × Option Nat)

namespace DiskNotes

def none : DiskNotes := { credit := [], issued := [], released := [] }

def issue (notes : DiskNotes) (s : Nat) (σ : DiskSystem) : DiskNotes :=
  { notes with issued := notes.issued ++ [((σ.kernel.sem s).count, σ.line.pending)] }

def record (notes : DiskNotes) (s : Nat) (σ : DiskSystem) : DiskEvent → DiskNotes
  | .probe => notes.issue s σ
  | .sendCmd => notes.issue s σ
  | .semWait =>
      if σ.started = true ∧ 0 < (σ.kernel.sem s).count then
        { notes with
          credit := notes.credit.tail
          released := notes.released ++ [((σ.pc σ.caller).command, notes.credit.head?)] }
      else notes
  | .handle =>
      match σ.line.pending with
      | [] => notes
      | command :: _ =>
          if σ.waitInterupt && σ.started then
            match σ.kernel.firstWaiter s with
            | some t =>
                { notes with
                  released := notes.released ++ [((σ.pc (some t)).command, some command)] }
            | Option.none => { notes with credit := notes.credit ++ [command] }
          else notes
  | _ => notes

/-- Every command finds the semaphore at 0 and no interrupt, and every `sem_wait` comes back
with an interrupt of its own command. -/
def Own (notes : DiskNotes) : Prop :=
  (∀ found, found ∈ notes.issued → found = (0, [])) ∧
    ∀ pair, pair ∈ notes.released → ∃ command, pair = (some command, some command)

end DiskNotes

/-- Runs from a state, with fresh notes, in which every step is allowed. -/
inductive DiskRun (boot : Boot) (m s : Nat) (allowed : DiskSystem → DiskEvent → Prop)
    (first : DiskSystem) : DiskSystem → DiskNotes → Prop
  | start : DiskRun boot m s allowed first first DiskNotes.none
  | step {σ after : DiskSystem} {notes : DiskNotes} (run : DiskRun boot m s allowed first σ notes)
      (event : DiskEvent) (permitted : σ.Permits boot event)
      (stepped : σ.step boot m s event = some after) (admitted : allowed σ event) :
      DiskRun boot m s allowed first after (notes.record s σ event)

namespace DiskSystem

/-- Tasks run, none of them in the driver, and no interrupt is left or to come. -/
structure Quiet (boot : Boot) (m s : Nat) (σ : DiskSystem) : Prop where
  started : σ.started = true
  scheduled : ∃ place tasks, Scheduled boot.idle σ.kernel place tasks ∧ place.on (.sem s) = []
  count : (σ.kernel.sem s).count = 0
  owner : (σ.kernel.mutex m).owner = none
  pending : σ.line.pending = []
  told : ¬ σ.line.CanRaise
  outside : ∀ t, σ.pc (some t) = .out

/-- A step that keeps the interrupts apart: no read of less than one sector, and no lock that
`lock_times` cannot count. -/
def Careful (m : Nat) (σ : DiskSystem) : DiskEvent → Prop
  | .sendCmd => ∀ count, σ.pc σ.caller = .locked false count → 1 ≤ count
  | .lock _ _ => (σ.kernel.mutex m).lockTimes < 2147483647
  | _ => True

end DiskSystem

end MangoOS
