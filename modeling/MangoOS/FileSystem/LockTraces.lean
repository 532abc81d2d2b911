/-
The calls on mutexes, on the disk's semaphore and of `sys_sleep` that the kernel's functions make,
function by function, on the paths that give every mutex back (fs/, device/disk.c, mm/, lib/log.c,
kernel/task.c).  What the functions do besides decides which of the traces it is.

`bget_block` keeps its mutex on a hit in a full bucket, and the transfers of device/disk.c keep
theirs on an error; these paths are left out.
-/

import MangoOS.FileSystem.Disk
import MangoOS.Kernel.LockOrder

namespace MangoOS

namespace LockTraces

/-! ### The mutexes -/

/-- mm/page.c -/
def page : Nat := 0

/-- fs/file.c -/
def fileTable : Nat := 1

/-- fs/buffer.c -/
def buffer : Nat := 2

/-- device/disk.c -/
def disk : Nat := 3

/-- lib/log.c -/
def log : Nat := 4

/-- The mutex of a mounted file system. -/
def fs (mount : Nat) : Nat := 5 + mount

/-- `sem` of device/disk.c -/
def diskSem : Nat := 0

/-- A file system's mutex comes before the others, of which a task holds one at a time. -/
def plan : LockPlan where
  rank m := if m < 5 then 1 else 0
  guard := fun _ => disk

def locked (m : Nat) (body : List Op) : List Op := .mutexLock m :: body ++ [.mutexUnlock m]

/-- Any number of pieces, one after the other. -/
def Many (Piece : List Op → Prop) (ops : List Op) : Prop :=
  ∃ pieces : List (List Op), (∀ piece ∈ pieces, Piece piece) ∧ ops = pieces.flatten

/-! ### Memory, files and the log -/

def allocPages : List Op := locked page []

def freePages : List Op := locked page []

def allocFile : List Op := locked fileTable []

def freeFile : List Op := locked fileTable []

def fileIncRef : List Op := locked fileTable []

def kprintf : List Op := locked log []

inductive Kmalloc : List Op → Prop
  | refused : Kmalloc kprintf
  | found : Kmalloc []
  | grows : Kmalloc allocPages

/-! ### Blocks -/

inductive BgetBlock : List Op → Prop
  | full (store : BlockStore) (bno : Nat) (isFull : 100 ≤ (store.heads (hashBh bno)).size)
      (clean : LockedCall.Clean (.bgetBlock store bno)) : BgetBlock (store.bgetOps buffer bno)
  | room (store : BlockStore) (bno : Nat) (isRoom : (store.heads (hashBh bno)).size < 100)
      {head data : List Op} (headMalloc : Kmalloc head) (dataMalloc : Kmalloc data) :
      BgetBlock (head ++ data ++ store.bgetOps buffer bno)

inductive DiskRead : List Op → Prop
  | intro (partInfo : Nat → PartInfo) (drive : Drive) (fuel : Nat) (minor beginSec : Int)
      (buf : Region) (count : Int) (transfer : Transfer)
      (returns : diskRead disk diskSem partInfo drive fuel minor beginSec buf count =
        some transfer)
      (clean : LockedCall.Undisturbed partInfo drive minor count) : DiskRead transfer.ops

inductive DiskWrite : List Op → Prop
  | intro (partInfo : Nat → PartInfo) (drive : Drive) (fuel : Nat) (minor beginSec : Int)
      (buf : Region) (count : Int) (transfer : Transfer)
      (returns : diskWrite disk diskSem partInfo drive fuel minor beginSec buf count =
        some transfer)
      (clean : LockedCall.Undisturbed partInfo drive minor count) : DiskWrite transfer.ops

inductive ReadBlock : List Op → Prop
  | cached {bget : List Op} (found : BgetBlock bget) : ReadBlock bget
  | loaded {bget read : List Op} (found : BgetBlock bget) (reads : DiskRead read) :
      ReadBlock (bget ++ read)
  | evicted {bget write read : List Op} (found : BgetBlock bget) (writes : DiskWrite write)
      (reads : DiskRead read) : ReadBlock (bget ++ write ++ read)

/-- What the functions of fs/ext2.c call on an open file system. -/
inductive Ext2Piece : List Op → Prop
  | readBlock {ops : List Op} (reads : ReadBlock ops) : Ext2Piece ops
  | bgetBlock {ops : List Op} (gets : BgetBlock ops) : Ext2Piece ops
  | devRead {ops : List Op} (reads : DiskRead ops) : Ext2Piece ops
  | devWrite {ops : List Op} (writes : DiskWrite ops) : Ext2Piece ops

/-- An operation of `fs_op_t` under the mutex of its file system. -/
inductive FsOp : List Op → Prop
  | intro (mount : Nat) {body : List Op} (pieces : Many Ext2Piece body) :
      FsOp (locked (fs mount) body)

/-! ### Calls of the kernel -/

inductive FileCall : List Op → Prop
  /-- The file table or the descriptors are full. -/
  | sysOpenFull : FileCall allocFile
  | sysOpen {op : List Op} (opens : FsOp op) : FileCall (allocFile ++ op)
  | sysOpenFails {op : List Op} (opens : FsOp op) : FileCall (allocFile ++ op ++ freeFile)
  | badDescriptor : FileCall []
  | sysRead {op : List Op} (reads : FsOp op) : FileCall op
  | sysWrite {op : List Op} (writes : FsOp op) : FileCall op
  | sysSeek {op : List Op} (seeks : FsOp op) : FileCall op
  | sysClose : FileCall freeFile
  | sysCloseLast {op : List Op} (closes : FsOp op) : FileCall (freeFile ++ op)
  | sysUnlink {op : List Op} (unlinks : FsOp op) : FileCall (allocFile ++ op ++ freeFile)

/-- What `do_fork` calls. -/
inductive ForkPiece : List Op → Prop
  | allocTask {ops : List Op} (allocates : Kmalloc ops) : ForkPiece ops
  | createPde : ForkPiece allocPages
  | copyOpenFiles : ForkPiece fileIncRef
  | copyMemory : ForkPiece allocPages
  | distoryMemory : ForkPiece freePages

/-- What `sys_execve` calls. -/
inductive ExecvePiece : List Op → Prop
  | createPde : ExecvePiece allocPages
  | loadElfFile {ops : List Op} (calls : FileCall ops) : ExecvePiece ops
  | allocVpages : ExecvePiece allocPages
  | freeVpages : ExecvePiece freePages
  | destroyPde : ExecvePiece freePages

/-- A system call, or a file call of a kernel task. -/
inductive KernelCall : List Op → Prop
  | sysSleep (ms : UInt32) : KernelCall [.sysSleep ms]
  | sysFork {ops : List Op} (pieces : Many ForkPiece ops) : KernelCall ops
  | sysExecve {ops : List Op} (pieces : Many ExecvePiece ops) : KernelCall ops
  | sysPrintf : KernelCall kprintf
  | unknown : KernelCall kprintf
  | file {ops : List Op} (calls : FileCall ops) : KernelCall ops

/-- The trace of a task on the paths above: some calls, of which the last may not have
returned. -/
def KernelTrace (trace : List Op) : Prop :=
  ∃ calls rest : List Op, Many KernelCall calls ∧ calls = trace ++ rest

/-! ### They take their mutexes in order -/

/-- A trace that gives back what it takes, and takes only mutexes from `low` on. -/
def Balanced (low : Nat) (ops : List Op) : Prop :=
  LockOrder.Balanced plan.rank low (plan.steps ops)

section Balanced

variable {low : Nat} {first second ops : List Op}

theorem steps_append (first second : List Op) :
    plan.steps (first ++ second) = plan.steps first ++ plan.steps second :=
  List.filterMap_append

theorem Balanced.append (left : Balanced low first) (right : Balanced low second) :
    Balanced low (first ++ second) := by
  unfold Balanced
  rw [steps_append]
  exact LockOrder.Balanced.append left right

theorem Balanced.mono {high : Nat} (balanced : Balanced high ops) (le : low ≤ high) :
    Balanced low ops := LockOrder.Balanced.mono balanced le

theorem Many.balanced {Piece : List Op → Prop} (many : Many Piece ops)
    (each : ∀ piece, Piece piece → Balanced low piece) : Balanced low ops := by
  obtain ⟨pieces, all, rfl⟩ := many
  induction pieces with
  | nil => exact LockOrder.Balanced.nil low
  | cons piece pieces ih =>
      rw [List.flatten_cons]
      exact (each piece (all piece List.mem_cons_self)).append
        (ih fun other member => all other (List.mem_cons_of_mem _ member))

theorem steps_locked (m : Nat) (body : List Op) :
    plan.steps (locked m body) = .acquire m :: plan.steps body ++ [.release m] := by
  unfold locked
  rw [List.cons_append]
  change .acquire m :: plan.steps (body ++ [.mutexUnlock m]) = _
  rw [steps_append]
  rfl

theorem locked_balanced {m : Nat} {body : List Op}
    (inside : LockOrder.Inside plan.rank m (plan.steps body)) (le : low ≤ plan.rank m) :
    Balanced low (locked m body) := by
  unfold Balanced
  rw [steps_locked]
  exact inside.locked le

/-- The mutexes behind that of a file system, with nothing inside. -/
theorem leaf_balanced {m : Nat} (leaf : plan.rank m = 1) : Balanced 1 (locked m []) :=
  locked_balanced (fun _ _ => rfl) (Nat.le_of_eq leaf.symm)

theorem Kmalloc.balanced (allocates : Kmalloc ops) : Balanced 1 ops := by
  cases allocates with
  | refused => exact leaf_balanced rfl
  | found => exact LockOrder.Balanced.nil 1
  | grows => exact leaf_balanced rfl

theorem bgetOps_locked (store : BlockStore) (bno : Nat)
    (clean : LockedCall.Clean (.bgetBlock store bno)) :
    store.bgetOps buffer bno = locked buffer [] := by
  unfold BlockStore.bgetOps
  by_cases isFull : (store.heads (hashBh bno)).size ≥ 100
  · rw [if_pos isFull]
    cases found : store.bgetFound bno with
    | inl bb =>
        obtain ⟨member, valid⟩ := BlockStore.bgetSearch_hit found
        exact absurd ⟨isFull, bb, member, valid⟩ clean
    | inr oldest => rfl
  · rw [if_neg isFull]
    rfl

theorem BgetBlock.balanced (gets : BgetBlock ops) : Balanced 1 ops := by
  cases gets with
  | full store bno isFull clean =>
      rw [bgetOps_locked store bno clean]
      exact leaf_balanced rfl
  | room store bno isRoom headMalloc dataMalloc =>
      have clean : LockedCall.Clean (.bgetBlock store bno) :=
        fun both => absurd both.1 (by omega)
      rw [bgetOps_locked store bno clean]
      exact (headMalloc.balanced.append dataMalloc.balanced).append (leaf_balanced rfl)

theorem steps_waits (n : Nat) :
    plan.steps (List.replicate n (.semWait diskSem)) = List.replicate n (.await disk) := by
  induction n with
  | zero => rfl
  | succ n ih =>
      rw [List.replicate_succ, List.replicate_succ, ← ih]
      rfl

theorem diskTransfer_balanced {partInfo : Nat → PartInfo} {drive : Drive} {fuel : Nat}
    {minor beginSec count : Int} {cmd : Nat} {before behind : Nat → Region → Region}
    {data : Region} {transfer : Transfer}
    (returns : diskTransfer disk diskSem partInfo minor beginSec count cmd drive.status fuel
      before behind data = some transfer)
    (clean : LockedCall.Undisturbed partInfo drive minor count) : Balanced 1 transfer.ops := by
  unfold diskTransfer at returns
  rw [if_neg clean.1] at returns
  obtain ⟨⟨result, dataAfter, opsAfter⟩, loops, rfl⟩ := Option.map_eq_some_iff.mp returns
  have whole := ((transferLoop_ends loops).whole (by simpa using clean.2)).2
  have isLocked : opsAfter = locked disk (List.replicate count.toNat (.semWait diskSem)) := by
    rw [whole]
    rfl
  change Balanced 1 opsAfter
  rw [isLocked]
  refine locked_balanced ?_ (Nat.le_of_eq rfl)
  rw [steps_waits]
  exact LockOrder.Inside.awaits _

theorem DiskRead.balanced (reads : DiskRead ops) : Balanced 1 ops := by
  cases reads with
  | intro partInfo drive fuel minor beginSec buf count transfer returns clean =>
      exact diskTransfer_balanced returns clean

theorem DiskWrite.balanced (writes : DiskWrite ops) : Balanced 1 ops := by
  cases writes with
  | intro partInfo drive fuel minor beginSec buf count transfer returns clean =>
      exact diskTransfer_balanced returns clean

theorem ReadBlock.balanced (reads : ReadBlock ops) : Balanced 1 ops := by
  cases reads with
  | cached found => exact found.balanced
  | loaded found reads => exact found.balanced.append reads.balanced
  | evicted found writes reads =>
      exact (found.balanced.append writes.balanced).append reads.balanced

theorem Ext2Piece.balanced (piece : Ext2Piece ops) : Balanced 1 ops := by
  cases piece with
  | readBlock reads => exact reads.balanced
  | bgetBlock gets => exact gets.balanced
  | devRead reads => exact reads.balanced
  | devWrite writes => exact writes.balanced

theorem plan_fs (mount : Nat) : plan.rank (fs mount) = 0 := if_neg (by unfold fs; omega)

theorem FsOp.balanced (op : FsOp ops) : Balanced 0 ops := by
  cases op with
  | intro mount pieces =>
      refine locked_balanced ?_ (Nat.zero_le _)
      apply LockOrder.Balanced.inside
      rw [plan_fs mount]
      exact pieces.balanced fun _ => Ext2Piece.balanced

theorem FileCall.balanced (call : FileCall ops) : Balanced 0 ops := by
  have table : Balanced 0 (locked fileTable []) := (leaf_balanced rfl).mono (Nat.zero_le 1)
  cases call with
  | sysOpenFull => exact table
  | sysOpen opens => exact table.append opens.balanced
  | sysOpenFails opens => exact (table.append opens.balanced).append table
  | badDescriptor => exact LockOrder.Balanced.nil 0
  | sysRead reads => exact reads.balanced
  | sysWrite writes => exact writes.balanced
  | sysSeek seeks => exact seeks.balanced
  | sysClose => exact table
  | sysCloseLast closes => exact table.append closes.balanced
  | sysUnlink unlinks => exact (table.append unlinks.balanced).append table

theorem ForkPiece.balanced (piece : ForkPiece ops) : Balanced 0 ops := by
  have pages : Balanced 0 (locked page []) := (leaf_balanced rfl).mono (Nat.zero_le 1)
  cases piece with
  | allocTask allocates => exact allocates.balanced.mono (Nat.zero_le 1)
  | createPde => exact pages
  | copyOpenFiles => exact (leaf_balanced rfl).mono (Nat.zero_le 1)
  | copyMemory => exact pages
  | distoryMemory => exact pages

theorem ExecvePiece.balanced (piece : ExecvePiece ops) : Balanced 0 ops := by
  have pages : Balanced 0 (locked page []) := (leaf_balanced rfl).mono (Nat.zero_le 1)
  cases piece with
  | createPde => exact pages
  | loadElfFile calls => exact calls.balanced
  | allocVpages => exact pages
  | freeVpages => exact pages
  | destroyPde => exact pages

theorem KernelCall.balanced (call : KernelCall ops) : Balanced 0 ops := by
  have prints : Balanced 0 (locked log []) := (leaf_balanced rfl).mono (Nat.zero_le 1)
  cases call with
  | sysSleep ms => exact LockOrder.Balanced.pause
  | sysFork pieces => exact pieces.balanced fun _ => ForkPiece.balanced
  | sysExecve pieces => exact pieces.balanced fun _ => ExecvePiece.balanced
  | sysPrintf => exact prints
  | unknown => exact prints
  | file calls => exact calls.balanced

end Balanced

theorem KernelTrace.follows {trace : List Op} (isTrace : KernelTrace trace) :
    plan.Follows trace := by
  obtain ⟨calls, rest, many, rfl⟩ := isTrace
  have whole := many.balanced (fun _ => KernelCall.balanced) []
    (fun _ impossible => (List.not_mem_nil impossible).elim)
  rw [steps_append] at whole
  obtain ⟨held, follows, _⟩ := LockOrder.holds_prefix whole
  exact ⟨held, follows⟩

end LockTraces

/-! ### No deadlock -/

open LockTraces in
/-- Whatever the interleaving of these paths, no tasks wait for mutexes in a circle; behind every
task that waits there is an owner that is ready to run, or that holds the disk's mutex and waits
for the disk. -/
theorem locks_progress {boot : Boot} {k : Kernel} {traces : Nat → List Op}
    (run : LockRun plan boot KernelTrace k traces) :
    ∃ place, QueuesIntact k place ∧
      (∀ t, ¬ Relation.TransGen (k.Behind place) t t) ∧
      ∀ t m, t ∈ place (.mutex m) → ∃ o, Relation.TransGen (k.Behind place) t o ∧
        (o ∈ place .ready ∨ ∃ s, o ∈ place (.sem s) ∧ (k.mutex disk).owner = some o) := by
  obtain ⟨place, tasks, held, scheduled, ordered⟩ :=
    run.ordered (fun _ => KernelTrace.follows)
  have bounded : ∀ m, plan.rank m ≤ 1 := by
    intro m
    unfold plan
    dsimp only
    split <;> decide
  exact ⟨place.on, scheduled.queuesIntact, ordered.no_circle,
    fun t m waits => ordered.chain_ends bounded waits⟩

open LockTraces in
/-- The init task has begun to fork and holds the mutex of the pages. -/
theorem locks_progress_fork :
    ∃ k traces, LockRun plan Boot.zeroed KernelTrace k traces ∧ (k.mutex page).owner = some 1 ∧
      ∃ place, QueuesIntact k place ∧
        (∀ t, ¬ Relation.TransGen (k.Behind place) t t) ∧
        ∀ t m, t ∈ place (.mutex m) → ∃ o, Relation.TransGen (k.Behind place) t o ∧
          (o ∈ place .ready ∨ ∃ s, o ∈ place (.sem s) ∧ (k.mutex disk).owner = some o) := by
  have booted : LockRun plan Boot.zeroed KernelTrace _ _ :=
    LockRun.start (rfl : Boot.zeroed.start = some _) (fun _ => rfl)
  have yielded := booted.aside .taskYield rfl trivial rfl
  have trace : KernelTrace [.mutexLock page] :=
    ⟨LockTraces.allocPages, [.mutexUnlock page], ⟨[LockTraces.allocPages], fun piece member => by
      rw [List.mem_singleton.mp member]
      exact KernelCall.sysFork ⟨[LockTraces.allocPages], fun inner inside => by
        rw [List.mem_singleton.mp inside]
        exact ForkPiece.createPde, rfl⟩, rfl⟩, rfl⟩
  have locked := yielded.own (.mutexLock page) rfl (show (1 : Nat) ≠ 0 by decide) rfl trace
  exact ⟨_, _, locked, rfl, locks_progress locked⟩

end MangoOS
