/-
Open files and descriptors (fs/file.c, fs/fs.c, kernel/task.c): who refers to a
`file_t`, and what its `ref` says.

What a file system does with a path is left to the `err` it returns.
-/

import MangoOS.Library.Counting
import Mathlib.Order.Interval.Finset.Nat

namespace MangoOS

def maxOpenFiles : Nat := 2048

def taskOpenMaxFiles : Nat := 128

def etmfiles : Int := 13

/-- `file_table` and the descriptor tables of all tasks.  A pointer to a file is its number
in the table; numbers from 2048 on stand for pointers to anything else.  There is no room for
so many tasks that a `ref` could overflow. -/
structure FileTable where
  ref : Nat → Int
  tasks : Finset Nat
  table : Nat → Nat → Option Nat

namespace FileTable

def setRef (s : FileTable) (file : Nat) (ref : Int) : FileTable :=
  { s with ref := Function.update s.ref file ref }

def setSlot (s : FileTable) (task fd : Nat) (file : Option Nat) : FileTable :=
  { s with table := Function.update s.table task (Function.update (s.table task) fd file) }

/-! ### Operations -/

/-- The first free file from file `i` on. -/
def freeFileFrom (ref : Nat → Int) : (left i : Nat) → Option Nat
  | 0, _ => none
  | left + 1, i => if ref i = 0 then some i else freeFileFrom ref left (i + 1)

/-- `alloc_file`; if no file is free it returns the last one as it is. -/
def allocFile (s : FileTable) : Nat × FileTable :=
  match freeFileFrom s.ref maxOpenFiles 0 with
  | some file => (file, s.setRef file 1)
  | none => (maxOpenFiles - 1, s)

def freeFile (s : FileTable) (file : Nat) : FileTable :=
  if s.ref file > 0 then s.setRef file (s.ref file - 1) else s

def fileIncRef (s : FileTable) (file : Nat) : FileTable := s.setRef file (s.ref file + 1)

/-- The first free descriptor from `fd` on. -/
def freeFdFrom (table : Nat → Option Nat) : (left fd : Nat) → Option Nat
  | 0, _ => none
  | left + 1, fd => if table fd = none then some fd else freeFdFrom table left (fd + 1)

/-- `task_alloc_fd`; `none` is -1. -/
def taskAllocFd (s : FileTable) (task file : Nat) : Option Nat × FileTable :=
  match freeFdFrom (s.table task) taskOpenMaxFiles 0 with
  | some fd => (some fd, s.setSlot task fd (some file))
  | none => (none, s)

def taskFreeFd (s : FileTable) (task fd : Nat) : FileTable :=
  if fd < taskOpenMaxFiles then s.setSlot task fd none else s

/-- `sys_open` of a path for which the file system returns `err`. -/
def sysOpen (s : FileTable) (task : Nat) (err : Int) : Int × FileTable :=
  let (file, s) := s.allocFile
  match s.taskAllocFd task file with
  | (none, s) => (-etmfiles, s)
  | (some fd, s) => if err < 0 then (err, (s.taskFreeFd task fd).freeFile file) else (fd, s)

def sysUnlink (s : FileTable) (task : Nat) (err : Int) : Int × FileTable :=
  let (file, s) := s.allocFile
  match s.taskAllocFd task file with
  | (none, s) => (-etmfiles, s)
  | (some fd, s) => (err, (s.freeFile file).taskFreeFd task fd)

/-- `sys_close`; `behind` is what lies behind the descriptor table at that place. -/
def sysClose (s : FileTable) (task : Nat) (fd : Int) (behind : Option Nat) : Int × FileTable :=
  if fd < 0 ∨ fd ≥ maxOpenFiles then (-1, s)
  else
    match if fd < taskOpenMaxFiles then s.table task fd.toNat else behind with
    | none => (-1, s)
    | some file => (0, (s.freeFile file).taskFreeFd task fd.toNat)

/-- The loop of `copy_open_files` from descriptor `fd` on. -/
def copyLoop (parent child : Nat) : (left fd : Nat) → FileTable → FileTable
  | 0, _, s => s
  | left + 1, fd, s =>
      match s.table parent fd with
      | none => copyLoop parent child left (fd + 1) s
      | some file =>
          copyLoop parent child left (fd + 1) ((s.fileIncRef file).setSlot child fd (some file))

/-- A new task, whose memory already holds something, and `copy_open_files`. -/
def copyOpenFiles (s : FileTable) (parent child : Nat) (stale : Nat → Option Nat) : FileTable :=
  copyLoop parent child taskOpenMaxFiles 0
    { s with tasks := insert child s.tasks, table := Function.update s.table child stale }

/-! ### Runs -/

inductive FileCall
  | «open» (task : Nat) (err : Int)
  | close (task : Nat) (fd : Int) (behind : Option Nat)
  | unlink (task : Nat) (err : Int)
  | fork (parent child : Nat) (stale : Nat → Option Nat)

def step (s : FileTable) : FileCall → FileTable
  | .open task err => (s.sysOpen task err).2
  | .close task fd behind => (s.sysClose task fd behind).2
  | .unlink task err => (s.sysUnlink task err).2
  | .fork parent child stale => s.copyOpenFiles parent child stale

/-- Calls come from tasks, and the child of a fork is a new one. -/
def Legal (s : FileTable) : FileCall → Prop
  | .open task _ => task ∈ s.tasks
  | .close task _ _ => task ∈ s.tasks
  | .unlink task _ => task ∈ s.tasks
  | .fork parent child _ => parent ∈ s.tasks ∧ child ∉ s.tasks

def places (s : FileTable) : Finset (Nat × Nat) := s.tasks ×ˢ Finset.range taskOpenMaxFiles

/-- How many descriptors refer to a file. -/
def holders (s : FileTable) (file : Nat) : Nat :=
  pointing s.places (fun place => s.table place.1 place.2) file

def Exact (s : FileTable) : Prop := ∀ file, file < maxOpenFiles → s.ref file = s.holders file

/-- A call keeps the references exact, and a failing `sys_open` or `sys_unlink` everything. -/
def Keeps (s : FileTable) (call : FileCall) : Prop :=
  (s.step call).Exact ∧
    match call with
    | .open task err => (s.sysOpen task err).1 < 0 → s.step call = s
    | .unlink task err => (s.sysUnlink task err).1 < 0 → s.step call = s
    | _ => True

def HasFile (s : FileTable) : Prop := ∃ file, file < maxOpenFiles ∧ s.ref file = 0

def HasFd (s : FileTable) (task : Nat) : Prop :=
  ∃ fd, fd < taskOpenMaxFiles ∧ s.table task fd = none

/-- A file and a descriptor are found, or neither; a descriptor to close lies in the table,
or there is no file in use behind it; the unused descriptors of a child point to no file. -/
def Meets (s : FileTable) : FileCall → Prop
  | .open task _ => s.HasFile ↔ s.HasFd task
  | .unlink task _ => s.HasFile ↔ s.HasFd task
  | .close _ fd behind =>
      taskOpenMaxFiles ≤ fd → fd < maxOpenFiles →
        ∀ file, behind = some file → file < maxOpenFiles → s.ref file ≤ 0
  | .fork parent _ stale =>
      ∀ fd, fd < taskOpenMaxFiles → s.table parent fd = none →
        ∀ file, stale fd = some file → maxOpenFiles ≤ file

inductive FileTableRun (allowed : FileTable → FileCall → Prop) : FileTable → Prop
  | start (s : FileTable) : (∀ file, s.ref file = 0) →
      (∀ task, task ∈ s.tasks → ∀ fd, s.table task fd = none) → FileTableRun allowed s
  | call {s : FileTable} (call : FileCall) : FileTableRun allowed s → s.Legal call →
      allowed s call → FileTableRun allowed (s.step call)

/-! ### What the operations find -/

variable {s : FileTable} {task file fd : Nat}

theorem freeFileFrom_spec (ref : Nat → Int) (left i : Nat) :
    (∃ file, freeFileFrom ref left i = some file ∧ file < i + left ∧ ref file = 0) ∨
      freeFileFrom ref left i = none ∧ ∀ file, i ≤ file → file < i + left → ref file ≠ 0 := by
  induction left generalizing i with
  | zero => exact Or.inr ⟨rfl, fun file lower upper => by omega⟩
  | succ left ih =>
      rw [freeFileFrom]
      cases decEq (ref i) 0 with
      | isTrue free =>
          rw [if_pos free]
          exact Or.inl ⟨i, rfl, by omega, free⟩
      | isFalse used =>
          rw [if_neg used]
          rcases ih (i + 1) with ⟨file, found, upper, free⟩ | ⟨missing, none⟩
          · exact Or.inl ⟨file, found, by omega, free⟩
          · refine Or.inr ⟨missing, ?_⟩
            intro file lower upper
            cases decEq file i with
            | isTrue same => exact same ▸ used
            | isFalse different => exact none file (by omega) (by omega)

theorem freeFdFrom_spec (table : Nat → Option Nat) (left i : Nat) :
    (∃ fd, freeFdFrom table left i = some fd ∧ fd < i + left ∧ table fd = none) ∨
      freeFdFrom table left i = none ∧ ∀ fd, i ≤ fd → fd < i + left → table fd ≠ none := by
  induction left generalizing i with
  | zero => exact Or.inr ⟨rfl, fun fd lower upper => by omega⟩
  | succ left ih =>
      rw [freeFdFrom]
      by_cases free : table i = none
      · rw [if_pos free]
        exact Or.inl ⟨i, rfl, by omega, free⟩
      · rw [if_neg free]
        rcases ih (i + 1) with ⟨fd, found, upper, isFree⟩ | ⟨missing, none⟩
        · exact Or.inl ⟨fd, found, by omega, isFree⟩
        · refine Or.inr ⟨missing, ?_⟩
          intro fd lower upper
          cases decEq fd i with
          | isTrue same => exact same ▸ free
          | isFalse different => exact none fd (by omega) (by omega)

theorem allocFile_spec (s : FileTable) :
    (∃ file, s.allocFile = (file, s.setRef file 1) ∧ file < maxOpenFiles ∧ s.ref file = 0) ∨
      s.allocFile = (maxOpenFiles - 1, s) ∧ ¬ s.HasFile := by
  unfold allocFile
  rcases freeFileFrom_spec s.ref maxOpenFiles 0 with ⟨file, found, upper, free⟩ | ⟨missing, used⟩
  · rw [found]
    exact Or.inl ⟨file, rfl, by omega, free⟩
  · rw [missing]
    exact Or.inr ⟨rfl, fun ⟨file, upper, free⟩ => used file (by omega) (by omega) free⟩

theorem taskAllocFd_spec (s : FileTable) (task file : Nat) :
    (∃ fd, s.taskAllocFd task file = (some fd, s.setSlot task fd (some file)) ∧
      fd < taskOpenMaxFiles ∧ s.table task fd = none) ∨
      s.taskAllocFd task file = (none, s) ∧ ¬ s.HasFd task := by
  unfold taskAllocFd
  rcases freeFdFrom_spec (s.table task) taskOpenMaxFiles 0 with
    ⟨fd, found, upper, free⟩ | ⟨missing, used⟩
  · rw [found]
    exact Or.inl ⟨fd, rfl, by omega, free⟩
  · rw [missing]
    exact Or.inr ⟨rfl, fun ⟨fd, upper, free⟩ => used fd (by omega) (by omega) free⟩

/-! ### Slots and references -/

@[simp] theorem setRef_ref (other : Nat) (ref : Int) :
    (s.setRef file ref).ref other = if other = file then ref else s.ref other :=
  Function.update_apply s.ref file ref other

@[simp] theorem setRef_table (ref : Int) : (s.setRef file ref).table = s.table := rfl
@[simp] theorem setRef_tasks (ref : Int) : (s.setRef file ref).tasks = s.tasks := rfl
@[simp] theorem setSlot_ref (value : Option Nat) : (s.setSlot task fd value).ref = s.ref := rfl
@[simp] theorem setSlot_tasks (value : Option Nat) :
    (s.setSlot task fd value).tasks = s.tasks := rfl

theorem setSlot_table (value : Option Nat) (other place : Nat) :
    (s.setSlot task fd value).table other place =
      if (other, place) = (task, fd) then value else s.table other place := by
  unfold setSlot
  simp only [Function.update_apply, Prod.mk.injEq]
  cases decEq other task with
  | isTrue same =>
      rw [if_pos same, Function.update_apply, same]
      simp
  | isFalse different => simp [different]

/-- Only the slot's old and new file can gain or lose a holder. -/
theorem holders_other {value : Option Nat} (fresh : s.table task fd ≠ some file)
    (different : value ≠ some file) : (s.setSlot task fd value).holders file = s.holders file := by
  apply pointing_congr
  intro place _
  rw [setSlot_table]
  by_cases same : (place.1, place.2) = (task, fd)
  · rw [if_pos same]
    obtain ⟨isTask, isFd⟩ := Prod.mk.inj same
    rw [isTask, isFd]
    exact ⟨fun holds => absurd holds different, fun holds => absurd holds fresh⟩
  · rw [if_neg same]

theorem holders_gain (member : task ∈ s.tasks) (inside : fd < taskOpenMaxFiles)
    (fresh : s.table task fd ≠ some file) :
    (s.setSlot task fd (some file)).holders file = s.holders file + 1 := by
  have place : (task, fd) ∈ s.places :=
    Finset.mem_product.mpr ⟨member, Finset.mem_range.mpr inside⟩
  apply pointing_gain place fresh
  · rw [setSlot_table, if_pos rfl]
  · intro other different
    rw [setSlot_table, if_neg different]

/-- A file that comes into an empty slot gains a holder. -/
theorem holders_setSlot (member : task ∈ s.tasks) (inside : fd < taskOpenMaxFiles)
    (empty : s.table task fd = none) (file other : Nat) :
    (s.setSlot task fd (some file)).holders other =
      s.holders other + if other = file then 1 else 0 := by
  have fresh : s.table task fd ≠ some other := by
    rw [empty]
    exact fun impossible => by cases impossible
  by_cases same : other = file
  · rw [if_pos same, ← same, holders_gain member inside fresh]
  · rw [if_neg same, holders_other fresh (fun equal => same (by cases equal; rfl)), Nat.add_zero]

theorem setSlot_setSlot (value : Option Nat) (old : s.table task fd = value) (middle : Option Nat) :
    (s.setSlot task fd middle).setSlot task fd value = s := by
  unfold setSlot
  simp [← old]

theorem setRef_setRef (old : s.ref file = 0) : (s.setRef file 1).setRef file 0 = s := by
  unfold setRef
  simp [← old]

theorem holders_setRef (ref : Int) (other : Nat) :
    (s.setRef file ref).holders other = s.holders other := rfl

/-! ### Taking a file and a descriptor -/

theorem freeFile_table (s : FileTable) (file : Nat) : (s.freeFile file).table = s.table := by
  unfold freeFile
  by_cases held : s.ref file > 0
  · rw [if_pos held]
    rfl
  · rw [if_neg held]

theorem freeFile_setSlot (s : FileTable) (file other : Nat) (empty : s.table task fd = none) :
    ((s.setSlot task fd (some other)).freeFile file).setSlot task fd none = s.freeFile file := by
  have commutes : (s.setSlot task fd (some other)).freeFile file =
      (s.freeFile file).setSlot task fd (some other) := by
    unfold freeFile
    rw [setSlot_ref]
    by_cases held : s.ref file > 0
    · rw [if_pos held, if_pos held]
      rfl
    · rw [if_neg held, if_neg held]
  rw [commutes]
  apply setSlot_setSlot
  rw [freeFile_table]
  exact empty

/-- A free file in a free descriptor. -/
def hold (s : FileTable) (task fd file : Nat) : FileTable :=
  (s.setRef file 1).setSlot task fd (some file)

theorem sysOpen_both (hasFile : s.HasFile) (hasFd : s.HasFd task) (err : Int) :
    ∃ file fd, file < maxOpenFiles ∧ s.ref file = 0 ∧ fd < taskOpenMaxFiles ∧
      s.table task fd = none ∧
      s.sysOpen task err = (if err < 0 then (err, s) else ((fd : Int), s.hold task fd file)) ∧
      s.sysUnlink task err = (err, s) := by
  rcases s.allocFile_spec with ⟨file, gotFile, upper, free⟩ | ⟨_, noFile⟩
  · rcases (s.setRef file 1).taskAllocFd_spec task file with ⟨fd, gotFd, inside, empty⟩ | ⟨_, noFd⟩
    · have cleared : ((s.setRef file 1).setSlot task fd (some file)).setSlot task fd none =
          s.setRef file 1 := setSlot_setSlot none empty (some file)
      have freed : (s.setRef file 1).freeFile file = s := by
        unfold freeFile
        rw [setRef_ref, if_pos rfl, if_pos (by decide)]
        exact setRef_setRef free
      refine ⟨file, fd, upper, free, inside, empty, ?_, ?_⟩
      · unfold sysOpen
        simp only [gotFile, gotFd, taskFreeFd, if_pos inside, cleared, freed]
        rfl
      · have released := freeFile_setSlot (s.setRef file 1) file file empty
        rw [freed] at released
        unfold sysUnlink
        simp only [gotFile, gotFd, taskFreeFd, if_pos inside, released]
    · exact absurd hasFd noFd
  · exact absurd hasFile noFile

theorem sysOpen_noFd (hasFile : s.HasFile) (noFd : ¬ s.HasFd task) (err : Int) :
    ∃ file, file < maxOpenFiles ∧ s.ref file = 0 ∧
      s.sysOpen task err = (-etmfiles, s.setRef file 1) ∧
      s.sysUnlink task err = (-etmfiles, s.setRef file 1) := by
  rcases s.allocFile_spec with ⟨file, gotFile, upper, free⟩ | ⟨_, noFile⟩
  · rcases (s.setRef file 1).taskAllocFd_spec task file with ⟨fd, _, inside, empty⟩ | ⟨gotNone, _⟩
    · exact absurd ⟨fd, inside, empty⟩ noFd
    · refine ⟨file, upper, free, ?_, ?_⟩
      · unfold sysOpen
        simp only [gotFile, gotNone]
      · unfold sysUnlink
        simp only [gotFile, gotNone]
  · exact absurd hasFile noFile

theorem sysOpen_noFile (noFile : ¬ s.HasFile) (hasFd : s.HasFd task) (err : Int) :
    ∃ fd, fd < taskOpenMaxFiles ∧ s.table task fd = none ∧
      s.sysOpen task err =
        (if err < 0 then (err, s.freeFile 2047)
        else ((fd : Int), s.setSlot task fd (some 2047))) ∧
      s.sysUnlink task err = (err, s.freeFile 2047) := by
  rcases s.allocFile_spec with ⟨file, _, upper, free⟩ | ⟨gotLast, _⟩
  · exact absurd ⟨file, upper, free⟩ noFile
  · rcases s.taskAllocFd_spec task 2047 with ⟨fd, gotFd, inside, empty⟩ | ⟨_, noFd⟩
    · have cleared : (s.setSlot task fd (some 2047)).setSlot task fd none = s :=
        setSlot_setSlot none empty (some 2047)
      refine ⟨fd, inside, empty, ?_, ?_⟩
      · unfold sysOpen
        simp only [gotLast, maxOpenFiles, gotFd, taskFreeFd, if_pos inside, cleared]
      · have released := freeFile_setSlot s 2047 2047 empty
        unfold sysUnlink
        simp only [gotLast, maxOpenFiles, gotFd, taskFreeFd, if_pos inside, released]
    · exact absurd hasFd noFd

theorem sysOpen_none (noFile : ¬ s.HasFile) (noFd : ¬ s.HasFd task) (err : Int) :
    s.sysOpen task err = (-etmfiles, s) ∧ s.sysUnlink task err = (-etmfiles, s) := by
  rcases s.allocFile_spec with ⟨file, _, upper, free⟩ | ⟨gotLast, _⟩
  · exact absurd ⟨file, upper, free⟩ noFile
  · rcases s.taskAllocFd_spec task (maxOpenFiles - 1) with ⟨fd, _, inside, empty⟩ | ⟨gotNone, _⟩
    · exact absurd ⟨fd, inside, empty⟩ noFd
    · unfold sysOpen sysUnlink
      simp only [gotLast, gotNone]
      exact ⟨trivial, trivial⟩

/-! ### One call -/

theorem Exact.freeFile_not (exact : s.Exact) (inside : file < maxOpenFiles)
    (used : s.ref file ≠ 0) : ¬ (s.freeFile file).Exact := by
  intro still
  have counted := exact file inside
  have positive : s.ref file > 0 := by omega
  have now := still file inside
  unfold freeFile at now
  rw [if_pos positive, setRef_ref, if_pos rfl, holders_setRef] at now
  omega

theorem Exact.hold (exact : s.Exact) (member : task ∈ s.tasks) (free : s.ref file = 0)
    (inside : fd < taskOpenMaxFiles) (empty : s.table task fd = none) :
    (s.hold task fd file).Exact := by
  intro other upper
  have counted := exact other upper
  unfold FileTable.hold
  rw [setSlot_ref, setRef_ref, holders_setSlot (s := s.setRef file 1) member inside empty,
    holders_setRef]
  by_cases same : other = file
  · rw [same, free] at counted
    rw [if_pos same, if_pos same, same]
    omega
  · rw [if_neg same, if_neg same]
    exact counted

theorem Exact.setRef_not (exact : s.Exact) (upper : file < maxOpenFiles) (free : s.ref file = 0) :
    ¬ (s.setRef file 1).Exact := by
  intro still
  have counted := exact file upper
  have now := still file upper
  rw [setRef_ref, if_pos rfl, holders_setRef] at now
  omega

theorem Exact.setSlot_not (exact : s.Exact) (member : task ∈ s.tasks)
    (inside : fd < taskOpenMaxFiles) (empty : s.table task fd = none)
    (upper : file < maxOpenFiles) : ¬ (s.setSlot task fd (some file)).Exact := by
  intro still
  have counted := exact file upper
  have now := still file upper
  rw [setSlot_ref, holders_setSlot member inside empty, if_pos rfl] at now
  omega

theorem Exact.open_iff (exact : s.Exact) (member : task ∈ s.tasks) (err : Int) :
    s.Keeps (.open task err) ↔ (s.HasFile ↔ s.HasFd task) := by
  change ((s.sysOpen task err).2.Exact ∧
    ((s.sysOpen task err).1 < 0 → (s.sysOpen task err).2 = s)) ↔ _
  by_cases hasFile : s.HasFile
  · by_cases hasFd : s.HasFd task
    · obtain ⟨file, fd, _, free, inside, empty, opened, _⟩ := sysOpen_both hasFile hasFd err
      rw [opened]
      refine iff_of_true ?_ (iff_of_true hasFile hasFd)
      by_cases fails : err < 0
      · rw [if_pos fails]
        exact ⟨exact, fun _ => rfl⟩
      · rw [if_neg fails]
        refine ⟨exact.hold member free inside empty, ?_⟩
        intro negative
        change (fd : Int) < 0 at negative
        omega
    · obtain ⟨file, upper, free, opened, _⟩ := sysOpen_noFd hasFile hasFd err
      rw [opened]
      refine iff_of_false ?_ (fun both => hasFd (both.mp hasFile))
      intro ⟨still, _⟩
      exact exact.setRef_not upper free still
  · by_cases hasFd : s.HasFd task
    · obtain ⟨fd, inside, empty, opened, _⟩ := sysOpen_noFile hasFile hasFd err
      rw [opened]
      refine iff_of_false ?_ (fun both => hasFile (both.mpr hasFd))
      intro ⟨still, _⟩
      by_cases fails : err < 0
      · rw [if_pos fails] at still
        exact exact.freeFile_not (by decide) (fun free => hasFile ⟨2047, by decide, free⟩) still
      · rw [if_neg fails] at still
        exact exact.setSlot_not member inside empty (by decide) still
    · rw [(sysOpen_none hasFile hasFd err).1]
      exact iff_of_true ⟨exact, fun _ => rfl⟩ (iff_of_false hasFile hasFd)

theorem Exact.unlink_iff (exact : s.Exact) (err : Int) :
    s.Keeps (.unlink task err) ↔ (s.HasFile ↔ s.HasFd task) := by
  change ((s.sysUnlink task err).2.Exact ∧
    ((s.sysUnlink task err).1 < 0 → (s.sysUnlink task err).2 = s)) ↔ _
  by_cases hasFile : s.HasFile
  · by_cases hasFd : s.HasFd task
    · obtain ⟨file, fd, _, _, _, _, _, unlinked⟩ := sysOpen_both hasFile hasFd err
      rw [unlinked]
      exact iff_of_true ⟨exact, fun _ => rfl⟩ (iff_of_true hasFile hasFd)
    · obtain ⟨file, upper, free, _, unlinked⟩ := sysOpen_noFd hasFile hasFd err
      rw [unlinked]
      refine iff_of_false ?_ (fun both => hasFd (both.mp hasFile))
      intro ⟨still, _⟩
      exact exact.setRef_not upper free still
  · by_cases hasFd : s.HasFd task
    · obtain ⟨fd, _, _, _, unlinked⟩ := sysOpen_noFile hasFile hasFd err
      rw [unlinked]
      refine iff_of_false ?_ (fun both => hasFile (both.mpr hasFd))
      intro ⟨still, _⟩
      exact exact.freeFile_not (by decide) (fun free => hasFile ⟨2047, by decide, free⟩) still
    · rw [(sysOpen_none hasFile hasFd err).2]
      exact iff_of_true ⟨exact, fun _ => rfl⟩ (iff_of_false hasFile hasFd)

theorem holders_lose (member : task ∈ s.tasks) (inside : fd < taskOpenMaxFiles)
    (holds : s.table task fd = some file) :
    s.holders file = (s.setSlot task fd none).holders file + 1 := by
  have place : (task, fd) ∈ s.places :=
    Finset.mem_product.mpr ⟨member, Finset.mem_range.mpr inside⟩
  apply pointing_gain place
  · rw [setSlot_table, if_pos rfl]
    exact fun impossible => by cases impossible
  · exact holds
  · intro other different
    rw [setSlot_table, if_neg different]

theorem holders_freeFile (s : FileTable) (file other : Nat) :
    (s.freeFile file).holders other = s.holders other := by
  unfold freeFile
  by_cases held : s.ref file > 0
  · rw [if_pos held, holders_setRef]
  · rw [if_neg held]

theorem freeFile_tasks (s : FileTable) (file : Nat) : (s.freeFile file).tasks = s.tasks := by
  unfold freeFile
  by_cases held : s.ref file > 0
  · rw [if_pos held]
    rfl
  · rw [if_neg held]

theorem freeFile_ref_other {other : Nat} (different : other ≠ file) :
    (s.freeFile file).ref other = s.ref other := by
  unfold freeFile
  by_cases held : s.ref file > 0
  · rw [if_pos held, setRef_ref, if_neg different]
  · rw [if_neg held]

theorem holders_pos (member : task ∈ s.tasks) (inside : fd < taskOpenMaxFiles)
    (holds : s.table task fd = some file) : 0 < s.holders file := by
  rw [holders_lose member inside holds]
  exact Nat.succ_pos _

/-- Closing a descriptor takes a reference and a holder off its file. -/
theorem release_balance (member : task ∈ s.tasks) (inside : fd < taskOpenMaxFiles)
    (holds : s.table task fd = some file) (other : Nat)
    (positive : other = file → s.ref other > 0) :
    ((s.freeFile file).setSlot task fd none).ref other -
        ((s.freeFile file).setSlot task fd none).holders other =
      s.ref other - s.holders other := by
  have still : (s.freeFile file).table task fd = some file := by
    rw [freeFile_table]
    exact holds
  rw [setSlot_ref]
  by_cases same : other = file
  · have loses := holders_lose (s := s.freeFile file)
      (by rw [freeFile_tasks]; exact member) inside still
    rw [holders_freeFile] at loses
    have referred := positive same
    rw [same] at referred ⊢
    unfold freeFile at loses ⊢
    rw [if_pos referred] at loses ⊢
    rw [setRef_ref, if_pos rfl]
    omega
  · rw [freeFile_ref_other same, holders_other, holders_freeFile]
    · rw [still]
      exact fun equal => same (by cases equal; rfl)
    · exact fun impossible => by cases impossible

theorem Exact.release (exact : s.Exact) (member : task ∈ s.tasks) (inside : fd < taskOpenMaxFiles)
    (holds : s.table task fd = some file) :
    ((s.freeFile file).setSlot task fd none).Exact := by
  intro other upper
  have counted := exact other upper
  have balance := release_balance member inside holds other (by
    intro same
    have held := holders_pos member inside holds
    rw [← same] at held
    omega)
  omega

theorem Exact.close_iff (exact : s.Exact) (member : task ∈ s.tasks) (fd : Int)
    (behind : Option Nat) :
    s.Keeps (.close task fd behind) ↔ s.Meets (.close task fd behind) := by
  change ((s.sysClose task fd behind).2.Exact ∧ True) ↔ _
  rw [and_true]
  unfold sysClose Meets
  by_cases outside : fd < 0 ∨ fd ≥ maxOpenFiles
  · rw [if_pos outside]
    exact iff_of_true exact (fun _ upper => by omega)
  · rw [if_neg outside]
    by_cases inTable : fd < taskOpenMaxFiles
    · rw [if_pos inTable]
      have inside : fd.toNat < taskOpenMaxFiles := by omega
      refine iff_of_true ?_ (fun lower _ => by omega)
      cases holds : s.table task fd.toNat with
      | none => exact exact
      | some file =>
          change ((s.freeFile file).taskFreeFd task fd.toNat).Exact
          unfold taskFreeFd
          rw [if_pos inside]
          exact exact.release member inside holds
    · rw [if_neg inTable]
      have away : ¬ fd.toNat < taskOpenMaxFiles := by omega
      cases behind with
      | none => exact iff_of_true exact (fun _ _ file impossible => by cases impossible)
      | some file =>
          change ((s.freeFile file).taskFreeFd task fd.toNat).Exact ↔ _
          unfold taskFreeFd
          rw [if_neg away]
          constructor
          · intro still _ _ other same upper
            cases same
            by_contra positive
            exact exact.freeFile_not upper (by omega) still
          · intro meets other upper
            rw [holders_freeFile]
            cases decEq other file with
            | isTrue same =>
                have notPositive := meets (by omega) (by omega) file rfl (same ▸ upper)
                unfold freeFile
                rw [if_neg (by omega)]
                exact exact other upper
            | isFalse different =>
                rw [freeFile_ref_other different]
                exact exact other upper

/-! ### Forking -/

/-- The descriptors of a child before and after some rounds of `copy_open_files`. -/
theorem copyLoop_spec {parent child : Nat} (different : parent ≠ child) (left fd : Nat)
    (s : FileTable) :
    (copyLoop parent child left fd s).tasks = s.tasks ∧
    (∀ task, task ≠ child → (copyLoop parent child left fd s).table task = s.table task) ∧
    (∀ place, (copyLoop parent child left fd s).table child place =
      if fd ≤ place ∧ place < fd + left then (s.table parent place).or (s.table child place)
      else s.table child place) ∧
    ∀ file, (copyLoop parent child left fd s).ref file =
      s.ref file + pointing (Finset.Ico fd (fd + left)) (s.table parent) file := by
  induction left generalizing fd s with
  | zero =>
      refine ⟨rfl, fun _ _ => rfl, ?_, ?_⟩
      · intro place
        rw [if_neg (by omega)]
        rfl
      · intro file
        rw [Nat.add_zero, Finset.Ico_self]
        change s.ref file = s.ref file + (0 : Nat)
        omega
  | succ left ih =>
      have next : Finset.Ico fd (fd + (left + 1)) = insert fd (Finset.Ico (fd + 1) (fd + 1 + left)) := by
        ext place
        rw [Finset.mem_insert, Finset.mem_Ico, Finset.mem_Ico]
        omega
      have fresh : fd ∉ Finset.Ico (fd + 1) (fd + 1 + left) := by
        rw [Finset.mem_Ico]
        omega
      rw [next]
      cases holds : s.table parent fd with
      | none =>
          have loop : copyLoop parent child (left + 1) fd s =
              copyLoop parent child left (fd + 1) s := by
            simp only [copyLoop, holds]
          obtain ⟨tasks, others, slots, refs⟩ := ih (fd + 1) s
          rw [loop]
          refine ⟨tasks, others, ?_, ?_⟩
          · intro place
            rw [slots]
            cases decEq place fd with
            | isTrue isFd =>
                rw [isFd, if_neg (by omega), if_pos (by omega), holds]
                rfl
            | isFalse other =>
                by_cases later : fd + 1 ≤ place ∧ place < fd + 1 + left
                · rw [if_pos later, if_pos (by omega)]
                · rw [if_neg later, if_neg (by omega)]
          · intro file
            rw [refs, pointing_insert fresh, holds]
            simp
      | some copied =>
          have loop : copyLoop parent child (left + 1) fd s =
              copyLoop parent child left (fd + 1)
                ((s.fileIncRef copied).setSlot child fd (some copied)) := by
            simp only [copyLoop, holds]
          obtain ⟨tasks, others, slots, refs⟩ :=
            ih (fd + 1) ((s.fileIncRef copied).setSlot child fd (some copied))
          have same : ((s.fileIncRef copied).setSlot child fd (some copied)).table parent =
              s.table parent := Function.update_of_ne different _ _
          rw [loop]
          refine ⟨tasks, ?_, ?_, ?_⟩
          · intro task other
            rw [others task other]
            exact Function.update_of_ne other _ _
          · intro place
            rw [slots, same, setSlot_table]
            cases decEq place fd with
            | isTrue isFd =>
                rw [isFd, if_neg (by omega), if_pos rfl, if_pos (by omega), holds]
                rfl
            | isFalse other =>
                have notFd : ¬ (child, place) = (child, fd) := fun equal =>
                  other (Prod.mk.inj equal).2
                rw [if_neg notFd]
                by_cases later : fd + 1 ≤ place ∧ place < fd + 1 + left
                · rw [if_pos later, if_pos (by omega)]
                  rfl
                · rw [if_neg later, if_neg (by omega)]
                  rfl
          · intro file
            rw [refs, same, pointing_insert fresh, holds, setSlot_ref]
            unfold fileIncRef
            rw [setRef_ref]
            cases decEq file copied with
            | isTrue isCopied =>
                rw [isCopied, if_pos rfl, if_pos rfl]
                omega
            | isFalse other =>
                rw [if_neg other, if_neg (fun equal => other (by cases equal; rfl))]
                omega

theorem copyOpenFiles_spec {parent child : Nat} (different : parent ≠ child)
    (stale : Nat → Option Nat) :
    (s.copyOpenFiles parent child stale).tasks = insert child s.tasks ∧
    (∀ task, task ≠ child → (s.copyOpenFiles parent child stale).table task = s.table task) ∧
    (∀ place, place < taskOpenMaxFiles → (s.copyOpenFiles parent child stale).table child place =
      (s.table parent place).or (stale place)) ∧
    ∀ file, (s.copyOpenFiles parent child stale).ref file =
      s.ref file + pointing (Finset.range taskOpenMaxFiles) (s.table parent) file := by
  obtain ⟨tasks, others, slots, refs⟩ := copyLoop_spec different taskOpenMaxFiles 0
    { s with tasks := insert child s.tasks, table := Function.update s.table child stale }
  have sameParent : Function.update s.table child stale parent = s.table parent :=
    Function.update_of_ne different _ _
  refine ⟨tasks, ?_, ?_, ?_⟩
  · intro task other
    exact (others task other).trans (Function.update_of_ne other _ _)
  · intro place inside
    refine (slots place).trans ?_
    rw [if_pos (by omega)]
    change (Function.update s.table child stale parent place).or
      (Function.update s.table child stale child place) = _
    rw [sameParent, Function.update_self]
  · intro file
    refine (refs file).trans ?_
    change s.ref file + (pointing _ (Function.update s.table child stale parent) file : Nat) = _
    rw [sameParent, Nat.zero_add, Finset.range_eq_Ico]

/-- The child's descriptors are counted apart from all others. -/
theorem holders_fork {parent child : Nat} (fresh : child ∉ s.tasks) (different : parent ≠ child)
    (stale : Nat → Option Nat) (file : Nat) :
    (s.copyOpenFiles parent child stale).holders file =
      s.holders file + pointing (Finset.range taskOpenMaxFiles)
        (fun fd => (s.table parent fd).or (stale fd)) file := by
  obtain ⟨tasks, others, slots, _⟩ := copyOpenFiles_spec (s := s) different stale
  have apart : Disjoint s.places ({child} ×ˢ Finset.range taskOpenMaxFiles) := by
    rw [Finset.disjoint_left]
    intro place inside isChild
    have isTask := (Finset.mem_product.mp inside).1
    rw [Finset.mem_singleton.mp (Finset.mem_product.mp isChild).1] at isTask
    exact fresh isTask
  have split : (s.copyOpenFiles parent child stale).places =
      s.places ∪ {child} ×ˢ Finset.range taskOpenMaxFiles := by
    unfold places
    rw [tasks, Finset.insert_eq, Finset.union_comm, Finset.union_product]
  unfold holders
  rw [split, pointing_union apart]
  congr 1
  · apply pointing_congr
    intro place inside
    have isTask := (Finset.mem_product.mp inside).1
    rw [others place.1 (fun same => fresh (same ▸ isTask))]
  · rw [Finset.singleton_product, pointing_map]
    apply pointing_congr
    intro fd inside
    change (s.copyOpenFiles parent child stale).table child fd = some file ↔ _
    rw [slots fd (Finset.mem_range.mp inside)]

theorem Exact.fork_iff (exact : s.Exact) {parent child : Nat} (member : parent ∈ s.tasks)
    (fresh : child ∉ s.tasks) (stale : Nat → Option Nat) :
    s.Keeps (.fork parent child stale) ↔ s.Meets (.fork parent child stale) := by
  have different : parent ≠ child := fun same => fresh (same ▸ member)
  obtain ⟨_, _, _, refs⟩ := copyOpenFiles_spec (s := s) different stale
  have holders := holders_fork fresh different stale
  change ((s.copyOpenFiles parent child stale).Exact ∧ True) ↔ _
  rw [and_true]
  constructor
  · intro still fd inside empty file isStale
    by_contra inTable
    have upper : file < maxOpenFiles := by omega
    have counted := exact file upper
    have now := still file upper
    rw [refs, holders] at now
    have more : pointing (Finset.range taskOpenMaxFiles) (s.table parent) file <
        pointing (Finset.range taskOpenMaxFiles)
          (fun fd => (s.table parent fd).or (stale fd)) file := by
      apply pointing_lt _ (Finset.mem_range.mpr inside)
      · rw [empty]
        exact fun impossible => by cases impossible
      · rw [empty]
        exact isStale
      · intro place _ holds
        rw [holds]
        rfl
    omega
  · intro meets file upper
    have counted := exact file upper
    have same : pointing (Finset.range taskOpenMaxFiles)
        (fun fd => (s.table parent fd).or (stale fd)) file =
          pointing (Finset.range taskOpenMaxFiles) (s.table parent) file := by
      apply pointing_congr
      intro fd inside
      cases holds : s.table parent fd with
      | some other => exact Iff.rfl
      | none =>
          refine iff_of_false ?_ (fun impossible => by cases impossible)
          intro isStale
          have away := meets fd (Finset.mem_range.mp inside) holds file isStale
          omega
    rw [refs, holders, same]
    omega

/-! ### All calls -/

theorem Exact.keeps_iff (exact : s.Exact) {call : FileCall} (legal : s.Legal call) :
    s.Keeps call ↔ s.Meets call := by
  cases call with
  | «open» task err => exact exact.open_iff legal err
  | close task fd behind => exact exact.close_iff legal fd behind
  | unlink task err => exact exact.unlink_iff err
  | fork parent child stale => exact exact.fork_iff legal.1 legal.2 stale

theorem FileTableRun.exact (run : FileTableRun Meets s) : s.Exact := by
  induction run with
  | start s free empty =>
      intro file _
      have none : s.holders file = 0 := by
        apply pointing_none
        intro place inside
        rw [empty place.1 (Finset.mem_product.mp inside).1]
        exact fun impossible => by cases impossible
      rw [free, none]
      rfl
  | call call _ legal meets ih => exact ((ih.keeps_iff legal).mpr meets).1

/-- A task with `n` files in its first descriptors. -/
def opened (n : Nat) : FileTable where
  ref := fun file => if file < n then 1 else 0
  tasks := {0}
  table := fun task fd => if task = 0 ∧ fd < n then some fd else none

theorem freeFileFrom_opened (n : Nat) : ∀ left i : Nat, i ≤ n → n < i + left →
    freeFileFrom (opened n).ref left i = some n := by
  intro left
  induction left with
  | zero =>
      intro i lower upper
      omega
  | succ left ih =>
      intro i lower upper
      rw [freeFileFrom]
      cases decEq i n with
      | isTrue same =>
          have free : (opened n).ref n = 0 := if_neg (Nat.lt_irrefl n)
          rw [same, if_pos free]
      | isFalse different =>
          have used : (opened n).ref i = 1 := if_pos (by omega)
          rw [used, if_neg (by decide)]
          exact ih (i + 1) (by omega) (by omega)

private theorem freeFdFrom_opened (n : Nat) : ∀ left i : Nat, i ≤ n → n < i + left →
    freeFdFrom ((opened n).table 0) left i = some n := by
  intro left
  induction left with
  | zero =>
      intro i lower upper
      omega
  | succ left ih =>
      intro i lower upper
      rw [freeFdFrom]
      cases decEq i n with
      | isTrue same =>
          have free : (opened n).table 0 n = none := if_neg (fun both => Nat.lt_irrefl n both.2)
          rw [same, if_pos free]
      | isFalse different =>
          have used : (opened n).table 0 i = some i := if_pos ⟨rfl, by omega⟩
          rw [used, if_neg (fun impossible => by cases impossible)]
          exact ih (i + 1) (by omega) (by omega)

theorem opened_setRef_ref (n file : Nat) :
    (if file = n then (1 : Int) else (opened n).ref file) = (opened (n + 1)).ref file := by
  change (if file = n then (1 : Int) else if file < n then 1 else 0) =
    if file < n + 1 then 1 else 0
  cases decEq file n with
  | isTrue same => rw [if_pos same, if_pos (by omega)]
  | isFalse different =>
      rw [if_neg different]
      cases Nat.decLt file n with
      | isTrue below => rw [if_pos below, if_pos (by omega)]
      | isFalse above => rw [if_neg above, if_neg (by omega)]

private theorem step_opened {n : Nat} (room : n < taskOpenMaxFiles) :
    (opened n).step (.open 0 0) = opened (n + 1) := by
  have tables : n < 128 := room
  have gotFile : (opened n).allocFile = (n, (opened n).setRef n 1) := by
    unfold allocFile
    rw [freeFileFrom_opened n maxOpenFiles 0 (Nat.zero_le n) (by unfold maxOpenFiles; omega)]
  have gotFd : ((opened n).setRef n 1).taskAllocFd 0 n =
      (some n, ((opened n).setRef n 1).setSlot 0 n (some n)) := by
    unfold taskAllocFd
    rw [setRef_table, freeFdFrom_opened n taskOpenMaxFiles 0 (Nat.zero_le n) (by omega)]
  have opens : (opened n).step (.open 0 0) = ((opened n).setRef n 1).setSlot 0 n (some n) := by
    change ((opened n).sysOpen 0 0).2 = _
    unfold sysOpen
    simp only [gotFile, gotFd, if_neg (Int.lt_irrefl 0)]
  have refs : (((opened n).setRef n 1).setSlot 0 n (some n)).ref = (opened (n + 1)).ref := by
    funext file
    rw [setSlot_ref, setRef_ref]
    exact opened_setRef_ref n file
  have slots : (((opened n).setRef n 1).setSlot 0 n (some n)).table = (opened (n + 1)).table := by
    funext task fd
    rw [setSlot_table]
    change (if (task, fd) = (0, n) then some n else if task = 0 ∧ fd < n then some fd else none) =
      if task = 0 ∧ fd < n + 1 then some fd else none
    by_cases new : (task, fd) = (0, n)
    · obtain ⟨isTask, isFd⟩ := Prod.mk.inj new
      rw [if_pos new, if_pos ⟨isTask, by omega⟩, isFd]
    · rw [if_neg new]
      have different : task = 0 → fd ≠ n := fun isTask isFd => new (by rw [isTask, isFd])
      by_cases old : task = 0 ∧ fd < n
      · rw [if_pos old, if_pos ⟨old.1, by omega⟩]
      · rw [if_neg old, if_neg]
        intro ⟨isTask, below⟩
        have apart := different isTask
        exact old ⟨isTask, by omega⟩
  rw [opens]
  exact congr (congrArg (fun ref table => FileTable.mk ref {0} table) refs) slots

theorem opened_run (n : Nat) (room : n ≤ taskOpenMaxFiles)
    {allowed : FileTable → FileCall → Prop}
    (allows : ∀ k, k < taskOpenMaxFiles → allowed (opened k) (.open 0 0)) :
    FileTableRun allowed (opened n) := by
  induction n with
  | zero =>
      refine .start (opened 0) ?_ ?_
      · intro file
        change (if file < 0 then (1 : Int) else 0) = 0
        rw [if_neg (Nat.not_lt_zero file)]
      · intro task _ fd
        exact if_neg (fun both => Nat.not_lt_zero fd both.2)
  | succ n ih =>
      rw [← step_opened (by omega)]
      exact (ih (by omega)).call (.open 0 0) (Finset.mem_singleton_self 0) (allows n (by omega))

theorem opened_hasFile {n : Nat} (room : n ≤ taskOpenMaxFiles) : (opened n).HasFile :=
  ⟨n, Nat.lt_of_le_of_lt room (by decide), if_neg (Nat.lt_irrefl n)⟩

end FileTable

end MangoOS
