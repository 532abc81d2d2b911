/-
The calls of fs/fs.c on files, with all that a slot of `file_table` holds.

`fs_init` mounts one file system and nothing mounts another: the other slots of `fs_table` have
no operations, and a call to one of them is a call through a null pointer.
-/

import MangoOS.FileSystem.FileTable
import MangoOS.FileSystem.MountTable
import MangoOS.FileSystem.Unlink
import MangoOS.Library.Paired

namespace MangoOS

/-- What the calls of the tasks on files see.  The `ref` of a slot of `file_table` is in
`files`, its `fs` in `owner`. -/
structure FileCalls where
  mounts : MountTable
  root : FileSystem
  files : FileTable
  slot : Nat → File
  owner : Nat → Option Nat
  onlyRoot : ∀ i, (mounts.slot i).op ≠ none → mounts.root = some i

namespace FileTable

variable {s after : FileTable} {task file fd : Nat}

/-! ### Taking a slot and giving it back -/

theorem allocFile_table (s : FileTable) : s.allocFile.2.table = s.table := by
  rcases s.allocFile_spec with ⟨file, taken, _⟩ | ⟨full, _⟩
  · rw [taken]
    rfl
  · rw [full]

/-- A descriptor that was empty refers to the slot. -/
structure Taken (s : FileTable) (task file fd : Nat) (after : FileTable) : Prop where
  inside : fd < taskOpenMaxFiles
  empty : s.table task fd = none
  table : ∀ other place,
    after.table other place = if (other, place) = (task, fd) then some file else s.table other place

theorem taken_of_allocFd (got : s.allocFile.2.taskAllocFd task file = (some fd, after)) :
    s.Taken task file fd after := by
  rcases s.allocFile.2.taskAllocFd_spec task file with ⟨place, found, inside, empty⟩ | ⟨full, _⟩
  · rw [got, Prod.mk.injEq, Option.some.injEq] at found
    obtain ⟨rfl, rfl⟩ := found
    rw [allocFile_table] at empty
    refine ⟨inside, empty, ?_⟩
    intro other place
    rw [setSlot_table, allocFile_table]
  · rw [got] at full
    cases full

theorem allocFd_none (got : s.allocFile.2.taskAllocFd task file = (none, after)) :
    after.table = s.table := by
  rcases s.allocFile.2.taskAllocFd_spec task file with ⟨place, found, _⟩ | ⟨full, _⟩
  · rw [got] at found
    cases found
  · rw [got, Prod.mk.injEq] at full
    rw [full.2, allocFile_table]

theorem Taken.taskFreeFd_table (taken : s.Taken task file fd after) :
    (after.taskFreeFd task fd).table = s.table := by
  funext other place
  rw [taskFreeFd, if_pos taken.inside, setSlot_table, taken.table]
  by_cases here : (other, place) = (task, fd)
  · rw [if_pos here]
    obtain ⟨rfl, rfl⟩ := Prod.mk.inj here
    exact taken.empty.symm
  · rw [if_neg here, if_neg here]

theorem Taken.opened_table (taken : s.Taken task file fd after) :
    ((after.taskFreeFd task fd).freeFile file).table = s.table := by
  rw [freeFile_table, taken.taskFreeFd_table]

theorem Taken.unlinked_table (taken : s.Taken task file fd after) :
    ((after.freeFile file).taskFreeFd task fd).table = s.table := by
  have freed : s.Taken task file fd (after.freeFile file) := by
    refine ⟨taken.inside, taken.empty, ?_⟩
    rw [freeFile_table]
    exact taken.table
  exact freed.taskFreeFd_table

end FileTable

namespace FileCalls

/-- The fields of a slot. -/
def put (s : FileCalls) (file : Nat) (slot : File) (fs : Nat) : FileCalls :=
  { s with
    slot := Function.update s.slot file slot
    owner := Function.update s.owner file (some fs) }

/-- What `sys_open` and `sys_unlink` begin with: a slot, a descriptor for it and the file system
`fs` of the path, of which an operation is then called. -/
def withSlot (s : FileCalls) (task : Nat) (fs : Option Nat)
    (call : (file fd fs : Nat) → FileTable → Option (Int × FileCalls)) :
    Option (Int × FileCalls) :=
  let (file, files) := s.files.allocFile
  match files.taskAllocFd task file with
  | (none, files) => some (-etmfiles, { s with files := files })
  | (some fd, files) =>
      match fs with
      | none => none
      | some fs =>
          match (s.mounts.slot fs).op with
          | none => none
          | some .ext2 => call file fd fs files

/-- `sys_open` once it has a slot. -/
def openSlot (fuel : Nat) (s : FileCalls) (task : Nat) (name : CString) (mode file fd fs : Nat)
    (files : FileTable) : Option (Int × FileCalls) :=
  match s.root.findInodeByPath fuel { s.slot file with mode := mode } name with
  | none => none
  | some (found, root, slot) =>
      let (err, slot) := ext2Open root slot found
      if err < 0 then
        let files := (files.taskFreeFd task fd).freeFile file
        some (err, { s with root := root, files := files }.put file slot fs)
      else
        let slot := if mode &&& oAppend = oAppend then sysOpenAppend root slot else slot
        some (fd, { s with root := root, files := files }.put file slot fs)

def sysOpen (fuel : Nat) (s : FileCalls) (task : Nat) (name : CString) (mode : Nat) :
    Option (Int × FileCalls) :=
  s.withSlot task (s.mounts.sysOpen name) (openSlot fuel s task name mode)

/-- `sys_unlink` once it has a slot; `ram` is what `ulink_inode` walks through. -/
def unlinkSlot (fuel : Nat) (ram : Ram) (s : FileCalls) (task : Nat) (name : CString)
    (file fd fs : Nat) (files : FileTable) : Option (Int × FileCalls) :=
  match s.root.ext2Unlink fuel ram (s.slot file) name with
  | none => none
  | some (err, root, slot) =>
      let files := (files.freeFile file).taskFreeFd task fd
      some (err, { s with root := root, files := files }.put file slot fs)

def sysUnlink (fuel : Nat) (ram : Ram) (s : FileCalls) (task : Nat) (name : CString) :
    Option (Int × FileCalls) :=
  s.withSlot task (s.mounts.sysUnlink name) (unlinkSlot fuel ram s task name)

/-- The file behind a descriptor; `behind` is what lies behind the table at that place. -/
def fileOf (s : FileCalls) (task : Nat) (fd : Int) (behind : Option Nat) : Option Nat :=
  if fd < 0 ∨ fd ≥ maxOpenFiles then none
  else if fd < taskOpenMaxFiles then s.files.table task fd.toNat
  else behind

/-- How `sys_read` and `sys_write` call the file system of an open file; `failed` is what they
return without one. -/
def onFile {ρ : Type} (s : FileCalls) (task : Nat) (fd : Int) (behind : Option Nat) (failed : ρ)
    (call : FileSystem → File → ρ × FileSystem × File) : Option (ρ × FileCalls) :=
  match s.fileOf task fd behind with
  | none => some (failed, s)
  | some file =>
      match s.owner file with
      | none => none
      | some fs =>
          match (s.mounts.slot fs).op with
          | none => none
          | some .ext2 =>
              let (result, root, slot) := call s.root (s.slot file)
              some (result, { s with root := root }.put file slot fs)

/-- `sys_read`, with what it leaves in the buffer. -/
def sysRead (s : FileCalls) (task : Nat) (fd : Int) (behind : Option Nat) (data : Region)
    (len : Int) : Option ((Int × Region) × FileCalls) :=
  s.onFile task fd behind (-1, data) fun root slot =>
    let result := ext2Read root slot data len
    ((result.count, result.data), result.fs, result.file)

def sysWrite (s : FileCalls) (task : Nat) (fd : Int) (behind : Option Nat) (data : Region)
    (len : Int) : Option (Int × FileCalls) :=
  s.onFile task fd behind (-1) fun root slot => ext2Write root slot data len

/-- A call, by the task that makes it. -/
inductive Call
  | «open» (task : Nat) (name : CString) (mode : Nat)
  | unlink (task : Nat) (name : CString)
  | read (task : Nat) (fd : Int) (behind : Option Nat) (data : Region) (len : Int)
  | write (task : Nat) (fd : Int) (behind : Option Nat) (data : Region) (len : Int)

/-- What a call returns, with the bytes that a read leaves in its buffer. -/
structure Answer where
  value : Int
  data : Option Region

def step (fuel : Nat) (ram : Ram) (s : FileCalls) : Call → Option (Answer × FileCalls)
  | .open task name mode => (s.sysOpen fuel task name mode).map fun r => (⟨r.1, none⟩, r.2)
  | .unlink task name => (s.sysUnlink fuel ram task name).map fun r => (⟨r.1, none⟩, r.2)
  | .read task fd behind data len =>
      (s.sysRead task fd behind data len).map fun r => (⟨r.1.1, some r.1.2⟩, r.2)
  | .write task fd behind data len =>
      (s.sysWrite task fd behind data len).map fun r => (⟨r.1, none⟩, r.2)

/-! ### References and descriptors -/

section Files

variable {s after : FileCalls} {fuel task mode : Nat} {ram : Ram} {name : CString} {answer : Int}

/-- Without a descriptor both calls end alike; else they do what `call` does. -/
theorem withSlot_cases {fs : Option Nat}
    {call : (file fd fs : Nat) → FileTable → Option (Int × FileCalls)}
    (returns : s.withSlot task fs call = some (answer, after)) :
    (∃ files, s.files.allocFile.2.taskAllocFd task s.files.allocFile.1 = (none, files) ∧
        answer = -etmfiles ∧ after = { s with files := files }) ∨
      ∃ fd files index,
        s.files.allocFile.2.taskAllocFd task s.files.allocFile.1 = (some fd, files) ∧
          call s.files.allocFile.1 fd index files = some (answer, after) := by
  unfold withSlot at returns
  cases got : s.files.allocFile.2.taskAllocFd task s.files.allocFile.1 with
  | mk fd files =>
      simp only [got] at returns
      cases fd with
      | none =>
          obtain ⟨isError, isAfter⟩ := Prod.mk.inj (Option.some.inj returns)
          exact Or.inl ⟨files, rfl, isError.symm, isAfter.symm⟩
      | some fd =>
          cases fs with
          | none => cases returns
          | some index =>
              cases isOp : (s.mounts.slot index).op with
              | none =>
                  simp only [isOp] at returns
                  cases returns
              | some op =>
                  cases op
                  simp only [isOp] at returns
                  exact Or.inr ⟨fd, files, index, rfl, returns⟩

/-- The open files are those of `FileTable.sysOpen`, for what the file system returned. -/
theorem sysOpen_files (returns : s.sysOpen fuel task name mode = some (answer, after)) :
    ∃ err, s.files.sysOpen task err = (answer, after.files) := by
  unfold FileTable.sysOpen
  rcases withSlot_cases returns with ⟨files, got, rfl, rfl⟩ | ⟨fd, files, index, got, opens⟩
  · refine ⟨0, ?_⟩
    simp only [got]
  · simp only [got]
    unfold openSlot at opens
    cases walk : s.root.findInodeByPath fuel
        { s.slot s.files.allocFile.1 with mode := mode } name with
    | none =>
        simp only [walk] at opens
        cases opens
    | some result =>
        obtain ⟨found, root, slot⟩ := result
        simp only [walk] at opens
        refine ⟨(ext2Open root slot found).1, ?_⟩
        by_cases failed : (ext2Open root slot found).1 < 0
        · rw [if_pos failed, Option.some.injEq, Prod.mk.injEq] at opens
          rw [if_pos failed, ← opens.1, ← opens.2]
          rfl
        · rw [if_neg failed, Option.some.injEq, Prod.mk.injEq] at opens
          rw [if_neg failed, ← opens.1, ← opens.2]
          rfl

theorem sysUnlink_files (returns : s.sysUnlink fuel ram task name = some (answer, after)) :
    ∃ err, s.files.sysUnlink task err = (answer, after.files) := by
  unfold FileTable.sysUnlink
  rcases withSlot_cases returns with ⟨files, got, rfl, rfl⟩ | ⟨fd, files, index, got, unlinks⟩
  · refine ⟨0, ?_⟩
    simp only [got]
  · simp only [got]
    unfold unlinkSlot at unlinks
    cases ends : s.root.ext2Unlink fuel ram (s.slot s.files.allocFile.1) name with
    | none =>
        simp only [ends] at unlinks
        cases unlinks
    | some result =>
        simp only [ends, Option.some.injEq, Prod.mk.injEq] at unlinks
        refine ⟨result.1, ?_⟩
        rw [← unlinks.1, ← unlinks.2]
        rfl

/-- A read or a write leaves references and descriptors as they are. -/
theorem onFile_files {ρ : Type} {fd : Int} {behind : Option Nat} {failed result : ρ}
    {call : FileSystem → File → ρ × FileSystem × File}
    (returns : s.onFile task fd behind failed call = some (result, after)) :
    after.files = s.files := by
  unfold onFile at returns
  cases refers : s.fileOf task fd behind with
  | none =>
      rw [refers] at returns
      rw [← (Prod.mk.inj (Option.some.inj returns)).2]
  | some file =>
      simp only [refers] at returns
      cases isFs : s.owner file with
      | none =>
          rw [isFs] at returns
          cases returns
      | some fs =>
          simp only [isFs] at returns
          cases isOp : (s.mounts.slot fs).op with
          | none =>
              rw [isOp] at returns
              cases returns
          | some op =>
              cases op
              rw [isOp] at returns
              rw [← (Prod.mk.inj (Option.some.inj returns)).2]
              rfl

/-- A call is one on the open files, or it leaves them alone. -/
theorem step_files {call : Call} {a : Answer} (returns : s.step fuel ram call = some (a, after)) :
    after.files = s.files ∨ ∃ fileCall, after.files = s.files.step fileCall := by
  cases call with
  | «open» task name mode =>
      obtain ⟨⟨value, after'⟩, opens, isEnd⟩ := Option.map_eq_some_iff.mp returns
      obtain ⟨_, rfl⟩ := Prod.mk.inj isEnd
      obtain ⟨err, files⟩ := sysOpen_files opens
      exact Or.inr ⟨.open task err, (congrArg Prod.snd files).symm⟩
  | unlink task name =>
      obtain ⟨⟨value, after'⟩, unlinks, isEnd⟩ := Option.map_eq_some_iff.mp returns
      obtain ⟨_, rfl⟩ := Prod.mk.inj isEnd
      obtain ⟨err, files⟩ := sysUnlink_files unlinks
      exact Or.inr ⟨.unlink task err, (congrArg Prod.snd files).symm⟩
  | read task fd behind data len =>
      obtain ⟨⟨value, after'⟩, reads, isEnd⟩ := Option.map_eq_some_iff.mp returns
      obtain ⟨_, rfl⟩ := Prod.mk.inj isEnd
      exact Or.inl (onFile_files reads)
  | write task fd behind data len =>
      obtain ⟨⟨value, after'⟩, writes, isEnd⟩ := Option.map_eq_some_iff.mp returns
      obtain ⟨_, rfl⟩ := Prod.mk.inj isEnd
      exact Or.inl (onFile_files writes)

end Files

end FileCalls

end MangoOS
