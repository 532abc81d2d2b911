/-
Which descriptors `sys_read`, `sys_write`, `sys_seek` and `sys_close` follow
(fs/fs.c).

All four compare the descriptor with `MAX_OPEN_FILES`, the size of `file_table`,
and the table of a task has `TASK_OPEN_MAX_FILES` places.
-/

import MangoOS.FileSystem.FileCalls

namespace MangoOS

namespace FileCalls

def sysSeek (s : FileCalls) (task : Nat) (fd : Int) (behind : Option Nat) (offset : Int) :
    Option (Int × FileCalls) :=
  s.onFile task fd behind (-1) fun root slot =>
    (0, root, (ext2Seek root slot (uint32 offset)).2)

end FileCalls

namespace FileTable

/-- The descriptor is a place of the table and holds a file that is in use. -/
def Open (s : FileTable) (task : Nat) (fd : Int) : Prop :=
  ∃ place file : Nat, fd = place ∧ place < taskOpenMaxFiles ∧ s.table task place = some file ∧
    file < maxOpenFiles ∧ 0 < s.ref file

/-- No file has more descriptors than references, and descriptors hold files. -/
structure Held (s : FileTable) : Prop where
  counted : ∀ file, file < maxOpenFiles → (s.holders file : Int) ≤ s.ref file
  isFile : ∀ {task fd file : Nat}, task ∈ s.tasks → fd < taskOpenMaxFiles →
    s.table task fd = some file → file < maxOpenFiles

/-- `sys_open` finds a free file or no free descriptor, or the last file has a reference to spare;
`sys_close` finds nothing behind the table. -/
def Stays (s : FileTable) : FileCall → Prop
  | .open task _ => s.HasFile ∨ ¬ s.HasFd task ∨ (s.holders 2047 : Int) < s.ref 2047
  | .close _ fd behind => taskOpenMaxFiles ≤ fd → fd < maxOpenFiles → behind = none
  | .unlink _ _ => False
  | .fork _ _ _ => False

/-! ### What opening and closing keep -/

section Held

variable {s : FileTable} {task file fd : Nat}

theorem Held.open_of_holds (held : s.Held) (member : task ∈ s.tasks)
    (inside : fd < taskOpenMaxFiles) (holds : s.table task fd = some file) : s.Open task fd := by
  have upper := held.isFile member inside holds
  have counted := held.counted file upper
  have positive := holders_pos member inside holds
  exact ⟨fd, file, rfl, inside, holds, upper, by omega⟩

theorem Held.setRef (held : s.Held) (free : s.ref file = 0) : (s.setRef file 1).Held where
  counted := by
    intro other upper
    have counted := held.counted other upper
    rw [holders_setRef, setRef_ref]
    by_cases same : other = file
    · rw [if_pos same]
      rw [same, free] at counted
      rw [same]
      omega
    · rw [if_neg same]
      exact counted
  isFile := fun member inside holds => held.isFile member inside holds

/-- A file with a reference to spare comes into an empty descriptor. -/
theorem Held.setSlot (held : s.Held) (member : task ∈ s.tasks) (inside : fd < taskOpenMaxFiles)
    (empty : s.table task fd = none) (upper : file < maxOpenFiles)
    (spare : (s.holders file : Int) < s.ref file) : (s.setSlot task fd (some file)).Held where
  counted := by
    intro other inTable
    have counted := held.counted other inTable
    rw [setSlot_ref, holders_setSlot member inside empty]
    by_cases same : other = file
    · rw [if_pos same, same]
      omega
    · rw [if_neg same]
      exact counted
  isFile := by
    intro other place found isTask inTable holds
    rw [setSlot_table] at holds
    by_cases here : (other, place) = (task, fd)
    · rw [if_pos here, Option.some.injEq] at holds
      rw [← holds]
      exact upper
    · rw [if_neg here] at holds
      exact held.isFile isTask inTable holds

theorem Held.freeFile (held : s.Held) (spare : (s.holders file : Int) < s.ref file) :
    (s.freeFile file).Held where
  counted := by
    intro other upper
    have counted := held.counted other upper
    rw [holders_freeFile]
    by_cases same : other = file
    · have positive : s.ref file > 0 := by omega
      unfold FileTable.freeFile
      rw [if_pos positive, setRef_ref, if_pos same, same]
      omega
    · rw [freeFile_ref_other same]
      exact counted
  isFile := by
    intro other place found isTask inTable holds
    rw [freeFile_tasks] at isTask
    rw [freeFile_table] at holds
    exact held.isFile isTask inTable holds

theorem Held.release (held : s.Held) (member : task ∈ s.tasks) (inside : fd < taskOpenMaxFiles)
    (holds : s.table task fd = some file) : ((s.freeFile file).setSlot task fd none).Held where
  counted := by
    intro other upper
    have counted := held.counted other upper
    have balance := release_balance member inside holds other (by
      intro same
      have one := holders_pos member inside holds
      rw [← same] at one
      omega)
    omega
  isFile := by
    intro other place found isTask inTable inSlot
    rw [setSlot_tasks, freeFile_tasks] at isTask
    rw [setSlot_table, freeFile_table] at inSlot
    by_cases here : (other, place) = (task, fd)
    · rw [if_pos here] at inSlot
      cases inSlot
    · rw [if_neg here] at inSlot
      exact held.isFile isTask inTable inSlot

theorem Held.sysOpen (held : s.Held) (member : task ∈ s.tasks) {err : Int}
    (stays : s.Stays (.open task err)) : (s.step (.open task err)).Held := by
  change (s.sysOpen task err).2.Held
  by_cases hasFile : s.HasFile
  · by_cases hasFd : s.HasFd task
    · obtain ⟨file, fd, upper, free, inside, empty, opened, _⟩ := sysOpen_both hasFile hasFd err
      rw [opened]
      by_cases fails : err < 0
      · rw [if_pos fails]
        exact held
      · rw [if_neg fails]
        have counted := held.counted file upper
        apply (held.setRef free).setSlot member inside empty upper
        rw [holders_setRef, setRef_ref, if_pos rfl]
        omega
    · obtain ⟨file, _, free, opened, _⟩ := sysOpen_noFd hasFile hasFd err
      rw [opened]
      exact held.setRef free
  · by_cases hasFd : s.HasFd task
    · have spare : (s.holders 2047 : Int) < s.ref 2047 :=
        (stays.resolve_left hasFile).resolve_left fun noFd => noFd hasFd
      obtain ⟨fd, inside, empty, opened, _⟩ := sysOpen_noFile hasFile hasFd err
      rw [opened]
      by_cases fails : err < 0
      · rw [if_pos fails]
        exact held.freeFile spare
      · rw [if_neg fails]
        exact held.setSlot member inside empty (by decide) spare
    · rw [(sysOpen_none hasFile hasFd err).1]
      exact held

/-- `sys_close` of a descriptor for which nothing lies behind the table. -/
theorem Held.sysClose (held : s.Held) (member : task ∈ s.tasks) {fd : Int} {behind : Option Nat}
    (stays : s.Stays (.close task fd behind)) : (s.step (.close task fd behind)).Held := by
  change (s.sysClose task fd behind).2.Held
  unfold FileTable.sysClose
  by_cases outside : fd < 0 ∨ fd ≥ maxOpenFiles
  · rw [if_pos outside]
    exact held
  · rw [if_neg outside]
    by_cases inTable : fd < taskOpenMaxFiles
    · rw [if_pos inTable]
      have inside : fd.toNat < taskOpenMaxFiles := by omega
      cases holds : s.table task fd.toNat with
      | none => exact held
      | some file =>
          change ((s.freeFile file).taskFreeFd task fd.toNat).Held
          unfold taskFreeFd
          rw [if_pos inside]
          exact held.release member inside holds
    · rw [if_neg inTable, stays (by omega) (by omega)]
      exact held

theorem FileTableRun.held (run : FileTableRun Stays s) : s.Held := by
  induction run with
  | start s free empty =>
      refine ⟨?_, ?_⟩
      · intro file _
        have none : s.holders file = 0 := by
          apply pointing_none
          intro place inside
          rw [empty place.1 (Finset.mem_product.mp inside).1]
          exact fun impossible => by cases impossible
        rw [free, none]
        exact Int.le_refl 0
      · intro task fd file member _ holds
        rw [empty task member] at holds
        cases holds
  | call call _ legal stays ih =>
      cases call with
      | «open» task err => exact ih.sysOpen legal stays
      | close task fd behind => exact ih.sysClose legal stays
      | unlink task err => exact stays.elim
      | fork parent child stale => exact stays.elim

end Held

end FileTable

namespace FileCalls

/-- Each of the four calls returns -1 and leaves everything, or the descriptor is open. -/
structure DescriptorBounded (s : FileCalls) (task : Nat) (fd : Int) (behind : Option Nat) :
    Prop where
  read : ∀ data len,
    s.sysRead task fd behind data len = some ((-1, data), s) ∨ s.files.Open task fd
  write : ∀ data len,
    s.sysWrite task fd behind data len = some (-1, s) ∨ s.files.Open task fd
  seek : ∀ offset, s.sysSeek task fd behind offset = some (-1, s) ∨ s.files.Open task fd
  close : s.files.sysClose task fd behind = (-1, s.files) ∨ s.files.Open task fd

variable {s : FileCalls} {task : Nat} {fd : Int} {behind : Option Nat}

theorem onFile_none {ρ : Type} {failed : ρ} {call : FileSystem → File → ρ × FileSystem × File}
    (none : s.fileOf task fd behind = none) :
    s.onFile task fd behind failed call = some (failed, s) := by
  unfold onFile
  rw [none]

theorem sysClose_none (none : s.fileOf task fd behind = none) :
    s.files.sysClose task fd behind = (-1, s.files) := by
  unfold FileTable.sysClose
  unfold fileOf at none
  by_cases outside : fd < 0 ∨ fd ≥ maxOpenFiles
  · rw [if_pos outside]
  · rw [if_neg outside] at none ⊢
    by_cases inTable : fd < taskOpenMaxFiles
    · rw [if_pos inTable] at none ⊢
      rw [none]
    · rw [if_neg inTable] at none ⊢
      rw [none]

theorem sysClose_behind {file : Nat} (lower : taskOpenMaxFiles ≤ fd) (upper : fd < maxOpenFiles) :
    (s.files.sysClose task fd (some file)).1 = 0 := by
  unfold FileTable.sysClose
  have inside : ¬ (fd < 0 ∨ fd ≥ maxOpenFiles) := by omega
  have away : ¬ fd < taskOpenMaxFiles := by omega
  rw [if_neg inside, if_neg away]

theorem fileOf_cases (held : s.files.Held) (member : task ∈ s.files.tasks)
    (inTable : taskOpenMaxFiles ≤ fd → fd < maxOpenFiles → behind = none) :
    s.fileOf task fd behind = none ∨ s.files.Open task fd := by
  unfold fileOf
  by_cases outside : fd < 0 ∨ fd ≥ maxOpenFiles
  · rw [if_pos outside]
    exact Or.inl rfl
  · rw [if_neg outside]
    by_cases inside : fd < taskOpenMaxFiles
    · rw [if_pos inside]
      cases holds : s.files.table task fd.toNat with
      | none => exact Or.inl rfl
      | some file =>
          have isOpen := held.open_of_holds member (by omega : fd.toNat < taskOpenMaxFiles) holds
          have isFd : (fd.toNat : Int) = fd := Int.toNat_of_nonneg (by omega)
          rw [isFd] at isOpen
          exact Or.inr isOpen
    · rw [if_neg inside, inTable (by omega) (by omega)]
      exact Or.inl rfl

/-- After every run of opens and closes that met their conditions the four calls stay within the
table of open files, unless the word they read behind a table that ended is a pointer. -/
theorem descriptor_bounded_iff (run : FileTable.FileTableRun FileTable.Stays s.files)
    (member : task ∈ s.files.tasks) :
    s.DescriptorBounded task fd behind ↔
      (taskOpenMaxFiles ≤ fd → fd < maxOpenFiles → behind = none) := by
  constructor
  · intro bounded lower upper
    cases behind with
    | none => rfl
    | some file =>
        rcases bounded.close with returns | ⟨place, file, isFd, inside, _⟩
        · have code : (s.files.sysClose task fd (some file)).1 = 0 := sysClose_behind lower upper
          rw [returns] at code
          cases code
        · omega
  · intro inTable
    rcases fileOf_cases run.held member inTable with none | isOpen
    · exact ⟨fun _ _ => Or.inl (onFile_none none), fun _ _ => Or.inl (onFile_none none),
        fun _ => Or.inl (onFile_none none), Or.inl (sysClose_none none)⟩
    · exact ⟨fun _ _ => Or.inr isOpen, fun _ _ => Or.inr isOpen, fun _ => Or.inr isOpen,
        Or.inr isOpen⟩

/-- One task with `n` files in its first descriptors. -/
def openedCalls (n : Nat) : FileCalls where
  mounts := MountTable.empty
  root := FileSystem.sample 0
  files := FileTable.opened n
  slot := fun _ =>
    { pos := 0
      mode := 0
      startBlock := 0
      curBlock := 0
      ino := 0
      inode := ⟨0, 0⟩
      ref := 1 }
  owner := fun _ => none
  onlyRoot := fun _ isOp => absurd rfl isOp

theorem descriptor_bounded_three :
    (openedCalls 3).DescriptorBounded 0 1 none ∧ (openedCalls 3).DescriptorBounded 0 200 none := by
  have run : FileTable.FileTableRun FileTable.Stays (openedCalls 3).files := by
    apply FileTable.opened_run 3 (by decide)
    intro k below
    exact Or.inl (FileTable.opened_hasFile (Nat.le_of_lt below))
  have member : 0 ∈ (openedCalls 3).files.tasks := Finset.mem_singleton_self 0
  exact ⟨(descriptor_bounded_iff run member).mpr fun _ _ => rfl,
    (descriptor_bounded_iff run member).mpr fun _ _ => rfl⟩

/-- Descriptor 128 is a word behind the table, and `sys_close` takes it for a file. -/
theorem descriptor_bounded_not :
    FileTable.FileTableRun (fun _ _ => True) (openedCalls 0).files ∧
      ((openedCalls 0).files.sysClose 0 128 (some 7)).1 = 0 ∧
        ¬ (openedCalls 0).DescriptorBounded 0 128 (some 7) := by
  refine ⟨FileTable.opened_run 0 (by decide) fun _ _ => trivial, rfl, ?_⟩
  intro bounded
  rcases bounded.close with returns | ⟨place, file, isFd, inside, _⟩
  · have code : ((openedCalls 0).files.sysClose 0 128 (some 7)).1 = 0 := rfl
    rw [returns] at code
    cases code
  · have isPlace : (128 : Int) = place := isFd
    have small : place < 128 := inside
    omega

end FileCalls

end MangoOS
