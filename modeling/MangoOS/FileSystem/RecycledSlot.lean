/-
Slots of `file_table` that are used again (fs/file.c, fs/fs.c).

Two kernels that differ in slots which nobody refers to are run side by side.  `sys_open` writes
a slot before it is read, but `sys_unlink` leaves `mode` and `inode` as they were, and `ino` where
no name is found.
-/

import MangoOS.FileSystem.Creation
import MangoOS.FileSystem.FileCalls
import MangoOS.FileSystem.SlotReads

namespace MangoOS

namespace FileCalls

/-! ### Calls -/

/-- Two kernels that differ in slots of `file_table` whose `ref` is 0. The 8 sectors of
`read_block` do not overrun their blocks. -/
structure DifferInFree (s t : FileCalls) : Prop where
  whole : 8 * sectorSize ≤ s.root.blockSize
  mounts : s.mounts = t.mounts
  root : s.root = t.root
  files : s.files = t.files
  slot : ∀ file, s.files.ref file ≠ 0 → s.slot file = t.slot file
  owner : ∀ file, s.files.ref file ≠ 0 → s.owner file = t.owner file

/-- They do not differ in the slots that the known descriptors refer to. -/
structure Alike (known : Nat → Nat → Prop) (s t : FileCalls) : Prop where
  inside : ∀ task fd, known task fd → fd < taskOpenMaxFiles
  mounts : s.mounts = t.mounts
  root : s.root = t.root
  files : s.files = t.files
  slot : ∀ task fd file, known task fd → s.files.table task fd = some file →
    SameButIno (s.slot file) (t.slot file)
  owner : ∀ task fd file, known task fd → s.files.table task fd = some file →
    s.owner file = t.owner file

/-- A descriptor that refers to a slot in use. -/
def InUse (s : FileCalls) (task fd : Nat) : Prop :=
  fd < taskOpenMaxFiles ∧ ∃ file, s.files.table task fd = some file ∧ s.files.ref file ≠ 0

theorem DifferInFree.alike {s t : FileCalls} (differ : s.DifferInFree t) : Alike s.InUse s t where
  inside := fun _ _ inUse => inUse.1
  mounts := differ.mounts
  root := differ.root
  files := differ.files
  slot := by
    rintro task fd file ⟨_, other, refers, held⟩ here
    rw [here, Option.some.injEq] at refers
    subst refers
    rw [differ.slot file held]
    exact .refl _
  owner := by
    rintro task fd file ⟨_, other, refers, held⟩ here
    rw [here, Option.some.injEq] at refers
    subst refers
    exact differ.owner file held

section Paired

variable {known known' : Nat → Nat → Prop} {s t : FileCalls}

theorem Alike.differ (alike : Alike known s t) :
    ∃ slot owner, t = { s with slot := slot, owner := owner } := by
  obtain ⟨mounts, root, files, slot, owner, onlyRoot⟩ := t
  obtain rfl : s.mounts = mounts := alike.mounts
  obtain rfl : s.root = root := alike.root
  obtain rfl : s.files = files := alike.files
  exact ⟨slot, owner, rfl⟩

/-- Both kernels write one slot; a descriptor known afterwards refers to it, or was known. -/
theorem Alike.put (alike : Alike known s t) (root : FileSystem) (files : FileTable) (file : Nat)
    (f g : File) (fs : Nat) (inside : ∀ task fd, known' task fd → fd < taskOpenMaxFiles)
    (same : ∀ task fd, known' task fd → files.table task fd = some file → SameButIno f g)
    (others : ∀ task fd other, known' task fd → files.table task fd = some other → other ≠ file →
      known task fd ∧ s.files.table task fd = some other) :
    Alike known' ({ s with root := root, files := files }.put file f fs)
      ({ t with root := root, files := files }.put file g fs) where
  inside := inside
  mounts := alike.mounts
  root := rfl
  files := rfl
  slot := by
    intro task fd other isKnown refers
    change SameButIno (Function.update s.slot file f other) (Function.update t.slot file g other)
    by_cases isFile : other = file
    · subst isFile
      rw [Function.update_self, Function.update_self]
      exact same task fd isKnown refers
    · rw [Function.update_of_ne isFile, Function.update_of_ne isFile]
      obtain ⟨wasKnown, referred⟩ := others task fd other isKnown refers isFile
      exact alike.slot task fd other wasKnown referred
  owner := by
    intro task fd other isKnown refers
    change Function.update s.owner file (some fs) other =
      Function.update t.owner file (some fs) other
    by_cases isFile : other = file
    · subst isFile
      rw [Function.update_self, Function.update_self]
    · rw [Function.update_of_ne isFile, Function.update_of_ne isFile]
      obtain ⟨wasKnown, referred⟩ := others task fd other isKnown refers isFile
      exact alike.owner task fd other wasKnown referred

/-- Both kernels give the slot back: what was known stays so. -/
theorem Alike.released (alike : Alike known s t) (root : FileSystem) {files : FileTable}
    (table : files.table = s.files.table) {file : Nat} {f g : File} (fs : Nat)
    (left : ∀ task fd, known task fd → s.files.table task fd = some file →
      SameButIno (s.slot file) (t.slot file) → SameButIno f g) :
    Alike known ({ s with root := root, files := files }.put file f fs)
      ({ t with root := root, files := files }.put file g fs) := by
  refine alike.put root files file f g fs alike.inside ?_ ?_
  · intro task fd isKnown refers
    rw [table] at refers
    exact left task fd isKnown refers (alike.slot task fd file isKnown refers)
  · intro task fd other isKnown refers _
    rw [table] at refers
    exact ⟨isKnown, refers⟩

/-- The descriptor that a call of `sys_open` by the task returns becomes known. -/
def Knows (known : Nat → Nat → Prop) (task : Nat) (answer : Int) (other fd : Nat) : Prop :=
  known other fd ∨ other = task ∧ answer = fd

theorem Knows.of_negative {task other fd : Nat} {answer : Int}
    (knows : Knows known task answer other fd) (negative : answer < 0) : known other fd := by
  rcases knows with isKnown | ⟨_, isFd⟩
  · exact isKnown
  · omega

theorem Alike.mono (alike : Alike known s t)
    (implies : ∀ task fd, known' task fd → known task fd) : Alike known' s t :=
  { alike with
    inside := fun task fd isKnown => alike.inside task fd (implies task fd isKnown)
    slot := fun task fd file isKnown => alike.slot task fd file (implies task fd isKnown)
    owner := fun task fd file isKnown => alike.owner task fd file (implies task fd isKnown) }

theorem Alike.withoutFd (alike : Alike known s t) {files : FileTable}
    (table : files.table = s.files.table) :
    Alike known { s with files := files } { t with files := files } where
  inside := alike.inside
  mounts := alike.mounts
  root := alike.root
  files := rfl
  slot := by
    intro task fd file isKnown refers
    exact alike.slot task fd file isKnown (table ▸ refers)
  owner := by
    intro task fd file isKnown refers
    exact alike.owner task fd file isKnown (table ▸ refers)

/-- What follows on a slot and a descriptor decides how two such calls compare; without a
descriptor they end alike. -/
theorem Alike.withSlot (alike : Alike known s t) {task : Nat} {fs : Option Nat}
    {call call' : (file fd fs : Nat) → FileTable → Option (Int × FileCalls)}
    (knownBy : Int → Nat → Nat → Prop)
    (fewer : ∀ other fd, knownBy (-etmfiles) other fd → known other fd)
    (calls : ∀ fd index files, s.files.Taken task s.files.allocFile.1 fd files →
      fs = some index → (s.mounts.slot index).op ≠ none →
      Option.Rel (fun a b => a.1 = b.1 ∧ Alike (knownBy a.1) a.2 b.2)
        (call s.files.allocFile.1 fd index files) (call' s.files.allocFile.1 fd index files)) :
    Option.Rel (fun a b => a.1 = b.1 ∧ Alike (knownBy a.1) a.2 b.2)
      (s.withSlot task fs call) (t.withSlot task fs call') := by
  obtain ⟨slot, owner, rfl⟩ := alike.differ
  unfold FileCalls.withSlot
  cases got : s.files.allocFile.2.taskAllocFd task s.files.allocFile.1 with
  | mk fd files =>
      cases fd with
      | none =>
          simp only [got]
          exact .some ⟨rfl, (alike.withoutFd (FileTable.allocFd_none got)).mono fewer⟩
      | some fd =>
          have isTaken := FileTable.taken_of_allocFd got
          simp only [got]
          cases fs with
          | none => exact .none
          | some index =>
              have onward := calls fd index files isTaken rfl
              dsimp only
              cases isOp : (s.mounts.slot index).op with
              | none => exact .none
              | some op =>
                  cases op
                  exact onward (isOp ▸ Option.some_ne_none _)

theorem sysOpen_paired (alike : Alike known s t) (fuel task : Nat) (name : CString) (mode : Nat) :
    Option.Rel (fun a b => a.1 = b.1 ∧ Alike (Knows known task a.1) a.2 b.2)
      (s.sysOpen fuel task name mode) (t.sysOpen fuel task name mode) := by
  unfold sysOpen
  rw [← alike.mounts]
  refine alike.withSlot (Knows known task) (fun other fd knows => ?_) ?_
  · exact knows.of_negative (by decide : (-etmfiles : Int) < 0)
  intro fd fs taken isTaken _ _
  obtain ⟨slot, owner, rfl⟩ := alike.differ
  unfold openSlot
  have sameMode : { s.slot s.files.allocFile.1 with mode := mode }.mode =
      { slot s.files.allocFile.1 with mode := mode }.mode := rfl
  rcases rel_cases (s.root.findInodeByPath_sameMode fuel name sameMode) with
    ⟨left, right⟩ | ⟨⟨found, after, f⟩, ⟨_, _, g⟩, left, right, search⟩
  · simp only [left, right]
    exact .none
  · obtain rfl := search.found
    obtain rfl := search.fs
    simp only [left, right]
    have sameErr := ext2Open_err after f g found
    rw [← sameErr]
    by_cases failed : (ext2Open after f found).1 < 0
    · rw [if_pos failed, if_pos failed, ext2Open_failed failed,
        ext2Open_failed (sameErr ▸ failed)]
      refine .some ⟨rfl, ?_⟩
      refine (alike.released after isTaken.opened_table fs ?_).mono ?_
      · intro _ _ _ _ same
        exact (search.left.symm.trans (same.withMode mode)).trans search.right
      · exact fun other fd knows => knows.of_negative failed
    · rw [if_neg failed, if_neg failed]
      have sameMode : f.mode = g.mode := search.left.mode.symm.trans search.right.mode
      refine .some ⟨rfl, alike.put after taken _ _ _ fs ?_ ?_ ?_⟩
      · intro other place knows
        rcases knows with isKnown | ⟨_, isFd⟩
        · exact alike.inside other place isKnown
        · exact Int.ofNat.inj isFd ▸ isTaken.inside
      · intro _ _ _ _
        exact (ext2Open_opened sameMode failed).append after mode
      · intro other place file knows refers different
        rw [isTaken.table] at refers
        by_cases here : (other, place) = (task, fd)
        · rw [if_pos here, Option.some.injEq] at refers
          exact absurd refers.symm different
        · rw [if_neg here] at refers
          refine ⟨knows.resolve_right ?_, refers⟩
          rintro ⟨isTask, isFd⟩
          exact here (Prod.ext isTask (Int.ofNat.inj isFd.symm))

/-- What `sys_unlink` reads of the slot it is given is the same in both, if it gets as far. -/
def UnlinksAlike (fuel : Nat) (ram ram' : Ram) (s t : FileCalls) (task : Nat) (name : CString) :
    Prop :=
  ∀ fs, s.files.HasFd task → s.mounts.sysUnlink name = some fs → (s.mounts.slot fs).op ≠ none →
    s.root.ReadsAlike fuel ram ram' (s.slot s.files.allocFile.1) (t.slot s.files.allocFile.1) name

theorem sysUnlink_paired (alike : Alike known s t) {fuel : Nat} {ram ram' : Ram} {task : Nat}
    {name : CString} (reads : UnlinksAlike fuel ram ram' s t task name) :
    Option.Rel (fun a b => a.1 = b.1 ∧ Alike known a.2 b.2)
      (s.sysUnlink fuel ram task name) (t.sysUnlink fuel ram' task name) := by
  unfold sysUnlink
  rw [← alike.mounts]
  refine alike.withSlot (fun _ => known) (fun _ _ isKnown => isKnown) ?_
  intro fd fs taken isTaken found isOp
  have meets := reads fs ⟨fd, isTaken.inside, isTaken.empty⟩ found isOp
  obtain ⟨slot, owner, rfl⟩ := alike.differ
  unfold unlinkSlot
  rcases rel_cases (FileSystem.ext2Unlink_paired meets) with
    ⟨left, right⟩ | ⟨⟨err, after, f⟩, ⟨_, _, g⟩, left, right, unlinked⟩
  · simp only [left, right]
    exact .none
  · obtain rfl := unlinked.err
    obtain rfl := unlinked.fs
    simp only [left, right]
    refine .some ⟨rfl, alike.released after isTaken.unlinked_table fs ?_⟩
    intro _ _ _ _ same
    exact (unlinked.left.symm.trans same).trans unlinked.right

/-- A known descriptor refers to the same slot in both, and the slots are alike. -/
theorem Alike.fileOf (alike : Alike known s t) {task fd : Nat} (isKnown : known task fd)
    (behind : Option Nat) :
    s.fileOf task fd behind = t.fileOf task fd behind ∧
      ∀ file, s.fileOf task fd behind = some file →
        s.files.table task fd = some file := by
  have inside := alike.inside task fd isKnown
  have small : ¬ ((fd : Int) < 0 ∨ (fd : Int) ≥ maxOpenFiles) := by
    unfold taskOpenMaxFiles at inside
    unfold maxOpenFiles
    omega
  have inTable : (fd : Int) < taskOpenMaxFiles := Int.ofNat_lt.mpr inside
  unfold FileCalls.fileOf
  rw [if_neg small, if_neg small, if_pos inTable, if_pos inTable, alike.files]
  exact ⟨rfl, fun file refers => refers⟩

theorem onFile_paired {ρ : Type} (alike : Alike known s t) {task fd : Nat}
    (isKnown : known task fd) (behind : Option Nat) (failed : ρ)
    {call : FileSystem → File → ρ × FileSystem × File}
    (calls : ∀ f g, SameButIno f g → (call s.root f).1 = (call s.root g).1 ∧
      (call s.root f).2.1 = (call s.root g).2.1 ∧
      SameButIno (call s.root f).2.2 (call s.root g).2.2) :
    Option.Rel (fun a b => a.1 = b.1 ∧ Alike known a.2 b.2) (s.onFile task fd behind failed call)
      (t.onFile task fd behind failed call) := by
  obtain ⟨sameFile, refers⟩ := alike.fileOf isKnown behind
  obtain ⟨slot, owner, rfl⟩ := alike.differ
  unfold onFile
  rw [← sameFile]
  cases found : s.fileOf task fd behind with
  | none => exact .some ⟨rfl, alike⟩
  | some file =>
      have same := alike.slot task fd file isKnown (refers file found)
      have sameOwner : s.owner file = owner file :=
        alike.owner task fd file isKnown (refers file found)
      dsimp only
      rw [← sameOwner]
      cases s.owner file with
      | none => exact .none
      | some fs =>
          dsimp only
          cases (s.mounts.slot fs).op with
          | none => exact .none
          | some op =>
              cases op
              obtain ⟨result, sameRoot, ends⟩ := calls _ _ same
              simp only [result, sameRoot]
              exact .some ⟨rfl, alike.released _ rfl fs fun _ _ _ _ _ => ends⟩

theorem sysRead_paired (alike : Alike known s t) {task fd : Nat} (isKnown : known task fd)
    (behind : Option Nat) (data : Region) (len : Int) :
    Option.Rel (fun a b => a.1 = b.1 ∧ Alike known a.2 b.2) (s.sysRead task fd behind data len)
      (t.sysRead task fd behind data len) := by
  apply onFile_paired alike isKnown
  intro f g same
  obtain ⟨count, read, root, ends⟩ := ext2Read_paired same s.root data len
  exact ⟨Prod.ext count read, root, ends⟩

theorem sysWrite_paired (alike : Alike known s t) {task fd : Nat} (isKnown : known task fd)
    (behind : Option Nat) (data : Region) (len : Int) :
    Option.Rel (fun a b => a.1 = b.1 ∧ Alike known a.2 b.2) (s.sysWrite task fd behind data len)
      (t.sysWrite task fd behind data len) := by
  apply onFile_paired alike isKnown
  intro f g same
  exact ext2Write_paired same s.root data len

/-- A read or a write is on a known descriptor. -/
def Uses (known : Nat → Nat → Prop) : Call → Prop
  | .open .. => True
  | .unlink .. => True
  | .read task fd .. => ∃ place : Nat, fd = place ∧ known task place
  | .write task fd .. => ∃ place : Nat, fd = place ∧ known task place

/-- What is known after a call. -/
def KnowsAfter (known : Nat → Nat → Prop) (call : Call) (answer : Answer) (task fd : Nat) : Prop :=
  known task fd ∨ ∃ name mode, call = .open task name mode ∧ answer.value = fd

theorem KnowsAfter.before {call : Call} {answer : Answer} {task fd : Nat}
    (knows : KnowsAfter known call answer task fd)
    (other : ∀ name mode, call ≠ .open task name mode) : known task fd := by
  rcases knows with isKnown | ⟨name, mode, isOpen, _⟩
  · exact isKnown
  · exact absurd isOpen (other name mode)

theorem step_paired (alike : Alike known s t) {fuel : Nat} {ram ram' : Ram} {call : Call}
    (uses : Uses known call)
    (meets : ∀ task name, call = .unlink task name → UnlinksAlike fuel ram ram' s t task name) :
    Option.Rel (fun a b => a.1 = b.1 ∧ Alike (KnowsAfter known call a.1) a.2 b.2)
      (s.step fuel ram call) (t.step fuel ram' call) := by
  cases call with
  | «open» task name mode =>
      refine rel_map (sysOpen_paired alike fuel task name mode) ?_
      rintro a b ⟨same, after⟩
      refine ⟨congrArg (fun value => Answer.mk value none) same, after.mono ?_⟩
      rintro other fd (isKnown | ⟨_, _, isOpen, isFd⟩)
      · exact Or.inl isKnown
      · cases isOpen
        exact Or.inr ⟨rfl, isFd⟩
  | unlink task name =>
      refine rel_map (sysUnlink_paired alike (meets task name rfl)) ?_
      rintro a b ⟨same, after⟩
      refine ⟨congrArg (fun value => Answer.mk value none) same, after.mono ?_⟩
      exact fun other fd knows => KnowsAfter.before knows fun _ _ isOpen => Call.noConfusion isOpen
  | read task fd behind data len =>
      obtain ⟨place, rfl, isKnown⟩ := uses
      refine rel_map (sysRead_paired alike isKnown behind data len) ?_
      rintro a b ⟨same, after⟩
      refine ⟨congrArg (fun read => Answer.mk read.1 (some read.2)) same, after.mono ?_⟩
      exact fun other fd knows => KnowsAfter.before knows fun _ _ isOpen => Call.noConfusion isOpen
  | write task fd behind data len =>
      obtain ⟨place, rfl, isKnown⟩ := uses
      refine rel_map (sysWrite_paired alike isKnown behind data len) ?_
      rintro a b ⟨same, after⟩
      refine ⟨congrArg (fun value => Answer.mk value none) same, after.mono ?_⟩
      exact fun other fd knows => KnowsAfter.before knows fun _ _ isOpen => Call.noConfusion isOpen

end Paired

/-! ### Runs -/

/-- Call `n` of a sequence; `ram` is the memory that it finds. -/
def callStep (fuel : Nat) (ram : Nat → Ram) (calls : Nat → Call) (n : Nat) (s : FileCalls) :
    Option (Answer × FileCalls) :=
  s.step fuel (ram n) (calls n)

/-- The kernel before call `n`; `none` if some call before it does not return. -/
def callsAt (fuel : Nat) (ram : Nat → Ram) (start : FileCalls) (calls : Nat → Call) (n : Nat) :
    Option FileCalls :=
  runState (callStep fuel ram calls) start n

/-- What call `n` returns. -/
def callAnswer (fuel : Nat) (ram : Nat → Ram) (start : FileCalls) (calls : Nat → Call) (n : Nat) :
    Option Answer :=
  runAnswer (callStep fuel ram calls) start n

/-- The descriptor refers to a slot in use from the start, or a call of `sys_open` before call
`n` returned it. -/
def KnownAt (fuel : Nat) (ram : Nat → Ram) (start : FileCalls) (calls : Nat → Call) (n : Nat)
    (task fd : Nat) : Prop :=
  start.InUse task fd ∨ ∃ k answer, k < n ∧ callAnswer fuel ram start calls k = some answer ∧
    (∃ name mode, calls k = .open task name mode) ∧ answer.value = fd

/-- The two kernels have the same file system and the same open files. -/
structure SameSystem (s t : FileCalls) : Prop where
  mounts : s.mounts = t.mounts
  root : s.root = t.root
  files : s.files = t.files

theorem calls_related {s t : FileCalls} (differ : s.DifferInFree t) {fuel : Nat}
    {ram ram' : Nat → Ram} {calls : Nat → Call}
    (uses : ∀ n, Uses (KnownAt fuel ram s calls n) (calls n))
    (meets : ∀ n s' t' task name, calls n = .unlink task name →
      callsAt fuel ram s calls n = some s' → callsAt fuel ram' t calls n = some t' →
      UnlinksAlike fuel (ram n) (ram' n) s' t' task name) (n : Nat) :
    Option.Rel SameSystem (callsAt fuel ram s calls n) (callsAt fuel ram' t calls n) ∧
      callAnswer fuel ram s calls n = callAnswer fuel ram' t calls n := by
  have starts : Alike (KnownAt fuel ram s calls 0) s t := by
    refine differ.alike.mono ?_
    rintro task fd (inUse | ⟨k, _, before, _⟩)
    · exact inUse
    · exact absurd before (Nat.not_lt_zero k)
  have keeps : ∀ n s' t', runState (callStep fuel ram calls) s n = some s' →
      runState (callStep fuel ram' calls) t n = some t' →
      Alike (KnownAt fuel ram s calls n) s' t' →
      StepsAlike (Alike (KnownAt fuel ram s calls (n + 1))) (callStep fuel ram calls n s')
        (callStep fuel ram' calls n t') := by
    intro n s' t' left right alike
    have steps := step_paired alike (uses n)
      (fun task name isUnlink => meets n s' t' task name isUnlink left right)
    refine rel_mono steps ?_
    rintro a b isLeft _ ⟨same, after⟩
    refine ⟨same, after.mono ?_⟩
    rintro task fd (inUse | ⟨k, answer, before, answers, ⟨name, mode, isOpen⟩, isFd⟩)
    · exact Or.inl (Or.inl inUse)
    · by_cases isLast : k = n
      · subst isLast
        refine Or.inr ⟨name, mode, isOpen, ?_⟩
        have here : callAnswer fuel ram s calls k = some a.1 := by
          unfold callAnswer runAnswer
          rw [left, Option.bind_some]
          exact congrArg (Option.map Prod.fst) isLeft
        rw [here, Option.some.injEq] at answers
        rw [answers]
        exact isFd
      · exact Or.inl (Or.inr ⟨k, answer, by omega, answers, ⟨name, mode, isOpen⟩, isFd⟩)
  refine ⟨rel_mono (runs_related starts keeps n) ?_, runs_answer starts keeps n⟩
  intro s' t' _ _ alike
  exact ⟨alike.mounts, alike.root, alike.files⟩

/-! ### A slot that was used before -/

/-- The root directory with the file /ab, and inodes of empty files. -/
def recycleRoot : FileSystem :=
  let fs := FileSystem.creationSample (fun x => if x < 4 then 255#8 else 0#8)
  let empty := { FileSystem.creationInode with iMode := 0o100644, iBlocks := 0, iSize := 0 }
  { fs with
    groups := fun group =>
      { fs.groups group with
        inodeData := fun slot => if slot = 1 then FileSystem.creationInode else empty } }

/-- The first slot was used before; nothing is open. -/
def recycled (slot : File) : FileCalls where
  mounts := MountTable.booted
  root := recycleRoot
  files := FileTable.opened 0
  slot := fun _ => slot
  owner := fun _ => none
  onlyRoot := by
    intro i isOp
    by_cases isRoot : i = 0
    · rw [isRoot]
      rfl
    · refine absurd ?_ isOp
      change (if i = 0 then _ else MountTable.empty.slot i).op = none
      rw [if_neg isRoot]
      rfl

theorem recycled_differ (f g : File) : (recycled f).DifferInFree (recycled g) where
  whole := (by decide : 8 * sectorSize ≤ recycleRoot.blockSize)
  mounts := rfl
  root := rfl
  files := rfl
  slot := by
    intro file held
    refine absurd ?_ held
    change (if file < 0 then (1 : Int) else 0) = 0
    rw [if_neg (Nat.not_lt_zero file)]
  owner := fun _ _ => rfl

def recyclePath : CString := [47#8, 99#8]

/-- What was once opened with `O_CREAT`. -/
def createdSlot : File := { FileSystem.unlinkFile with mode := 64 }

/-- What was once opened for reading and writing. -/
def readSlot : File :=
  { FileSystem.unlinkFile with
    pos := 7
    mode := 2
    curBlock := 1
    ino := 3
    inode := ⟨0, 5⟩ }

theorem readSlot_misses {ref : InodeRef} {after : FileSystem} {f : File} :
    recycleRoot.findInodeByPath 8 readSlot recyclePath ≠ some (some ref, after, f) := by
  have misses : (recycleRoot.findInodeByPath 8 readSlot recyclePath).map (·.1) = some none := by
    decide +kernel
  intro finds
  rw [finds] at misses
  cases misses

/-- `sys_unlink` of a missing name, `sys_open` and then reads. -/
def reopenCalls (n : Nat) : Call :=
  if n = 0 then .unlink 0 recyclePath
  else if n = 1 then .open 0 [47#8, 97#8, 98#8] 0
  else .read 0 0 none (fun _ => 0#8) 10

/-- Slots without `O_CREAT` that differ in everything. -/
theorem calls_related_reopened :
    ((recycled readSlot).DifferInFree (recycled FileSystem.unlinkFile) ∧
      (∀ n, Uses (KnownAt 8 (fun _ => FileSystem.unlinkRam) (recycled readSlot) reopenCalls n)
        (reopenCalls n))) ∧
    ∀ n, Option.Rel SameSystem
        (callsAt 8 (fun _ => FileSystem.unlinkRam) (recycled readSlot) reopenCalls n)
        (callsAt 8 (fun _ => FileSystem.unlinkRam) (recycled FileSystem.unlinkFile)
          reopenCalls n) ∧
      callAnswer 8 (fun _ => FileSystem.unlinkRam) (recycled readSlot) reopenCalls n =
        callAnswer 8 (fun _ => FileSystem.unlinkRam) (recycled FileSystem.unlinkFile)
          reopenCalls n := by
  have differ := recycled_differ readSlot FileSystem.unlinkFile
  have uses : ∀ n, Uses (KnownAt 8 (fun _ => FileSystem.unlinkRam) (recycled readSlot)
      reopenCalls n) (reopenCalls n) := by
    intro n
    by_cases isFirst : n = 0
    · rw [isFirst]
      exact trivial
    · by_cases isSecond : n = 1
      · rw [isSecond]
        exact trivial
      · have isRead : reopenCalls n = .read 0 0 none (fun _ => 0#8) 10 := by
          unfold reopenCalls
          rw [if_neg isFirst, if_neg isSecond]
        rw [isRead]
        have isOpen : (callAnswer 8 (fun _ => FileSystem.unlinkRam) (recycled readSlot)
            reopenCalls 1).map (·.value) = some 0 := by decide +kernel
        obtain ⟨answer, returns, isFd⟩ := Option.map_eq_some_iff.mp isOpen
        exact ⟨0, rfl, Or.inr ⟨1, answer, by omega, returns, ⟨_, _, rfl⟩, isFd⟩⟩
  refine ⟨⟨differ, uses⟩, ?_⟩
  apply calls_related differ uses
  intro n s' t' task name isUnlink left right
  have isFirst : n = 0 := by
    by_contra later
    unfold reopenCalls at isUnlink
    rw [if_neg later] at isUnlink
    by_cases isSecond : n = 1
    · rw [if_pos isSecond] at isUnlink
      cases isUnlink
    · rw [if_neg isSecond] at isUnlink
      cases isUnlink
  subst isFirst
  obtain ⟨_, rfl⟩ : 0 = task ∧ recyclePath = name := by
    cases isUnlink
    exact ⟨rfl, rfl⟩
  obtain rfl : recycled readSlot = s' := Option.some.inj left
  obtain rfl : recycled FileSystem.unlinkFile = t' := Option.some.inj right
  intro fs _ _ _
  refine ⟨fun _ => iff_of_false ?_ ?_, ?_, ?_⟩
  · exact (by decide : ¬ readSlot.mode &&& oCreat = oCreat)
  · exact (by decide : ¬ FileSystem.unlinkFile.mode &&& oCreat = oCreat)
  · intro _ ref after f finds
    exact absurd finds readSlot_misses
  · intro ref after f freed finds
    exact absurd finds readSlot_misses

/-- `sys_unlink` of a missing name creates it, if the slot was once opened with `O_CREAT`. -/
theorem calls_related_not :
    (recycled createdSlot).DifferInFree (recycled readSlot) ∧
      (callAnswer 8 (fun _ => FileSystem.unlinkRam) (recycled createdSlot)
        (fun _ => .unlink 0 recyclePath) 0).map (·.value) = some 0 ∧
      (callAnswer 8 (fun _ => FileSystem.unlinkRam) (recycled readSlot)
        (fun _ => .unlink 0 recyclePath) 0).map (·.value) = some (-enotexist) ∧
      ¬ ∀ (s t : FileCalls) (fuel : Nat) (ram : Nat → Ram) (calls : Nat → Call),
        s.DifferInFree t → (∀ n, Uses (KnownAt fuel ram s calls n) (calls n)) →
          ∀ n, callAnswer fuel ram s calls n = callAnswer fuel ram t calls n := by
  have created : (callAnswer 8 (fun _ => FileSystem.unlinkRam) (recycled createdSlot)
      (fun _ => .unlink 0 recyclePath) 0).map (·.value) = some 0 := by decide +kernel
  have missing : (callAnswer 8 (fun _ => FileSystem.unlinkRam) (recycled readSlot)
      (fun _ => .unlink 0 recyclePath) 0).map (·.value) = some (-enotexist) := by decide +kernel
  have differ := recycled_differ createdSlot readSlot
  refine ⟨differ, created, missing, ?_⟩
  intro all
  have same := all _ _ 8 (fun _ => FileSystem.unlinkRam) (fun _ => .unlink 0 recyclePath) differ
    (fun _ => trivial) 0
  rw [same, missing] at created
  exact absurd created (by decide)

end FileCalls

end MangoOS
