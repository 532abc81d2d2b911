/-
The child's address space after copy_memory against the parent's.
-/

import MangoOS.Memory.CopyMemory

namespace MangoOS

open PhysicalMemory

/-- The pages the user half of a directory stands on. -/
inductive ParentPage (mem : ByteMemory) (ppde : Nat) : Nat → Prop
  | directory : ParentPage mem ppde (ppde / pageSize)
  | table {i : Nat} (isUser : UserIndex i) (isPresent : present (pdeValue mem ppde i) = true) :
      ParentPage mem ppde (pdeValue mem ppde i / pageSize)
  | frame {i j : Nat} (isUser : UserIndex i) (small : j < 1024)
      (isPresent : present (pdeValue mem ppde i) = true)
      (isEntry : present (pteValue mem ppde i j) = true) :
      ParentPage mem ppde (pteValue mem ppde i j / pageSize)

/-- A running task's address space: its pages are taken, and no frame is page 0. -/
structure ParentReady (s : PhysicalMemory) (ppde : Nat) : Prop where
  booted : s.pages.Booted
  parentAligned : pageSize ∣ ppde
  taken : ∀ p, ParentPage s.mem ppde p → s.Used p
  nonzero : ∀ i j, UserIndex i → j < 1024 → present (pdeValue s.mem ppde i) = true →
    present (pteValue s.mem ppde i j) = true → pteValue s.mem ppde i j / pageSize ≠ 0

/-- The state copy_memory starts in: the child's directory is a page of its own without
user entries. -/
structure ForkReady (s : PhysicalMemory) (ppde pde : Nat) : Prop
    extends ParentReady s ppde where
  childAligned : pageSize ∣ pde
  childTaken : s.Used (pde / pageSize)
  childApart : ¬ ParentPage s.mem ppde (pde / pageSize)
  empty : ∀ i, UserIndex i → pdeValue s.mem pde i = 0

/-- The child's user memory is an exact, separate copy of the parent's. -/
structure ForkCopy (before after : ByteMemory) (ppde pde : Nat) : Prop where
  mapped : ∀ v, userMemoryBegin ≤ v → v < 4294967296 →
    ((translate after pde v).isSome = true ↔ (translate before ppde v).isSome = true)
  bytes : ∀ v p q, userMemoryBegin ≤ v → v < 4294967296 → translate before ppde v = some p →
    translate after pde v = some q → after q = before p
  distinct : ∀ v w p q, userMemoryBegin ≤ v → v < w → w < 4294967296 →
    v / pageSize ≠ w / pageSize → translate after pde v = some p →
    translate after pde w = some q → p / pageSize ≠ q / pageSize
  apart : ∀ v q, userMemoryBegin ≤ v → v < 4294967296 → translate after pde v = some q →
    ¬ ParentPage before ppde (q / pageSize)
  parent : ∀ x, ParentPage before ppde (x / pageSize) → after x = before x

/-- The page that becomes the table of entry `i`. -/
def tablePage (s : PhysicalMemory) (ppde i : Nat) : Nat :=
  nthPage s.pages (allocationsFrom s.mem ppde userStartIndex (i - userStartIndex))

/-- The calls of `alloc_pages(1)` of one copy_memory. -/
@[irreducible] def copyAllocations (mem : ByteMemory) (ppde : Nat) : Nat :=
  allocationsFrom mem ppde userStartIndex (1024 - userStartIndex)

theorem copyAllocations_congr {mem other : ByteMemory} {pages : Nat → Prop} {ppde : Nat}
    (space : AddressSpace pages mem ppde) (same : ∀ x, pages (x / pageSize) → other x = mem x) :
    copyAllocations other ppde = copyAllocations mem ppde := by
  unfold copyAllocations
  exact allocationsFrom_congr space same _ userStartIndex (Nat.le_refl _)
    (by rw [userStartIndex_eq])

/-- The pages that become tables hold no present entry where the parent's table has none. -/
def TablesClean (s : PhysicalMemory) (ppde : Nat) : Prop :=
  ∀ i j, UserIndex i → j < 1024 → present (pdeValue s.mem ppde i) = true →
    ¬ present (pteValue s.mem ppde i j) = true →
    ¬ present (s.mem.word (tablePage s ppde i + 4 * j)) = true

/-! ### Translations of user addresses -/

def vaddrOf (i j : Nat) : Nat := i * 4194304 + j * 4096

theorem pdeIndex_vaddrOf {i j : Nat} (small : j < 1024) : pdeIndex (vaddrOf i j) = i := by
  unfold pdeIndex vaddrOf
  omega

theorem pteIndex_vaddrOf {i j : Nat} (small : j < 1024) : pteIndex (vaddrOf i j) = j := by
  unfold pteIndex vaddrOf
  omega

theorem vaddrOf_range {i j : Nat} (isUser : UserIndex i) (small : j < 1024) :
    userMemoryBegin ≤ vaddrOf i j ∧ vaddrOf i j < 4294967296 := by
  obtain ⟨low, high⟩ := isUser
  rw [userStartIndex_eq] at low
  unfold userMemoryBegin vaddrOf
  omega

/-- Pages in address order have their indices in lexicographic order. -/
theorem indices_less {v w : Nat} (less : v < w) (pagesDiffer : v / pageSize ≠ w / pageSize) :
    pdeIndex v < pdeIndex w ∨ pdeIndex v = pdeIndex w ∧ pteIndex v < pteIndex w := by
  unfold pdeIndex pteIndex pageSize at *
  omega

variable {mem : ByteMemory} {s : PhysicalMemory} {ppde pde v p : Nat}

theorem translate_isSome :
    (translate mem pde v).isSome = true ↔
      present (pdeValue mem pde (pdeIndex v)) = true ∧
        present (pteValue mem pde (pdeIndex v) (pteIndex v)) = true := by
  unfold translate
  split
  case isTrue both => exact ⟨fun _ => both, fun _ => rfl⟩
  case isFalse missing =>
      constructor
      · intro isSome
        cases isSome
      · intro both
        exact False.elim (missing both)

/-- A translation is the frame of its table entry at the offset of the address. -/
theorem translate_frame (mapped : translate mem pde v = some p) :
    p = pteValue mem pde (pdeIndex v) (pteIndex v) / pageSize * pageSize + v % pageSize := by
  unfold translate at mapped
  split at mapped
  case isTrue both =>
      cases mapped
      rw [alignDown_eq]
  case isFalse missing => cases mapped

theorem translate_page (mapped : translate mem pde v = some p) :
    p / pageSize = pteValue mem pde (pdeIndex v) (pteIndex v) / pageSize := by
  rw [translate_frame mapped]
  exact byte_inPage _ (Nat.mod_lt v (by decide))

theorem translate_present (mapped : translate mem pde v = some p) :
    present (pdeValue mem pde (pdeIndex v)) = true ∧
      present (pteValue mem pde (pdeIndex v) (pteIndex v)) = true := by
  apply translate_isSome.mp
  rw [mapped]
  rfl

/-! ### The copy -/

theorem ParentReady.space (ready : ParentReady s ppde) :
    AddressSpace (ParentPage s.mem ppde) s.mem ppde := by
  refine ⟨ready.parentAligned, ParentPage.directory, ?_, ?_⟩
  · intro i isUser isPresent
    exact ParentPage.table isUser isPresent
  · intro i j isUser small isPresent isEntry
    exact ⟨ParentPage.frame isUser small isPresent isEntry,
      ready.nonzero i j isUser small isPresent isEntry⟩

theorem ForkReady.source (ready : ForkReady s ppde pde) :
    DirectorySource (ParentPage s.mem ppde) s ppde (pde / pageSize) :=
  ⟨ready.taken, ready.childApart, ready.childTaken, ready.space⟩

/-- A directory read from its own pages only has pages among them. -/
theorem AddressSpace.parentPage {pages : Nat → Prop} (space : AddressSpace pages mem ppde)
    (page : ParentPage mem ppde p) : pages p := by
  cases page with
  | directory => exact space.directory
  | table isUser isPresent => exact space.tables _ isUser isPresent
  | frame isUser small isPresent isEntry =>
      exact (space.frames _ _ isUser small isPresent isEntry).1

/-- Growing the memory elsewhere keeps the address space. -/
theorem ParentReady.grow {own : Nat → Prop} {after : PhysicalMemory} (ready : ParentReady s ppde)
    (grows : Grows own s after) (apart : ∀ x, ParentPage s.mem ppde (x / pageSize) → ¬ own x) :
    ParentReady after ppde ∧ ∀ q, ParentPage after.mem ppde q → ParentPage s.mem ppde q := by
  have same : ∀ x, ParentPage s.mem ppde (x / pageSize) → after.mem x = s.mem x :=
    fun x member => grows.byte (ready.taken _ member) (apart x member)
  have space := ready.space.congr same
  refine ⟨⟨grows.booted ready.booted, ready.parentAligned, ?_, ?_⟩, fun q => space.parentPage⟩
  · intro q page
    exact grows.kept q (ready.taken q (space.parentPage page))
  · intro i j isUser small isPresent isEntry
    exact (space.frames i j isUser small isPresent isEntry).2

/-- create_pde leads to the state copy_memory starts in. -/
theorem ParentReady.createPde {c : Nat} (ready : ParentReady s ppde) (made : MadeDirectory s c) :
    ForkReady (createPde s).2 ppde (createPde s).1 := by
  obtain ⟨grown, smaller⟩ := ready.grow made.grows (fun _ _ impossible => impossible)
  have page : (MangoOS.createPde s).1 / pageSize = c := by
    rw [made.addr]
    exact Nat.mul_div_cancel c (by decide)
  refine ⟨grown, ?_, ?_, ?_, ?_⟩
  · rw [made.addr]
    exact Nat.dvd_mul_left pageSize c
  · rw [page]
    unfold Used
    rw [made.pages]
    exact made.took.took
  · rw [page]
    intro member
    exact made.took.fresh (ready.taken c (smaller c member))
  · intro i isUser
    rw [made.addr]
    exact made.empty i isUser

/-- A copy of the whole user half that ran to its end. -/
structure Copied (s after : PhysicalMemory) (ppde pde : Nat) : Prop where
  grows : Grows (EntriesFrom (pde / pageSize) userStartIndex) s after
  directory : DirectoryCopied s after ppde (pde / pageSize) userStartIndex (1024 - userStartIndex)

theorem ForkReady.child_eq (ready : ForkReady s ppde pde) : pde / pageSize * pageSize = pde :=
  Nat.div_mul_cancel ready.childAligned

theorem copyMemory_copied (ready : ForkReady s ppde pde) (done : (copyMemory s ppde pde).1 = 0) :
    Copied s (copyMemory s ppde pde).2 ppde pde := by
  have source := ready.source
  have addr := ready.child_eq
  have inDirectory : userStartIndex + (1024 - userStartIndex) ≤ 1024 := by
    rw [userStartIndex_eq]
  have grows := copyMemoryLoop_grows (pde / pageSize) ppde (1024 - userStartIndex) s userStartIndex
    ready.booted inDirectory
  have copied := copyMemoryLoop_copied (1024 - userStartIndex) s userStartIndex ready.booted
    (Nat.le_refl _) inDirectory source
  rw [addr] at grows copied
  unfold copyMemory at done ⊢
  by_cases complete : (copyMemoryLoop s ppde pde userStartIndex (1024 - userStartIndex)).1 = true
  · rw [if_pos complete]
    exact ⟨grows, copied complete⟩
  · rw [if_neg complete] at done
    cases done

/-- copy_memory returns 0 exactly when every page it asks for is found. -/
theorem copyMemory_done (ready : ForkReady s ppde pde) :
    (copyMemory s ppde pde).1 = 0 ↔
      Supplied s.pages (copyAllocations s.mem ppde) := by
  have inDirectory : userStartIndex + (1024 - userStartIndex) ≤ 1024 := by
    rw [userStartIndex_eq]
  have done := copyMemoryLoop_done (1024 - userStartIndex) s userStartIndex ready.booted
    (Nat.le_refl _) inDirectory ready.source
  rw [ready.child_eq] at done
  unfold copyAllocations copyMemory
  rw [← done]
  by_cases complete : (copyMemoryLoop s ppde pde userStartIndex (1024 - userStartIndex)).1 = true
  · rw [if_pos complete]
    exact ⟨fun _ => complete, fun _ => rfl⟩
  · rw [if_neg complete]
    constructor
    · intro zero
      cases zero
    · intro isComplete
      exact False.elim (complete isComplete)

/-- Entries of child and parent at an index whose directory entry the parent has. -/
theorem Copied.present_table {after : PhysicalMemory} (copied : Copied s after ppde pde)
    {i : Nat} (isUser : UserIndex i) (isPresent : present (pdeValue s.mem ppde i) = true) :
    ∃ t, tablePage s ppde i = t * pageSize ∧ ChildTable s after ppde (pde / pageSize) i t := by
  have high := isUser.2
  obtain ⟨t, ⟨page, made⟩⟩ := copied.directory.tables i isUser.1 (by omega) isPresent
  exact ⟨t, page, made⟩

theorem Copied.absent_entry {after : PhysicalMemory} (ready : ForkReady s ppde pde)
    (copied : Copied s after ppde pde) {i : Nat} (isUser : UserIndex i)
    (isAbsent : ¬ present (pdeValue s.mem ppde i) = true) : pdeValue after.mem pde i = 0 := by
  have high := isUser.2
  have kept := copied.directory.skipped i isUser.1 (by omega) isAbsent
  rw [ready.child_eq] at kept
  rw [kept]
  exact ready.empty i isUser

/-- Where the pages were clean, the child has an entry exactly where the parent has one. -/
theorem Copied.same_entries {after : PhysicalMemory} (ready : ForkReady s ppde pde)
    (copied : Copied s after ppde pde) (clean : TablesClean s ppde) {i j : Nat}
    (isUser : UserIndex i) (small : j < 1024) :
    (present (pdeValue after.mem pde i) = true ∧ present (pteValue after.mem pde i j) = true) ↔
      (present (pdeValue s.mem ppde i) = true ∧ present (pteValue s.mem ppde i j) = true) := by
  by_cases isPresent : present (pdeValue s.mem ppde i) = true
  · obtain ⟨t, page, made⟩ := copied.present_table isUser isPresent
    have entry := made.entry
    have pte := made.pteValue j
    rw [ready.child_eq] at entry pte
    rw [entry, pte, and_iff_right (present_entry t), and_iff_right isPresent]
    by_cases isEntry : present (pteValue s.mem ppde i j) = true
    · have shape := (made.copied j small isEntry).shape
      rw [shape]
      exact ⟨fun _ => isEntry, fun _ => present_entry _⟩
    · rw [made.skipped j small isEntry, ← page]
      constructor
      · intro stray
        exact False.elim (clean i j isUser small isPresent isEntry stray)
      · intro listed
        exact False.elim (isEntry listed)
  · rw [copied.absent_entry ready isUser isPresent]
    constructor
    · rintro ⟨zero, _⟩
      cases zero
    · rintro ⟨listed, _⟩
      exact False.elim (isPresent listed)

theorem Copied.frame {after : PhysicalMemory} (ready : ForkReady s ppde pde)
    (copied : Copied s after ppde pde) {i j : Nat} (isUser : UserIndex i) (small : j < 1024)
    (isPresent : present (pdeValue s.mem ppde i) = true)
    (isEntry : present (pteValue s.mem ppde i j) = true) :
    FreshCopy s after (pteValue after.mem pde i j) (pteValue s.mem ppde i j) := by
  obtain ⟨t, _, made⟩ := copied.present_table isUser isPresent
  have pte := made.pteValue j
  rw [ready.child_eq] at pte
  rw [pte]
  exact made.copied j small isEntry

theorem Copied.frames_distinct {after : PhysicalMemory} (ready : ForkReady s ppde pde)
    (copied : Copied s after ppde pde) {i j k l : Nat} (isUser : UserIndex i) (kUser : UserIndex k)
    (small : j < 1024) (lSmall : l < 1024) (less : i < k ∨ i = k ∧ j < l)
    (isPresent : present (pdeValue s.mem ppde i) = true)
    (isEntry : present (pteValue s.mem ppde i j) = true)
    (kPresent : present (pdeValue s.mem ppde k) = true)
    (lEntry : present (pteValue s.mem ppde k l) = true) :
    pteValue after.mem pde i j / pageSize ≠ pteValue after.mem pde k l / pageSize := by
  rcases less with less | ⟨same, less⟩
  · have high := kUser.2
    have distinct := copied.directory.distinct i k j l isUser.1 less (by omega) small lSmall
      isPresent isEntry kPresent lEntry
    rw [ready.child_eq] at distinct
    exact distinct
  · subst same
    obtain ⟨t, _, made⟩ := copied.present_table isUser isPresent
    have first := made.pteValue j
    have second := made.pteValue l
    rw [ready.child_eq] at first second
    rw [first, second]
    exact made.distinct j l less lSmall isEntry lEntry

theorem Copied.exact {after : PhysicalMemory} (ready : ForkReady s ppde pde)
    (copied : Copied s after ppde pde) (clean : TablesClean s ppde) :
    ForkCopy s.mem after.mem ppde pde := by
  have listed : ∀ v p, userMemoryBegin ≤ v → v < 4294967296 → translate after.mem pde v = some p →
      present (pdeValue s.mem ppde (pdeIndex v)) = true ∧
        present (pteValue s.mem ppde (pdeIndex v) (pteIndex v)) = true := by
    intro v p low high mapped
    exact (copied.same_entries ready clean (pdeIndex_user low high) (pteIndex_lt v)).mp
      (translate_present mapped)
  constructor
  · intro v low high
    rw [translate_isSome, translate_isSome]
    exact copied.same_entries ready clean (pdeIndex_user low high) (pteIndex_lt v)
  · intro v p q low high parent child
    obtain ⟨isPresent, isEntry⟩ := translate_present parent
    rw [translate_frame parent, translate_frame child]
    exact (copied.frame ready (pdeIndex_user low high) (pteIndex_lt v) isPresent isEntry).bytes _
      (Nat.mod_lt v (by decide))
  · intro v w p q low less high pagesDiffer first second
    obtain ⟨isPresent, isEntry⟩ := listed v p low (by omega) first
    obtain ⟨kPresent, lEntry⟩ := listed w q (by omega) high second
    rw [translate_page first, translate_page second]
    exact copied.frames_distinct ready (pdeIndex_user low (by omega))
      (pdeIndex_user (by omega) high) (pteIndex_lt v) (pteIndex_lt w) (indices_less less pagesDiffer)
      isPresent isEntry kPresent lEntry
  · intro v q low high mapped member
    obtain ⟨isPresent, isEntry⟩ := listed v q low high mapped
    rw [translate_page mapped] at member
    have copy := copied.frame ready (pdeIndex_user low high) (pteIndex_lt v) isPresent isEntry
    exact copy.fresh (ready.taken _ member)
  · intro x member
    exact ready.source.bytes copied.grows entriesFrom_inChild x member

/-- A stray entry of a table page maps an address the parent does not. -/
theorem Copied.clean {after : PhysicalMemory} (ready : ForkReady s ppde pde)
    (copied : Copied s after ppde pde) (isExact : ForkCopy s.mem after.mem ppde pde) :
    TablesClean s ppde := by
  intro i j isUser small isPresent isEntry stray
  obtain ⟨t, page, made⟩ := copied.present_table isUser isPresent
  have entry := made.entry
  have pte := made.pteValue j
  rw [ready.child_eq] at entry pte
  obtain ⟨low, high⟩ := vaddrOf_range isUser small
  have same := isExact.mapped (vaddrOf i j) low high
  rw [translate_isSome, translate_isSome, pdeIndex_vaddrOf small, pteIndex_vaddrOf small, entry, pte,
    made.skipped j small isEntry] at same
  rw [page] at stray
  exact isEntry (same.mp ⟨present_entry t, stray⟩).2

/-- Every byte of the parent's user memory is in the child's at the same address. -/
def CompleteCopy (before after : ByteMemory) (ppde pde : Nat) : Prop :=
  ∀ v p, userMemoryBegin ≤ v → v < 4294967296 → translate before ppde v = some p →
    ∃ q, translate after pde v = some q ∧ after q = before p

theorem translate_of_present (both : present (pdeValue mem pde (pdeIndex v)) = true ∧
      present (pteValue mem pde (pdeIndex v) (pteIndex v)) = true) :
    ∃ q, translate mem pde v = some q :=
  Option.isSome_iff_exists.mp (translate_isSome.mpr both)

theorem Copied.complete {after : PhysicalMemory} (ready : ForkReady s ppde pde)
    (copied : Copied s after ppde pde) : CompleteCopy s.mem after.mem ppde pde := by
  intro v p low high parent
  obtain ⟨isPresent, isEntry⟩ := translate_present parent
  have isUser := pdeIndex_user low high
  have copy := copied.frame ready isUser (pteIndex_lt v) isPresent isEntry
  obtain ⟨t, _, made⟩ := copied.present_table isUser isPresent
  have entry := made.entry
  rw [ready.child_eq] at entry
  have child : present (pdeValue after.mem pde (pdeIndex v)) = true := by
    rw [entry]
    exact present_entry t
  have childEntry : present (pteValue after.mem pde (pdeIndex v) (pteIndex v)) = true := by
    rw [copy.shape]
    exact present_entry _
  obtain ⟨q, mapped⟩ := translate_of_present ⟨child, childEntry⟩
  refine ⟨q, mapped, ?_⟩
  rw [translate_frame parent, translate_frame mapped]
  exact copy.bytes _ (Nat.mod_lt v (by decide))

/-- A mapped byte is the same in memories that agree on the pages of the address space. -/
theorem AddressSpace.translate_congr {pages : Nat → Prop} {other : ByteMemory}
    (space : AddressSpace pages mem ppde) (same : ∀ x, pages (x / pageSize) → other x = mem x)
    (low : userMemoryBegin ≤ v) (high : v < 4294967296) (mapped : translate mem ppde v = some p) :
    translate other ppde v = some p ∧ other p = mem p := by
  obtain ⟨isPresent, isEntry⟩ := translate_present mapped
  have isUser := pdeIndex_user low high
  constructor
  · rw [← mapped]
    unfold translate
    rw [space.pde_congr same isUser.2, space.pte_congr same isUser (pteIndex_lt v) isPresent]
  · apply same
    rw [translate_page mapped]
    exact (space.frames _ _ isUser (pteIndex_lt v) isPresent isEntry).1

/-- create_pde leaves the parent's pages as they are. -/
theorem ParentReady.same {c : Nat} (ready : ParentReady s ppde) (made : MadeDirectory s c) (x : Nat)
    (member : ParentPage s.mem ppde (x / pageSize)) : (MangoOS.createPde s).2.mem x = s.mem x :=
  made.grows.byte (ready.taken _ member) id

theorem ParentReady.fork_done {c : Nat} (ready : ParentReady s ppde) (made : MadeDirectory s c) :
    (copyMemory (MangoOS.createPde s).2 ppde (MangoOS.createPde s).1).1 = 0 ↔
      Supplied (allocPages s.pages 1).2 (copyAllocations s.mem ppde) := by
  rw [copyMemory_done (ready.createPde made), made.pages, allocPage_pages,
    copyAllocations_congr ready.space (ready.same made)]

theorem ParentReady.fork_complete {c : Nat} (ready : ParentReady s ppde) (made : MadeDirectory s c)
    (done : (copyMemory (MangoOS.createPde s).2 ppde (MangoOS.createPde s).1).1 = 0) :
    CompleteCopy s.mem (copyMemory (MangoOS.createPde s).2 ppde (MangoOS.createPde s).1).2.mem ppde
      (MangoOS.createPde s).1 := by
  have forkReady := ready.createPde made
  intro v p low high parent
  obtain ⟨mapped, byte⟩ := ready.space.translate_congr (ready.same made) low high parent
  obtain ⟨q, child, copied⟩ :=
    (copyMemory_copied forkReady done).complete forkReady v p low high mapped
  exact ⟨q, child, copied.trans byte⟩

/-- copy_memory copies the address space exactly if and only if the pages it takes for
tables held no present entry where the parent's table has none. -/
theorem copyMemory_exact_iff (s : PhysicalMemory) (ppde pde : Nat) (ready : ForkReady s ppde pde)
    (done : (copyMemory s ppde pde).1 = 0) :
    ForkCopy s.mem (copyMemory s ppde pde).2.mem ppde pde ↔ TablesClean s ppde :=
  have copied := copyMemory_copied ready done
  ⟨copied.clean ready, copied.exact ready⟩

/-! ### One page to copy -/

/-- A directory in page 1 with a table in page 2 that maps page 3 at the first user page.
In the `dirty` case the second entry of the free page 5 is marked present. -/
def forkMemory (dirty : Bool) : ByteMemory := fun x =>
  if x = 5120 then 0x27 else if x = 5121 then 0x22
  else if x = 8192 then 0x27 else if x = 8193 then 0x32
  else if x = 20484 then (if dirty then 1 else 0) else 0

/-- Pages 0 to 3 of `nbits` are taken. -/
def forkPages (nbits : Int) : BitMap where
  nbits := nbits
  base := fun byte => if byte = 0 then 0x0F else 0

def forkSample (dirty : Bool) (nbits : Int) : PhysicalMemory :=
  ⟨forkMemory dirty, forkPages nbits⟩

variable {dirty : Bool} {nbits : Int}

theorem forkMemory_zero {a : Nat} (low : 5124 ≤ a) (notTable : a + 4 ≤ 8192 ∨ 8196 ≤ a)
    (high : a + 4 ≤ 20480) : (forkMemory dirty).word a = 0 := by
  have zero : ∀ x, a ≤ x → x < a + 4 → forkMemory dirty x = 0 := by
    intro x lower upper
    unfold forkMemory
    rw [if_neg (by omega), if_neg (by omega), if_neg (by omega), if_neg (by omega),
      if_neg (by omega)]
  unfold ByteMemory.word
  rw [zero a (by omega) (by omega), zero (a + 1) (by omega) (by omega),
    zero (a + 2) (by omega) (by omega), zero (a + 3) (by omega) (by omega)]
  rfl

theorem forkMemory_directory : pdeValue (forkMemory dirty) 4096 256 = 8743 := by
  cases dirty <;> decide

theorem forkMemory_entry : (forkMemory dirty).word (8192 + 4 * 0) = 12839 := by
  cases dirty <;> decide

theorem forkMemory_pte (j : Nat) :
    pteValue (forkMemory dirty) 4096 256 j = (forkMemory dirty).word (8192 + 4 * j) := by
  unfold pteValue
  rw [forkMemory_directory]
  rfl

theorem forkMemory_noTable {i : Nat} (isUser : UserIndex i) (other : i ≠ 256) :
    pdeValue (forkMemory dirty) 4096 i = 0 := by
  obtain ⟨low, high⟩ := isUser
  rw [userStartIndex_eq] at low
  exact forkMemory_zero (by omega) (by omega) (by omega)

theorem forkMemory_noEntry {j : Nat} (small : j < 1024) (other : j ≠ 0) :
    (forkMemory dirty).word (8192 + 4 * j) = 0 :=
  forkMemory_zero (by omega) (by omega) (by omega)

theorem forkMemory_onlyTable {i : Nat} (isUser : UserIndex i)
    (isPresent : present (pdeValue (forkMemory dirty) 4096 i) = true) : i = 256 := by
  by_contra other
  rw [forkMemory_noTable isUser other] at isPresent
  cases isPresent

theorem forkMemory_onlyEntry {j : Nat} (small : j < 1024)
    (isEntry : present (pteValue (forkMemory dirty) 4096 256 j) = true) : j = 0 := by
  by_contra other
  rw [forkMemory_pte, forkMemory_noEntry small other] at isEntry
  cases isEntry

theorem forkSample_pages (dirty : Bool) (nbits : Int) :
    (forkSample dirty nbits).pages = forkPages nbits := rfl

theorem forkPages_used (nbits : Int) {p : Nat} (taken : p < 4) : (forkPages nbits).used p = true := by
  change (forkPages 16).used p = true
  rcases (by omega : p = 0 ∨ p = 1 ∨ p = 2 ∨ p = 3) with rfl | rfl | rfl | rfl <;> decide

theorem forkPages_booted (small : nbits ≤ 16) : (forkPages nbits).Booted :=
  ⟨show nbits ≤ 1048576 by omega, forkPages_used nbits (by omega)⟩

theorem forkSample_ready (dirty : Bool) (small : nbits ≤ 16) :
    ParentReady (forkSample dirty nbits) 4096 := by
  refine ⟨forkPages_booted small, by decide, ?_, ?_⟩
  · intro p page
    apply forkPages_used
    cases page with
    | directory => decide
    | table isUser isPresent =>
        have only := forkMemory_onlyTable isUser isPresent
        subst only
        change pdeValue (forkMemory dirty) 4096 256 / pageSize < 4
        rw [forkMemory_directory]
        decide
    | frame isUser small isPresent isEntry =>
        have only := forkMemory_onlyTable isUser isPresent
        subst only
        have first := forkMemory_onlyEntry small isEntry
        subst first
        change pteValue (forkMemory dirty) 4096 256 0 / pageSize < 4
        rw [forkMemory_pte, forkMemory_entry]
        decide
  · intro i j isUser small isPresent isEntry
    have only := forkMemory_onlyTable isUser isPresent
    subst only
    have first := forkMemory_onlyEntry small isEntry
    subst first
    change pteValue (forkMemory dirty) 4096 256 0 / pageSize ≠ 0
    rw [forkMemory_pte, forkMemory_entry]
    decide

theorem forkMemory_allocations : copyAllocations (forkMemory dirty) 4096 = 2 := by
  have tables : allocationsFrom (forkMemory dirty) 4096 257 767 = 0 := by
    apply allocationsFrom_none
    intro k lower upper
    exact forkMemory_noTable ⟨by rw [userStartIndex_eq]; omega, by omega⟩ (by omega)
  have entries : presentCount (forkMemory dirty) 8192 1 1023 = 0 := by
    apply presentCount_none
    intro k lower upper
    exact forkMemory_noEntry (by omega) (by omega)
  have table : presentCount (forkMemory dirty) 8192 0 1024 = 1 := by
    rw [presentCount_succ, entries, forkMemory_entry]
    decide
  have addr : alignDown 8743 = 8192 := by decide
  have isPresent : present 8743 = true := by decide
  unfold copyAllocations
  rw [show 1024 - userStartIndex = 767 + 1 from rfl, userStartIndex_eq, allocationsFrom_succ, tables,
    forkMemory_directory, if_pos isPresent, addr, table]

theorem forkSample_made (dirty : Bool) : ∃ c, MadeDirectory (forkSample dirty 16) c := by
  have found : (allocPages (forkPages 16) 1).1 ≠ 0 := by decide +kernel
  apply createPde_made (forkPages_booted (Int.le_refl 16))
  rw [allocPage_addr, forkSample_pages]
  exact found

/-- The state copy_memory starts in, and its child's directory. -/
def forkStart (dirty : Bool) : PhysicalMemory := (createPde (forkSample dirty 16)).2

def forkChild (dirty : Bool) : Nat := (createPde (forkSample dirty 16)).1

theorem forkStart_parent (dirty : Bool) : ParentReady (forkSample dirty 16) 4096 :=
  forkSample_ready dirty (Int.le_refl 16)

theorem forkStart_ready (dirty : Bool) : ForkReady (forkStart dirty) 4096 (forkChild dirty) := by
  obtain ⟨c, made⟩ := forkSample_made dirty
  exact (forkStart_parent dirty).createPde made

theorem forkStart_pages (dirty : Bool) :
    (forkStart dirty).pages = (allocPages (forkPages 16) 1).2 := by
  obtain ⟨c, made⟩ := forkSample_made dirty
  unfold forkStart
  rw [made.pages, allocPage_pages, forkSample_pages]

theorem forkStart_same (dirty : Bool) (x : Nat)
    (member : ParentPage (forkMemory dirty) 4096 (x / pageSize)) :
    (forkStart dirty).mem x = forkMemory dirty x := by
  obtain ⟨c, made⟩ := forkSample_made dirty
  exact (forkStart_parent dirty).same made x member

theorem forkStart_done (dirty : Bool) :
    (copyMemory (forkStart dirty) 4096 (forkChild dirty)).1 = 0 := by
  obtain ⟨c, made⟩ := forkSample_made dirty
  apply ((forkStart_parent dirty).fork_done made).mpr
  change Supplied (allocPages (forkPages 16) 1).2 (copyAllocations (forkMemory dirty) 4096)
  rw [forkMemory_allocations]
  exact ⟨by decide +kernel, by decide +kernel, trivial⟩

theorem copyMemory_exact_onePage :
    ForkCopy (forkStart false).mem (copyMemory (forkStart false) 4096 (forkChild false)).2.mem 4096
        (forkChild false) ↔
      TablesClean (forkStart false) 4096 :=
  copyMemory_exact_iff _ _ _ (forkStart_ready false) (forkStart_done false)

/-- The page taken for the table holds a present entry: the child maps a page its parent
does not. -/
theorem copyMemory_stray :
    (copyMemory (forkStart true) 4096 (forkChild true)).1 = 0 ∧
      ¬ ForkCopy (forkStart true).mem (copyMemory (forkStart true) 4096 (forkChild true)).2.mem 4096
        (forkChild true) := by
  refine ⟨forkStart_done true, ?_⟩
  intro isExact
  have ready := forkStart_ready true
  have clean := (copyMemory_copied ready (forkStart_done true)).clean ready isExact
  have isUser : UserIndex 256 := ⟨by rw [userStartIndex_eq], by omega⟩
  have space := (forkStart_parent true).space
  have isPresent : present (pdeValue (forkMemory true) 4096 256) = true := by
    rw [forkMemory_directory]
    decide
  have page : tablePage (forkStart true) 4096 256 = 20480 := by
    unfold tablePage
    rw [forkStart_pages, userStartIndex_eq]
    decide +kernel
  have prior : (forkStart true).mem.word (20480 + 4 * 1) = (forkMemory true).word 20484 := by
    obtain ⟨c, made⟩ := forkSample_made true
    refine made.grows.free_word (by decide) ?_ (fun _ _ _ => id)
    unfold Used
    rw [made.pages]
    decide +kernel
  apply clean 256 1 isUser (by omega)
  · rw [space.pde_congr (forkStart_same true) isUser.2]
    exact isPresent
  · rw [space.pte_congr (forkStart_same true) isUser (by omega) isPresent]
    change ¬ present (pteValue (forkMemory true) 4096 256 1) = true
    rw [forkMemory_pte, forkMemory_noEntry (by omega) (by omega)]
    decide
  · rw [page, prior]
    decide

end MangoOS
