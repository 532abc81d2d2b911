/-
copy_memory over a whole directory: what the child's address space is.

Each present directory entry of the parent gets a fresh table page; that page is not
cleared, so the entries the parent's table lacks are whatever the page held before.
-/

import MangoOS.Memory.CopyTable

namespace MangoOS

open PhysicalMemory

/-- The calls of `alloc_pages(1)` for the entries `i, …, i + count - 1`. -/
def allocationsFrom (mem : ByteMemory) (ppde i : Nat) : (count : Nat) → Nat
  | 0 => 0
  | count + 1 =>
      (if present (pdeValue mem ppde i) then
        1 + presentCount mem (alignDown (pdeValue mem ppde i)) 0 1024 else 0) +
        allocationsFrom mem ppde (i + 1) count

theorem allocationsFrom_succ (mem : ByteMemory) (ppde i count : Nat) :
    allocationsFrom mem ppde i (count + 1) =
      (if present (pdeValue mem ppde i) then
        1 + presentCount mem (alignDown (pdeValue mem ppde i)) 0 1024 else 0) +
        allocationsFrom mem ppde (i + 1) count := rfl

theorem allocationsFrom_none {mem : ByteMemory} {ppde : Nat} (count : Nat) :
    ∀ i, (∀ k, i ≤ k → k < i + count → pdeValue mem ppde k = 0) →
      allocationsFrom mem ppde i count = 0 := by
  induction count with
  | zero =>
      intro i none
      rfl
  | succ count ih =>
      intro i none
      rw [allocationsFrom_succ, none i (Nat.le_refl i) (by omega),
        ih (i + 1) (fun k lower upper => none k (by omega) (by omega))]
      rfl

/-- The page the call after `count` calls of `alloc_pages(1)` returns. -/
def nthPage (pages : BitMap) (count : Nat) : Nat := (allocPages (afterAllocs pages count) 1).1

/-- The bytes of entry `i` of page `n`. -/
def EntryAt (n i x : Nat) : Prop := n * pageSize + 4 * i ≤ x ∧ x < n * pageSize + 4 * i + 4

theorem EntryAt.entriesFrom {n i x : Nat} (inside : EntryAt n i x) (small : i < 1024) :
    EntriesFrom n i x := by
  unfold EntryAt EntriesFrom pageSize at *
  omega

/-- The parent's directory as the loop needs it: its pages taken before, the child's apart. -/
structure DirectorySource (pages : Nat → Prop) (s : PhysicalMemory) (ppde c : Nat) : Prop where
  used : ∀ p, pages p → s.Used p
  apart : ¬ pages c
  child : s.Used c
  space : AddressSpace pages s.mem ppde

variable {pages own : Nat → Prop} {s after : PhysicalMemory} {ppde c t i : Nat}

theorem DirectorySource.bytes (source : DirectorySource pages s ppde c)
    (grows : Grows own s after) (inChild : ∀ x, own x → x / pageSize = c) :
    ∀ x, pages (x / pageSize) → after.mem x = s.mem x := by
  intro x member
  apply grows.byte (source.used _ member)
  intro inside
  rw [inChild x inside] at member
  exact source.apart member

theorem DirectorySource.grow (source : DirectorySource pages s ppde c)
    (grows : Grows own s after) (inChild : ∀ x, own x → x / pageSize = c) :
    DirectorySource pages after ppde c :=
  ⟨fun p member => grows.kept p (source.used p member), source.apart, grows.kept c source.child,
    source.space.congr (source.bytes grows inChild)⟩

theorem entriesFrom_inChild (x : Nat) (inside : EntriesFrom c i x) : x / pageSize = c := inside.page

/-! ### One table -/

/-- Entry `k` of the child's directory `c`: the table `t`, filled from the parent's. -/
structure ChildTable (s after : PhysicalMemory) (ppde c k t : Nat) : Prop where
  fresh : ¬ s.Used t
  taken : after.Used t
  entry : pdeValue after.mem (c * pageSize) k = t * pageSize + 551
  copied : ∀ j, j < 1024 → present (pteValue s.mem ppde k j) = true →
    FreshCopy s after (after.mem.word (t * pageSize + 4 * j)) (pteValue s.mem ppde k j)
  skipped : ∀ j, j < 1024 → ¬ present (pteValue s.mem ppde k j) = true →
    after.mem.word (t * pageSize + 4 * j) = s.mem.word (t * pageSize + 4 * j)
  distinct : ∀ j l, j < l → l < 1024 → present (pteValue s.mem ppde k j) = true →
    present (pteValue s.mem ppde k l) = true →
    after.mem.word (t * pageSize + 4 * j) / pageSize ≠ after.mem.word (t * pageSize + 4 * l) / pageSize

theorem ChildTable.pteValue {k : Nat} (table : ChildTable s after ppde c k t) (j : Nat) :
    pteValue after.mem (c * pageSize) k j = after.mem.word (t * pageSize + 4 * j) := by
  unfold MangoOS.pteValue
  rw [table.entry, alignDown_eq, entry_page]

/-- The state in which the loop over the table starts: the entry is made. -/
def entered (s : PhysicalMemory) (c i t : Nat) : PhysicalMemory :=
  s.allocPage.2.setMem (s.mem.setWord (c * pageSize + 4 * i) (t * pageSize ||| pageShared))

theorem copyTable_eq (s : PhysicalMemory) (ppde c i t : Nat) :
    copyTable s.allocPage.2 ppde (c * pageSize) i (t * pageSize) =
      copyTableLoop (entered s c i t) (alignDown (pdeValue (entered s c i t).mem ppde i))
        (t * pageSize) 0 1024 := rfl

theorem entered_mem (s : PhysicalMemory) (c i t : Nat) {x : Nat} (outside : ¬ EntryAt c i x) :
    (entered s c i t).mem x = s.mem x := by
  unfold EntryAt at outside
  exact ByteMemory.setWord_other s.mem _ (by omega)

theorem entered_grows (took : s.Took t) (c i : Nat) : Grows (EntryAt c i) s (entered s c i t) := by
  have taken := Grows.took (EntryAt c i) took
  refine taken.trans (Grows.write s.allocPage.2 ?_)
  intro x changed
  by_contra outside
  exact changed (entered_mem s c i t outside)

theorem entered_entry (took : s.Took t) (c i : Nat) :
    pdeValue (entered s c i t).mem (c * pageSize) i = t * pageSize + 551 := by
  unfold pdeValue entered
  rw [setMem_mem, ByteMemory.word_setWord, entry_eq, Nat.mod_eq_of_lt (entry_lt took.small)]

theorem copyTable_grows (took : s.Took t) (booted : s.pages.Booted) (c i : Nat) (ppde : Nat) :
    Grows (EntryAt c i) s (copyTable s.allocPage.2 ppde (c * pageSize) i (t * pageSize)).2 := by
  rw [copyTable_eq]
  have first := entered_grows took c i
  have loop := copyTableLoop_grows (t := t) (alignDown (pdeValue (entered s c i t).mem ppde i)) 1024
    (entered s c i t) 0 (first.booted booted) (by omega)
  generalize (copyTableLoop (entered s c i t) (alignDown (pdeValue (entered s c i t).mem ppde i))
    (t * pageSize) 0 1024).2 = out at *
  -- the page of the table was free in `s`
  have both : Grows (fun x => EntryAt c i x ∨ EntriesFrom t 0 x) s out := by
    refine (first.weaken (fun x inside => Or.inl (Or.inl inside))).trans
      (loop.weaken (fun x inside => Or.inl (Or.inr inside)))
  apply both.weaken
  rintro x (inside | inTable)
  · exact Or.inl inside
  · rw [inTable.page]
    exact Or.inr ⟨took.fresh, loop.kept t took.took⟩

theorem entryAt_inChild (small : i < 1024) (x : Nat) (inside : EntryAt c i x) : x / pageSize = c :=
  (inside.entriesFrom small).page

/-- The parent is read in the entered state as before. -/
theorem entered_pde (source : DirectorySource pages s ppde c) (took : s.Took t)
    (isUser : UserIndex i) :
    pdeValue (entered s c i t).mem ppde i = pdeValue s.mem ppde i :=
  source.space.pde_congr (source.bytes (entered_grows took c i) (entryAt_inChild isUser.2)) isUser.2

theorem entered_words (source : DirectorySource pages s ppde c) (took : s.Took t)
    (isUser : UserIndex i) (isPresent : present (pdeValue s.mem ppde i) = true) (j : Nat)
    (small : j < 1024) :
    (entered s c i t).mem.word (pdeValue s.mem ppde i / pageSize * pageSize + 4 * j) =
      s.mem.word (pdeValue s.mem ppde i / pageSize * pageSize + 4 * j) := by
  have same := source.bytes (entered_grows took c i) (entryAt_inChild isUser.2)
  have entry := source.space.pte_congr same isUser small isPresent
  unfold pteValue at entry
  rw [entered_pde source took isUser, alignDown_eq] at entry
  exact entry

theorem pteValue_eq (mem : ByteMemory) (pde i j : Nat) :
    pteValue mem pde i j = mem.word (pdeValue mem pde i / pageSize * pageSize + 4 * j) := by
  unfold pteValue
  rw [alignDown_eq]

theorem entered_source (source : DirectorySource pages s ppde c) (took : s.Took t)
    (isUser : UserIndex i) (isPresent : present (pdeValue s.mem ppde i) = true) :
    TableSource pages (entered s c i t) (pdeValue s.mem ppde i / pageSize) t := by
  have now := source.grow (entered_grows took c i) (entryAt_inChild isUser.2)
  constructor
  · exact now.used
  · exact fun member => took.fresh (source.used t member)
  · exact took.took
  · exact source.space.tables i isUser isPresent
  · intro k small isEntry
    rw [entered_words source took isUser isPresent k small, ← pteValue_eq] at isEntry ⊢
    exact source.space.frames i k isUser small isPresent isEntry

theorem copyTable_made (source : DirectorySource pages s ppde c) (took : s.Took t)
    (booted : s.pages.Booted) (isUser : UserIndex i)
    (isPresent : present (pdeValue s.mem ppde i) = true)
    (done : (copyTable s.allocPage.2 ppde (c * pageSize) i (t * pageSize)).1 = true) :
    ChildTable s (copyTable s.allocPage.2 ppde (c * pageSize) i (t * pageSize)).2 ppde c i t ∧
      (copyTable s.allocPage.2 ppde (c * pageSize) i (t * pageSize)).2.pages =
        afterAllocs s.pages (1 + presentCount s.mem (alignDown (pdeValue s.mem ppde i)) 0 1024) := by
  have inChild := entryAt_inChild (c := c) isUser.2
  have first := entered_grows took c i
  have entry := entered_entry took c i
  have calls : (entered s c i t).pages = (allocPages s.pages 1).2 := rfl
  have child : c ≠ t := fun same => took.fresh (same ▸ source.child)
  have words := entered_words source took (c := c) isUser isPresent
  have table := entered_source source took isUser isPresent
  have written := fun x => entered_mem s c i t (x := x)
  have directory := entered_pde source took isUser
  rw [copyTable_eq, directory, alignDown_eq] at done ⊢
  generalize entered s c i t = mid at *
  have booted := first.booted booted
  have loop := copyTableLoop_grows (t := t) (pdeValue s.mem ppde i / pageSize * pageSize) 1024 mid 0
    booted (by omega)
  have copied := copyTableLoop_copied 1024 mid 0 booted (by omega) table done
  generalize (copyTableLoop mid (pdeValue s.mem ppde i / pageSize * pageSize) (t * pageSize) 0
    1024).2 = out at *
  refine ⟨⟨took.fresh, loop.kept t table.child, ?_, ?_, ?_, ?_⟩, ?_⟩
  · rw [← entry]
    apply loop.word (entry_aligned c i)
    · rw [entry_inPage c isUser.2]
      exact first.kept c source.child
    · intro x lower upper inTable
      have inPage := inChild x (show EntryAt c i x from ⟨lower, upper⟩)
      rw [inTable.page] at inPage
      exact child inPage.symm
  · intro j small isEntry
    have member := (source.space.frames i j isUser small isPresent isEntry).1
    rw [pteValue_eq, ← words j small] at isEntry member ⊢
    refine (copied.copied j (by omega) (by omega) isEntry).rebase first (source.used _ member) ?_
    intro x inside inFrame
    rw [inChild x inside] at inFrame
    exact source.apart (inFrame ▸ member)
  · intro j small isEntry
    rw [pteValue_eq, ← words j small] at isEntry
    rw [copied.skipped j (by omega) (by omega) isEntry]
    apply ByteMemory.word_congr
    intro x lower upper
    apply written
    intro inside
    have inPage := inChild x inside
    unfold pageSize at *
    omega
  · intro j l less small jEntry lEntry
    rw [pteValue_eq, ← words j (by omega)] at jEntry
    rw [pteValue_eq, ← words l small] at lEntry
    exact copied.distinct j l (by omega) less (by omega) jEntry lEntry
  · rw [copied.calls, calls, Nat.add_comm 1, afterAllocs_succ,
      presentCount_congr 1024 0 (fun k _ upper => words k (by omega))]

theorem copyTable_done (source : DirectorySource pages s ppde c) (took : s.Took t)
    (booted : s.pages.Booted) (isUser : UserIndex i)
    (isPresent : present (pdeValue s.mem ppde i) = true) :
    (copyTable s.allocPage.2 ppde (c * pageSize) i (t * pageSize)).1 = true ↔
      Supplied (allocPages s.pages 1).2
        (presentCount s.mem (alignDown (pdeValue s.mem ppde i)) 0 1024) := by
  have first := entered_grows took c i
  have table := entered_source source took isUser isPresent
  have words := entered_words source took (c := c) isUser isPresent
  have calls : (entered s c i t).pages = (allocPages s.pages 1).2 := rfl
  rw [copyTable_eq, entered_pde source took isUser, alignDown_eq,
    copyTableLoop_done 1024 (entered s c i t) 0 (first.booted booted) (by omega) table, calls,
    presentCount_congr 1024 0 (fun k _ upper => words k (by omega))]

/-! ### The directory -/

/-- The table made for entry `k` from the state `s` on. -/
structure TableAt (s after : PhysicalMemory) (ppde c i k t : Nat) : Prop where
  page : nthPage s.pages (allocationsFrom s.mem ppde i (k - i)) = t * pageSize
  made : ChildTable s after ppde c k t

/-- What the loop over the entries `i, …, i + count - 1` did when it ran to its end. -/
structure DirectoryCopied (s after : PhysicalMemory) (ppde c i count : Nat) : Prop where
  tables : ∀ k, i ≤ k → k < i + count → present (pdeValue s.mem ppde k) = true →
    ∃ t, TableAt s after ppde c i k t
  skipped : ∀ k, i ≤ k → k < i + count → ¬ present (pdeValue s.mem ppde k) = true →
    pdeValue after.mem (c * pageSize) k = pdeValue s.mem (c * pageSize) k
  distinct : ∀ k m j l, i ≤ k → k < m → m < i + count → j < 1024 → l < 1024 →
    present (pdeValue s.mem ppde k) = true → present (pteValue s.mem ppde k j) = true →
    present (pdeValue s.mem ppde m) = true → present (pteValue s.mem ppde m l) = true →
    pteValue after.mem (c * pageSize) k j / pageSize ≠
      pteValue after.mem (c * pageSize) m l / pageSize

theorem copyMemoryLoop_skip (s : PhysicalMemory) (ppde pde i count : Nat)
    (absent : ¬ present (pdeValue s.mem ppde i) = true) :
    copyMemoryLoop s ppde pde i (count + 1) = copyMemoryLoop s ppde pde (i + 1) count :=
  if_neg absent

theorem copyMemoryLoop_full (s : PhysicalMemory) (ppde pde i count : Nat)
    (isPresent : present (pdeValue s.mem ppde i) = true) (full : s.allocPage.1 = 0) :
    copyMemoryLoop s ppde pde i (count + 1) = (false, s.allocPage.2) := by
  change (if present (pdeValue s.mem ppde i) then _ else _) = _
  rw [if_pos isPresent]
  exact if_pos full

theorem copyMemoryLoop_table (s : PhysicalMemory) (ppde pde i count : Nat)
    (isPresent : present (pdeValue s.mem ppde i) = true) (took : s.Took t) :
    copyMemoryLoop s ppde pde i (count + 1) =
      if (copyTable s.allocPage.2 ppde pde i (t * pageSize)).1 then
        copyMemoryLoop (copyTable s.allocPage.2 ppde pde i (t * pageSize)).2 ppde pde (i + 1) count
      else (false, (copyTable s.allocPage.2 ppde pde i (t * pageSize)).2) := by
  change (if present (pdeValue s.mem ppde i) then _ else _) = _
  rw [if_pos isPresent]
  change (if s.allocPage.1 = 0 then _ else _) = _
  rw [if_neg took.addr_ne, took.addr]

/-- Whether or not it ends early, copy_memory takes free pages and writes the directory. -/
theorem copyMemoryLoop_grows (c ppde count : Nat) :
    ∀ s i, s.pages.Booted → i + count ≤ 1024 →
      Grows (EntriesFrom c i) s (copyMemoryLoop s ppde (c * pageSize) i count).2 := by
  induction count with
  | zero =>
      intro s i booted inDirectory
      exact Grows.refl _ s
  | succ count ih =>
      intro s i booted inDirectory
      have rest : ∀ now : PhysicalMemory, now.pages.Booted →
          Grows (EntriesFrom c i) now
            (copyMemoryLoop now ppde (c * pageSize) (i + 1) count).2 := by
        intro now nowBooted
        refine (ih now (i + 1) nowBooted (by omega)).weaken ?_
        intro x inside
        exact Or.inl (inside.earlier (by omega))
      by_cases isPresent : present (pdeValue s.mem ppde i) = true
      · rcases allocPage_cases booted with ⟨full, same⟩ | ⟨t, took⟩
        · rw [copyMemoryLoop_full s ppde _ i count isPresent full, same]
          exact Grows.refl _ s
        · rw [copyMemoryLoop_table s ppde _ i count isPresent took]
          have step : Grows (EntriesFrom c i) s
              (copyTable s.allocPage.2 ppde (c * pageSize) i (t * pageSize)).2 := by
            refine (copyTable_grows took booted c i ppde).weaken ?_
            intro x inside
            exact Or.inl (inside.entriesFrom (by omega))
          split
          · exact step.trans (rest _ (step.booted booted))
          · exact step
      · rw [copyMemoryLoop_skip s ppde _ i count isPresent]
        exact rest s booted

theorem ChildTable.rebase {first : PhysicalMemory} {k : Nat} (table : ChildTable s after ppde c k t)
    (source : DirectorySource pages first ppde c) (grows : Grows own first s)
    (inChild : ∀ x, own x → x / pageSize = c) (isUser : UserIndex k)
    (isPresent : present (pdeValue first.mem ppde k) = true) :
    ChildTable first after ppde c k t := by
  have same := source.bytes grows inChild
  have ptes : ∀ j, j < 1024 → MangoOS.pteValue s.mem ppde k j = MangoOS.pteValue first.mem ppde k j :=
    fun j small => source.space.pte_congr same isUser small isPresent
  have child : t ≠ c := fun same => table.fresh (same ▸ grows.kept c source.child)
  refine ⟨fun used => table.fresh (grows.kept t used), table.taken, table.entry, ?_, ?_, ?_⟩
  · intro j small isEntry
    have copy := table.copied j small (by rw [ptes j small]; exact isEntry)
    rw [ptes j small] at copy
    have member := (source.space.frames k j isUser small isPresent isEntry).1
    refine copy.rebase grows (source.used _ member) ?_
    intro x inside inFrame
    rw [inChild x inside] at inFrame
    exact source.apart (inFrame ▸ member)
  · intro j small isEntry
    rw [table.skipped j small (by rw [ptes j small]; exact isEntry)]
    apply grows.free_word (entry_aligned t j)
    · rw [entry_inPage t small]
      exact table.fresh
    · intro x lower upper inside
      have inPage := inChild x inside
      unfold pageSize at *
      omega
  · intro j l less small jEntry lEntry
    rw [← ptes j (by omega)] at jEntry
    rw [← ptes l small] at lEntry
    exact table.distinct j l less small jEntry lEntry

/-- The entries of a finished table do not change while the directory is filled. -/
theorem ChildTable.settled {middle : PhysicalMemory} {k : Nat}
    (table : ChildTable s middle ppde c k t) (grows : Grows (EntriesFrom c i) middle after)
    (childUsed : s.Used c) {j : Nat} (inTable : j < 1024) :
    after.mem.word (t * pageSize + 4 * j) = middle.mem.word (t * pageSize + 4 * j) := by
  have child : t ≠ c := fun same => table.fresh (same ▸ childUsed)
  apply grows.word (entry_aligned t j)
  · rw [entry_inPage t inTable]
    exact table.taken
  · intro x lower upper inside
    have inPage := inside.page
    unfold pageSize at *
    omega

theorem ChildTable.persist {middle : PhysicalMemory} {k : Nat}
    (table : ChildTable s middle ppde c k t) (grows : Grows (EntriesFrom c i) middle after)
    (childUsed : s.Used c) (before : k < i) (small : k < 1024) (childTaken : middle.Used c) :
    ChildTable s after ppde c k t := by
  have entries := fun j (inTable : j < 1024) => table.settled grows childUsed inTable
  refine ⟨table.fresh, grows.kept t table.taken, ?_, ?_, ?_, ?_⟩
  · rw [← table.entry]
    exact grows.settled childTaken before small
  · intro j inTable isEntry
    rw [entries j inTable]
    exact (table.copied j inTable isEntry).persist grows (fun x inside => inside.page ▸ childUsed)
  · intro j inTable isEntry
    rw [entries j inTable]
    exact table.skipped j inTable isEntry
  · intro j l less inTable jEntry lEntry
    rw [entries j (by omega), entries l inTable]
    exact table.distinct j l less inTable jEntry lEntry

theorem nthPage_add (pages : BitMap) (first second : Nat) :
    nthPage pages (first + second) = nthPage (afterAllocs pages first) second := by
  unfold nthPage
  rw [afterAllocs_add]

theorem allocationsFrom_congr {mem other : ByteMemory} (space : AddressSpace pages mem ppde)
    (same : ∀ x, pages (x / pageSize) → other x = mem x) (count : Nat) :
    ∀ i, userStartIndex ≤ i → i + count ≤ 1024 →
      allocationsFrom other ppde i count = allocationsFrom mem ppde i count := by
  induction count with
  | zero =>
      intro i low inDirectory
      rfl
  | succ count ih =>
      intro i low inDirectory
      have isUser : UserIndex i := ⟨low, by omega⟩
      rw [allocationsFrom_succ, allocationsFrom_succ, ih (i + 1) (by omega) (by omega),
        space.pde_congr same isUser.2]
      by_cases isPresent : present (pdeValue mem ppde i) = true
      · rw [if_pos isPresent, if_pos isPresent, presentCount_congr 1024 0]
        intro k _ upper
        have entry := space.pte_congr same isUser (by omega : k < 1024) isPresent
        unfold pteValue at entry
        rw [space.pde_congr same isUser.2] at entry
        exact entry
      · rw [if_neg isPresent, if_neg isPresent]

/-- An absent entry costs nothing and is left as it is. -/
theorem DirectoryCopied.absent {count : Nat} (rest : DirectoryCopied s after ppde c (i + 1) count)
    (isAbsent : ¬ present (pdeValue s.mem ppde i) = true)
    (untouched : pdeValue after.mem (c * pageSize) i = pdeValue s.mem (c * pageSize) i) :
    DirectoryCopied s after ppde c i (count + 1) := by
  refine ⟨?_, ?_, ?_⟩
  · intro k lower upper kPresent
    by_cases first : k = i
    · subst first
      exact False.elim (isAbsent kPresent)
    · obtain ⟨t, ⟨page, made⟩⟩ := rest.tables k (by omega) (by omega) kPresent
      refine ⟨t, ?_, made⟩
      rw [← page, show k - i = k - (i + 1) + 1 by omega, allocationsFrom_succ, if_neg isAbsent,
        Nat.zero_add]
  · intro k lower upper kAbsent
    by_cases first : k = i
    · subst first
      exact untouched
    · exact rest.skipped k (by omega) (by omega) kAbsent
  · intro k m j l lower less upper jSmall lSmall kPresent
    by_cases first : k = i
    · subst first
      exact False.elim (isAbsent kPresent)
    · exact rest.distinct k m j l (by omega) less (by omega) jSmall lSmall kPresent

/-- A present entry: its table, made before `now`, and the rest of the loop from `now` on. -/
theorem DirectoryCopied.cons {count : Nat} {now : PhysicalMemory}
    (source : DirectorySource pages s ppde c) (isUser : UserIndex i)
    (inDirectory : i + (count + 1) ≤ 1024)
    (isPresent : present (pdeValue s.mem ppde i) = true) (addr : s.allocPage.1 = t * pageSize)
    (step : Grows (EntryAt c i) s now) (made : ChildTable s now ppde c i t)
    (calls : now.pages =
      afterAllocs s.pages (1 + presentCount s.mem (alignDown (pdeValue s.mem ppde i)) 0 1024))
    (grows : Grows (EntriesFrom c (i + 1)) now after)
    (rest : DirectoryCopied now after ppde c (i + 1) count) :
    DirectoryCopied s after ppde c i (count + 1) := by
  have inChild := entryAt_inChild (c := c) isUser.2
  have nowSource := source.grow step inChild
  have same := source.bytes step inChild
  have directory : ∀ k, k < 1024 → pdeValue now.mem ppde k = pdeValue s.mem ppde k :=
    fun k small => source.space.pde_congr same small
  have ptes : ∀ k j, UserIndex k → j < 1024 → present (pdeValue s.mem ppde k) = true →
      pteValue now.mem ppde k j = pteValue s.mem ppde k j :=
    fun k j kUser small kPresent => source.space.pte_congr same kUser small kPresent
  have head := made.persist grows source.child (Nat.lt_succ_self i) isUser.2 nowSource.child
  have below := isUser.1
  refine ⟨?_, ?_, ?_⟩
  · intro k lower upper kPresent
    by_cases first : k = i
    · subst first
      refine ⟨t, ?_, head⟩
      rw [Nat.sub_self]
      exact addr
    · have kUser : UserIndex k := ⟨by omega, by omega⟩
      obtain ⟨later, ⟨page, table⟩⟩ := rest.tables k (by omega) (by omega)
        (by rw [directory k kUser.2]; exact kPresent)
      refine ⟨later, ?_, table.rebase source step inChild kUser kPresent⟩
      rw [← page, show k - i = k - (i + 1) + 1 by omega, allocationsFrom_succ, if_pos isPresent,
        nthPage_add, ← calls,
        allocationsFrom_congr source.space same _ (i + 1) (by omega) (by omega)]
  · intro k lower upper kAbsent
    have first : k ≠ i := fun first => kAbsent (first ▸ isPresent)
    rw [rest.skipped k (by omega) (by omega) (by rw [directory k (by omega)]; exact kAbsent)]
    apply step.word (entry_aligned c k)
    · rw [entry_inPage c (by omega)]
      exact source.child
    · intro x kLower kUpper inside
      unfold EntryAt at inside
      omega
  · intro k m j l lower less upper jSmall lSmall kPresent jPresent mPresent lPresent
    have mUser : UserIndex m := ⟨by omega, by omega⟩
    rw [← ptes m l mUser lSmall mPresent] at lPresent
    rw [← directory m mUser.2] at mPresent
    by_cases first : k = i
    · subst first
      -- the frames of the first table are taken in `now`, those of later tables are not
      obtain ⟨later, ⟨_, table⟩⟩ := rest.tables m (by omega) (by omega) mPresent
      have fresh := (table.copied l lSmall lPresent).fresh
      rw [← table.pteValue l] at fresh
      have taken := (made.copied j jSmall jPresent).taken
      rw [← made.settled grows source.child jSmall, ← head.pteValue j] at taken
      intro equal
      rw [← equal] at fresh
      exact fresh taken
    · have kUser : UserIndex k := ⟨by omega, by omega⟩
      rw [← ptes k j kUser jSmall kPresent] at jPresent
      rw [← directory k kUser.2] at kPresent
      exact rest.distinct k m j l (by omega) less (by omega) jSmall lSmall kPresent jPresent
        mPresent lPresent

theorem copyMemoryLoop_copied (count : Nat) :
    ∀ s i, s.pages.Booted → userStartIndex ≤ i → i + count ≤ 1024 →
      DirectorySource pages s ppde c →
      (copyMemoryLoop s ppde (c * pageSize) i count).1 = true →
      DirectoryCopied s (copyMemoryLoop s ppde (c * pageSize) i count).2 ppde c i count := by
  induction count with
  | zero =>
      intro s i booted low inDirectory source done
      refine ⟨?_, ?_, ?_⟩ <;> intros <;> omega
  | succ count ih =>
      intro s i booted low inDirectory source done
      have isUser : UserIndex i := ⟨low, by omega⟩
      by_cases isPresent : present (pdeValue s.mem ppde i) = true
      · rcases allocPage_cases booted with ⟨full, same⟩ | ⟨t, took⟩
        · rw [copyMemoryLoop_full s ppde _ i count isPresent full] at done
          cases done
        · rw [copyMemoryLoop_table s ppde _ i count isPresent took] at done ⊢
          by_cases filled : (copyTable s.allocPage.2 ppde (c * pageSize) i (t * pageSize)).1 = true
          · rw [if_pos filled] at done ⊢
            have step := copyTable_grows took booted c i ppde
            obtain ⟨made, calls⟩ := copyTable_made source took booted isUser isPresent filled
            generalize (copyTable s.allocPage.2 ppde (c * pageSize) i (t * pageSize)).2 = now at *
            have nowSource := source.grow step (entryAt_inChild isUser.2)
            have nowBooted := step.booted booted
            have rest := ih now (i + 1) nowBooted (by omega) (by omega) nowSource done
            have grows := copyMemoryLoop_grows c ppde count now (i + 1) nowBooted (by omega)
            exact DirectoryCopied.cons source isUser inDirectory isPresent took.addr step made calls
              grows rest
          · rw [if_neg filled] at done
            cases done
      · rw [copyMemoryLoop_skip s ppde _ i count isPresent] at done ⊢
        have rest := ih s (i + 1) booted (by omega) (by omega) source done
        have grows := copyMemoryLoop_grows c ppde count s (i + 1) booted (by omega)
        exact rest.absent isPresent (grows.settled source.child (Nat.lt_succ_self i) isUser.2)

/-- copy_memory succeeds exactly when every page it asks for is found. -/
theorem copyMemoryLoop_done (count : Nat) :
    ∀ s i, s.pages.Booted → userStartIndex ≤ i → i + count ≤ 1024 →
      DirectorySource pages s ppde c →
      ((copyMemoryLoop s ppde (c * pageSize) i count).1 = true ↔
        Supplied s.pages (allocationsFrom s.mem ppde i count)) := by
  induction count with
  | zero =>
      intro s i booted low inDirectory source
      exact ⟨fun _ => trivial, fun _ => rfl⟩
  | succ count ih =>
      intro s i booted low inDirectory source
      have isUser : UserIndex i := ⟨low, by omega⟩
      rw [allocationsFrom_succ]
      by_cases isPresent : present (pdeValue s.mem ppde i) = true
      · rw [if_pos isPresent, Nat.add_assoc, Nat.add_comm 1, supplied_succ, supplied_add]
        rcases allocPage_cases booted with ⟨full, same⟩ | ⟨t, took⟩
        · rw [copyMemoryLoop_full s ppde _ i count isPresent full]
          constructor
          · intro done
            cases done
          · rintro ⟨found, _⟩
            exact False.elim (found full)
        · have found : (allocPages s.pages 1).1 ≠ 0 := took.addr_ne
          have table := copyTable_done source took booted isUser isPresent
          rw [copyMemoryLoop_table s ppde _ i count isPresent took, and_iff_right found, ← table]
          by_cases filled : (copyTable s.allocPage.2 ppde (c * pageSize) i (t * pageSize)).1 = true
          · rw [if_pos filled, and_iff_right filled]
            have inChild := entryAt_inChild (c := c) isUser.2
            have step := copyTable_grows took booted c i ppde
            obtain ⟨_, calls⟩ := copyTable_made source took booted isUser isPresent filled
            generalize (copyTable s.allocPage.2 ppde (c * pageSize) i (t * pageSize)).2 = now at *
            rw [ih now (i + 1) (step.booted booted) (by omega) (by omega) (source.grow step inChild),
              calls, Nat.add_comm 1, afterAllocs_succ,
              allocationsFrom_congr source.space (source.bytes step inChild) count (i + 1) (by omega)
                (by omega)]
          · rw [if_neg filled]
            constructor
            · intro done
              cases done
            · rintro ⟨isFilled, _⟩
              exact False.elim (filled isFilled)
      · rw [copyMemoryLoop_skip s ppde _ i count isPresent, if_neg isPresent, Nat.zero_add]
        exact ih s (i + 1) booted (by omega) (by omega) source

end MangoOS
