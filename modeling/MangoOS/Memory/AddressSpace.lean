/-
Building and copying page directories: create_pde (mm/page.c), copy_memory and
distory_memory (kernel/task.c).
-/

import MangoOS.Memory.PhysicalMemory

namespace MangoOS

open PhysicalMemory

/-- `PAGE_SHARED`: present, writable, user, accessed and the copy-on-write mark. -/
def pageShared : Nat := 1 ||| 2 ||| 4 ||| 32 ||| 512

def kernelPageDir : Nat := 2097152

/-- `pde_index(USER_MEMORY_BEGIN)`. -/
def userStartIndex : Nat := pdeIndex userMemoryBegin

def createPdeLoop (mem : ByteMemory) (pde i : Nat) : (count : Nat) → ByteMemory
  | 0 => mem
  | count + 1 =>
      let value := if i < userStartIndex then pdeValue mem kernelPageDir i else 0
      createPdeLoop (mem.setWord (pde + 4 * i) value) pde (i + 1) count

/-- Clear the page of the directory and enter the kernel half. -/
def fillPde (mem : ByteMemory) (pde : Nat) : ByteMemory :=
  createPdeLoop (kmemset mem pde 0 pageSize) pde 0 1024

def createPde (s : PhysicalMemory) : Nat × PhysicalMemory :=
  let pde := s.allocPage.1
  if pde = 0 then (0, s.allocPage.2)
  else (pde, s.allocPage.2.setMem (fillPde s.mem pde))

/-- The inner loop of `distory_memory`, which counts with the outer `i`. -/
def distoryTableLoop (s : PhysicalMemory) (pte i : Nat) : (count : Nat) → PhysicalMemory
  | 0 => s
  | count + 1 =>
      let value := s.mem.word (pte + 4 * i)
      if present value ∧ value ≠ 0 then distoryTableLoop (s.freePage value) pte (i + 1) count
      else distoryTableLoop s pte (i + 1) count

def distoryMemoryLoop (s : PhysicalMemory) (pde i : Nat) : (count : Nat) → PhysicalMemory
  | 0 => s
  | count + 1 =>
      if present (pdeValue s.mem pde i) then
        -- the table pointer keeps the flag bits, and the inner loop leaves `i` at its end
        distoryTableLoop s (pdeValue s.mem pde i) i (count + 1)
      else distoryMemoryLoop s pde (i + 1) count

def distoryMemory (s : PhysicalMemory) (pde : Nat) : PhysicalMemory :=
  distoryMemoryLoop s pde userStartIndex (1024 - userStartIndex)

/-- Map the new page `pg` at entry `j` and copy the parent's page into it. -/
def copyPage (s : PhysicalMemory) (ppte pte j pg : Nat) : PhysicalMemory :=
  let mem := s.mem.setWord (pte + 4 * j) (pg ||| pageShared)
  s.setMem (kmemcpy mem pg (alignDown (mem.word (ppte + 4 * j))) pageSize)

/-- The loop over one table; `false` when a page could not be had. -/
def copyTableLoop (s : PhysicalMemory) (ppte pte j : Nat) : (count : Nat) → Bool × PhysicalMemory
  | 0 => (true, s)
  | count + 1 =>
      if present (s.mem.word (ppte + 4 * j)) then
        let pg := s.allocPage.1
        if pg = 0 then (false, s.allocPage.2)
        else copyTableLoop (copyPage s.allocPage.2 ppte pte j pg) ppte pte (j + 1) count
      else copyTableLoop s ppte pte (j + 1) count

/-- Enter the new table `page` at `i` and copy the parent's table into it. -/
def copyTable (s : PhysicalMemory) (ppde pde i page : Nat) : Bool × PhysicalMemory :=
  let s := s.setMem (s.mem.setWord (pde + 4 * i) (page ||| pageShared))
  copyTableLoop s (alignDown (pdeValue s.mem ppde i)) page 0 1024

def copyMemoryLoop (s : PhysicalMemory) (ppde pde i : Nat) : (count : Nat) → Bool × PhysicalMemory
  | 0 => (true, s)
  | count + 1 =>
      if present (pdeValue s.mem ppde i) then
        let page := s.allocPage.1
        if page = 0 then (false, s.allocPage.2)
        else
          let copied := copyTable s.allocPage.2 ppde pde i page
          if copied.1 then copyMemoryLoop copied.2 ppde pde (i + 1) count
          else (false, copied.2)
      else copyMemoryLoop s ppde pde (i + 1) count

/-- `ppde` is `current->cr3`. -/
def copyMemory (s : PhysicalMemory) (ppde pde : Nat) : Int × PhysicalMemory :=
  let copied := copyMemoryLoop s ppde pde userStartIndex (1024 - userStartIndex)
  if copied.1 then (0, copied.2) else (-1, distoryMemory copied.2 pde)

/-! ### Entries -/

theorem alignDown_eq (value : Nat) : alignDown value = value / pageSize * pageSize := by
  unfold alignDown pageSize
  omega

theorem entry_eq (f : Nat) : (f * pageSize ||| pageShared) = f * pageSize + 551 := by
  have flags : pageShared < 2 ^ 12 := by decide
  have split := Nat.two_pow_add_eq_or_of_lt flags f
  rw [Nat.mul_comm f pageSize]
  exact split.symm

theorem present_entry (f : Nat) : present (f * pageSize + 551) = true := by
  unfold present pageSize
  rw [beq_iff_eq]
  omega

theorem entry_page (f : Nat) : (f * pageSize + 551) / pageSize = f := by
  unfold pageSize
  omega

theorem entry_lt {f : Nat} (small : f < 1048576) : f * pageSize + 551 < 4294967296 := by
  unfold pageSize
  omega

theorem userStartIndex_eq : userStartIndex = 256 := rfl

/-- The entries of the user half of a directory. -/
def UserIndex (i : Nat) : Prop := userStartIndex ≤ i ∧ i < 1024

theorem pdeIndex_user {vaddr : Nat} (low : userMemoryBegin ≤ vaddr) (high : vaddr < 4294967296) :
    UserIndex (pdeIndex vaddr) := by
  unfold userMemoryBegin at low
  unfold UserIndex pdeIndex
  rw [userStartIndex_eq]
  omega

theorem pteIndex_lt (vaddr : Nat) : pteIndex vaddr < 1024 := Nat.mod_lt _ (by decide)

/-! ### The parent's pages -/

/-- The pages a directory stands on are among `pages`: itself, its tables and frames. -/
structure AddressSpace (pages : Nat → Prop) (mem : ByteMemory) (ppde : Nat) : Prop where
  aligned : pageSize ∣ ppde
  directory : pages (ppde / pageSize)
  tables : ∀ i, UserIndex i → present (pdeValue mem ppde i) = true →
    pages (pdeValue mem ppde i / pageSize)
  frames : ∀ i j, UserIndex i → j < 1024 → present (pdeValue mem ppde i) = true →
    present (pteValue mem ppde i j) = true →
    pages (pteValue mem ppde i j / pageSize) ∧ pteValue mem ppde i j / pageSize ≠ 0

variable {pages : Nat → Prop} {mem other : ByteMemory} {ppde : Nat}

theorem AddressSpace.pde_congr (space : AddressSpace pages mem ppde)
    (same : ∀ x, pages (x / pageSize) → other x = mem x) {i : Nat} (small : i < 1024) :
    pdeValue other ppde i = pdeValue mem ppde i := by
  obtain ⟨n, isPage⟩ := space.aligned
  apply ByteMemory.word_congr
  intro x lower upper
  apply same
  have samePage : x / pageSize = ppde / pageSize := by
    unfold pageSize at *
    omega
  rw [samePage]
  exact space.directory

theorem AddressSpace.pte_congr (space : AddressSpace pages mem ppde)
    (same : ∀ x, pages (x / pageSize) → other x = mem x) {i j : Nat} (isUser : UserIndex i)
    (small : j < 1024) (isPresent : present (pdeValue mem ppde i) = true) :
    pteValue other ppde i j = pteValue mem ppde i j := by
  unfold pteValue
  rw [space.pde_congr same isUser.2, alignDown_eq]
  apply ByteMemory.word_congr
  intro x lower upper
  apply same
  have samePage : x / pageSize = pdeValue mem ppde i / pageSize := by
    unfold pageSize at *
    omega
  rw [samePage]
  exact space.tables i isUser isPresent

/-- An address space is read alike from memories that agree on its pages. -/
theorem AddressSpace.congr (space : AddressSpace pages mem ppde)
    (same : ∀ x, pages (x / pageSize) → other x = mem x) : AddressSpace pages other ppde := by
  constructor
  · exact space.aligned
  · exact space.directory
  · intro i isUser isPresent
    rw [space.pde_congr same isUser.2] at isPresent ⊢
    exact space.tables i isUser isPresent
  · intro i j isUser small directory table
    rw [space.pde_congr same isUser.2] at directory
    rw [space.pte_congr same isUser small directory] at table ⊢
    exact space.frames i j isUser small directory table

/-! ### A new directory -/

theorem createPdeLoop_outside (pde count : Nat) {x : Nat} :
    ∀ mem i, (x < pde + 4 * i ∨ pde + 4 * (i + count) ≤ x) →
      createPdeLoop mem pde i count x = mem x := by
  induction count with
  | zero =>
      intro mem i outside
      rfl
  | succ count ih =>
      intro mem i outside
      change createPdeLoop (mem.setWord (pde + 4 * i) _) pde (i + 1) count x = mem x
      rw [ih _ (i + 1) (by omega)]
      exact ByteMemory.setWord_other _ _ (by omega)

theorem createPdeLoop_user (pde count : Nat) {k : Nat} (isUser : UserIndex k) :
    ∀ mem i, i ≤ k → k < i + count → pdeValue (createPdeLoop mem pde i count) pde k = 0 := by
  induction count with
  | zero =>
      intro mem i lower upper
      omega
  | succ count ih =>
      intro mem i lower upper
      change pdeValue (createPdeLoop (mem.setWord (pde + 4 * i) _) pde (i + 1) count) pde k = 0
      by_cases first : k = i
      · subst first
        have kept : pdeValue (createPdeLoop (mem.setWord (pde + 4 * k)
            (if k < userStartIndex then pdeValue mem kernelPageDir k else 0)) pde (k + 1) count)
            pde k = (mem.setWord (pde + 4 * k)
            (if k < userStartIndex then pdeValue mem kernelPageDir k else 0)).word (pde + 4 * k) := by
          apply ByteMemory.word_congr
          intro x xLower xUpper
          exact createPdeLoop_outside pde count _ (k + 1) (by omega)
        rw [kept, ByteMemory.word_setWord, if_neg (Nat.not_lt.mpr isUser.1)]
      · exact ih _ (i + 1) (by omega) (by omega)

theorem fillPde_outside (mem : ByteMemory) {c x : Nat} (outside : x / pageSize ≠ c) :
    fillPde mem (c * pageSize) x = mem x := by
  unfold fillPde
  rw [createPdeLoop_outside, kmemset_outside]
  · rw [Int.toNat_natCast]
    unfold pageSize at *
    omega
  · unfold pageSize at *
    omega

theorem fillPde_user (mem : ByteMemory) (pde : Nat) {i : Nat} (isUser : UserIndex i) :
    pdeValue (fillPde mem pde) pde i = 0 := by
  have high := isUser.2
  exact createPdeLoop_user pde 1024 isUser _ 0 (Nat.zero_le i) (by omega)

/-- What a create_pde that found the page `c` did. -/
structure MadeDirectory (s : PhysicalMemory) (c : Nat) : Prop where
  took : s.Took c
  addr : (createPde s).1 = c * pageSize
  pages : (createPde s).2.pages = s.allocPage.2.pages
  grows : Grows (fun _ => False) s (createPde s).2
  empty : ∀ i, UserIndex i → pdeValue (createPde s).2.mem (c * pageSize) i = 0

theorem createPde_full {s : PhysicalMemory} (full : s.allocPage.1 = 0) :
    createPde s = (0, s.allocPage.2) := if_pos full

theorem createPde_took {s : PhysicalMemory} {c : Nat} (took : s.Took c) :
    createPde s = (c * pageSize, s.allocPage.2.setMem (fillPde s.mem (c * pageSize))) := by
  rw [← took.addr]
  exact if_neg took.addr_ne

theorem createPde_cases {s : PhysicalMemory} (booted : s.pages.Booted) :
    createPde s = (0, s) ∨ ∃ c, MadeDirectory s c := by
  rcases allocPage_cases booted with ⟨full, same⟩ | ⟨c, took⟩
  · left
    rw [createPde_full full, same]
  · right
    have result := createPde_took took
    have grows := Grows.fill (fun _ => False) took (by
      intro x changed
      by_contra outside
      exact changed (fillPde_outside s.mem outside))
    have empty := fun i => fillPde_user s.mem (c * pageSize) (i := i)
    generalize fillPde s.mem (c * pageSize) = mem at *
    refine ⟨c, took, ?_, ?_, ?_, ?_⟩
    · rw [result]
    · rw [result]
      rfl
    · rw [result]
      exact grows
    · rw [result]
      exact empty

theorem createPde_made {s : PhysicalMemory} (booted : s.pages.Booted) (found : s.allocPage.1 ≠ 0) :
    ∃ c, MadeDirectory s c := by
  rcases createPde_cases booted with failed | made
  · rcases allocPage_cases booted with ⟨full, _⟩ | ⟨c, took⟩
    · exact False.elim (found full)
    · rw [createPde_took took, ← took.addr] at failed
      exact False.elim (found (congrArg Prod.fst failed))
  · exact made

theorem MadeDirectory.addr_ne {s : PhysicalMemory} {c : Nat} (made : MadeDirectory s c) :
    (createPde s).1 ≠ 0 := by
  rw [made.addr, ← made.took.addr]
  exact made.took.addr_ne

end MangoOS
