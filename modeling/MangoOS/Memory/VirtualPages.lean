/-
alloc_vpages and free_vpages (mm/page.c).

The addresses of the words that alloc_vpages writes are listed beside the memory.
`invalidate` flushes the translation cache, which is not modelled.
-/

import MangoOS.Memory.CopyMemory
import MangoOS.Memory.UserCopy

namespace MangoOS

open PhysicalMemory

/-- The `dirty` bit of a table entry. -/
def dirty (value : Nat) : Bool := value / 64 % 2 == 1

/-- `(size + PAGE_SIZE - 1) / PAGE_SIZE` -/
def vpagesCount (size : Nat) : Nat := (size + 4095) % 4294967296 / 4096

/-- What a call leaves: its answer, the memory, and the words it wrote. -/
structure Vpages where
  answer : Int
  state : PhysicalMemory
  written : List Nat

/-- The `do … while (--count)` of alloc_vpages; `rounds` is how often the body can run. -/
def allocVpagesLoop (s : PhysicalMemory) (pte : Nat) : (rounds : Nat) → Vpages
  | 0 => ⟨0, s, []⟩
  | rounds + 1 =>
      let pg := s.allocPage.1
      if pg = 0 then ⟨-enomem, s.allocPage.2, []⟩
      else
        let s := s.allocPage.2.setMem (s.mem.setWord pte (pg ||| pageShared))
        let rest := allocVpagesLoop s ((pte + 4) % 4294967296) rounds
        { rest with written := pte :: rest.written }

/-- `--count` wraps a count of 0 all the way round. -/
def vpagesRounds (count : Nat) : Nat := if count = 0 then 4294967296 else count

/-- The part of alloc_vpages behind the directory entry, which points at the table `page`. -/
def allocVpagesTable (s : PhysicalMemory) (page index size : Nat) : Vpages :=
  let pte := alignDown page + 4 * index
  if present (s.mem.word pte) ∧ ¬ dirty (s.mem.word pte) then ⟨0, s, []⟩
  else allocVpagesLoop s pte (vpagesRounds (vpagesCount size))

def allocVpages (s : PhysicalMemory) (pde addr size : Nat) : Vpages :=
  let dindex := pdeIndex addr
  let page := pdeValue s.mem pde dindex
  if page = 0 then
    let page := s.allocPage.1
    if page = 0 then ⟨-enomem, s.allocPage.2, []⟩
    else
      let s := s.allocPage.2.setMem (s.mem.setWord (pde + 4 * dindex) (page ||| pageShared))
      let rest := allocVpagesTable s page (pteIndex addr) size
      { rest with written := (pde + 4 * dindex) :: rest.written }
  else allocVpagesTable s page (pteIndex addr) size

/-- The `do … while (count--)` of free_vpages, which runs `count + 1` times. -/
def freeVpagesLoop (s : PhysicalMemory) (pte : Nat) : (count : Nat) → PhysicalMemory
  | 0 => (s.freePage (alignDown (s.mem.word pte))).setMem (s.mem.setWord pte 0)
  | count + 1 =>
      let s := (s.freePage (alignDown (s.mem.word pte))).setMem (s.mem.setWord pte 0)
      freeVpagesLoop s ((pte + 4) % 4294967296) count

/-- The scan for an entry in use, which looks at the first one each time. -/
def vtableEmpty (mem : ByteMemory) (pte : Nat) : (count : Nat) → Bool
  | 0 => true
  | count + 1 => if mem.word pte ≠ 0 then false else vtableEmpty mem pte count

def freeVpages (s : PhysicalMemory) (pde addr size : Nat) : PhysicalMemory :=
  let page := pdeValue s.mem pde (pdeIndex addr)
  if present page then
    let table := alignDown page
    let s := freeVpagesLoop s (table + 4 * pteIndex addr) (vpagesCount size)
    if vtableEmpty s.mem table 1024 then
      -- `pde` is the directory itself, not the entry of the table
      (s.setMem (s.mem.setWord pde 0)).freePage table
    else s
  else s

/-! ### The loop of alloc_vpages -/

/-- Pages `frames` are taken one by one and entered from `pte` on. -/
inductive Takes : PhysicalMemory → Nat → List Nat → PhysicalMemory → Prop
  | nil (s : PhysicalMemory) (pte : Nat) : Takes s pte [] s
  | cons {s after : PhysicalMemory} {pte f : Nat} {frames : List Nat} (took : s.Took f)
      (rest : Takes (s.allocPage.2.setMem (s.mem.setWord pte (f * pageSize + 551)))
        ((pte + 4) % 4294967296) frames after) : Takes s pte (f :: frames) after

variable {s after : PhysicalMemory} {pte f rounds : Nat} {frames : List Nat}

theorem took_booted (booted : s.pages.Booted) (took : s.Took f) (mem : ByteMemory) :
    (s.allocPage.2.setMem mem).pages.Booted :=
  ⟨took.nbits ▸ booted.bounded, (took.used 0).mpr (Or.inl booted.first)⟩

/-- The words a run writes. -/
def writtenWords : (pte count : Nat) → List Nat
  | _, 0 => []
  | pte, count + 1 => pte :: writtenWords ((pte + 4) % 4294967296) count

/-- The loop takes a page in every round, or stops where there is none. -/
theorem allocVpagesLoop_cases (booted : s.pages.Booted) (pte rounds : Nat) :
    (∃ frames after, frames.length = rounds ∧ Takes s pte frames after ∧
        allocVpagesLoop s pte rounds = ⟨0, after, writtenWords pte rounds⟩) ∨
      ∃ frames after, frames.length < rounds ∧ Takes s pte frames after ∧
        after.allocPage.1 = 0 ∧
        allocVpagesLoop s pte rounds = ⟨-enomem, after, writtenWords pte frames.length⟩ := by
  induction rounds generalizing s pte with
  | zero => exact Or.inl ⟨[], s, rfl, Takes.nil s pte, rfl⟩
  | succ rounds ih =>
      rcases allocPage_cases booted with ⟨full, same⟩ | ⟨f, took⟩
      · right
        refine ⟨[], s, Nat.succ_pos rounds, Takes.nil s pte, full, ?_⟩
        rw [allocVpagesLoop]
        simp only [if_pos full, same]
        rfl
      · have entered : allocVpagesLoop s pte (rounds + 1) =
            { allocVpagesLoop (s.allocPage.2.setMem (s.mem.setWord pte (f * pageSize + 551)))
                ((pte + 4) % 4294967296) rounds with
              written := pte :: (allocVpagesLoop
                (s.allocPage.2.setMem (s.mem.setWord pte (f * pageSize + 551)))
                ((pte + 4) % 4294967296) rounds).written } := by
          rw [allocVpagesLoop]
          simp only [if_neg took.addr_ne]
          rw [took.addr, entry_eq]
        rcases ih (took_booted booted took (s.mem.setWord pte (f * pageSize + 551)))
            ((pte + 4) % 4294967296) with
          ⟨frames, after, length, takes, result⟩ | ⟨frames, after, length, takes, full, result⟩
        · left
          refine ⟨f :: frames, after, congrArg (· + 1) length, Takes.cons took takes, ?_⟩
          rw [entered, result]
          rfl
        · right
          refine ⟨f :: frames, after, Nat.succ_lt_succ length, Takes.cons took takes, full, ?_⟩
          rw [entered, result]
          rfl

namespace Takes

theorem used (takes : Takes s pte frames after) (p : Nat) :
    after.Used p ↔ s.Used p ∨ p ∈ frames := by
  induction takes with
  | nil => simp
  | cons took rest ih =>
      rw [ih, used_setMem, took.used p, List.mem_cons, or_assoc]

theorem nbits (takes : Takes s pte frames after) : after.pages.nbits = s.pages.nbits := by
  induction takes with
  | nil => rfl
  | cons took rest ih => exact ih.trans took.nbits

theorem booted (takes : Takes s pte frames after) (booted : s.pages.Booted) :
    after.pages.Booted :=
  ⟨takes.nbits ▸ booted.bounded, (takes.used 0).mpr (Or.inl booted.first)⟩

/-- The pages taken were free, below 4 GB and not page 0. -/
theorem fresh (takes : Takes s pte frames after) (f : Nat) (member : f ∈ frames) :
    ¬ s.Used f ∧ f < 1048576 ∧ 0 < f := by
  induction takes with
  | nil => cases member
  | cons took rest ih =>
      rcases List.mem_cons.mp member with isFirst | inRest
      · rw [isFirst]
        exact ⟨took.fresh, took.small, took.nonzero⟩
      · obtain ⟨unused, small⟩ := ih inRest
        exact ⟨fun used => unused ((took.used f).mpr (Or.inl used)), small⟩

theorem nodup (takes : Takes s pte frames after) : frames.Nodup := by
  induction takes with
  | nil => exact List.nodup_nil
  | cons took rest ih =>
      refine List.nodup_cons.mpr ⟨?_, ih⟩
      intro again
      exact (rest.fresh _ again).1 took.took

theorem ascending (takes : Takes s pte frames after) : frames.Pairwise (· < ·) := by
  induction takes with
  | nil => exact List.Pairwise.nil
  | cons took rest ih =>
      refine List.Pairwise.cons ?_ ih
      intro g member
      by_contra notBehind
      apply (rest.fresh g member).1
      rw [used_setMem, took.used]
      rcases Nat.lt_or_eq_of_le (Nat.le_of_not_lt notBehind) with lower | same
      · exact Or.inl (took.least lower)
      · exact Or.inr same

theorem frame_at (takes : Takes s pte frames after) {k : Nat} (inside : k < frames.length) :
    nthPage s.pages k = frames[k] * pageSize := by
  induction takes generalizing k with
  | nil => cases inside
  | cons took rest ih =>
      cases k with
      | zero => exact took.addr
      | succ k =>
          have next := ih (Nat.lt_of_succ_lt_succ inside)
          exact next

theorem byte_away (takes : Takes s pte frames after) (below : pte < 4294967296) {x : Nat}
    (away : ∀ k, k < frames.length →
      x < (pte + 4 * k) % 4294967296 ∨ (pte + 4 * k) % 4294967296 + 4 ≤ x) :
    after.mem x = s.mem x := by
  induction takes with
  | nil => rfl
  | cons took rest ih =>
      rw [List.length_cons] at away
      have first := away 0 (Nat.succ_pos _)
      rw [ih (Nat.mod_lt _ (by decide)) ?_]
      · exact ByteMemory.setWord_other _ _ (by omega)
      · intro k inside
        have next := away (k + 1) (Nat.succ_lt_succ inside)
        omega

theorem word_away (takes : Takes s pte frames after) (below : pte < 4294967296)
    (aligned : pte % 4 = 0) {a : Nat} (alignedWord : a % 4 = 0)
    (away : ∀ k, k < frames.length → a ≠ (pte + 4 * k) % 4294967296) :
    after.mem.word a = s.mem.word a := by
  apply ByteMemory.word_congr
  intro x lower upper
  apply takes.byte_away below
  intro k inside
  have different := away k inside
  omega

/-- The `k`-th entered word maps the page that the `k`-th call of alloc_pages hands out. -/
theorem word_at (takes : Takes s pte frames after) (below : pte < 4294967296)
    (aligned : pte % 4 = 0) (short : frames.length ≤ 1073741824) {k : Nat}
    (inside : k < frames.length) :
    after.mem.word ((pte + 4 * k) % 4294967296) = nthPage s.pages k + 551 := by
  induction takes generalizing k with
  | nil => cases inside
  | cons took rest ih =>
      rename_i now final pte f frames
      rw [List.length_cons] at short inside
      cases k with
      | zero =>
          have here : (pte + 4 * 0) % 4294967296 = pte := by omega
          rw [here, rest.word_away (Nat.mod_lt _ (by decide)) (by omega) aligned (by omega)]
          rw [show nthPage now.pages 0 = f * pageSize from took.addr]
          exact (ByteMemory.word_setWord _ _ _).trans (Nat.mod_eq_of_lt (entry_lt took.small))
      | succ k =>
          have next := ih (Nat.mod_lt _ (by decide)) (by omega) (by omega)
            (Nat.lt_of_succ_lt_succ inside)
          have advance : ((pte + 4) % 4294967296 + 4 * k) % 4294967296 =
              (pte + 4 * (k + 1)) % 4294967296 := by omega
          rw [advance] at next
          rw [next]
          rfl

/-- Only the entered words change; the run does not wrap. -/
theorem outside (takes : Takes s pte frames after)
    (noWrap : pte + 4 * frames.length ≤ 4294967296) {x : Nat}
    (away : x < pte ∨ pte + 4 * frames.length ≤ x) : after.mem x = s.mem x := by
  by_cases empty : frames.length = 0
  · rw [List.length_eq_zero_iff.mp empty] at takes
    cases takes
    rfl
  · apply takes.byte_away (by omega)
    intro k inside
    rw [Nat.mod_eq_of_lt (by omega)]
    omega

end Takes

/-! ### The table behind the directory entry -/

variable {now : PhysicalMemory} {pde d T addr size : Nat} {mem : ByteMemory}

/-- A directory whose tables are pages of their own: entries of the user half are absent or
point to tables, their entries are absent or map pages in use. -/
structure UserTables (s : PhysicalMemory) (pde : Nat) : Prop where
  below : pde < 4294967296
  aligned : pageSize ∣ pde
  directory : s.Used (pde / pageSize)
  entries : ∀ i, UserIndex i → pdeValue s.mem pde i = 0 ∨ present (pdeValue s.mem pde i) = true
  tables : ∀ i, i < 1024 → present (pdeValue s.mem pde i) = true →
    s.Used (pdeValue s.mem pde i / pageSize) ∧ pdeValue s.mem pde i / pageSize ≠ pde / pageSize
  distinct : ∀ i k, UserIndex i → k < 1024 → k ≠ i → present (pdeValue s.mem pde i) = true →
    present (pdeValue s.mem pde k) = true →
      pdeValue s.mem pde k / pageSize ≠ pdeValue s.mem pde i / pageSize
  slots : ∀ i j, UserIndex i → j < 1024 → present (pdeValue s.mem pde i) = true →
    pteValue s.mem pde i j = 0 ∨ present (pteValue s.mem pde i j) = true
  frames : ∀ i j, UserIndex i → j < 1024 → present (pdeValue s.mem pde i) = true →
    present (pteValue s.mem pde i j) = true → s.Used (pteValue s.mem pde i j / pageSize)

/-- What a call for an address of the region `d` needs of the directory: the entry `d` is absent
or points to a table that no other entry points to. -/
structure OwnTable (s : PhysicalMemory) (pde d : Nat) : Prop where
  below : pde < 4294967296
  aligned : pageSize ∣ pde
  directory : s.Used (pde / pageSize)
  tables : ∀ i, i < 1024 → present (pdeValue s.mem pde i) = true →
    s.Used (pdeValue s.mem pde i / pageSize) ∧ pdeValue s.mem pde i / pageSize ≠ pde / pageSize
  index : d < 1024
  entry : pdeValue s.mem pde d = 0 ∨ present (pdeValue s.mem pde d) = true
  distinct : ∀ k, k < 1024 → k ≠ d → present (pdeValue s.mem pde d) = true →
    present (pdeValue s.mem pde k) = true →
      pdeValue s.mem pde k / pageSize ≠ pdeValue s.mem pde d / pageSize

theorem UserTables.own (tables : UserTables s pde) (isUser : UserIndex d) : OwnTable s pde d where
  below := tables.below
  aligned := tables.aligned
  directory := tables.directory
  tables := tables.tables
  index := isUser.2
  entry := tables.entries d isUser
  distinct := fun k small different presentD presentK =>
    tables.distinct d k isUser small different presentD presentK

theorem OwnTable.entry_aligned (own : OwnTable s pde d) (i : Nat) : (pde + 4 * i) % 4 = 0 := by
  obtain ⟨n, isPage⟩ := own.aligned
  rw [isPage]
  unfold pageSize
  omega

theorem OwnTable.entry_below (own : OwnTable s pde d) {i : Nat} (small : i < 1024) :
    pde + 4 * i < 4294967296 := by
  obtain ⟨n, isPage⟩ := own.aligned
  have below := own.below
  unfold pageSize at isPage
  omega

/-- The directory entry `d` points at the table in page `T`, which is a page of its own. -/
structure Opened (s now : PhysicalMemory) (pde d T : Nat) : Prop where
  aligned : pageSize ∣ pde
  index : d < 1024
  entry : present (pdeValue now.mem pde d) = true
  page : pdeValue now.mem pde d / pageSize = T
  bytes : ∀ x, (x < pde + 4 * d ∨ pde + 4 * d + 4 ≤ x) → now.mem x = s.mem x
  apartDirectory : T ≠ pde / pageSize
  apartTables : ∀ k, k < 1024 → k ≠ d → present (pdeValue s.mem pde k) = true →
    pdeValue s.mem pde k / pageSize ≠ T
  kept : ∀ p, s.Used p → now.Used p
  booted : now.pages.Booted

/-- Where the table is, or will be taken. -/
def tableBefore (s : PhysicalMemory) (pde d : Nat) : Nat :=
  if pdeValue s.mem pde d = 0 then s.allocPage.1 else alignDown (pdeValue s.mem pde d)

/-- What the entry `j` of that table holds before the call. -/
def slotBefore (s : PhysicalMemory) (pde d j : Nat) : Nat :=
  s.mem.word (tableBefore s pde d + 4 * j)

/-- The page that the entry `k` of the run maps. -/
def runPage (s : PhysicalMemory) (pde addr k : Nat) : Nat :=
  nthPage s.pages (if pdeValue s.mem pde (pdeIndex addr) = 0 then k + 1 else k)

/-- The call `out` went on with the part `table` behind the directory entry: the table is in
page `T`, and in place in `now`. -/
structure WentOn (s now : PhysicalMemory) (pde addr T : Nat) (out table : Vpages) : Prop where
  opened : Opened s now pde (pdeIndex addr) T
  isTable : tableBefore s pde (pdeIndex addr) = T * pageSize
  pages : ∀ k, nthPage now.pages k = runPage s pde addr k
  made : pdeValue s.mem pde (pdeIndex addr) = 0 → s.Took T ∧
    now.pages = s.allocPage.2.pages ∧ pdeValue now.mem pde (pdeIndex addr) = T * pageSize + 551
  found : pdeValue s.mem pde (pdeIndex addr) ≠ 0 → now = s
  answer : out.answer = table.answer
  state : out.state = table.state
  written : out.written =
    (if pdeValue s.mem pde (pdeIndex addr) = 0 then [pde + 4 * pdeIndex addr] else []) ++
      table.written

/-- A call finds no page for the table, or goes on with a table of its own. -/
theorem allocVpages_cases (own : OwnTable s pde (pdeIndex addr)) (booted : s.pages.Booted) :
    (s.allocPage.1 = 0 ∧ pdeValue s.mem pde (pdeIndex addr) = 0 ∧
        allocVpages s pde addr size = ⟨-enomem, s, []⟩) ∨
      ∃ now T, WentOn s now pde addr T (allocVpages s pde addr size)
        (allocVpagesTable now (T * pageSize) (pteIndex addr) size) := by
  obtain ⟨n, isPage⟩ := own.aligned
  by_cases absent : pdeValue s.mem pde (pdeIndex addr) = 0
  · rcases allocPage_cases booted with ⟨full, same⟩ | ⟨f, took⟩
    · left
      refine ⟨full, absent, ?_⟩
      unfold allocVpages
      simp only [if_pos absent, if_pos full, same]
    · right
      have notDirectory : f ≠ pde / pageSize := by
        intro isDirectory
        exact took.fresh (isDirectory ▸ own.directory)
      have entry : pdeValue (s.mem.setWord (pde + 4 * pdeIndex addr) (f * pageSize + 551)) pde
          (pdeIndex addr) = f * pageSize + 551 :=
        (ByteMemory.word_setWord _ _ _).trans (Nat.mod_eq_of_lt (entry_lt took.small))
      have called : allocVpages s pde addr size =
          { allocVpagesTable (s.allocPage.2.setMem (s.mem.setWord (pde + 4 * pdeIndex addr)
              (f * pageSize + 551))) (f * pageSize) (pteIndex addr) size with
            written := (pde + 4 * pdeIndex addr) ::
              (allocVpagesTable (s.allocPage.2.setMem (s.mem.setWord (pde + 4 * pdeIndex addr)
                (f * pageSize + 551))) (f * pageSize) (pteIndex addr) size).written } := by
        unfold allocVpages
        simp only [if_pos absent, if_neg took.addr_ne]
        rw [took.addr, entry_eq]
      refine ⟨s.allocPage.2.setMem (s.mem.setWord (pde + 4 * pdeIndex addr)
        (f * pageSize + 551)), f, ?_, ?_, ?_, ?_, ?_, ?_, ?_, ?_⟩
      · constructor
        · exact own.aligned
        · exact own.index
        · rw [setMem_mem, entry]
          exact present_entry f
        · rw [setMem_mem, entry]
          exact entry_page f
        · intro x away
          exact ByteMemory.setWord_other _ _ away
        · exact notDirectory
        · intro k inDirectory _ isPresent isTable
          exact took.fresh (isTable ▸ (own.tables k inDirectory isPresent).1)
        · intro p used
          exact (took.used p).mpr (Or.inl used)
        · exact took_booted booted took _
      · unfold tableBefore
        rw [if_pos absent, took.addr]
      · intro k
        unfold runPage
        rw [if_pos absent]
        rfl
      · intro _
        exact ⟨took, rfl, entry⟩
      · intro isPresent
        exact absurd absent isPresent
      · rw [called]
      · rw [called]
      · rw [called, if_pos absent]
        rfl
  · right
    have isPresent := own.entry.resolve_left absent
    have samePage : alignDown (pdeValue s.mem pde (pdeIndex addr) / pageSize * pageSize) =
        alignDown (pdeValue s.mem pde (pdeIndex addr)) := by
      rw [alignDown_eq, alignDown_eq, Nat.mul_div_cancel _ (by decide : 0 < pageSize)]
    have called : allocVpages s pde addr size = allocVpagesTable s
        (pdeValue s.mem pde (pdeIndex addr) / pageSize * pageSize) (pteIndex addr) size := by
      unfold allocVpages allocVpagesTable
      simp only [if_neg absent, samePage]
    refine ⟨s, pdeValue s.mem pde (pdeIndex addr) / pageSize, ?_, ?_, ?_, ?_, ?_, ?_, ?_, ?_⟩
    · constructor
      · exact own.aligned
      · exact own.index
      · exact isPresent
      · rfl
      · intro x _
        rfl
      · exact (own.tables _ own.index isPresent).2
      · intro k inDirectory different presentK
        exact own.distinct k inDirectory different isPresent presentK
      · exact fun p used => used
      · exact booted
    · unfold tableBefore
      rw [if_neg absent, alignDown_eq]
    · intro k
      unfold runPage
      rw [if_neg absent]
    · intro isAbsent
      exact absurd isAbsent absent
    · intro _
      rfl
    · rw [called]
    · rw [called]
    · rw [called, if_neg absent]
      rfl

namespace Opened

theorem pdeValue_other (opened : Opened s now pde d T) {k : Nat} (different : k ≠ d) :
    pdeValue now.mem pde k = pdeValue s.mem pde k := by
  apply ByteMemory.word_congr
  intro x lower upper
  exact opened.bytes x (by omega)

theorem directory_congr (opened : Opened s now pde d T)
    (same : ∀ x, x / pageSize ≠ T → mem x = now.mem x) {k : Nat} (small : k < 1024) :
    pdeValue mem pde k = pdeValue now.mem pde k := by
  obtain ⟨n, isPage⟩ := opened.aligned
  apply ByteMemory.word_congr
  intro x lower upper
  apply same
  have inDirectory : x / pageSize = pde / pageSize := by
    unfold pageSize at *
    omega
  rw [inDirectory]
  exact opened.apartDirectory.symm

/-- The entries of the other tables stay, and so does what they map. -/
theorem pteValue_other (opened : Opened s now pde d T)
    (same : ∀ x, x / pageSize ≠ T → mem x = now.mem x) {k j : Nat} (small : k < 1024)
    (inTable : j < 1024) (different : k ≠ d) (isPresent : present (pdeValue s.mem pde k) = true)
    (apart : pdeValue s.mem pde k / pageSize ≠ pde / pageSize) :
    pteValue mem pde k j = pteValue s.mem pde k j := by
  have entry := (opened.directory_congr same small).trans (opened.pdeValue_other different)
  obtain ⟨n, isPage⟩ := opened.aligned
  have index := opened.index
  unfold pteValue
  rw [entry, alignDown_eq]
  apply ByteMemory.word_congr
  intro x lower upper
  have page : x / pageSize = pdeValue s.mem pde k / pageSize := by
    unfold pageSize at *
    omega
  rw [same x (by rw [page]; exact opened.apartTables k small different isPresent)]
  apply opened.bytes
  by_contra inEntry
  apply apart
  rw [← page]
  unfold pageSize at *
  omega

theorem translate_other (opened : Opened s now pde d T) (own : OwnTable s pde d)
    (same : ∀ x, x / pageSize ≠ T → mem x = now.mem x) {v : Nat} (below : v < 4294967296)
    (different : pdeIndex v ≠ d) : translate mem pde v = translate s.mem pde v := by
  have small : pdeIndex v < 1024 := by
    unfold pdeIndex
    omega
  have entry := (opened.directory_congr same small).trans (opened.pdeValue_other different)
  by_cases isPresent : present (pdeValue s.mem pde (pdeIndex v)) = true
  · have slot := opened.pteValue_other same small (pteIndex_lt v) different isPresent
      (own.tables _ small isPresent).2
    unfold translate
    rw [entry, slot]
  · unfold translate
    rw [entry, if_neg (fun both => isPresent both.1), if_neg (fun both => isPresent both.1)]

/-- Addresses of the region translate through the table. -/
theorem translate_here (opened : Opened s now pde d T)
    (same : ∀ x, x / pageSize ≠ T → mem x = now.mem x) {v : Nat} (here : pdeIndex v = d) :
    translate mem pde v =
      if present (mem.word (T * pageSize + 4 * pteIndex v)) = true then
        some (alignDown (mem.word (T * pageSize + 4 * pteIndex v)) + v % pageSize)
      else none := by
  have entry := opened.directory_congr same opened.index
  have slot : pteValue mem pde d (pteIndex v) = mem.word (T * pageSize + 4 * pteIndex v) := by
    unfold pteValue
    rw [entry, alignDown_eq, opened.page]
  unfold translate
  rw [here, slot, entry]
  simp [opened.entry]

/-- A page that is not the directory holds what it held before the call. -/
theorem word_eq (opened : Opened s now pde d T) {P j : Nat} (apart : P ≠ pde / pageSize)
    (inPage : j < 1024) :
    now.mem.word (P * pageSize + 4 * j) = s.mem.word (P * pageSize + 4 * j) := by
  obtain ⟨n, isPage⟩ := opened.aligned
  have index := opened.index
  apply ByteMemory.word_congr
  intro x lower upper
  apply opened.bytes
  by_contra inEntry
  apply apart
  unfold pageSize at *
  omega

end Opened

/-- The entry of the first page is what it was before the call. -/
theorem WentOn.first {out table : Vpages} (went : WentOn s now pde addr T out table) :
    now.mem.word (T * pageSize + 4 * pteIndex addr) =
      slotBefore s pde (pdeIndex addr) (pteIndex addr) := by
  rw [went.opened.word_eq went.opened.apartDirectory (pteIndex_lt addr)]
  unfold slotBefore
  rw [went.isTable]

/-! ### The range is mapped -/

/-- The first page of the range counts as mapped: the call answers 0 at once. -/
def FirstMapped (s : PhysicalMemory) (pde addr : Nat) : Prop :=
  present (slotBefore s pde (pdeIndex addr) (pteIndex addr)) = true ∧
    ¬ dirty (slotBefore s pde (pdeIndex addr) (pteIndex addr)) = true

/-- Where the table entries that the call writes start. -/
def runStart (s : PhysicalMemory) (pde addr : Nat) : Nat :=
  tableBefore s pde (pdeIndex addr) + 4 * pteIndex addr

/-- Which entry of the run the word at `a` is. -/
def runIndex (s : PhysicalMemory) (pde addr a : Nat) : Nat :=
  (a + 4294967296 - runStart s pde addr) % 4294967296 / 4

/-- The word at `a` is one of the table entries that the call writes: as many as pages fit
in the size, behind each other in physical memory, and none if the first page is mapped. -/
def Entered (s : PhysicalMemory) (pde addr size a : Nat) : Prop :=
  ¬ FirstMapped s pde addr ∧ runIndex s pde addr a < vpagesCount size

/-- The processor takes `table` for the region `i` after the call.  A run that goes on behind
its table can run into the directory. -/
inductive TableAfter (s : PhysicalMemory) (pde addr size i : Nat) : (table : Nat) → Prop
  | entered (inRun : Entered s pde addr size (pde + 4 * i)) :
      TableAfter s pde addr size i (runPage s pde addr (runIndex s pde addr (pde + 4 * i)))
  | opened (apart : ¬ Entered s pde addr size (pde + 4 * i)) (here : i = pdeIndex addr) :
      TableAfter s pde addr size i (tableBefore s pde i)
  | kept (apart : ¬ Entered s pde addr size (pde + 4 * i)) (other : i ≠ pdeIndex addr)
      (isPresent : present (pdeValue s.mem pde i) = true) :
      TableAfter s pde addr size i (alignDown (pdeValue s.mem pde i))

/-- The table entry of `v` is one of those that the call writes, or is present before. -/
def Covered (s : PhysicalMemory) (pde addr size v : Nat) : Prop :=
  ∃ table, TableAfter s pde addr size (pdeIndex v) table ∧
    (Entered s pde addr size (table + 4 * pteIndex v) ∨
      present (s.mem.word (table + 4 * pteIndex v)) = true)

/-- The range lies in one 4 MB region, the reach of one table. -/
def InOneRegion (addr size : Nat) : Prop := addr + size ≤ (pdeIndex addr + 1) * 4194304

theorem allocVpagesTable_mapped {index : Nat}
    (mapped : present (now.mem.word (T * pageSize + 4 * index)) = true ∧
      ¬ dirty (now.mem.word (T * pageSize + 4 * index)) = true) (size : Nat) :
    allocVpagesTable now (T * pageSize) index size = ⟨0, now, []⟩ := by
  have same : alignDown (T * pageSize) = T * pageSize := by
    rw [alignDown_eq, Nat.mul_div_cancel _ (by decide : 0 < pageSize)]
  unfold allocVpagesTable
  simp only [same]
  rw [if_pos mapped]

theorem allocVpagesTable_loop {index : Nat}
    (unmapped : ¬ (present (now.mem.word (T * pageSize + 4 * index)) = true ∧
      ¬ dirty (now.mem.word (T * pageSize + 4 * index)) = true)) (size : Nat) :
    allocVpagesTable now (T * pageSize) index size =
      allocVpagesLoop now (T * pageSize + 4 * index) (vpagesRounds (vpagesCount size)) := by
  have same : alignDown (T * pageSize) = T * pageSize := by
    rw [alignDown_eq, Nat.mul_div_cancel _ (by decide : 0 < pageSize)]
  unfold allocVpagesTable
  simp only [same]
  rw [if_neg unmapped]

namespace Opened

theorem table_small (opened : Opened s now pde d T) : T < 1048576 := by
  have small : pdeValue now.mem pde d < 4294967296 := ByteMemory.word_lt _ _
  have page := opened.page
  unfold pageSize at page
  omega

theorem takes_outside (opened : Opened s now pde d T) {index : Nat}
    (takes : Takes now (T * pageSize + 4 * index) frames after)
    (fits : index + frames.length ≤ 1024) :
    ∀ x, x / pageSize ≠ T → after.mem x = now.mem x := by
  intro x notTable
  have below := opened.table_small
  have wide : pageSize = 4096 := rfl
  rw [wide] at takes notTable
  apply takes.outside
  · omega
  · omega

end Opened

theorem pteIndex_add {k : Nat} (sameRegion : pdeIndex (addr + k) = pdeIndex addr) :
    pteIndex (addr + k) = pteIndex addr + (addr % pageSize + k) / pageSize := by
  unfold pdeIndex at sameRegion
  unfold pteIndex pageSize
  omega

/-- In one region all addresses go through one table. -/
theorem InOneRegion.pdeIndex_eq (one : InOneRegion addr size) {k : Nat} (inside : k < size) :
    pdeIndex (addr + k) = pdeIndex addr := by
  unfold InOneRegion at one
  unfold pdeIndex at *
  omega

theorem InOneRegion.fits (one : InOneRegion addr size) (positive : 1 ≤ size) :
    pteIndex addr + vpagesCount size ≤ 1024 ∧ 1 ≤ vpagesCount size ∧
      vpagesRounds (vpagesCount size) = vpagesCount size := by
  have small : vpagesCount size = (size + 4095) / 4096 := by
    unfold InOneRegion pdeIndex at one
    unfold vpagesCount
    omega
  have counted : 1 ≤ vpagesCount size := by omega
  refine ⟨?_, counted, if_neg (by omega)⟩
  rw [small]
  unfold InOneRegion at one
  unfold pdeIndex at one
  unfold pteIndex
  omega

private theorem isSome_ite {c : Prop} [Decidable c] (p : Nat) :
    (if c then some p else none).isSome = true ↔ c := by
  by_cases holds : c
  · simp [holds]
  · simp [holds]

theorem slot_aligned (P j : Nat) : (P * pageSize + 4 * j) % 4 = 0 := by
  unfold pageSize
  omega

theorem slot_below {P j : Nat} (below : P < 1048576) (inPage : j < 1024) :
    P * pageSize + 4 * j < 4294967296 := by
  unfold pageSize
  omega

/-- What a call that answered 0 left, word by word: `now` has the table in place. -/
structure Answered (s now : PhysicalMemory) (mem : ByteMemory) (pde addr size T : Nat) : Prop where
  opened : Opened s now pde (pdeIndex addr) T
  isTable : tableBefore s pde (pdeIndex addr) = T * pageSize
  kept : ∀ a, a % 4 = 0 → a < 4294967296 → ¬ Entered s pde addr size a →
    mem.word a = now.mem.word a
  entered : ∀ a, a % 4 = 0 → a < 4294967296 → Entered s pde addr size a →
    ∃ f, ¬ s.Used f ∧ f < 1048576 ∧ runPage s pde addr (runIndex s pde addr a) = f * pageSize ∧
      mem.word a = f * pageSize + 551

theorem vpagesCount_small (positive : 1 ≤ size) (small : size ≤ 3221225472) :
    1 ≤ vpagesCount size ∧ vpagesCount size ≤ 786432 ∧
      vpagesRounds (vpagesCount size) = vpagesCount size := by
  have counted : 1 ≤ vpagesCount size ∧ vpagesCount size ≤ 786432 := by
    unfold vpagesCount
    omega
  exact ⟨counted.1, counted.2, if_neg (by omega)⟩

/-- The run enters its pages in the words that `Entered` describes. -/
theorem answered_run (opened : Opened s now pde (pdeIndex addr) T)
    (isTable : tableBefore s pde (pdeIndex addr) = T * pageSize)
    (pages : ∀ k, nthPage now.pages k = runPage s pde addr k) (unmapped : ¬ FirstMapped s pde addr)
    (takes : Takes now (T * pageSize + 4 * pteIndex addr) frames after)
    (length : frames.length = vpagesCount size) (short : vpagesCount size ≤ 786432) :
    Answered s now after.mem pde addr size T := by
  have start : runStart s pde addr = T * pageSize + 4 * pteIndex addr := by
    unfold runStart
    rw [isTable]
  have startBelow := slot_below opened.table_small (pteIndex_lt addr)
  have startAligned := slot_aligned T (pteIndex addr)
  refine ⟨opened, isTable, ?_, ?_⟩
  · intro a aligned inMemory notEntered
    apply takes.word_away startBelow startAligned aligned
    intro k inside isEntry
    apply notEntered
    refine ⟨unmapped, ?_⟩
    unfold runIndex
    rw [start]
    omega
  · intro a aligned inMemory isEntered
    have inside : runIndex s pde addr a < frames.length := length ▸ isEntered.2
    have here : a = (T * pageSize + 4 * pteIndex addr + 4 * runIndex s pde addr a) % 4294967296 := by
      unfold runIndex
      rw [start]
      omega
    have page := takes.frame_at inside
    obtain ⟨unused, small, _⟩ := takes.fresh _ (List.getElem_mem inside)
    refine ⟨frames[runIndex s pde addr a], fun used => unused (opened.kept _ used), small, ?_, ?_⟩
    · rw [← pages, page]
    · have word := takes.word_at startBelow startAligned (by omega) inside
      rw [← here, page] at word
      exact word

/-- A call that answers 0 found the first page mapped, or made the whole run. -/
theorem allocVpages_answered (own : OwnTable s pde (pdeIndex addr)) (booted : s.pages.Booted)
    (positive : 1 ≤ size) (small : size ≤ 3221225472)
    (answered : (allocVpages s pde addr size).answer = 0) :
    ∃ now T, Answered s now (allocVpages s pde addr size).state.mem pde addr size T := by
  rcases allocVpages_cases own booted with ⟨_, _, failed⟩ | ⟨now, T, went⟩
  · rw [failed] at answered
    cases answered
  · have opened := went.opened
    have first := went.first
    rw [went.answer] at answered
    refine ⟨now, T, ?_⟩
    rw [went.state]
    by_cases mapped : FirstMapped s pde addr
    · have early := mapped
      unfold FirstMapped at early
      rw [← first] at early
      rw [allocVpagesTable_mapped early size]
      refine ⟨opened, went.isTable, fun _ _ _ _ => rfl, ?_⟩
      intro a _ _ isEntered
      exact absurd mapped isEntered.1
    · have late := mapped
      unfold FirstMapped at late
      rw [← first] at late
      obtain ⟨_, short, rounds⟩ := vpagesCount_small positive small
      rw [allocVpagesTable_loop late size, rounds] at answered ⊢
      rcases allocVpagesLoop_cases opened.booted (T * pageSize + 4 * pteIndex addr)
          (vpagesCount size) with ⟨frames, after, length, takes, ran⟩ | ⟨_, _, _, _, _, ran⟩
      · rw [ran]
        exact answered_run opened went.isTable went.pages mapped takes length short
      · rw [ran] at answered
        cases answered

namespace Answered

/-- A table entry is present after the call if the call wrote it or it was present. -/
theorem slot (done : Answered s now mem pde addr size T) {P j : Nat}
    (apart : P ≠ pde / pageSize) (below : P < 1048576) (inPage : j < 1024) :
    present (mem.word (P * pageSize + 4 * j)) = true ↔
      Entered s pde addr size (P * pageSize + 4 * j) ∨
        present (s.mem.word (P * pageSize + 4 * j)) = true := by
  have aligned := slot_aligned P j
  have inMemory := slot_below below inPage
  by_cases isEntered : Entered s pde addr size (P * pageSize + 4 * j)
  · obtain ⟨f, _, _, _, word⟩ := done.entered _ aligned inMemory isEntered
    rw [word]
    exact ⟨fun _ => Or.inl isEntered, fun _ => present_entry f⟩
  · rw [done.kept _ aligned inMemory isEntered, done.opened.word_eq apart inPage]
    exact ⟨Or.inr, fun either => either.resolve_left isEntered⟩

/-- An address is mapped after the call exactly if it is covered. -/
theorem mapped_iff (done : Answered s now mem pde addr size T)
    (own : OwnTable s pde (pdeIndex addr)) {v : Nat} (inMemory : v < 4294967296) :
    (translate mem pde v).isSome = true ↔ Covered s pde addr size v := by
  have small : pdeIndex v < 1024 := by
    unfold pdeIndex
    omega
  have entryAligned := own.entry_aligned (pdeIndex v)
  have entryBelow := own.entry_below small
  have inTable := pteIndex_lt v
  unfold translate Covered pteValue
  rw [isSome_ite]
  by_cases isEntered : Entered s pde addr size (pde + 4 * pdeIndex v)
  · obtain ⟨f, unused, below, page, word⟩ := done.entered _ entryAligned entryBelow isEntered
    have entry : pdeValue mem pde (pdeIndex v) = f * pageSize + 551 := word
    have apart : f ≠ pde / pageSize := fun isDirectory => unused (isDirectory ▸ own.directory)
    rw [entry, alignDown_eq, entry_page, done.slot apart below inTable]
    constructor
    · rintro ⟨_, slot⟩
      exact ⟨_, TableAfter.entered isEntered, by rw [page]; exact slot⟩
    · rintro ⟨table, after, slot⟩
      refine ⟨present_entry f, ?_⟩
      cases after with
      | entered _ =>
          rw [page] at slot
          exact slot
      | opened apart _ => exact absurd isEntered apart
      | kept apart _ _ => exact absurd isEntered apart
  · have entry : pdeValue mem pde (pdeIndex v) = pdeValue now.mem pde (pdeIndex v) :=
      done.kept _ entryAligned entryBelow isEntered
    rw [entry]
    by_cases here : pdeIndex v = pdeIndex addr
    · have table : alignDown (pdeValue now.mem pde (pdeIndex v)) = T * pageSize := by
        rw [alignDown_eq, here, done.opened.page]
      rw [table, done.slot done.opened.apartDirectory done.opened.table_small inTable]
      constructor
      · rintro ⟨_, slot⟩
        refine ⟨_, TableAfter.opened isEntered here, ?_⟩
        rw [here, done.isTable]
        exact slot
      · rintro ⟨table, after, slot⟩
        refine ⟨here ▸ done.opened.entry, ?_⟩
        cases after with
        | entered inRun => exact absurd inRun isEntered
        | opened _ _ =>
            rw [here, done.isTable] at slot
            exact slot
        | kept _ other _ => exact absurd here other
    · rw [done.opened.pdeValue_other here]
      by_cases isPresent : present (pdeValue s.mem pde (pdeIndex v)) = true
      · have apart := (own.tables _ small isPresent).2
        have below : pdeValue s.mem pde (pdeIndex v) / pageSize < 1048576 :=
          Nat.div_lt_of_lt_mul (ByteMemory.word_lt _ _)
        rw [alignDown_eq, done.slot apart below inTable]
        constructor
        · rintro ⟨_, slot⟩
          refine ⟨_, TableAfter.kept isEntered here isPresent, ?_⟩
          rw [alignDown_eq]
          exact slot
        · rintro ⟨table, after, slot⟩
          refine ⟨isPresent, ?_⟩
          cases after with
          | entered inRun => exact absurd inRun isEntered
          | opened _ isHere => exact absurd isHere here
          | kept _ _ _ =>
              rw [alignDown_eq] at slot
              exact slot
      · constructor
        · rintro ⟨both, _⟩
          exact absurd both isPresent
        · rintro ⟨table, after, _⟩
          cases after with
          | entered inRun => exact absurd inRun isEntered
          | opened _ isHere => exact absurd isHere here
          | kept _ _ both => exact absurd both isPresent

/-- In one region: the pages counted from the first one on, unless that is mapped, and the
pages mapped before. -/
theorem covered_oneRegion (done : Answered s now mem pde addr size T)
    (own : OwnTable s pde (pdeIndex addr))
    (one : InOneRegion addr size) {k : Nat} (inside : k < size) :
    Covered s pde addr size (addr + k) ↔
      (¬ FirstMapped s pde addr ∧ (addr % pageSize + k) / pageSize < vpagesCount size) ∨
        present (slotBefore s pde (pdeIndex addr) (pteIndex (addr + k))) = true := by
  have here := one.pdeIndex_eq inside
  have slot := pteIndex_add here
  obtain ⟨fits, _⟩ := one.fits (by omega)
  have start : runStart s pde addr = T * pageSize + 4 * pteIndex addr := by
    unfold runStart
    rw [done.isTable]
  have small := done.opened.table_small
  have apart : ¬ Entered s pde addr size (pde + 4 * pdeIndex (addr + k)) := by
    rintro ⟨_, inRun⟩
    apply done.opened.apartDirectory
    obtain ⟨n, isPage⟩ := own.aligned
    have index := done.opened.index
    have pdeBelow := own.below
    unfold runIndex at inRun
    rw [start, here] at inRun
    unfold pageSize at *
    omega
  have entered : Entered s pde addr size (T * pageSize + 4 * pteIndex (addr + k)) ↔
      ¬ FirstMapped s pde addr ∧ (addr % pageSize + k) / pageSize < vpagesCount size := by
    have inTable := pteIndex_lt (addr + k)
    unfold Entered runIndex
    rw [slot] at inTable ⊢
    rw [start]
    generalize (addr % pageSize + k) / pageSize = pages at *
    have index : (T * pageSize + 4 * (pteIndex addr + pages) + 4294967296 -
        (T * pageSize + 4 * pteIndex addr)) % 4294967296 / 4 = pages := by
      omega
    rw [index]
  have table : TableAfter s pde addr size (pdeIndex (addr + k)) (T * pageSize) := by
    rw [← done.isTable, ← here]
    exact TableAfter.opened apart here
  unfold slotBefore
  rw [done.isTable, ← entered]
  constructor
  · rintro ⟨other, after, covers⟩
    cases after with
    | entered inRun => exact absurd inRun apart
    | opened _ _ =>
        rw [here, done.isTable] at covers
        exact covers
    | kept _ different _ => exact absurd here different
  · intro covers
    exact ⟨_, table, covers⟩

end Answered

/-- Where alloc_vpages answers 0, the range is mapped exactly if the processor's table entry of
every address is one of those the call wrote or was present before. -/
theorem allocVpages_maps_iff (tables : UserTables s pde) (booted : s.pages.Booted)
    (high : userMemoryBegin ≤ addr) (positive : 1 ≤ size) (range : addr + size ≤ 4294967296)
    (answered : (allocVpages s pde addr size).answer = 0) :
    RangeMapped (allocVpages s pde addr size).state.mem pde addr size ↔
      ∀ k, k < size → Covered s pde addr size (addr + k) := by
  have own := tables.own (pdeIndex_user high (by omega : addr < 4294967296))
  have small : size ≤ 3221225472 := by
    unfold userMemoryBegin at high
    omega
  obtain ⟨now, T, done⟩ := allocVpages_answered own booted positive small answered
  constructor
  · intro mapped k inside
    exact (done.mapped_iff own (by omega)).mp (mapped.mapped k inside)
  · intro covered
    exact ⟨range, fun k inside => (done.mapped_iff own (by omega)).mpr (covered k inside)⟩

/-- 16 pages; the first four are taken: page 0, the directory, its table and the frame. -/
def BitMap.fourTaken : BitMap where
  nbits := 16
  base := fun byte => if byte = 0 then 15#8 else 0#8

def PhysicalMemory.onePage : PhysicalMemory := ⟨onePageMapped, BitMap.fourTaken⟩

theorem onePage_booted : onePage.pages.Booted := ⟨by decide, by decide⟩

theorem onePage_directory :
    ∀ i, i < 1024 → pdeValue onePage.mem 4096 i = if i = 256 then 8743 else 0 := by
  decide +kernel

theorem onePage_table :
    ∀ j, j < 1024 → pteValue onePage.mem 4096 256 j = if j = 0 then 12839 else 0 := by
  decide +kernel

theorem onePage_tables : UserTables onePage 4096 := by
  have only : ∀ i, i < 1024 → present (pdeValue onePage.mem 4096 i) = true → i = 256 := by
    intro i small isPresent
    by_contra other
    rw [onePage_directory i small, if_neg other] at isPresent
    cases isPresent
  constructor
  · decide
  · exact ⟨1, rfl⟩
  · decide
  · intro i isUser
    rw [onePage_directory i isUser.2]
    by_cases here : i = 256
    · rw [if_pos here]
      decide
    · rw [if_neg here]
      exact Or.inl rfl
  · intro i small isPresent
    rw [only i small isPresent]
    decide
  · intro i k isUser small different presentI presentK
    exact absurd ((only k small presentK).trans (only i isUser.2 presentI).symm) different
  · intro i j isUser small isPresent
    rw [only i isUser.2 isPresent, onePage_table j small]
    by_cases first : j = 0
    · rw [if_pos first]
      decide
    · rw [if_neg first]
      exact Or.inl rfl
  · intro i j isUser small isPresent
    rw [only i isUser.2 isPresent, onePage_table j small]
    by_cases first : j = 0
    · rw [if_pos first]
      decide
    · rw [if_neg first]
      decide

theorem onePage_behind {v : Nat} (lower : 1073745920 ≤ v) (upper : v < 1077936128) :
    translate onePage.mem 4096 v = none := by
  have here : pdeIndex v = 256 := by
    unfold pdeIndex
    omega
  have inTable : pteIndex v < 1024 := pteIndex_lt v
  have behind : pteIndex v ≠ 0 := by
    unfold pteIndex
    omega
  unfold translate
  rw [here, onePage_table _ inTable, if_neg behind, if_neg]
  rintro ⟨_, isPresent⟩
  cases isPresent

/-- The second user page. -/
theorem allocVpages_maps_secondPage :
    RangeMapped (allocVpages onePage 4096 1073745920 4096).state.mem 4096 1073745920 4096 ↔
      ∀ k, k < 4096 → Covered onePage 4096 1073745920 4096 (1073745920 + k) :=
  allocVpages_maps_iff onePage_tables onePage_booted (by decide) (by decide) (by decide)
    (by decide +kernel)

/-- Two pages of which the first is mapped: the answer is 0, the second stays unmapped. -/
theorem allocVpages_overlap :
    UserTables onePage 4096 ∧ onePage.pages.Booted ∧
      (allocVpages onePage 4096 1073741824 8192).answer = 0 ∧
      ¬ RangeMapped (allocVpages onePage 4096 1073741824 8192).state.mem 4096 1073741824 8192 := by
  refine ⟨onePage_tables, onePage_booted, by decide +kernel, ?_⟩
  intro isMapped
  have second := isMapped.mapped 4096 (by decide)
  have unmapped : (translate (allocVpages onePage 4096 1073741824 8192).state.mem 4096
      (1073741824 + 4096)).isSome = false := by decide +kernel
  rw [unmapped] at second
  cases second

end MangoOS
