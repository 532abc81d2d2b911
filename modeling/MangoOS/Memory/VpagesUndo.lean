/-
free_vpages after alloc_vpages.

The loop of free_vpages makes one round more than the range has pages, and the test whether
the table is empty looks at its first entry only.
-/

import MangoOS.Memory.DestroyPde
import MangoOS.Memory.VpagesFrame

namespace MangoOS

open PhysicalMemory

variable {s now after given : PhysicalMemory} {pde d T addr size pte count : Nat}
  {mem : ByteMemory} {frames : List Nat}

/-- The page `p` is mapped by an address of the range. -/
def RangeFrame (mem : ByteMemory) (pde addr size p : Nat) : Prop :=
  ∃ k q, k < size ∧ translate mem pde (addr + k) = some q ∧ q / pageSize = p

/-- `back` is what `s` was before the call that left `given`: entries and bitmap are the same,
and the pages freed are those of the range, and the table if nothing is left in it. -/
structure Restores (s given back : PhysicalMemory) (pde addr size : Nat) : Prop where
  directory : ∀ i, i < 1024 → pdeValue back.mem pde i = pdeValue s.mem pde i
  tables : ∀ i j, i < 1024 → j < 1024 → present (pdeValue s.mem pde i) = true →
    pteValue back.mem pde i j = pteValue s.mem pde i j
  bitmap : ∀ p, back.Used p ↔ s.Used p
  freed : ∀ p, (given.Used p ∧ ¬ back.Used p) ↔ RangeFrame given.mem pde addr size p ∨
    (p = tableBefore s pde (pdeIndex addr) / pageSize ∧
      ∀ j, j < 1024 → back.mem.word (tableBefore s pde (pdeIndex addr) + 4 * j) = 0)
  kernel : ∀ i, i < userStartIndex → pdeValue given.mem pde i = pdeValue s.mem pde i ∧
    pdeValue back.mem pde i = pdeValue s.mem pde i

/-- The word behind the table of `addr`. -/
def wordBehind (s : PhysicalMemory) (pde addr : Nat) : Nat :=
  (tableBefore s pde (pdeIndex addr) + 4096) % 4294967296

/-- The table exists and its first entry is in use; the range ends where the table ends, so
that the extra round goes to the word behind it; that word is no table or directory entry and
holds the address of a free page. -/
structure ExtraRoundHarmless (s : PhysicalMemory) (pde addr size : Nat) : Prop where
  isTable : pdeValue s.mem pde (pdeIndex addr) ≠ 0
  first : slotBefore s pde (pdeIndex addr) 0 ≠ 0
  last : pteIndex addr + vpagesCount size = 1024
  notDirectory : wordBehind s pde addr / pageSize ≠ pde / pageSize
  notTable : ∀ i, i < 1024 → present (pdeValue s.mem pde i) = true →
    wordBehind s pde addr / pageSize ≠ pdeValue s.mem pde i / pageSize
  unused : ¬ s.Used (s.mem.word (wordBehind s pde addr) / pageSize)

/-! ### The loop of free_vpages -/

/-- One round: the page of the entry is freed and the entry cleared. -/
theorem freeRound (s : PhysicalMemory) (pte p : Nat) :
    ((s.freePage (alignDown (s.mem.word pte))).setMem (s.mem.setWord pte 0)).Used p ↔
      s.Used p ∧ p ≠ s.mem.word pte / pageSize := by
  rw [used_setMem, used_freePage, alignDown_div]

theorem freeVpagesLoop_byte (count : Nat) (s : PhysicalMemory) (below : pte < 4294967296) {x : Nat}
    (away : ∀ k, k ≤ count →
      x < (pte + 4 * k) % 4294967296 ∨ (pte + 4 * k) % 4294967296 + 4 ≤ x) :
    (freeVpagesLoop s pte count).mem x = s.mem x := by
  induction count generalizing s pte with
  | zero =>
      have first := away 0 (Nat.le_refl 0)
      exact ByteMemory.setWord_other _ _ (by omega)
  | succ count ih =>
      have first := away 0 (Nat.zero_le _)
      unfold freeVpagesLoop
      rw [ih _ (Nat.mod_lt _ (by decide)) ?_]
      · exact ByteMemory.setWord_other _ _ (by omega)
      · intro k inside
        have next := away (k + 1) (Nat.succ_le_succ inside)
        omega

theorem freeVpagesLoop_word (count : Nat) (s : PhysicalMemory) (below : pte < 4294967296)
    (aligned : pte % 4 = 0) {a : Nat} (alignedWord : a % 4 = 0)
    (away : ∀ k, k ≤ count → a ≠ (pte + 4 * k) % 4294967296) :
    (freeVpagesLoop s pte count).mem.word a = s.mem.word a := by
  apply ByteMemory.word_congr
  intro x lower upper
  apply freeVpagesLoop_byte count s below
  intro k inside
  have different := away k inside
  omega

theorem freeVpagesLoop_cleared (count : Nat) (s : PhysicalMemory) (below : pte < 4294967296)
    (aligned : pte % 4 = 0) (short : count < 1073741824) {k : Nat} (inside : k ≤ count) :
    (freeVpagesLoop s pte count).mem.word ((pte + 4 * k) % 4294967296) = 0 := by
  induction count generalizing s pte k with
  | zero =>
      have here : (pte + 4 * k) % 4294967296 = pte := by omega
      rw [here]
      exact ByteMemory.word_setWord _ _ _
  | succ count ih =>
      unfold freeVpagesLoop
      cases k with
      | zero =>
          have here : (pte + 4 * 0) % 4294967296 = pte := by omega
          rw [here, freeVpagesLoop_word count _ (Nat.mod_lt _ (by decide)) (by omega) aligned
            (by omega)]
          exact ByteMemory.word_setWord _ _ _
      | succ k =>
          have advance : (pte + 4 * (k + 1)) % 4294967296 =
              ((pte + 4) % 4294967296 + 4 * k) % 4294967296 := by omega
          rw [advance]
          exact ih _ (Nat.mod_lt _ (by decide)) (by omega) (by omega)
            (Nat.le_of_succ_le_succ inside)

theorem freeVpagesLoop_used (count : Nat) (s : PhysicalMemory) (below : pte < 4294967296)
    (aligned : pte % 4 = 0) (short : count < 1073741824) (p : Nat) :
    (freeVpagesLoop s pte count).Used p ↔ s.Used p ∧
      ∀ k, k ≤ count → p ≠ s.mem.word ((pte + 4 * k) % 4294967296) / pageSize := by
  induction count generalizing s pte with
  | zero =>
      have here : (pte + 4 * 0) % 4294967296 = pte := by omega
      unfold freeVpagesLoop
      rw [freeRound]
      constructor
      · rintro ⟨used, different⟩
        refine ⟨used, ?_⟩
        intro k inside
        rw [Nat.le_zero.mp inside, here]
        exact different
      · rintro ⟨used, different⟩
        have first := different 0 (Nat.le_refl 0)
        rw [here] at first
        exact ⟨used, first⟩
  | succ count ih =>
      have here : (pte + 4 * 0) % 4294967296 = pte := by omega
      have advance : ∀ k, ((pte + 4) % 4294967296 + 4 * k) % 4294967296 =
          (pte + 4 * (k + 1)) % 4294967296 := by
        intro k
        omega
      have stays : ∀ k, k ≤ count →
          (s.mem.setWord pte 0).word (((pte + 4) % 4294967296 + 4 * k) % 4294967296) =
            s.mem.word ((pte + 4 * (k + 1)) % 4294967296) := by
        intro k inside
        rw [advance]
        exact ByteMemory.word_setWord_other _ _ (by omega)
      unfold freeVpagesLoop
      rw [ih _ (Nat.mod_lt _ (by decide)) (by omega) (by omega), freeRound, setMem_mem]
      constructor
      · rintro ⟨⟨used, different⟩, later⟩
        refine ⟨used, ?_⟩
        intro k inside
        cases k with
        | zero =>
            rw [here]
            exact different
        | succ k =>
            have next := later k (Nat.le_of_succ_le_succ inside)
            rw [stays k (Nat.le_of_succ_le_succ inside)] at next
            exact next
      · rintro ⟨used, different⟩
        have first := different 0 (Nat.zero_le _)
        rw [here] at first
        refine ⟨⟨used, first⟩, ?_⟩
        intro k inside
        rw [stays k inside]
        exact different (k + 1) (Nat.succ_le_succ inside)

theorem vtableEmpty_eq (mem : ByteMemory) (pte count : Nat) :
    vtableEmpty mem pte (count + 1) = true ↔ mem.word pte = 0 := by
  induction count with
  | zero =>
      unfold vtableEmpty vtableEmpty
      by_cases zero : mem.word pte = 0
      · simp [zero]
      · simp [zero]
  | succ count ih =>
      unfold vtableEmpty
      by_cases zero : mem.word pte = 0
      · rw [if_neg (fun differs => differs zero), ih]
      · rw [if_pos zero]
        simp [zero]

/-! ### A range that was unmapped -/

/-- An unmapped range of whole pages in one region. -/
structure UnmappedRange (s : PhysicalMemory) (pde addr size : Nat) : Prop where
  high : userMemoryBegin ≤ addr
  start : pageSize ∣ addr
  positive : 1 ≤ size
  below : addr + size ≤ 4294967296
  one : InOneRegion addr size
  unmapped : ∀ k, k < size → translate s.mem pde (addr + k) = none

theorem page_inside {k : Nat} (inside : k < vpagesCount size) : k * 4096 < size := by
  have counted : 4096 * vpagesCount size ≤ size + 4095 := by
    unfold vpagesCount
    omega
  omega

namespace UnmappedRange

theorem isUser (range : UnmappedRange s pde addr size) : UserIndex (pdeIndex addr) := by
  have positive := range.positive
  have below := range.below
  exact pdeIndex_user range.high (by omega)

theorem page_indices (range : UnmappedRange s pde addr size) {k : Nat}
    (inside : k < vpagesCount size) :
    pdeIndex (addr + k * 4096) = pdeIndex addr ∧
      pteIndex (addr + k * 4096) = pteIndex addr + k := by
  have here := range.one.pdeIndex_eq (page_inside inside)
  obtain ⟨n, isPage⟩ := range.start
  refine ⟨here, ?_⟩
  rw [pteIndex_add here]
  unfold pageSize at *
  omega

/-- Where the table exists, the entries of the range are 0. -/
theorem entry_zero (range : UnmappedRange s pde addr size) (tables : UserTables s pde)
    (isPresent : present (pdeValue s.mem pde (pdeIndex addr)) = true) {k : Nat}
    (inside : k < vpagesCount size) : pteValue s.mem pde (pdeIndex addr) (pteIndex addr + k) = 0 := by
  obtain ⟨fits, _⟩ := range.one.fits range.positive
  obtain ⟨here, slot⟩ := range.page_indices inside
  rcases tables.slots _ (pteIndex addr + k) range.isUser (by omega) isPresent with zero | isMapped
  · exact zero
  · have none := range.unmapped _ (page_inside inside)
    unfold translate at none
    rw [here, slot, if_pos ⟨isPresent, isMapped⟩] at none
    cases none

/-- The first page does not count as mapped in a table that exists. -/
theorem not_firstMapped (range : UnmappedRange s pde addr size) (tables : UserTables s pde)
    (isTable : pdeValue s.mem pde (pdeIndex addr) ≠ 0) : ¬ FirstMapped s pde addr := by
  obtain ⟨_, counted, _⟩ := range.one.fits range.positive
  have isPresent := (tables.entries _ range.isUser).resolve_left isTable
  have zero := range.entry_zero tables isPresent counted
  rintro ⟨mapped, _⟩
  unfold slotBefore tableBefore at mapped
  rw [if_neg isTable] at mapped
  unfold pteValue at zero
  rw [Nat.add_zero] at zero
  rw [zero] at mapped
  cases mapped

end UnmappedRange

/-- What the loop of free_vpages leaves of a run that alloc_vpages made: the one word `extra`
is cleared, and the page it holds the address of is freed. -/
structure UndoneBut (s after : PhysicalMemory) (extra : Nat) : Prop where
  words : ∀ a, a % 4 = 0 → a < 4294967296 → a ≠ extra → after.mem.word a = s.mem.word a
  cleared : after.mem.word extra = 0
  used : ∀ p, after.Used p ↔ s.Used p ∧ p ≠ s.mem.word extra / pageSize

/-- The loop over a run of `frames` and the word behind it. -/
theorem freeVpagesLoop_undoes (takes : Takes s pte frames after) (below : pte < 4294967296)
    (aligned : pte % 4 = 0) (short : frames.length < 1073741824)
    (empty : ∀ k, k < frames.length → s.mem.word ((pte + 4 * k) % 4294967296) = 0) :
    UndoneBut s (freeVpagesLoop after pte frames.length)
      ((pte + 4 * frames.length) % 4294967296) := by
  have behind : after.mem.word ((pte + 4 * frames.length) % 4294967296) =
      s.mem.word ((pte + 4 * frames.length) % 4294967296) := by
    apply takes.word_away below aligned (by omega)
    intro k inside
    omega
  constructor
  · intro a alignedWord inMemory notExtra
    by_cases inRun : ∃ k, k < frames.length ∧ a = (pte + 4 * k) % 4294967296
    · obtain ⟨k, inside, word⟩ := inRun
      rw [word, freeVpagesLoop_cleared _ _ below aligned short (Nat.le_of_lt inside),
        empty k inside]
    · have away : ∀ k, k < frames.length → a ≠ (pte + 4 * k) % 4294967296 :=
        fun k inside isWord => inRun ⟨k, inside, isWord⟩
      rw [freeVpagesLoop_word _ _ below aligned alignedWord ?_,
        takes.word_away below aligned alignedWord away]
      intro k inside
      rcases Nat.lt_or_eq_of_le inside with before | last
      · exact away k before
      · rw [last]
        exact notExtra
  · exact freeVpagesLoop_cleared _ _ below aligned short (Nat.le_refl _)
  · intro p
    have entry : ∀ k (inside : k < frames.length),
        after.mem.word ((pte + 4 * k) % 4294967296) / pageSize = frames[k] := by
      intro k inside
      rw [takes.word_at below aligned (by omega) inside, takes.frame_at inside, entry_page]
    rw [freeVpagesLoop_used _ _ below aligned short, takes.used]
    constructor
    · rintro ⟨used, different⟩
      have notExtra := different _ (Nat.le_refl _)
      rw [behind] at notExtra
      refine ⟨?_, notExtra⟩
      rcases used with before | taken
      · exact before
      · obtain ⟨k, inside, isFrame⟩ := List.getElem_of_mem taken
        have other := different k (Nat.le_of_lt inside)
        rw [entry k inside] at other
        exact absurd isFrame.symm other
    · rintro ⟨used, notExtra⟩
      refine ⟨Or.inl used, ?_⟩
      intro k inside
      rcases Nat.lt_or_eq_of_le inside with before | last
      · rw [entry k before]
        intro isFrame
        exact (takes.fresh _ (List.getElem_mem before)).1 (isFrame ▸ used)
      · rw [last, behind]
        exact notExtra

/-! ### Both calls -/

theorem freeVpages_eq (isPresent : present (pdeValue given.mem pde (pdeIndex addr)) = true)
    (page : pdeValue given.mem pde (pdeIndex addr) / pageSize = T) :
    freeVpages given pde addr size =
      if (freeVpagesLoop given (T * pageSize + 4 * pteIndex addr)
          (vpagesCount size)).mem.word (T * pageSize) = 0 then
        ((freeVpagesLoop given (T * pageSize + 4 * pteIndex addr) (vpagesCount size)).setMem
          ((freeVpagesLoop given (T * pageSize + 4 * pteIndex addr)
            (vpagesCount size)).mem.setWord pde 0)).freePage (T * pageSize)
      else freeVpagesLoop given (T * pageSize + 4 * pteIndex addr) (vpagesCount size) := by
  unfold freeVpages
  simp only [if_pos isPresent, alignDown_eq, page]
  by_cases zero : (freeVpagesLoop given (T * pageSize + 4 * pteIndex addr)
      (vpagesCount size)).mem.word (T * pageSize) = 0
  · rw [if_pos zero, if_pos ((vtableEmpty_eq _ _ 1023).mpr zero)]
  · rw [if_neg zero, if_neg (fun isEmpty => zero ((vtableEmpty_eq _ _ 1023).mp isEmpty))]

/-- A table made by alloc_vpages stays in the directory: free_vpages clears no user entry of
the directory. -/
theorem table_stays (tables : UserTables s pde) (booted : s.pages.Booted)
    (range : UnmappedRange s pde addr size)
    (answered : (allocVpages s pde addr size).answer = 0) :
    pdeValue (freeVpages (allocVpages s pde addr size).state pde addr size).mem pde
      (pdeIndex addr) ≠ 0 := by
  have own := tables.own range.isUser
  obtain ⟨fits, counted, rounds⟩ := range.one.fits range.positive
  rcases allocVpages_cases own booted with ⟨_, _, failed⟩ | ⟨now, T, went⟩
  · rw [failed] at answered
    cases answered
  · have opened := went.opened
    have same : ∀ x, x / pageSize ≠ T → (allocVpages s pde addr size).state.mem x = now.mem x := by
      rw [went.state]
      rcases went.table_cases with ⟨_, early⟩ | ⟨_, frames, after, takes, ran⟩
      · rw [early]
        exact fun _ _ => rfl
      · rw [rounds] at ran
        rcases ran with ⟨length, ran⟩ | ⟨_, _, ran⟩
        · rw [ran]
          exact opened.takes_outside takes (by omega)
        · rw [went.answer, ran] at answered
          cases answered
    have entry := opened.directory_congr same opened.index
    have isPresent := opened.entry
    rw [← entry] at isPresent
    have page := opened.page
    rw [← entry] at page
    have small := opened.table_small
    have apart := opened.apartDirectory
    have isUser := range.isUser
    obtain ⟨n, isPage⟩ := tables.aligned
    have inDirectory := own.entry_below opened.index
    have kept : (freeVpagesLoop (allocVpages s pde addr size).state
        (T * pageSize + 4 * pteIndex addr) (vpagesCount size)).mem.word
          (pde + 4 * pdeIndex addr) =
        pdeValue (allocVpages s pde addr size).state.mem pde (pdeIndex addr) := by
      apply freeVpagesLoop_word _ _ (slot_below small (pteIndex_lt addr)) (slot_aligned _ _)
        (own.entry_aligned _)
      intro k inside
      unfold UserIndex userStartIndex pdeIndex userMemoryBegin pageSize at *
      omega
    have nonzero : pdeValue (allocVpages s pde addr size).state.mem pde (pdeIndex addr) ≠ 0 := by
      intro zero
      rw [zero] at isPresent
      cases isPresent
    rw [freeVpages_eq isPresent page]
    split
    · intro zero
      apply nonzero
      rw [← kept, ← zero]
      symm
      apply ByteMemory.word_setWord_other
      unfold UserIndex at isUser
      rw [userStartIndex_eq] at isUser
      omega
    · intro zero
      apply nonzero
      rw [← kept]
      exact zero

/-- Both calls where the table existed: the run `frames` was made, and the loop of free_vpages
left `m`. -/
structure UndoneRun (s : PhysicalMemory) (pde addr size T : Nat) (frames : List Nat)
    (m : PhysicalMemory) : Prop where
  went : WentOn s s pde addr T (allocVpages s pde addr size)
    (allocVpagesTable s (T * pageSize) (pteIndex addr) size)
  takes : Takes s (T * pageSize + 4 * pteIndex addr) frames (allocVpages s pde addr size).state
  length : frames.length = vpagesCount size
  undone : UndoneBut s m
    ((T * pageSize + 4 * (pteIndex addr + vpagesCount size)) % 4294967296)
  back : freeVpages (allocVpages s pde addr size).state pde addr size =
    if m.mem.word (T * pageSize) = 0 then
      (m.setMem (m.mem.setWord pde 0)).freePage (T * pageSize)
    else m

theorem undoneRun (tables : UserTables s pde) (booted : s.pages.Booted)
    (range : UnmappedRange s pde addr size)
    (answered : (allocVpages s pde addr size).answer = 0)
    (isTable : pdeValue s.mem pde (pdeIndex addr) ≠ 0) :
    ∃ T frames m, UndoneRun s pde addr size T frames m := by
  obtain ⟨fits, counted, rounds⟩ := range.one.fits range.positive
  rcases allocVpages_cases (tables.own range.isUser) booted with ⟨_, absent, _⟩ | ⟨now, T, went⟩
  · exact absurd absent isTable
  · have isNow := went.found isTable
    rw [isNow] at went
    rcases went.table_cases with ⟨mapped, _⟩ | ⟨_, frames, after, takes, ran⟩
    · exact absurd mapped (range.not_firstMapped tables isTable)
    · rw [rounds] at ran
      rcases ran with ⟨length, ran⟩ | ⟨_, _, ran⟩
      · have state : (allocVpages s pde addr size).state = after := by rw [went.state, ran]
        rw [← state] at takes
        have opened := went.opened
        have small := opened.table_small
        have entry := opened.directory_congr
          (opened.takes_outside takes (by omega)) opened.index
        have isPresent := opened.entry
        rw [← entry] at isPresent
        have page := opened.page
        rw [← entry] at page
        have empty : ∀ k, k < frames.length →
            s.mem.word ((T * pageSize + 4 * pteIndex addr + 4 * k) % 4294967296) = 0 := by
          intro k inside
          have zero := range.entry_zero tables opened.entry (length ▸ inside)
          have slotIs := slot_below small (by omega : pteIndex addr + k < 1024)
          unfold pteValue at zero
          rw [alignDown_eq, opened.page] at zero
          rw [← zero]
          congr 1
          omega
        have undone := freeVpagesLoop_undoes takes (slot_below small (pteIndex_lt addr))
          (slot_aligned _ _) (by omega) empty
        rw [length, Nat.add_assoc, ← Nat.mul_add] at undone
        exact ⟨T, frames, _, went, takes, length, undone, freeVpages_eq isPresent page⟩
      · rw [went.answer, ran] at answered
        cases answered

namespace UndoneRun

variable {m : PhysicalMemory}

theorem behind (run : UndoneRun s pde addr size T frames m)
    (last : pteIndex addr + vpagesCount size = 1024) :
    (T * pageSize + 4 * (pteIndex addr + vpagesCount size)) % 4294967296 =
      wordBehind s pde addr := by
  unfold wordBehind
  rw [last, run.went.isTable]

theorem first_word (run : UndoneRun s pde addr size T frames m)
    (last : pteIndex addr + vpagesCount size = 1024) :
    m.mem.word (T * pageSize) = slotBefore s pde (pdeIndex addr) 0 := by
  have small := run.went.opened.table_small
  have aligned := slot_aligned T 0
  have inTable := slot_below small (by decide : 0 < 1024)
  rw [Nat.mul_zero, Nat.add_zero] at aligned inTable
  have different : T * pageSize ≠
      (T * pageSize + 4 * (pteIndex addr + vpagesCount size)) % 4294967296 := by
    rw [last]
    unfold pageSize
    omega
  unfold slotBefore
  rw [run.went.isTable, Nat.mul_zero, Nat.add_zero]
  exact run.undone.words _ aligned inTable different

theorem back_used (run : UndoneRun s pde addr size T frames m) {p : Nat}
    (used : (freeVpages (allocVpages s pde addr size).state pde addr size).Used p) :
    m.Used p := by
  rw [run.back] at used
  split at used
  · rw [used_freePage, used_setMem] at used
    exact used.1
  · exact used

theorem back_word (run : UndoneRun s pde addr size T frames m)
    (own : OwnTable s pde (pdeIndex addr)) {a : Nat} (aligned : a % 4 = 0)
    (different : a ≠ pde) :
    (freeVpages (allocVpages s pde addr size).state pde addr size).mem.word a =
      m.mem.word a := by
  have pdeAligned := own.entry_aligned 0
  rw [run.back]
  split
  · exact ByteMemory.word_setWord_other _ _ (by omega)
  · rfl

/-- The word behind the run must hold the address of a free page. -/
theorem extra_unused (run : UndoneRun s pde addr size T frames m)
    (restores : Restores s (allocVpages s pde addr size).state
      (freeVpages (allocVpages s pde addr size).state pde addr size) pde addr size) :
    ¬ s.Used (s.mem.word
      ((T * pageSize + 4 * (pteIndex addr + vpagesCount size)) % 4294967296) / pageSize) := by
  intro used
  have inBack := (restores.bitmap _).mpr used
  exact ((run.undone.used _).mp (run.back_used inBack)).2 rfl

theorem extra_nonzero (run : UndoneRun s pde addr size T frames m) (booted : s.pages.Booted)
    (restores : Restores s (allocVpages s pde addr size).state
      (freeVpages (allocVpages s pde addr size).state pde addr size) pde addr size) :
    s.mem.word ((T * pageSize + 4 * (pteIndex addr + vpagesCount size)) % 4294967296) ≠ 0 := by
  intro zero
  have unused := run.extra_unused restores
  rw [zero, Nat.zero_div] at unused
  exact unused booted.first

/-- What is restored holds no word that the extra round cleared. -/
theorem harmless (run : UndoneRun s pde addr size T frames m) (tables : UserTables s pde)
    (booted : s.pages.Booted) (range : UnmappedRange s pde addr size)
    (isTable : pdeValue s.mem pde (pdeIndex addr) ≠ 0)
    (restores : Restores s (allocVpages s pde addr size).state
      (freeVpages (allocVpages s pde addr size).state pde addr size) pde addr size) :
    ExtraRoundHarmless s pde addr size := by
  have own := tables.own range.isUser
  have opened := run.went.opened
  have small := opened.table_small
  have unused := run.extra_unused restores
  have nonzero := run.extra_nonzero booted restores
  obtain ⟨fits, counted, _⟩ := range.one.fits range.positive
  obtain ⟨n, isPage⟩ := tables.aligned
  have isPresent := opened.entry
  -- an entry of a table that is restored is not the word behind the run
  have notEntry : ∀ i j, i < 1024 → j < 1024 → present (pdeValue s.mem pde i) = true →
      pdeValue s.mem pde i / pageSize ≠ pde / pageSize →
        pdeValue s.mem pde i / pageSize * pageSize + 4 * j ≠
          (T * pageSize + 4 * (pteIndex addr + vpagesCount size)) % 4294967296 := by
    intro i j iSmall jSmall iPresent apart isExtra
    have kept := restores.tables i j iSmall jSmall iPresent
    unfold pteValue at kept
    rw [restores.directory i iSmall, alignDown_eq, run.back_word own (slot_aligned _ j) ?_,
      isExtra, run.undone.cleared] at kept
    · exact nonzero kept.symm
    · intro isDirectory
      apply apart
      unfold pageSize at *
      omega
  have last : pteIndex addr + vpagesCount size = 1024 := by
    by_contra notLast
    apply notEntry (pdeIndex addr) (pteIndex addr + vpagesCount size) opened.index (by omega)
      isPresent (by rw [opened.page]; exact opened.apartDirectory)
    rw [opened.page]
    have slotIs := slot_below small (by omega : pteIndex addr + vpagesCount size < 1024)
    omega
  have behind := run.behind last
  have start : (T * pageSize + 4 * (pteIndex addr + vpagesCount size)) % 4294967296 % 4096 = 0 := by
    rw [last]
    unfold pageSize
    omega
  have notDirectory : wordBehind s pde addr / pageSize ≠ pde / pageSize := by
    intro isDirectory
    rw [← behind] at isDirectory
    have isWord : pde = (T * pageSize + 4 * (pteIndex addr + vpagesCount size)) % 4294967296 := by
      unfold pageSize at *
      omega
    have kept := restores.directory 0 (by decide)
    unfold pdeValue at kept
    rw [Nat.mul_zero, Nat.add_zero] at kept
    have cleared : (freeVpages (allocVpages s pde addr size).state pde addr size).mem.word pde
        = 0 := by
      rw [run.back]
      split
      · exact ByteMemory.word_setWord _ _ _
      · rw [isWord]
        exact run.undone.cleared
    rw [cleared, isWord] at kept
    exact nonzero kept.symm
  refine ⟨isTable, ?_, last, notDirectory, ?_, ?_⟩
  · intro zero
    rw [← run.first_word last] at zero
    have back := run.back
    rw [if_pos zero] at back
    have used := (tables.tables _ opened.index isPresent).1
    rw [opened.page, ← restores.bitmap, back, used_freePage,
      Nat.mul_div_cancel _ (by decide : 0 < pageSize)] at used
    exact used.2 rfl
  · intro i iSmall iPresent isTablePage
    rw [← behind] at isTablePage
    apply notEntry i 0 iSmall (by decide) iPresent (tables.tables i iSmall iPresent).2
    rw [← isTablePage]
    unfold pageSize at *
    omega
  · rw [← behind]
    exact unused

theorem rangeFrame_iff (run : UndoneRun s pde addr size T frames m)
    (range : UnmappedRange s pde addr size) (p : Nat) :
    RangeFrame (allocVpages s pde addr size).state.mem pde addr size p ↔ p ∈ frames := by
  obtain ⟨fits, _⟩ := range.one.fits range.positive
  have length := run.length
  have same := run.went.opened.takes_outside run.takes (by omega)
  have startBelow := slot_below run.went.opened.table_small (pteIndex_lt addr)
  have maps : ∀ v j (inside : j < frames.length), pdeIndex v = pdeIndex addr →
      pteIndex v = pteIndex addr + j →
        translate (allocVpages s pde addr size).state.mem pde v =
          some (frames[j] * pageSize + v % pageSize) := by
    intro v j inside here slot
    have slotIs := slot_below run.went.opened.table_small
      (by omega : pteIndex addr + j < 1024)
    have word := run.takes.word_at startBelow (slot_aligned _ _) (by omega) inside
    have place : (T * pageSize + 4 * pteIndex addr + 4 * j) % 4294967296 =
        T * pageSize + 4 * (pteIndex addr + j) := by omega
    rw [place, run.takes.frame_at inside] at word
    rw [run.went.opened.translate_here same here, slot, word, if_pos (present_entry _),
      alignDown_eq, entry_page]
  have inPage : ∀ f v, (f * pageSize + v % pageSize) / pageSize = f := by
    intro f v
    unfold pageSize
    omega
  constructor
  · rintro ⟨k, q, inside, isMapped, page⟩
    have here := range.one.pdeIndex_eq inside
    have slot := pteIndex_add here
    obtain ⟨n, isPage⟩ := range.start
    have counted : (addr % pageSize + k) / pageSize < frames.length := by
      rw [length]
      unfold vpagesCount
      have below := range.below
      have high := range.high
      unfold pageSize userMemoryBegin at *
      omega
    rw [maps _ _ counted here slot, Option.some.injEq] at isMapped
    rw [← page, ← isMapped, inPage]
    exact List.getElem_mem counted
  · intro member
    obtain ⟨j, inside, isFrame⟩ := List.getElem_of_mem member
    obtain ⟨here, slot⟩ := range.page_indices (length ▸ inside)
    refine ⟨j * 4096, _, page_inside (length ▸ inside), maps _ j inside here slot, ?_⟩
    rw [inPage, isFrame]

/-- A harmless extra round leaves everything restored. -/
theorem restores (run : UndoneRun s pde addr size T frames m) (tables : UserTables s pde)
    (range : UnmappedRange s pde addr size) (harmless : ExtraRoundHarmless s pde addr size) :
    Restores s (allocVpages s pde addr size).state
      (freeVpages (allocVpages s pde addr size).state pde addr size) pde addr size := by
  have own := tables.own range.isUser
  obtain ⟨fits, _⟩ := range.one.fits range.positive
  have length := run.length
  have same := run.went.opened.takes_outside run.takes (by omega)
  have behind := run.behind harmless.last
  have firstWord := run.first_word harmless.last
  have back := run.back
  rw [if_neg (by rw [firstWord]; exact harmless.first)] at back
  have undone := run.undone
  rw [behind] at undone
  have directory : ∀ i, i < 1024 → pdeValue m.mem pde i = pdeValue s.mem pde i := by
    intro i small
    apply undone.words _ (own.entry_aligned i) (own.entry_below small)
    intro isWord
    apply harmless.notDirectory
    rw [← isWord, own.entry_page small]
  have used : ∀ p, m.Used p ↔ s.Used p := by
    intro p
    rw [undone.used]
    constructor
    · exact fun both => both.1
    · intro isUsed
      exact ⟨isUsed, fun isExtra => harmless.unused (isExtra ▸ isUsed)⟩
  rw [back]
  refine ⟨directory, ?_, used, ?_, ?_⟩
  · intro i j iSmall jSmall isPresent
    have below : pdeValue s.mem pde i / pageSize < 1048576 :=
      Nat.div_lt_of_lt_mul (ByteMemory.word_lt _ _)
    unfold pteValue
    rw [directory i iSmall, alignDown_eq]
    apply undone.words _ (slot_aligned _ j) (slot_below below jSmall)
    intro isWord
    apply harmless.notTable i iSmall isPresent
    rw [← isWord]
    unfold pageSize at *
    omega
  · intro p
    rw [run.rangeFrame_iff range, used, run.takes.used]
    constructor
    · rintro ⟨either, unused⟩
      exact Or.inl (either.resolve_left unused)
    · rintro (member | ⟨_, empty⟩)
      · exact ⟨Or.inr member, (run.takes.fresh p member).1⟩
      · have first := empty 0 (by decide)
        rw [run.went.isTable, Nat.mul_zero, Nat.add_zero, firstWord] at first
        exact absurd first harmless.first
  · intro i kernel
    rw [userStartIndex_eq] at kernel
    exact ⟨run.went.opened.directory_congr same (by omega), directory i (by omega)⟩

end UndoneRun

/-- free_vpages undoes alloc_vpages exactly where its extra round happens to do no harm. -/
theorem freeVpages_restores_iff (tables : UserTables s pde) (booted : s.pages.Booted)
    (range : UnmappedRange s pde addr size)
    (answered : (allocVpages s pde addr size).answer = 0) :
    Restores s (allocVpages s pde addr size).state
        (freeVpages (allocVpages s pde addr size).state pde addr size) pde addr size ↔
      ExtraRoundHarmless s pde addr size := by
  constructor
  · intro restored
    have isTable : pdeValue s.mem pde (pdeIndex addr) ≠ 0 := by
      intro absent
      apply table_stays tables booted range answered
      rw [restored.directory _ range.isUser.2, absent]
    obtain ⟨T, frames, m, run⟩ := undoneRun tables booted range answered isTable
    exact run.harmless tables booted range isTable restored
  · intro harmless
    obtain ⟨T, frames, m, run⟩ := undoneRun tables booted range answered harmless.isTable
    exact run.restores tables range harmless

theorem onePage_unmapped : UnmappedRange onePage 4096 1073745920 4096 := by
  refine ⟨by decide, ⟨262145, rfl⟩, by decide, by decide, by unfold InOneRegion; decide, ?_⟩
  intro k inside
  exact onePage_behind (by omega) (by omega)

/-- The second user page. -/
theorem freeVpages_restores_secondPage :
    Restores onePage (allocVpages onePage 4096 1073745920 4096).state
        (freeVpages (allocVpages onePage 4096 1073745920 4096).state 4096 1073745920 4096)
        4096 1073745920 4096 ↔
      ExtraRoundHarmless onePage 4096 1073745920 4096 :=
  freeVpages_restores_iff onePage_tables onePage_booted onePage_unmapped (by decide +kernel)

/-- One page is mapped and unmapped again: the extra round frees page 0. -/
theorem freeVpages_freesPageZero :
    UserTables onePage 4096 ∧ onePage.pages.Booted ∧
      UnmappedRange onePage 4096 1073745920 4096 ∧
      (allocVpages onePage 4096 1073745920 4096).answer = 0 ∧
      ¬ Restores onePage (allocVpages onePage 4096 1073745920 4096).state
        (freeVpages (allocVpages onePage 4096 1073745920 4096).state 4096 1073745920 4096)
        4096 1073745920 4096 := by
  refine ⟨onePage_tables, onePage_booted, onePage_unmapped, by decide +kernel, ?_⟩
  intro restored
  have freed : ¬ (freeVpages (allocVpages onePage 4096 1073745920 4096).state 4096 1073745920
      4096).Used 0 := by decide +kernel
  exact freed ((restored.bitmap 0).mpr onePage_booted.first)

end MangoOS
