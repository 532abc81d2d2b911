/-
What alloc_vpages leaves alone.

The run enters consecutive words from the first entry on.  It stays inside the table if the
counted pages do; a table made by the call holds whatever its page held before.
-/

import MangoOS.Memory.VirtualPages

namespace MangoOS

open PhysicalMemory

variable {s now after : PhysicalMemory} {pde d T addr size pte rounds v : Nat}
  {mem : ByteMemory} {frames : List Nat} {out table : Vpages}

/-- The page of `v` has an address of `[addr, addr + size)`. -/
def Meets (addr size v : Nat) : Prop := ∃ k, k < size ∧ (addr + k) / pageSize = v / pageSize

/-- The first address that goes through the entry `j` of the table of the region `d`. -/
def slotAddress (d j : Nat) : Nat := d * 4194304 + j * 4096

theorem slotAddress_indices (d : Nat) {j : Nat} (inTable : j < 1024) :
    pdeIndex (slotAddress d j) = d ∧ pteIndex (slotAddress d j) = j := by
  unfold pdeIndex pteIndex slotAddress
  omega

theorem slotAddress_lt (small : d < 1024) {j : Nat} (inTable : j < 1024) :
    slotAddress d j < 4294967296 := by
  unfold slotAddress
  omega

theorem meets_slot (addr size v : Nat) :
    Meets addr size v ↔ Meets addr size (slotAddress (pdeIndex v) (pteIndex v)) := by
  have samePage : slotAddress (pdeIndex v) (pteIndex v) / pageSize = v / pageSize := by
    unfold slotAddress pdeIndex pteIndex pageSize
    omega
  unfold Meets
  rw [samePage]

/-- The call has an effect on the range only: what else is mapped stays so, and is not
overmapped; only the directory and the table are written; a failed call undoes nothing because
it did nothing. -/
structure OnlyRange (s : PhysicalMemory) (pde addr size : Nat) (out : Vpages) : Prop where
  elsewhere : ∀ v, v < 4294967296 → ¬ Meets addr size v →
    translate out.state.mem pde v = translate s.mem pde v
  kept : ∀ v p, v < 4294967296 → translate s.mem pde v = some p →
    translate out.state.mem pde v = some p
  writes : ∀ w, w ∈ out.written → w / pageSize = pde / pageSize ∨
    w / pageSize = tableBefore s pde (pdeIndex addr) / pageSize
  failed : out.answer = -enomem → (∀ p, out.state.Used p ↔ s.Used p) ∧
    ∀ v, v < 4294967296 → translate out.state.mem pde v = translate s.mem pde v

/-- The whole run lies in the table, finds its pages and meets no mapped page. -/
structure RunFits (s : PhysicalMemory) (pde addr size : Nat) : Prop where
  counted : 1 ≤ vpagesCount size
  inTable : pteIndex addr + vpagesCount size ≤ 1024
  supplied : Supplied s.pages
    (if pdeValue s.mem pde (pdeIndex addr) = 0 then vpagesCount size + 1 else vpagesCount size)
  unmapped : pdeValue s.mem pde (pdeIndex addr) ≠ 0 → ∀ j, j < vpagesCount size →
    present (slotBefore s pde (pdeIndex addr) (pteIndex addr + j)) = true →
      alignDown (slotBefore s pde (pdeIndex addr) (pteIndex addr + j)) = runPage s pde addr j

/-- No page is left, or a table made by the call brings no entry of its own outside the range
and the first page is mapped or the run fits. -/
def AllocQuiet (s : PhysicalMemory) (pde addr size : Nat) : Prop :=
  s.allocPage.1 = 0 ∨
    ((pdeValue s.mem pde (pdeIndex addr) = 0 → ∀ j, j < 1024 →
        present (slotBefore s pde (pdeIndex addr) j) = true →
          Meets addr size (slotAddress (pdeIndex addr) j)) ∧
      (FirstMapped s pde addr ∨ RunFits s pde addr size))

/-- The page behind the table is not the directory. -/
def BehindApart (s : PhysicalMemory) (pde addr : Nat) : Prop :=
  (tableBefore s pde (pdeIndex addr) / pageSize + 1) % 1048576 ≠ pde / pageSize

/-! ### The words that are written -/

theorem mem_writtenWords (below : pte < 4294967296) {count w : Nat} :
    w ∈ writtenWords pte count ↔ ∃ k, k < count ∧ w = (pte + 4 * k) % 4294967296 := by
  induction count generalizing pte with
  | zero =>
      unfold writtenWords
      simp
  | succ count ih =>
      unfold writtenWords
      rw [List.mem_cons, ih (Nat.mod_lt _ (by decide))]
      constructor
      · rintro (first | ⟨k, inside, word⟩)
        · exact ⟨0, Nat.succ_pos count, by omega⟩
        · exact ⟨k + 1, Nat.succ_lt_succ inside, by omega⟩
      · rintro ⟨k, inside, word⟩
        cases k with
        | zero => exact Or.inl (by omega)
        | succ k => exact Or.inr ⟨k, Nat.lt_of_succ_lt_succ inside, by omega⟩

theorem allocVpagesLoop_unwritten (rounds : Nat) (s : PhysicalMemory) (pte : Nat) {x : Nat}
    (away : ∀ w, w ∈ (allocVpagesLoop s pte rounds).written → x < w ∨ w + 4 ≤ x) :
    (allocVpagesLoop s pte rounds).state.mem x = s.mem x := by
  induction rounds generalizing s pte with
  | zero => rfl
  | succ rounds ih =>
      unfold allocVpagesLoop at away ⊢
      by_cases full : s.allocPage.1 = 0
      · simp only [if_pos full]
        rfl
      · simp only [if_neg full] at away ⊢
        rw [ih _ _ (fun w member => away w (List.mem_cons_of_mem pte member))]
        exact ByteMemory.setWord_other _ _ (away pte (List.mem_cons_self ..))

theorem allocVpagesTable_unwritten (s : PhysicalMemory) (page index size : Nat) {x : Nat}
    (away : ∀ w, w ∈ (allocVpagesTable s page index size).written → x < w ∨ w + 4 ≤ x) :
    (allocVpagesTable s page index size).state.mem x = s.mem x := by
  unfold allocVpagesTable at away ⊢
  dsimp only at away ⊢
  split
  · rfl
  case isFalse unmapped =>
      rw [if_neg unmapped] at away
      exact allocVpagesLoop_unwritten _ _ _ away

/-- The list of written words misses no change of memory. -/
theorem allocVpages_unwritten (s : PhysicalMemory) (pde addr size : Nat) {x : Nat}
    (away : ∀ w, w ∈ (allocVpages s pde addr size).written → x < w ∨ w + 4 ≤ x) :
    (allocVpages s pde addr size).state.mem x = s.mem x := by
  unfold allocVpages at away ⊢
  by_cases absent : pdeValue s.mem pde (pdeIndex addr) = 0
  · simp only [if_pos absent] at away ⊢
    by_cases full : s.allocPage.1 = 0
    · simp only [if_pos full]
      rfl
    · simp only [if_neg full] at away ⊢
      rw [allocVpagesTable_unwritten _ _ _ _
        (fun w member => away w (List.mem_cons_of_mem _ member))]
      exact ByteMemory.setWord_other _ _ (away _ (List.mem_cons_self ..))
  · simp only [if_neg absent] at away ⊢
    exact allocVpagesTable_unwritten _ _ _ _ away

/-! ### Supply of pages -/

namespace Takes

theorem supplied (takes : Takes s pte frames after) : Supplied s.pages frames.length := by
  induction takes with
  | nil => trivial
  | cons took rest ih => exact ⟨took.addr_ne, ih⟩

theorem after_pages (takes : Takes s pte frames after) :
    after.pages = afterAllocs s.pages frames.length := by
  induction takes with
  | nil => rfl
  | cons took rest ih => exact ih

/-- A run that stopped because no page was left was not supplied further. -/
theorem not_supplied (takes : Takes s pte frames after) (full : after.allocPage.1 = 0)
    (short : frames.length < rounds) : ¬ Supplied s.pages rounds := by
  intro supplied
  obtain ⟨more, isMore⟩ := Nat.exists_eq_add_of_lt short
  rw [isMore, Nat.add_assoc, supplied_add, ← takes.after_pages] at supplied
  exact supplied.2.1 full

end Takes

/-! ### Entries of the table -/

/-- What the processor makes of an address whose table entry is `entry`. -/
def entryTarget (entry v : Nat) : Option Nat :=
  if present entry = true then some (alignDown entry + v % pageSize) else none

namespace WentOn

theorem translate_before (went : WentOn s now pde addr T out table)
    (here : pdeIndex v = pdeIndex addr) :
    translate s.mem pde v =
      if pdeValue s.mem pde (pdeIndex addr) = 0 then none
      else entryTarget (slotBefore s pde (pdeIndex addr) (pteIndex v)) v := by
  by_cases absent : pdeValue s.mem pde (pdeIndex addr) = 0
  · rw [if_pos absent]
    unfold translate
    rw [here, absent]
    rfl
  · have same := went.found absent
    have opened := went.opened
    rw [if_neg absent, ← went.found absent,
      went.opened.translate_here (fun _ _ => rfl) here, same]
    unfold slotBefore entryTarget
    rw [went.isTable]

theorem translate_after (went : WentOn s now pde addr T out table)
    (same : ∀ x, x / pageSize ≠ T → mem x = now.mem x) (here : pdeIndex v = pdeIndex addr) :
    translate mem pde v = entryTarget (mem.word (T * pageSize + 4 * pteIndex v)) v :=
  went.opened.translate_here same here

/-- What the call may do to the entry `j`: leave it, where nothing else becomes mapped, or
enter a page of the range, where nothing was mapped otherwise. -/
def SlotQuiet (s : PhysicalMemory) (pde addr size j entry : Nat) : Prop :=
  (entry = slotBefore s pde (pdeIndex addr) j ∧
      (pdeValue s.mem pde (pdeIndex addr) = 0 → present entry = true →
        Meets addr size (slotAddress (pdeIndex addr) j))) ∨
    (Meets addr size (slotAddress (pdeIndex addr) j) ∧ present entry = true ∧
      (pdeValue s.mem pde (pdeIndex addr) ≠ 0 →
        present (slotBefore s pde (pdeIndex addr) j) = true →
          alignDown entry = alignDown (slotBefore s pde (pdeIndex addr) j)))

/-- Where all entries of the table are quiet, so is the memory. -/
theorem frame (went : WentOn s now pde addr T out table) (own : OwnTable s pde (pdeIndex addr))
    (same : ∀ x, x / pageSize ≠ T → mem x = now.mem x)
    (slots : ∀ j, j < 1024 → SlotQuiet s pde addr size j (mem.word (T * pageSize + 4 * j))) :
    (∀ v, v < 4294967296 → ¬ Meets addr size v → translate mem pde v = translate s.mem pde v) ∧
      ∀ v p, v < 4294967296 → translate s.mem pde v = some p → translate mem pde v = some p := by
  constructor
  · intro v below notMeets
    by_cases here : pdeIndex v = pdeIndex addr
    · rw [meets_slot, here] at notMeets
      rw [went.translate_after same here, went.translate_before here]
      rcases slots (pteIndex v) (pteIndex_lt v) with ⟨entry, stale⟩ | ⟨inRange, _⟩
      · rw [entry] at stale ⊢
        by_cases absent : pdeValue s.mem pde (pdeIndex addr) = 0
        · rw [if_pos absent]
          exact if_neg (fun isPresent => notMeets (stale absent isPresent))
        · rw [if_neg absent]
      · exact absurd inRange notMeets
    · exact went.opened.translate_other own same below here
  · intro v p below isMapped
    by_cases here : pdeIndex v = pdeIndex addr
    · rw [went.translate_before here] at isMapped
      rw [went.translate_after same here]
      by_cases absent : pdeValue s.mem pde (pdeIndex addr) = 0
      · rw [if_pos absent] at isMapped
        cases isMapped
      · rw [if_neg absent] at isMapped
        rw [← isMapped]
        rcases slots (pteIndex v) (pteIndex_lt v) with ⟨entry, _⟩ | ⟨_, isPresent, frame⟩
        · rw [entry]
        · unfold entryTarget at isMapped ⊢
          by_cases before : present (slotBefore s pde (pdeIndex addr) (pteIndex v)) = true
          · rw [if_pos before, if_pos isPresent, frame absent before]
          · rw [if_neg before] at isMapped
            cases isMapped
    · rw [went.opened.translate_other own same below here, isMapped]

end WentOn

theorem meets_run {j : Nat} (inside : j < vpagesCount size)
    (fits : pteIndex addr + vpagesCount size ≤ 1024) :
    Meets addr size (slotAddress (pdeIndex addr) (pteIndex addr + j)) := by
  have counted : 4096 * vpagesCount size ≤ size + 4095 := by
    unfold vpagesCount
    omega
  refine ⟨j * 4096 - addr % 4096, by omega, ?_⟩
  unfold slotAddress pdeIndex pteIndex pageSize
  by_cases first : j = 0
  · rw [first]
    omega
  · omega

theorem WentOn.run_slot (went : WentOn s now pde addr T out table)
    (takes : Takes now (T * pageSize + 4 * pteIndex addr) frames after)
    (fits : pteIndex addr + frames.length ≤ 1024) {j : Nat} (inTable : j < 1024) :
    (∃ k, k < frames.length ∧ j = pteIndex addr + k ∧
        after.mem.word (T * pageSize + 4 * j) = runPage s pde addr k + 551 ∧
        ∃ f, runPage s pde addr k = f * pageSize) ∨
      ((∀ k, k < frames.length → j ≠ pteIndex addr + k) ∧
        after.mem.word (T * pageSize + 4 * j) = slotBefore s pde (pdeIndex addr) j) := by
  have small := went.opened.table_small
  have startBelow := slot_below small (pteIndex_lt addr)
  have startAligned := slot_aligned T (pteIndex addr)
  have slotIs := slot_below small inTable
  by_cases inRun : ∃ k, k < frames.length ∧ j = pteIndex addr + k
  · obtain ⟨k, inside, isSlot⟩ := inRun
    left
    have word := takes.word_at startBelow startAligned (by omega) inside
    have place : (T * pageSize + 4 * pteIndex addr + 4 * k) % 4294967296 =
        T * pageSize + 4 * j := by omega
    rw [place, went.pages] at word
    refine ⟨k, inside, isSlot, word, frames[k], ?_⟩
    rw [← went.pages, takes.frame_at inside]
  · right
    have apart : ∀ k, k < frames.length → j ≠ pteIndex addr + k :=
      fun k inside isSlot => inRun ⟨k, inside, isSlot⟩
    refine ⟨apart, ?_⟩
    rw [takes.word_away startBelow startAligned (slot_aligned T j)]
    · rw [went.opened.word_eq went.opened.apartDirectory inTable]
      unfold slotBefore
      rw [went.isTable]
    · intro k inside isWord
      have different := apart k inside
      omega

/-! ### A quiet call -/

theorem enomem_ne {answer : Int} (isZero : answer = 0) : answer ≠ -enomem := by
  rw [isZero]
  decide

theorem onlyRange_idle (state : out.state = s) (written : out.written = []) :
    OnlyRange s pde addr size out := by
  constructor
  · intro v _ _
    rw [state]
  · intro v p _ isMapped
    rw [state, isMapped]
  · intro w member
    rw [written] at member
    cases member
  · intro _
    rw [state]
    exact ⟨fun _ => Iff.rfl, fun _ _ => rfl⟩

theorem OwnTable.entry_page (own : OwnTable s pde d) {i : Nat} (small : i < 1024) :
    (pde + 4 * i) / pageSize = pde / pageSize := by
  obtain ⟨n, isPage⟩ := own.aligned
  unfold pageSize at *
  omega

theorem vpagesRounds_pos (count : Nat) : ∃ rounds, vpagesRounds count = rounds + 1 := by
  apply Nat.exists_eq_succ_of_ne_zero
  unfold vpagesRounds
  split
  · exact Nat.succ_ne_zero _
  · assumption

namespace WentOn

/-- The part behind the directory entry finds the first page mapped, makes its run, or runs out
of pages. -/
theorem table_cases (went : WentOn s now pde addr T out
      (allocVpagesTable now (T * pageSize) (pteIndex addr) size)) :
    (FirstMapped s pde addr ∧
        allocVpagesTable now (T * pageSize) (pteIndex addr) size = ⟨0, now, []⟩) ∨
      ¬ FirstMapped s pde addr ∧ ∃ frames after,
        Takes now (T * pageSize + 4 * pteIndex addr) frames after ∧
          (frames.length = vpagesRounds (vpagesCount size) ∧
              allocVpagesTable now (T * pageSize) (pteIndex addr) size =
                ⟨0, after, writtenWords (T * pageSize + 4 * pteIndex addr) frames.length⟩ ∨
            frames.length < vpagesRounds (vpagesCount size) ∧ after.allocPage.1 = 0 ∧
              allocVpagesTable now (T * pageSize) (pteIndex addr) size =
                ⟨-enomem, after,
                  writtenWords (T * pageSize + 4 * pteIndex addr) frames.length⟩) := by
  by_cases mapped : FirstMapped s pde addr
  · left
    have early := mapped
    unfold FirstMapped at early
    rw [← went.first] at early
    exact ⟨mapped, allocVpagesTable_mapped early size⟩
  · right
    refine ⟨mapped, ?_⟩
    have late := mapped
    unfold FirstMapped at late
    rw [← went.first] at late
    rw [allocVpagesTable_loop late size]
    rcases allocVpagesLoop_cases went.opened.booted (T * pageSize + 4 * pteIndex addr)
        (vpagesRounds (vpagesCount size)) with
      ⟨frames, after, length, takes, ran⟩ | ⟨frames, after, short, takes, full, ran⟩
    · exact ⟨frames, after, takes, Or.inl ⟨length, by rw [ran, length]⟩⟩
    · exact ⟨frames, after, takes, Or.inr ⟨short, full, ran⟩⟩

/-- The directory entry, if it is written, and the words of a run inside the table. -/
theorem writes (went : WentOn s now pde addr T out table)
    (own : OwnTable s pde (pdeIndex addr)) (count : Nat)
    (fits : pteIndex addr + count ≤ 1024)
    (run : ∀ w, w ∈ table.written →
      w ∈ writtenWords (T * pageSize + 4 * pteIndex addr) count) :
    ∀ w, w ∈ out.written → w / pageSize = pde / pageSize ∨
      w / pageSize = tableBefore s pde (pdeIndex addr) / pageSize := by
  intro w member
  rw [went.written] at member
  rcases List.mem_append.mp member with inDirectory | inTable
  · left
    by_cases absent : pdeValue s.mem pde (pdeIndex addr) = 0
    · rw [if_pos absent] at inDirectory
      rw [List.mem_singleton.mp inDirectory]
      exact own.entry_page own.index
    · rw [if_neg absent] at inDirectory
      cases inDirectory
  · right
    have small := went.opened.table_small
    obtain ⟨k, inside, word⟩ :=
      (mem_writtenWords (slot_below small (pteIndex_lt addr))).mp (run w inTable)
    have slotIs := slot_below small (by omega : pteIndex addr + k < 1024)
    rw [went.isTable, word]
    unfold pageSize at *
    omega

end WentOn

theorem allocVpages_quiet (own : OwnTable s pde (pdeIndex addr)) (booted : s.pages.Booted)
    (quiet : AllocQuiet s pde addr size) :
    OnlyRange s pde addr size (allocVpages s pde addr size) := by
  rcases allocVpages_cases own booted with ⟨_, _, failed⟩ | ⟨now, T, went⟩
  · rw [failed]
    exact onlyRange_idle rfl rfl
  · rcases quiet with full | ⟨stale, rest⟩
    · have isPresent : pdeValue s.mem pde (pdeIndex addr) ≠ 0 := by
        intro absent
        exact (went.made absent).1.addr_ne full
      have same := went.found isPresent
      have idle : (allocVpagesTable now (T * pageSize) (pteIndex addr) size).state = s ∧
          (allocVpagesTable now (T * pageSize) (pteIndex addr) size).written = [] := by
        rcases went.table_cases with ⟨_, early⟩ | ⟨_, frames, after, takes, ran⟩
        · rw [early, same]
          exact ⟨rfl, rfl⟩
        · rw [same] at takes ran ⊢
          cases takes with
          | nil =>
              rcases ran with ⟨length, ran⟩ | ⟨_, _, ran⟩
              · obtain ⟨rounds, positive⟩ := vpagesRounds_pos (vpagesCount size)
                rw [positive] at length
                cases length
              · rw [ran]
                exact ⟨rfl, rfl⟩
          | cons took _ => exact absurd full took.addr_ne
      apply onlyRange_idle
      · rw [went.state, idle.1]
      · rw [went.written, if_neg isPresent, idle.2]
        rfl
    · have slotNow : ∀ j, j < 1024 →
          now.mem.word (T * pageSize + 4 * j) = slotBefore s pde (pdeIndex addr) j := by
        intro j inTable
        rw [went.opened.word_eq went.opened.apartDirectory inTable]
        unfold slotBefore
        rw [went.isTable]
      rcases went.table_cases with ⟨mapped, early⟩ | ⟨unmapped, frames, after, takes, ran⟩
      · have effect := went.frame own (fun _ _ => rfl) (by
          intro j inTable
          left
          rw [slotNow j inTable]
          exact ⟨rfl, fun absent => stale absent j inTable⟩)
        rw [← show (allocVpages s pde addr size).state = now by rw [went.state, early]] at effect
        refine ⟨effect.1, effect.2, ?_, ?_⟩
        · apply went.writes own 0 (Nat.le_of_lt (pteIndex_lt addr))
          intro w member
          rw [early] at member
          cases member
        · intro isFailed
          rw [went.answer, early] at isFailed
          exact absurd isFailed (enomem_ne rfl)
      · have fits := rest.resolve_left unmapped
        have positive : vpagesRounds (vpagesCount size) = vpagesCount size :=
          if_neg (Nat.ne_of_gt fits.counted)
        rw [positive] at ran
        rcases ran with ⟨length, ran⟩ | ⟨short, full, _⟩
        · have inTable := fits.inTable
          have same := went.opened.takes_outside takes (by omega)
          have effect := went.frame own same (by
            intro j jInTable
            rcases went.run_slot takes (by omega) jInTable with
              ⟨k, inside, isSlot, word, f, isPage⟩ | ⟨_, word⟩
            · right
              rw [length] at inside
              rw [word, isPage, isSlot]
              refine ⟨meets_run inside inTable, present_entry f, ?_⟩
              intro isPresent before
              rw [alignDown_eq, entry_page, fits.unmapped isPresent k inside before, isPage]
            · left
              rw [word]
              exact ⟨rfl, fun absent => stale absent j jInTable⟩)
          rw [← show (allocVpages s pde addr size).state = after by rw [went.state, ran]]
            at effect
          refine ⟨effect.1, effect.2, ?_, ?_⟩
          · apply went.writes own frames.length (by omega)
            intro w member
            rw [ran] at member
            exact member
          · intro isFailed
            rw [went.answer, ran] at isFailed
            exact absurd isFailed (enomem_ne rfl)
        · have supplied := fits.supplied
          by_cases absent : pdeValue s.mem pde (pdeIndex addr) = 0
          · rw [if_pos absent] at supplied
            apply absurd supplied.2
            rw [← allocPage_pages, ← (went.made absent).2.1]
            exact takes.not_supplied full short
          · rw [if_neg absent, ← went.found absent] at supplied
            exact absurd supplied (takes.not_supplied full short)

/-! ### And only a quiet one -/

namespace WentOn

/-- An entry that stayed as it was in a table made by the call maps a page of the range. -/
theorem stale_meets (went : WentOn s now pde addr T out table)
    (only : OnlyRange s pde addr size out) (absent : pdeValue s.mem pde (pdeIndex addr) = 0)
    (same : ∀ x, x / pageSize ≠ T → out.state.mem x = now.mem x) {j : Nat} (inTable : j < 1024)
    (stays : out.state.mem.word (T * pageSize + 4 * j) = slotBefore s pde (pdeIndex addr) j)
    (isPresent : present (slotBefore s pde (pdeIndex addr) j) = true) :
    Meets addr size (slotAddress (pdeIndex addr) j) := by
  by_contra notMeets
  obtain ⟨here, slot⟩ := slotAddress_indices (pdeIndex addr) inTable
  have equal := only.elsewhere _ (slotAddress_lt went.opened.index inTable) notMeets
  rw [went.translate_after same here, slot, stays, went.translate_before here,
    if_pos absent] at equal
  unfold entryTarget at equal
  rw [if_pos isPresent] at equal
  cases equal

/-- An entry of the run that was present mapped the page it maps now. -/
theorem kept_entry (went : WentOn s now pde addr T out table)
    (only : OnlyRange s pde addr size out) (isMapped : pdeValue s.mem pde (pdeIndex addr) ≠ 0)
    (same : ∀ x, x / pageSize ≠ T → out.state.mem x = now.mem x) {j f : Nat}
    (inTable : j < 1024)
    (entered : out.state.mem.word (T * pageSize + 4 * j) = f * pageSize + 551)
    (isPresent : present (slotBefore s pde (pdeIndex addr) j) = true) :
    alignDown (slotBefore s pde (pdeIndex addr) j) = f * pageSize := by
  obtain ⟨here, slot⟩ := slotAddress_indices (pdeIndex addr) inTable
  have before := went.translate_before here
  rw [if_neg isMapped, slot] at before
  unfold entryTarget at before
  rw [if_pos isPresent] at before
  have later := only.kept _ _ (slotAddress_lt went.opened.index inTable) before
  rw [went.translate_after same here, slot, entered] at later
  unfold entryTarget at later
  rw [if_pos (present_entry f), alignDown_eq, entry_page, Option.some.injEq] at later
  exact (Nat.add_right_cancel later).symm

theorem took_some (went : WentOn s now pde addr T out table) (found : s.allocPage.1 ≠ 0)
    (takes : Takes now pte frames after) (full : after.allocPage.1 = 0) :
    ¬ ∀ p, after.Used p ↔ s.Used p := by
  intro unchanged
  by_cases absent : pdeValue s.mem pde (pdeIndex addr) = 0
  · obtain ⟨took, pages, _⟩ := went.made absent
    apply took.fresh
    rw [← unchanged]
    refine (takes.used T).mpr (Or.inl ?_)
    unfold Used
    rw [pages]
    exact took.took
  · rw [went.found absent] at takes
    cases takes with
    | nil => exact found full
    | cons took rest =>
        apply took.fresh
        rw [← unchanged]
        exact (rest.used _).mpr (Or.inl took.took)

/-- A run that leaves its table writes the page behind it. -/
theorem stays_inside (went : WentOn s now pde addr T out table)
    (only : OnlyRange s pde addr size out) (behind : BehindApart s pde addr) {count : Nat}
    (run : table.written = writtenWords (T * pageSize + 4 * pteIndex addr) count) :
    pteIndex addr + count ≤ 1024 := by
  by_contra leaves
  have small := went.opened.table_small
  have inTable := pteIndex_lt addr
  have startBelow := slot_below small inTable
  have member : (T * pageSize + 4 * 1024) % 4294967296 ∈ out.written := by
    rw [went.written, run]
    apply List.mem_append_right
    rw [mem_writtenWords startBelow]
    exact ⟨1024 - pteIndex addr, by omega, by omega⟩
  have next : (T * pageSize + 4 * 1024) % 4294967296 / pageSize = (T + 1) % 1048576 := by
    unfold pageSize
    omega
  have page : tableBefore s pde (pdeIndex addr) / pageSize = T := by
    rw [went.isTable, Nat.mul_div_cancel _ (by decide : 0 < pageSize)]
  unfold BehindApart at behind
  rw [page] at behind
  have allowed := only.writes _ member
  rw [next, page] at allowed
  rcases allowed with isDirectory | isTable
  · exact behind isDirectory
  · omega

end WentOn

/-- A call that has an effect on the range only is a quiet one. -/
theorem quiet_of_onlyRange (own : OwnTable s pde (pdeIndex addr)) (booted : s.pages.Booted)
    (behind : BehindApart s pde addr)
    (only : OnlyRange s pde addr size (allocVpages s pde addr size)) :
    AllocQuiet s pde addr size := by
  by_cases full : s.allocPage.1 = 0
  · exact Or.inl full
  · right
    rcases allocVpages_cases own booted with ⟨none, _, _⟩ | ⟨now, T, went⟩
    · exact absurd none full
    · rcases went.table_cases with ⟨mapped, early⟩ | ⟨unmapped, frames, after, takes, ran⟩
      · have state : (allocVpages s pde addr size).state = now := by rw [went.state, early]
        refine ⟨?_, Or.inl mapped⟩
        intro absent j inTable isPresent
        apply went.stale_meets only absent _ inTable _ isPresent
        · intro x _
          rw [state]
        · rw [state, went.opened.word_eq went.opened.apartDirectory inTable]
          unfold slotBefore
          rw [went.isTable]
      · rcases ran with ⟨length, ran⟩ | ⟨_, noPage, ran⟩
        · have state : (allocVpages s pde addr size).state = after := by rw [went.state, ran]
          have fits := went.stays_inside only behind (by rw [ran])
          have counted : vpagesCount size ≠ 0 := by
            intro zero
            unfold vpagesRounds at length
            rw [if_pos zero] at length
            omega
          have rounds : frames.length = vpagesCount size := by
            rw [length]
            exact if_neg counted
          have same := went.opened.takes_outside takes fits
          rw [← state] at same
          constructor
          · intro absent j inTable isPresent
            rcases went.run_slot takes fits inTable with ⟨k, inside, isSlot, _⟩ | ⟨_, word⟩
            · rw [rounds] at inside fits
              rw [isSlot]
              exact meets_run inside fits
            · exact went.stale_meets only absent same inTable (by rw [state, word]) isPresent
          · right
            rw [rounds] at fits
            refine ⟨Nat.pos_of_ne_zero counted, fits, ?_, ?_⟩
            · have supplied := takes.supplied
              rw [rounds] at supplied
              by_cases absent : pdeValue s.mem pde (pdeIndex addr) = 0
              · rw [if_pos absent]
                rw [(went.made absent).2.1] at supplied
                exact ⟨full, supplied⟩
              · rw [if_neg absent, ← went.found absent]
                exact supplied
            · intro isMapped j inside isPresent
              have inTable : pteIndex addr + j < 1024 := by omega
              rcases went.run_slot takes (by omega) inTable with
                ⟨k, _, isSlot, word, f, isPage⟩ | ⟨apart, _⟩
              · have equal : j = k := by omega
                rw [← equal] at word isPage
                rw [isPage] at word ⊢
                exact went.kept_entry only isMapped same inTable (by rw [state, word]) isPresent
              · exact absurd rfl (apart j (by omega))
        · have state : (allocVpages s pde addr size).state = after := by rw [went.state, ran]
          have isFailed : (allocVpages s pde addr size).answer = -enomem := by
            rw [went.answer, ran]
          have unchanged := (only.failed isFailed).1
          rw [state] at unchanged
          exact absurd unchanged (went.took_some full takes noPage)

/-- alloc_vpages has an effect on the range only if it is quiet; unless the page behind the
table is the directory, only then. -/
theorem allocVpages_onlyRange_iff (own : OwnTable s pde (pdeIndex addr))
    (booted : s.pages.Booted) (size : Nat) :
    (AllocQuiet s pde addr size → OnlyRange s pde addr size (allocVpages s pde addr size)) ∧
      (BehindApart s pde addr → OnlyRange s pde addr size (allocVpages s pde addr size) →
        AllocQuiet s pde addr size) :=
  ⟨allocVpages_quiet own booted, fun behind only => quiet_of_onlyRange own booted behind only⟩

/-- The second user page. -/
theorem allocVpages_onlyRange_secondPage :
    (AllocQuiet onePage 4096 1073745920 4096 →
        OnlyRange onePage 4096 1073745920 4096 (allocVpages onePage 4096 1073745920 4096)) ∧
      (BehindApart onePage 4096 1073745920 →
        OnlyRange onePage 4096 1073745920 4096 (allocVpages onePage 4096 1073745920 4096) →
          AllocQuiet onePage 4096 1073745920 4096) :=
  allocVpages_onlyRange_iff (onePage_tables.own (pdeIndex_user (by decide) (by decide)))
    onePage_booted 4096

/-- 13 pages are asked for and 12 are left: the answer is -ENOMEM, and the 12 are gone. -/
theorem allocVpages_halfway :
    OwnTable onePage 4096 (pdeIndex 1073745920) ∧ onePage.pages.Booted ∧
      (allocVpages onePage 4096 1073745920 53248).answer = -enomem ∧
      ¬ OnlyRange onePage 4096 1073745920 53248 (allocVpages onePage 4096 1073745920 53248) := by
  have failed : (allocVpages onePage 4096 1073745920 53248).answer = -enomem := by decide +kernel
  refine ⟨onePage_tables.own (pdeIndex_user (by decide) (by decide)), onePage_booted, failed, ?_⟩
  intro only
  have taken : (allocVpages onePage 4096 1073745920 53248).state.Used 4 := by decide +kernel
  have wasFree : ¬ onePage.Used 4 := by decide +kernel
  exact wasFree (((only.failed failed).1 4).mp taken)

end MangoOS
