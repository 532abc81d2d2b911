/-
The inner loop of copy_memory: one page table.

The loop takes one fresh page for each present entry of the parent's table, in order,
and leaves the other entries of the child's table as they were in the fresh page.
-/

import MangoOS.Memory.AddressSpace

namespace MangoOS

open PhysicalMemory

/-- The bytes of page `n` from its entry `i` on. -/
def EntriesFrom (n i x : Nat) : Prop := n * pageSize + 4 * i ≤ x ∧ x < (n + 1) * pageSize

theorem EntriesFrom.page {n i x : Nat} (inside : EntriesFrom n i x) : x / pageSize = n := by
  unfold EntriesFrom pageSize at *
  omega

theorem EntriesFrom.earlier {n i k x : Nat} (inside : EntriesFrom n i x) (le : k ≤ i) :
    EntriesFrom n k x := by
  unfold EntriesFrom at *
  omega

theorem entry_outside {n i k x : Nat} (before : k < i) (upper : x < n * pageSize + 4 * k + 4) :
    ¬ EntriesFrom n i x := by
  unfold EntriesFrom
  omega

theorem entry_aligned (n k : Nat) : 4 ∣ n * pageSize + 4 * k := by
  unfold pageSize
  omega

theorem entry_inPage (n : Nat) {k : Nat} (small : k < 1024) :
    (n * pageSize + 4 * k) / pageSize = n := by
  unfold pageSize
  omega

theorem byte_inPage (n : Nat) {o : Nat} (small : o < pageSize) :
    (n * pageSize + o) / pageSize = n := by
  unfold pageSize at *
  omega

theorem page_outside {x f : Nat} (different : x / pageSize ≠ f) :
    x < f * pageSize ∨ f * pageSize + pageSize ≤ x := by
  unfold pageSize at *
  omega

/-- The bitmap after `count` calls of `alloc_pages(1)`. -/
def afterAllocs (pages : BitMap) : (count : Nat) → BitMap
  | 0 => pages
  | count + 1 => afterAllocs (allocPages pages 1).2 count

/-- The next `count` calls of `alloc_pages(1)` all find a page. -/
def Supplied (pages : BitMap) : (count : Nat) → Prop
  | 0 => True
  | count + 1 => (allocPages pages 1).1 ≠ 0 ∧ Supplied (allocPages pages 1).2 count

/-- The number of present entries from `j` on among `count` entries of a table. -/
def presentCount (mem : ByteMemory) (ppte j : Nat) : (count : Nat) → Nat
  | 0 => 0
  | count + 1 =>
      (if present (mem.word (ppte + 4 * j)) then 1 else 0) + presentCount mem ppte (j + 1) count

theorem afterAllocs_succ (pages : BitMap) (count : Nat) :
    afterAllocs pages (count + 1) = afterAllocs (allocPages pages 1).2 count := rfl

theorem afterAllocs_add (pages : BitMap) (first second : Nat) :
    afterAllocs pages (first + second) = afterAllocs (afterAllocs pages first) second := by
  induction first generalizing pages with
  | zero =>
      rw [Nat.zero_add]
      rfl
  | succ first ih =>
      rw [Nat.add_right_comm, afterAllocs_succ, afterAllocs_succ]
      exact ih (allocPages pages 1).2

theorem supplied_succ (pages : BitMap) (count : Nat) :
    Supplied pages (count + 1) ↔
      (allocPages pages 1).1 ≠ 0 ∧ Supplied (allocPages pages 1).2 count := Iff.rfl

theorem supplied_add (pages : BitMap) (first second : Nat) :
    Supplied pages (first + second) ↔
      Supplied pages first ∧ Supplied (afterAllocs pages first) second := by
  induction first generalizing pages with
  | zero =>
      rw [Nat.zero_add]
      exact ⟨fun supplied => ⟨trivial, supplied⟩, fun both => both.2⟩
  | succ first ih =>
      rw [Nat.add_right_comm, supplied_succ, supplied_succ, afterAllocs_succ, ih, and_assoc]

theorem presentCount_succ (mem : ByteMemory) (ppte j count : Nat) :
    presentCount mem ppte j (count + 1) =
      (if present (mem.word (ppte + 4 * j)) then 1 else 0) + presentCount mem ppte (j + 1) count :=
  rfl

theorem presentCount_congr {mem other : ByteMemory} {ppte : Nat} (count : Nat) :
    ∀ j, (∀ k, j ≤ k → k < j + count → other.word (ppte + 4 * k) = mem.word (ppte + 4 * k)) →
      presentCount other ppte j count = presentCount mem ppte j count := by
  induction count with
  | zero =>
      intro j same
      rfl
  | succ count ih =>
      intro j same
      rw [presentCount_succ, presentCount_succ, same j (Nat.le_refl j) (by omega),
        ih (j + 1) (fun k lower upper => same k (by omega) (by omega))]

theorem presentCount_none {mem : ByteMemory} {ppte : Nat} (count : Nat) :
    ∀ j, (∀ k, j ≤ k → k < j + count → mem.word (ppte + 4 * k) = 0) →
      presentCount mem ppte j count = 0 := by
  induction count with
  | zero =>
      intro j none
      rfl
  | succ count ih =>
      intro j none
      rw [presentCount_succ, none j (Nat.le_refl j) (by omega),
        ih (j + 1) (fun k lower upper => none k (by omega) (by omega))]
      rfl

/-! ### One page -/

variable {s : PhysicalMemory} {T t j f : Nat}

theorem copyPage_mem (s : PhysicalMemory) (ppte : Nat) {x : Nat}
    (notEntry : x < t * pageSize + 4 * j ∨ t * pageSize + 4 * j + 4 ≤ x)
    (notFrame : x / pageSize ≠ f) :
    (copyPage s ppte (t * pageSize) j (f * pageSize)).mem x = s.mem x := by
  unfold copyPage
  rw [setMem_mem, kmemcpy_outside]
  · apply ByteMemory.setWord_other
    exact notEntry
  · rw [Int.toNat_natCast]
    exact page_outside notFrame

theorem copyPage_entry (s : PhysicalMemory) (ppte : Nat) (small : f < 1048576) (inTable : j < 1024)
    (different : f ≠ t) :
    (copyPage s ppte (t * pageSize) j (f * pageSize)).mem.word (t * pageSize + 4 * j) =
      f * pageSize + 551 := by
  have kept : (copyPage s ppte (t * pageSize) j (f * pageSize)).mem.word (t * pageSize + 4 * j) =
      (s.mem.setWord (t * pageSize + 4 * j) (f * pageSize ||| pageShared)).word
        (t * pageSize + 4 * j) := by
    apply ByteMemory.word_congr
    intro x lower upper
    unfold copyPage
    rw [setMem_mem, kmemcpy_outside]
    unfold pageSize at *
    omega
  rw [kept, ByteMemory.word_setWord, entry_eq, Nat.mod_eq_of_lt (entry_lt small)]

theorem copyPage_other (s : PhysicalMemory) (ppte : Nat) {k : Nat} (inTable : k < 1024)
    (entries : k ≠ j) (different : f ≠ t) :
    (copyPage s ppte (t * pageSize) j (f * pageSize)).mem.word (t * pageSize + 4 * k) =
      s.mem.word (t * pageSize + 4 * k) := by
  apply ByteMemory.word_congr
  intro x lower upper
  apply copyPage_mem
  · omega
  · unfold pageSize at *
    omega

/-- The new frame holds the bytes of the parent's frame `source`. -/
theorem copyPage_content (s : PhysicalMemory) {source o : Nat} (nonzero : f ≠ 0)
    (isSource : s.mem.word (T * pageSize + 4 * j) / pageSize = source) (sourceNonzero : source ≠ 0)
    (tables : T ≠ t) (sourceTable : source ≠ t) (sourceFrame : source ≠ f) (inTable : j < 1024)
    (inPage : o < pageSize) :
    (copyPage s (T * pageSize) (t * pageSize) j (f * pageSize)).mem (f * pageSize + o) =
      s.mem (source * pageSize + o) := by
  unfold copyPage
  rw [setMem_mem, ByteMemory.word_setWord_other _ _ (by unfold pageSize; omega), alignDown_eq,
    isSource]
  unfold kmemcpy
  have frameNonzero : f * pageSize ≠ 0 := Nat.mul_ne_zero nonzero (by decide)
  have addrNonzero : source * pageSize ≠ 0 := Nat.mul_ne_zero sourceNonzero (by decide)
  rw [if_neg (by unfold pageSize at *; omega), Int.toNat_natCast,
    kmemcpyLoop_inside _ _ _ _ (by unfold pageSize; omega) inPage]
  apply ByteMemory.setWord_other
  unfold pageSize at *
  omega

theorem copyPage_grows (ppte : Nat) (took : s.Took f) (inTable : j < 1024) :
    Grows (EntriesFrom t j) s
      (copyPage s.allocPage.2 ppte (t * pageSize) j (f * pageSize)) := by
  have taken := Grows.took (EntriesFrom t j) took
  refine ⟨taken.nbits, taken.kept, ?_⟩
  intro x changed
  by_cases frame : x / pageSize = f
  · rw [frame]
    exact Or.inr ⟨took.fresh, took.took⟩
  · left
    by_contra outside
    apply changed
    refine copyPage_mem s.allocPage.2 ppte ?_ frame
    unfold EntriesFrom pageSize at *
    omega

/-! ### The loop -/

theorem copyTableLoop_skip (ppte pte count : Nat)
    (absent : ¬ present (s.mem.word (ppte + 4 * j)) = true) :
    copyTableLoop s ppte pte j (count + 1) = copyTableLoop s ppte pte (j + 1) count := if_neg absent

theorem copyTableLoop_full (ppte pte count : Nat)
    (isPresent : present (s.mem.word (ppte + 4 * j)) = true) (full : s.allocPage.1 = 0) :
    copyTableLoop s ppte pte j (count + 1) = (false, s.allocPage.2) := by
  change (if present (s.mem.word (ppte + 4 * j)) then _ else _) = _
  rw [if_pos isPresent]
  exact if_pos full

theorem copyTableLoop_copy (ppte pte count : Nat)
    (isPresent : present (s.mem.word (ppte + 4 * j)) = true) (took : s.Took f) :
    copyTableLoop s ppte pte j (count + 1) =
      copyTableLoop (copyPage s.allocPage.2 ppte pte j (f * pageSize)) ppte pte (j + 1) count := by
  change (if present (s.mem.word (ppte + 4 * j)) then _ else _) = _
  rw [if_pos isPresent]
  change (if s.allocPage.1 = 0 then _ else _) = _
  rw [if_neg took.addr_ne, took.addr]

/-- Whether or not it ends early, the loop takes free pages and writes the table. -/
theorem copyTableLoop_grows (ppte : Nat) (count : Nat) :
    ∀ s j, s.pages.Booted → j + count ≤ 1024 →
      Grows (EntriesFrom t j) s (copyTableLoop s ppte (t * pageSize) j count).2 := by
  induction count with
  | zero =>
      intro s j booted inTable
      exact Grows.refl _ s
  | succ count ih =>
      intro s j booted inTable
      have rest : ∀ now : PhysicalMemory, now.pages.Booted →
          Grows (EntriesFrom t j) now (copyTableLoop now ppte (t * pageSize) (j + 1) count).2 := by
        intro now nowBooted
        refine (ih now (j + 1) nowBooted (by omega)).weaken ?_
        intro x inside
        exact Or.inl (inside.earlier (by omega))
      by_cases isPresent : present (s.mem.word (ppte + 4 * j)) = true
      · rcases allocPage_cases booted with ⟨full, same⟩ | ⟨f, took⟩
        · rw [copyTableLoop_full ppte _ count isPresent full, same]
          exact Grows.refl _ s
        · rw [copyTableLoop_copy ppte _ count isPresent took]
          have step := copyPage_grows (t := t) ppte took (by omega : j < 1024)
          exact step.trans (rest _ (step.booted booted))
      · rw [copyTableLoop_skip ppte _ count isPresent]
        exact rest s booted

/-- `entry` maps a page taken since `s` that holds a copy of the frame of `source`. -/
structure FreshCopy (s after : PhysicalMemory) (entry source : Nat) : Prop where
  shape : entry = entry / pageSize * pageSize + 551
  fresh : ¬ s.Used (entry / pageSize)
  taken : after.Used (entry / pageSize)
  bytes : ∀ o, o < pageSize →
    after.mem (entry / pageSize * pageSize + o) = s.mem (source / pageSize * pageSize + o)

theorem FreshCopy.rebase {own : Nat → Prop} {first after : PhysicalMemory} {entry source : Nat}
    (copy : FreshCopy s after entry source) (grows : Grows own first s)
    (used : first.Used (source / pageSize)) (outside : ∀ x, own x → x / pageSize ≠ source / pageSize) :
    FreshCopy first after entry source := by
  refine ⟨copy.shape, fun wasUsed => copy.fresh (grows.kept _ wasUsed), copy.taken, ?_⟩
  intro o inPage
  rw [copy.bytes o inPage]
  have samePage := byte_inPage (source / pageSize) inPage
  apply grows.byte
  · rw [samePage]
    exact used
  · intro inside
    exact outside _ inside samePage

theorem FreshCopy.persist {own : Nat → Prop} {middle after : PhysicalMemory} {entry source : Nat}
    (copy : FreshCopy s middle entry source) (grows : Grows own middle after)
    (outside : ∀ x, own x → s.Used (x / pageSize)) : FreshCopy s after entry source := by
  refine ⟨copy.shape, copy.fresh, grows.kept _ copy.taken, ?_⟩
  intro o inPage
  rw [← copy.bytes o inPage]
  have samePage := byte_inPage (entry / pageSize) inPage
  apply grows.byte
  · rw [samePage]
    exact copy.taken
  · intro inside
    apply copy.fresh
    rw [← samePage]
    exact outside _ inside

/-- The parent's table `T` as the loop needs it: in pages taken before, apart from `t`. -/
structure TableSource (pages : Nat → Prop) (s : PhysicalMemory) (T t : Nat) : Prop where
  used : ∀ p, pages p → s.Used p
  apart : ¬ pages t
  child : s.Used t
  table : pages T
  frames : ∀ k, k < 1024 → present (s.mem.word (T * pageSize + 4 * k)) = true →
    pages (s.mem.word (T * pageSize + 4 * k) / pageSize) ∧
      s.mem.word (T * pageSize + 4 * k) / pageSize ≠ 0

variable {pages : Nat → Prop} {own : Nat → Prop} {after : PhysicalMemory}

theorem TableSource.ne (source : TableSource pages s T t) {p : Nat} (member : pages p) : p ≠ t :=
  fun same => source.apart (same ▸ member)

theorem TableSource.entry (source : TableSource pages s T t) (grows : Grows (EntriesFrom t j) s after)
    {k : Nat} (small : k < 1024) :
    after.mem.word (T * pageSize + 4 * k) = s.mem.word (T * pageSize + 4 * k) := by
  apply grows.word (entry_aligned T k)
  · rw [entry_inPage T small]
    exact source.used T source.table
  · intro x lower upper inside
    have child := inside.page
    have different := source.ne source.table
    unfold pageSize at *
    omega

theorem TableSource.grow (source : TableSource pages s T t)
    (grows : Grows (EntriesFrom t j) s after) : TableSource pages after T t := by
  refine ⟨fun p member => grows.kept p (source.used p member), source.apart,
    grows.kept t source.child, source.table, ?_⟩
  intro k small isPresent
  rw [source.entry grows small] at isPresent ⊢
  exact source.frames k small isPresent

/-- What the loop over the entries `j, …, j + count - 1` did when it ran to its end. -/
structure TableCopied (s after : PhysicalMemory) (T t j count : Nat) : Prop where
  calls : after.pages = afterAllocs s.pages (presentCount s.mem (T * pageSize) j count)
  copied : ∀ k, j ≤ k → k < j + count → present (s.mem.word (T * pageSize + 4 * k)) = true →
    FreshCopy s after (after.mem.word (t * pageSize + 4 * k)) (s.mem.word (T * pageSize + 4 * k))
  skipped : ∀ k, j ≤ k → k < j + count → ¬ present (s.mem.word (T * pageSize + 4 * k)) = true →
    after.mem.word (t * pageSize + 4 * k) = s.mem.word (t * pageSize + 4 * k)
  distinct : ∀ k l, j ≤ k → k < l → l < j + count →
    present (s.mem.word (T * pageSize + 4 * k)) = true →
    present (s.mem.word (T * pageSize + 4 * l)) = true →
    after.mem.word (t * pageSize + 4 * k) / pageSize ≠
      after.mem.word (t * pageSize + 4 * l) / pageSize

/-- Later entries are written after entry `k` is settled. -/
theorem PhysicalMemory.Grows.settled {k : Nat} (grows : Grows (EntriesFrom t j) s after) (used : s.Used t)
    (before : k < j) (small : k < 1024) :
    after.mem.word (t * pageSize + 4 * k) = s.mem.word (t * pageSize + 4 * k) := by
  apply grows.word (entry_aligned t k)
  · rw [entry_inPage t small]
    exact used
  · intro x lower upper
    exact entry_outside before upper

theorem copyPage_fresh (source : TableSource pages s T t) (took : s.Took f) (small : j < 1024)
    (isPresent : present (s.mem.word (T * pageSize + 4 * j)) = true) :
    FreshCopy s (copyPage s.allocPage.2 (T * pageSize) (t * pageSize) j (f * pageSize))
      (f * pageSize + 551) (s.mem.word (T * pageSize + 4 * j)) := by
  obtain ⟨member, nonzero⟩ := source.frames j small isPresent
  have child : f ≠ t := fun same => took.fresh (same ▸ source.child)
  have frame : s.mem.word (T * pageSize + 4 * j) / pageSize ≠ f :=
    fun same => took.fresh (same ▸ source.used _ member)
  have step := copyPage_grows (t := t) (T * pageSize) took small
  constructor
  · rw [entry_page]
  · rw [entry_page]
    exact took.fresh
  · rw [entry_page]
    exact took.took
  · intro o inPage
    rw [entry_page]
    exact copyPage_content s.allocPage.2 (Nat.ne_of_gt took.nonzero) rfl nonzero
      (source.ne source.table) (source.ne member) frame small inPage

theorem copyTableLoop_copied (count : Nat) :
    ∀ s j, s.pages.Booted → j + count ≤ 1024 → TableSource pages s T t →
      (copyTableLoop s (T * pageSize) (t * pageSize) j count).1 = true →
      TableCopied s (copyTableLoop s (T * pageSize) (t * pageSize) j count).2 T t j count := by
  induction count with
  | zero =>
      intro s j booted inTable source done
      refine ⟨rfl, ?_, ?_, ?_⟩ <;> intros <;> omega
  | succ count ih =>
      intro s j booted inTable source done
      by_cases isPresent : present (s.mem.word (T * pageSize + 4 * j)) = true
      · rcases allocPage_cases booted with ⟨full, same⟩ | ⟨f, took⟩
        · rw [copyTableLoop_full _ _ count isPresent full] at done
          cases done
        · rw [copyTableLoop_copy _ _ count isPresent took] at done ⊢
          have inside : j < 1024 := by omega
          have step := copyPage_grows (t := t) (T * pageSize) took inside
          have copy := copyPage_fresh source took inside isPresent
          have child : f ≠ t := fun same => took.fresh (same ▸ source.child)
          have others := fun k (small : k < 1024) (other : k ≠ j) =>
            copyPage_other s.allocPage.2 (T * pageSize) small other child
          have entry := copyPage_entry s.allocPage.2 (T * pageSize) took.small inside child
          have calls : (copyPage s.allocPage.2 (T * pageSize) (t * pageSize) j
            (f * pageSize)).pages = (allocPages s.pages 1).2 := rfl
          generalize copyPage s.allocPage.2 (T * pageSize) (t * pageSize) j (f * pageSize) =
            now at *
          have rest := ih now (j + 1) (step.booted booted) (by omega) (source.grow step) done
          have grows := copyTableLoop_grows (t := t) (T * pageSize) count now (j + 1)
            (step.booted booted) (by omega)
          generalize (copyTableLoop now (T * pageSize) (t * pageSize) (j + 1) count).2 = after at *
          have taken := step.kept t source.child
          have head : after.mem.word (t * pageSize + 4 * j) = f * pageSize + 551 :=
            (grows.settled taken (by omega) inside).trans entry
          have same : ∀ k, k < 1024 →
              now.mem.word (T * pageSize + 4 * k) = s.mem.word (T * pageSize + 4 * k) :=
            fun k small => source.entry step small
          constructor
          · rw [rest.calls, calls, presentCount_congr count (j + 1) (fun k _ upper => same k (by omega))]
            rw [presentCount_succ, if_pos isPresent, Nat.add_comm 1, afterAllocs_succ]
          · intro k lower upper kPresent
            by_cases first : k = j
            · subst first
              rw [head]
              exact copy.persist grows (fun x inEntries => inEntries.page ▸ source.child)
            · have small : k < 1024 := by omega
              have later := rest.copied k (by omega) (by omega) (by rw [same k small]; exact kPresent)
              rw [same k small] at later
              have member := (source.frames k small kPresent).1
              refine later.rebase step (source.used _ member) ?_
              intro x inEntries
              rw [inEntries.page]
              exact (source.ne member).symm
          · intro k lower upper kAbsent
            by_cases first : k = j
            · subst first
              exact False.elim (kAbsent isPresent)
            · have small : k < 1024 := by omega
              rw [rest.skipped k (by omega) (by omega) (by rw [same k small]; exact kAbsent)]
              exact others k small first
          · intro k l lower less upper kPresent lPresent
            have small : l < 1024 := by omega
            rw [← same l small] at lPresent
            by_cases first : k = j
            · subst first
              rw [head, entry_page]
              intro equal
              have fresh := (rest.copied l (by omega) (by omega) lPresent).fresh
              rw [← equal] at fresh
              have taken := copy.taken
              rw [entry_page] at taken
              exact fresh taken
            · rw [← same k (by omega)] at kPresent
              exact rest.distinct k l (by omega) less (by omega) kPresent lPresent
      · rw [copyTableLoop_skip _ _ count isPresent] at done ⊢
        have rest := ih s (j + 1) booted (by omega) source done
        have grows := copyTableLoop_grows (t := t) (T * pageSize) count s (j + 1) booted (by omega)
        generalize (copyTableLoop s (T * pageSize) (t * pageSize) (j + 1) count).2 = after at *
        constructor
        · rw [rest.calls]
          rw [presentCount_succ, if_neg isPresent, Nat.zero_add]
        · intro k lower upper kPresent
          by_cases first : k = j
          · subst first
            exact False.elim (isPresent kPresent)
          · exact rest.copied k (by omega) (by omega) kPresent
        · intro k lower upper kAbsent
          by_cases first : k = j
          · subst first
            exact grows.settled source.child (by omega) (by omega)
          · exact rest.skipped k (by omega) (by omega) kAbsent
        · intro k l lower less upper kPresent lPresent
          by_cases first : k = j
          · subst first
            exact False.elim (isPresent kPresent)
          · exact rest.distinct k l (by omega) less (by omega) kPresent lPresent

/-- The loop runs to its end exactly when every page it asks for is found. -/
theorem copyTableLoop_done (count : Nat) :
    ∀ s j, s.pages.Booted → j + count ≤ 1024 → TableSource pages s T t →
      ((copyTableLoop s (T * pageSize) (t * pageSize) j count).1 = true ↔
        Supplied s.pages (presentCount s.mem (T * pageSize) j count)) := by
  induction count with
  | zero =>
      intro s j booted inTable source
      exact ⟨fun _ => trivial, fun _ => rfl⟩
  | succ count ih =>
      intro s j booted inTable source
      rw [presentCount_succ]
      by_cases isPresent : present (s.mem.word (T * pageSize + 4 * j)) = true
      · rw [if_pos isPresent, Nat.add_comm 1, supplied_succ]
        rcases allocPage_cases booted with ⟨full, same⟩ | ⟨f, took⟩
        · rw [copyTableLoop_full _ _ count isPresent full]
          constructor
          · intro done
            cases done
          · rintro ⟨found, _⟩
            exact False.elim (found full)
        · have found : (allocPages s.pages 1).1 ≠ 0 := took.addr_ne
          rw [copyTableLoop_copy _ _ count isPresent took, and_iff_right found]
          have step := copyPage_grows (t := t) (T * pageSize) took (by omega : j < 1024)
          have calls : (copyPage s.allocPage.2 (T * pageSize) (t * pageSize) j
            (f * pageSize)).pages = (allocPages s.pages 1).2 := rfl
          generalize copyPage s.allocPage.2 (T * pageSize) (t * pageSize) j (f * pageSize) =
            now at *
          rw [ih now (j + 1) (step.booted booted) (by omega) (source.grow step), calls,
            presentCount_congr count (j + 1) (fun k _ upper => source.entry step (by omega))]
      · rw [copyTableLoop_skip _ _ count isPresent, if_neg isPresent, Nat.zero_add]
        exact ih s (j + 1) booted (by omega) source

end MangoOS
