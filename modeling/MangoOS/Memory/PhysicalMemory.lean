/-
Physical memory with its page bitmap, one page at a time.

`Grows own` is the frame of every operation that builds page tables: it takes free
pages, and changes bytes of those pages and of `own` only.
-/

import MangoOS.Memory.Pages
import MangoOS.Memory.Paging
import MangoOS.Memory.ByteCopy

namespace MangoOS

structure PhysicalMemory where
  mem : ByteMemory
  pages : BitMap

namespace PhysicalMemory

/-- `alloc_pages(1)`. -/
def allocPage (s : PhysicalMemory) : Nat × PhysicalMemory :=
  ((allocPages s.pages 1).1, { s with pages := (allocPages s.pages 1).2 })

/-- `free_pages(addr, 1)`. -/
def freePage (s : PhysicalMemory) (addr : Nat) : PhysicalMemory :=
  { s with pages := freePages s.pages addr 1 }

/-- The page number `p` is taken. -/
def Used (s : PhysicalMemory) (p : Nat) : Prop := s.pages.used p = true

instance (s : PhysicalMemory) (p : Nat) : Decidable (s.Used p) :=
  inferInstanceAs (Decidable (s.pages.used p = true))

def setMem (s : PhysicalMemory) (mem : ByteMemory) : PhysicalMemory := { s with mem := mem }

@[simp] theorem setMem_mem (s : PhysicalMemory) (mem : ByteMemory) : (s.setMem mem).mem = mem := rfl

@[simp] theorem setMem_pages (s : PhysicalMemory) (mem : ByteMemory) :
    (s.setMem mem).pages = s.pages := rfl

@[simp] theorem used_setMem (s : PhysicalMemory) (mem : ByteMemory) (p : Nat) :
    (s.setMem mem).Used p ↔ s.Used p := Iff.rfl

theorem allocPage_addr (s : PhysicalMemory) : s.allocPage.1 = (allocPages s.pages 1).1 := rfl

theorem allocPage_pages (s : PhysicalMemory) : s.allocPage.2.pages = (allocPages s.pages 1).2 := rfl

@[simp] theorem allocPage_mem (s : PhysicalMemory) : s.allocPage.2.mem = s.mem := rfl

/-- What a call of `alloc_pages(1)` that found the page `f` did. -/
structure Took (s : PhysicalMemory) (f : Nat) : Prop where
  nonzero : 0 < f
  small : f < 1048576
  addr : s.allocPage.1 = f * pageSize
  fresh : ¬ s.Used f
  nbits : s.allocPage.2.pages.nbits = s.pages.nbits
  used : ∀ p, s.allocPage.2.Used p ↔ s.Used p ∨ p = f

theorem allocPage_cases {s : PhysicalMemory} (booted : s.pages.Booted) :
    (s.allocPage.1 = 0 ∧ s.allocPage.2 = s) ∨ ∃ f, s.Took f := by
  rcases (PagesOwned.start s.pages).allocPages_spec booted 1 (Nat.le_refl 1) with
    ⟨refused, _⟩ | ⟨found, nonzero, small, run, served⟩
  · left
    unfold allocPage
    rw [refused]
    exact ⟨rfl, rfl⟩
  · right
    have clear := run.clear found (Nat.le_refl found) (by omega)
    refine ⟨found, nonzero, small, ?_, ?_, ?_, ?_⟩
    · unfold allocPage
      rw [served]
    · unfold Used
      rw [clear]
      exact Bool.false_ne_true
    · unfold allocPage
      rw [served]
      exact bitmapSetBits_nbits ..
    · intro p
      unfold allocPage Used
      rw [served]
      change (bitmapSetBits s.pages found true 1 true).used p = true ↔ _
      rw [bitmapSetBits_used s.pages found 1 p true (Nat.le_refl 1)]
      by_cases same : p = found
      · rw [if_pos (by omega)]
        exact ⟨fun _ => Or.inr same, fun _ => rfl⟩
      · rw [if_neg (by omega)]
        exact ⟨Or.inl, fun either => either.resolve_right same⟩

theorem Took.addr_ne {s : PhysicalMemory} {f : Nat} (took : s.Took f) : s.allocPage.1 ≠ 0 := by
  rw [took.addr]
  exact Nat.mul_ne_zero (Nat.ne_of_gt took.nonzero) (by decide)

theorem Took.took {s : PhysicalMemory} {f : Nat} (took : s.Took f) : s.allocPage.2.Used f :=
  (took.used f).mpr (Or.inr rfl)

theorem Took.least {s : PhysicalMemory} {f : Nat} (took : s.Took f) {p : Nat} (lower : p < f) :
    s.Used p := by
  have fit := bitmapAllocBits_firstFit s.pages 1 (Nat.le_refl 1)
  have isTaken : (bitmapAllocBits s.pages 1).2.used f = true := took.took
  generalize bitmapAllocBits s.pages 1 = result at fit isTaken
  cases fit with
  | found start run least _ bits =>
      rw [bits f] at isTaken
      split at isTaken
      case isTrue inRun =>
          by_contra free
          apply least p (by omega)
          have below := run.below
          refine ⟨by omega, ?_⟩
          intro q lowest highest
          rw [show q = p by omega]
          exact Bool.eq_false_iff.mpr free
      case isFalse => exact absurd isTaken took.fresh
  | none _ => exact absurd isTaken took.fresh

/-- Pages are only taken, and only bytes of `own` and of pages taken here change. -/
structure Grows (own : Nat → Prop) (s after : PhysicalMemory) : Prop where
  nbits : after.pages.nbits = s.pages.nbits
  kept : ∀ p, s.Used p → after.Used p
  bytes : ∀ x, after.mem x ≠ s.mem x →
    own x ∨ (¬ s.Used (x / pageSize) ∧ after.Used (x / pageSize))

namespace Grows

variable {own more : Nat → Prop} {s middle after : PhysicalMemory} {f a : Nat}

theorem refl (own : Nat → Prop) (s : PhysicalMemory) : Grows own s s :=
  ⟨rfl, fun _ used => used, fun _ changed => False.elim (changed rfl)⟩

theorem trans (first : Grows own s middle) (second : Grows own middle after) :
    Grows own s after := by
  constructor
  · exact second.nbits.trans first.nbits
  · intro p used
    exact second.kept p (first.kept p used)
  · intro x changed
    by_cases later : after.mem x = middle.mem x
    · rw [later] at changed
      rcases first.bytes x changed with isOwn | ⟨free, taken⟩
      · exact Or.inl isOwn
      · exact Or.inr ⟨free, second.kept _ taken⟩
    · rcases second.bytes x later with isOwn | ⟨free, taken⟩
      · exact Or.inl isOwn
      · exact Or.inr ⟨fun used => free (first.kept _ used), taken⟩

/-- A page taken from `s` on may stop counting as `own`. -/
theorem weaken (grows : Grows own s after)
    (smaller : ∀ x, own x → more x ∨ (¬ s.Used (x / pageSize) ∧ after.Used (x / pageSize))) :
    Grows more s after := by
  refine ⟨grows.nbits, grows.kept, ?_⟩
  intro x changed
  rcases grows.bytes x changed with isOwn | taken
  · exact smaller x isOwn
  · exact Or.inr taken

theorem booted (grows : Grows own s after) (booted : s.pages.Booted) : after.pages.Booted := by
  constructor
  · rw [grows.nbits]
    exact booted.bounded
  · exact grows.kept 0 booted.first

theorem took (own : Nat → Prop) (taken : s.Took f) : Grows own s s.allocPage.2 := by
  refine ⟨taken.nbits, fun p used => (taken.used p).mpr (Or.inl used), ?_⟩
  intro x changed
  exact False.elim (changed rfl)

/-- `alloc_pages(count)`, whether or not it finds the pages. -/
theorem alloc (own : Nat → Prop) (booted : s.pages.Booted) {count : Nat} (positive : 1 ≤ count)
    (mem : after.mem = s.mem) (pages : after.pages = (allocPages s.pages count).2) :
    Grows own s after := by
  have bytes : ∀ x, after.mem x ≠ s.mem x →
      own x ∨ (¬ s.Used (x / pageSize) ∧ after.Used (x / pageSize)) := by
    intro x changed
    rw [mem] at changed
    exact False.elim (changed rfl)
  rcases (PagesOwned.start s.pages).allocPages_spec booted count positive with
    ⟨refused, _⟩ | ⟨found, _, _, _, served⟩
  · rw [refused] at pages
    refine ⟨by rw [pages], ?_, bytes⟩
    intro p used
    unfold Used
    rw [pages]
    exact used
  · rw [served] at pages
    refine ⟨by rw [pages]; exact bitmapSetBits_nbits .., ?_, bytes⟩
    intro p used
    unfold Used
    rw [pages]
    change (bitmapSetBits s.pages found true count true).used p = true
    rw [bitmapSetBits_used s.pages found count p true positive]
    split
    · rfl
    · exact used

theorem fill (own : Nat → Prop) (taken : s.Took f) {mem : ByteMemory}
    (inside : ∀ x, mem x ≠ s.mem x → x / pageSize = f) :
    Grows own s (s.allocPage.2.setMem mem) := by
  refine ⟨taken.nbits, fun p used => (taken.used p).mpr (Or.inl used), ?_⟩
  intro x changed
  rw [inside x changed]
  exact Or.inr ⟨taken.fresh, taken.took⟩

theorem write (s : PhysicalMemory) {mem : ByteMemory}
    (inside : ∀ x, mem x ≠ s.mem x → own x) : Grows own s (s.setMem mem) :=
  ⟨rfl, fun _ used => used, fun x changed => Or.inl (inside x changed)⟩

theorem byte (grows : Grows own s after) {x : Nat} (used : s.Used (x / pageSize))
    (outside : ¬ own x) : after.mem x = s.mem x := by
  by_contra changed
  rcases grows.bytes x changed with isOwn | ⟨free, _⟩
  · exact outside isOwn
  · exact free used

theorem free_byte (grows : Grows own s after) {x : Nat} (free : ¬ after.Used (x / pageSize))
    (outside : ¬ own x) : after.mem x = s.mem x := by
  by_contra changed
  rcases grows.bytes x changed with isOwn | ⟨_, taken⟩
  · exact outside isOwn
  · exact free taken

theorem word (grows : Grows own s after) (aligned : 4 ∣ a) (used : s.Used (a / pageSize))
    (outside : ∀ x, a ≤ x → x < a + 4 → ¬ own x) : after.mem.word a = s.mem.word a := by
  apply ByteMemory.word_congr
  intro x lower upper
  apply grows.byte
  · have samePage : x / pageSize = a / pageSize := by
      unfold pageSize
      omega
    rw [samePage]
    exact used
  · exact outside x lower upper

theorem free_word (grows : Grows own s after) (aligned : 4 ∣ a)
    (free : ¬ after.Used (a / pageSize)) (outside : ∀ x, a ≤ x → x < a + 4 → ¬ own x) :
    after.mem.word a = s.mem.word a := by
  apply ByteMemory.word_congr
  intro x lower upper
  apply grows.free_byte
  · have samePage : x / pageSize = a / pageSize := by
      unfold pageSize
      omega
    rw [samePage]
    exact free
  · exact outside x lower upper

end Grows

end PhysicalMemory

end MangoOS
