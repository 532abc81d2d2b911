/-
The mapping the kernel lives in: `setup_page` (boot/loader.S) and the kernel half of the
directories that `create_pde` builds from it.

The loader maps as many 4 MB pieces as the sizes of the layout add up to.  A new directory
takes over only the entries below `USER_MEMORY_BEGIN`.
-/

import MangoOS.Memory.BootBitmap
import MangoOS.Memory.AddressSpace

namespace MangoOS

def pageTableBase : Nat := 0x201000

/-- `mem_size`, which adds up the low words of the sizes. -/
def memSize (regions : List MemLayout) : Nat :=
  regions.foldl (fun total region => uint32 (total + uint32 region.size)) 0

/-- The directory entries `setup_page` fills. -/
def tableCount (memSize : Nat) : Nat :=
  if memSize % 0x400000 = 0 then memSize / 0x400000 else memSize / 0x400000 + 1

/-- `stosl; add $4096, %eax; loop` with `count` in `%ecx`. -/
def stosLoop (mem : ByteMemory) (edi eax : Nat) : (count : Nat) → ByteMemory
  | 0 => mem
  | count + 1 => stosLoop (mem.setWord edi eax) (uint32 (edi + 4)) (uint32 (eax + 4096)) count

/-- The rounds of `loop`, which counts down before it tests. -/
def loopCount (ecx : Nat) : Nat := if ecx = 0 then 4294967296 else ecx

def setupPage (memSize : Nat) (mem : ByteMemory) : ByteMemory :=
  let tables := tableCount memSize
  let mem := stosLoop mem kernelPageDir (pageTableBase + 7) (loopCount tables)
  stosLoop mem pageTableBase 7 (loopCount (uint32 (tables * 1024)))

variable {mem other : ByteMemory} {size p : Nat}

/-! ### The tables of the loader -/

theorem stosLoop_outside (count : Nat) {edi eax x : Nat}
    (fits : edi + 4 * count < 4294967296) (outside : x < edi ∨ edi + 4 * count ≤ x) :
    stosLoop mem edi eax count x = mem x := by
  induction count generalizing mem edi eax with
  | zero => rfl
  | succ count ih =>
      have step : uint32 (edi + 4) = edi + 4 := by
        unfold uint32
        omega
      rw [stosLoop, step, ih (by omega) (by omega)]
      exact ByteMemory.setWord_other mem eax (by omega)

theorem stosLoop_word (count : Nat) {edi eax i : Nat} (fits : edi + 4 * count < 4294967296)
    (range : eax + 4096 * i < 4294967296) (inside : i < count) :
    (stosLoop mem edi eax count).word (edi + 4 * i) = eax + 4096 * i := by
  induction count generalizing mem edi eax i with
  | zero => omega
  | succ count ih =>
      have step : uint32 (edi + 4) = edi + 4 := by
        unfold uint32
        omega
      rw [stosLoop, step]
      cases i with
      | zero =>
          have kept : (stosLoop (mem.setWord edi eax) (edi + 4) (uint32 (eax + 4096)) count).word
              (edi + 4 * 0) = (mem.setWord edi eax).word (edi + 4 * 0) := by
            apply ByteMemory.word_congr
            intro x lower upper
            exact stosLoop_outside count (by omega) (by omega)
          rw [kept, Nat.mul_zero, Nat.add_zero, ByteMemory.word_setWord]
          omega
      | succ i =>
          have next : uint32 (eax + 4096) = eax + 4096 := by
            unfold uint32
            omega
          rw [next, show edi + 4 * (i + 1) = edi + 4 + 4 * i by omega,
            ih (by omega) (by omega) (by omega)]
          omega

theorem tableCount_le (small : size < 4294967296) : tableCount size ≤ 1024 := by
  unfold tableCount
  split
  · omega
  · omega

theorem size_le_tables : size ≤ tableCount size * 0x400000 := by
  unfold tableCount
  split
  · omega
  · omega

/-- The bytes of the loader's directory and of its tables for the kernel half. -/
def KernelTable (x : Nat) : Prop := kernelPageDir ≤ x ∧ x < 0x301000

/-- For the kernel half the memory still holds what `setup_page` wrote. -/
structure Mapped (size : Nat) (mem : ByteMemory) : Prop where
  directory : ∀ i, i < tableCount size → i < userStartIndex →
    pdeValue mem kernelPageDir i = pageTableBase + 7 + 4096 * i
  table : ∀ j, j < tableCount size * 1024 → j < userStartIndex * 1024 →
    mem.word (pageTableBase + 4 * j) = 7 + 4096 * j

theorem setupPage_mapped (small : size < 4294967296) (mem : ByteMemory) :
    Mapped size (setupPage size mem) := by
  have few := tableCount_le small
  rcases Nat.eq_zero_or_pos (tableCount size) with none | one
  · constructor
    · intro i inside
      omega
    · intro j inside
      omega
  have tables : loopCount (tableCount size) = tableCount size := if_neg (by omega)
  have entries : loopCount (uint32 ((tableCount size : Int) * 1024)) =
      tableCount size * 1024 := by
    have same : uint32 ((tableCount size : Int) * 1024) = tableCount size * 1024 := by
      unfold uint32
      omega
    rw [same]
    exact if_neg (by omega)
  unfold setupPage
  simp only [tables, entries]
  constructor
  · intro i inside _
    have kept : pdeValue (stosLoop (stosLoop mem kernelPageDir (pageTableBase + 7)
        (tableCount size)) pageTableBase 7 (tableCount size * 1024)) kernelPageDir i =
        pdeValue (stosLoop mem kernelPageDir (pageTableBase + 7) (tableCount size))
          kernelPageDir i := by
      apply ByteMemory.word_congr
      intro x lower upper
      apply stosLoop_outside
      · unfold pageTableBase
        omega
      · unfold pageTableBase kernelPageDir at *
        omega
    rw [kept]
    unfold pdeValue
    apply stosLoop_word
    · unfold kernelPageDir
      omega
    · unfold pageTableBase
      omega
    · exact inside
  · intro j inside _
    apply stosLoop_word
    · unfold pageTableBase
      omega
    · omega
    · exact inside

theorem Mapped.congr (mapped : Mapped size mem)
    (same : ∀ x, KernelTable x → other x = mem x) : Mapped size other := by
  constructor
  · intro i inside isKernel
    rw [← mapped.directory i inside isKernel]
    apply ByteMemory.word_congr
    intro x lower upper
    apply same
    rw [userStartIndex_eq] at isKernel
    unfold KernelTable kernelPageDir at *
    omega
  · intro j inside isKernel
    rw [← mapped.table j inside isKernel]
    apply ByteMemory.word_congr
    intro x lower upper
    apply same
    rw [userStartIndex_eq] at isKernel
    unfold KernelTable kernelPageDir pageTableBase at *
    omega

/-- Any directory with the entries of the loader maps its pages to themselves. -/
theorem Mapped.translate (mapped : Mapped size mem) {pde : Nat}
    (inside : p < tableCount size * 1024) (isKernel : p / 1024 < userStartIndex)
    (entry : pdeValue mem pde (p / 1024) = pdeValue mem kernelPageDir (p / 1024)) :
    MangoOS.translate mem pde (p * pageSize) = some (p * pageSize) := by
  have index : pdeIndex (p * pageSize) = p / 1024 := by
    unfold pdeIndex pageSize
    omega
  have offset : pteIndex (p * pageSize) = p % 1024 := by
    unfold pteIndex pageSize
    omega
  have directory : pdeValue mem pde (p / 1024) = pageTableBase + 7 + 4096 * (p / 1024) := by
    rw [entry]
    exact mapped.directory _ (by omega) isKernel
  have table : pteValue mem pde (p / 1024) (p % 1024) = 7 + 4096 * p := by
    have place : alignDown (pdeValue mem pde (p / 1024)) + 4 * (p % 1024) =
        pageTableBase + 4 * p := by
      rw [directory]
      unfold alignDown pageSize pageTableBase
      omega
    unfold pteValue
    rw [place]
    exact mapped.table p inside ((Nat.div_lt_iff_lt_mul (by decide)).mp isKernel)
  unfold MangoOS.translate
  rw [index, offset, directory, table, if_pos]
  · unfold alignDown pageSize
    rw [Option.some.injEq]
    omega
  · unfold present pageTableBase
    simp only [beq_iff_eq]
    omega

/-! ### The kernel half of a new directory -/

theorem createPdeLoop_kernel (pde count : Nat) {k : Nat} (isKernel : k < userStartIndex)
    (apart : pde + 4096 ≤ kernelPageDir ∨ kernelPageDir + 4096 ≤ pde) :
    ∀ mem i, i ≤ k → k < i + count → i + count ≤ 1024 →
      pdeValue (createPdeLoop mem pde i count) pde k = pdeValue mem kernelPageDir k := by
  induction count with
  | zero =>
      intro mem i lower upper
      omega
  | succ count ih =>
      intro mem i lower upper inside
      have source : ∀ value, pdeValue (mem.setWord (pde + 4 * i) value) kernelPageDir k =
          pdeValue mem kernelPageDir k := by
        intro value
        apply ByteMemory.word_setWord_other
        omega
      rw [createPdeLoop]
      by_cases first : k = i
      · subst first
        have kept : ∀ mem, pdeValue (createPdeLoop mem pde (k + 1) count) pde k =
            mem.word (pde + 4 * k) := by
          intro mem
          apply ByteMemory.word_congr
          intro x xLower xUpper
          exact createPdeLoop_outside pde count _ (k + 1) (by omega)
        rw [kept, ByteMemory.word_setWord, if_pos isKernel]
        exact Nat.mod_eq_of_lt (ByteMemory.word_lt mem _)
      · rw [ih _ (i + 1) (by omega) (by omega) (by omega), source]

theorem fillPde_kernel (mem : ByteMemory) {c k : Nat} (isKernel : k < userStartIndex)
    (above : 0x600 ≤ c) :
    pdeValue (fillPde mem (c * pageSize)) (c * pageSize) k = pdeValue mem kernelPageDir k := by
  have far : kernelPageDir + 4096 ≤ c * pageSize := by
    unfold kernelPageDir pageSize
    omega
  have few : k < 1024 := by
    rw [userStartIndex_eq] at isKernel
    omega
  unfold fillPde
  rw [createPdeLoop_kernel _ 1024 isKernel (Or.inr far) _ 0 (Nat.zero_le k) (by omega)
    (Nat.le_refl _)]
  apply ByteMemory.word_congr
  intro x lower upper
  apply kmemset_outside
  omega

theorem fillPde_table (mem : ByteMemory) {c x : Nat} (above : 0x600 ≤ c) (inside : KernelTable x) :
    fillPde mem (c * pageSize) x = mem x := by
  apply fillPde_outside
  unfold KernelTable at inside
  unfold pageSize
  omega

/-! ### Runs of the page allocator -/

/-- The memory, what `alloc_pages` has out, what it ever returned, and the directories
`create_pde` built, each with the memory it was built in. -/
structure KernelState where
  memory : PhysicalMemory
  out : List Allocation
  returned : List Allocation
  dirs : List (Nat × ByteMemory)

namespace KernelState

def start (boot : PhysicalMemory) : KernelState where
  memory := boot
  out := []
  returned := []
  dirs := []

def alloc (s : KernelState) (count : Nat) : KernelState :=
  let found := allocPages s.memory.pages count
  let memory := { s.memory with pages := found.2 }
  if found.1 = 0 then { s with memory := memory }
  else
    { s with
      memory := memory
      out := ⟨found.1, count⟩ :: s.out
      returned := ⟨found.1, count⟩ :: s.returned }

def free (s : KernelState) (allocation : Allocation) : KernelState :=
  { s with
    memory := { s.memory with
      pages := freePages s.memory.pages allocation.addr allocation.count }
    out := s.out.erase allocation }

def create (s : KernelState) : KernelState :=
  let made := createPde s.memory
  if made.1 = 0 then { s with memory := made.2 }
  else
    { s with
      memory := made.2
      out := ⟨made.1, 1⟩ :: s.out
      returned := ⟨made.1, 1⟩ :: s.returned
      dirs := (made.1, made.2.mem) :: s.dirs }

def write (s : KernelState) (mem : ByteMemory) : KernelState :=
  { s with memory := s.memory.setMem mem }

end KernelState

/-- Any calls of the allocator and of `create_pde`; other writes leave the loader's tables
alone, and a free names an allocation that is out. -/
inductive KernelRun (boot : PhysicalMemory) : KernelState → Prop
  | start : KernelRun boot (KernelState.start boot)
  | alloc {s : KernelState} (run : KernelRun boot s) (count : Nat) (positive : 1 ≤ count) :
      KernelRun boot (s.alloc count)
  | free {s : KernelState} (run : KernelRun boot s) (allocation : Allocation)
      (member : allocation ∈ s.out) : KernelRun boot (s.free allocation)
  | create {s : KernelState} (run : KernelRun boot s) : KernelRun boot s.create
  | write {s : KernelState} (run : KernelRun boot s) (mem : ByteMemory)
      (tables : ∀ x, KernelTable x → mem x = s.memory.mem x) : KernelRun boot (s.write mem)

/-- What `alloc_pages` returned is mapped to itself by the loader's directory and by every
directory `create_pde` built. -/
structure KernelState.Addressable (s : KernelState) : Prop where
  boot : ∀ allocation ∈ s.returned, ∀ p, allocation.Holds p →
    translate s.memory.mem kernelPageDir (p * pageSize) = some (p * pageSize)
  dirs : ∀ allocation ∈ s.returned, ∀ p, allocation.Holds p → ∀ dir ∈ s.dirs,
    translate dir.2 dir.1 (p * pageSize) = some (p * pageSize)

def KernelAddressable (boot : PhysicalMemory) : Prop := ∀ s, KernelRun boot s → s.Addressable

/-- What the boot has to leave: the pages that may be handed out are mapped by the loader and
lie above its tables. -/
structure BootedFor (size : Nat) (boot : PhysicalMemory) : Prop where
  booted : boot.pages.Booted
  mapped : Mapped size boot.mem
  above : ∀ p : Nat, boot.pages.used p = false → (p : Int) < boot.pages.nbits → 0x600 ≤ p
  covered : boot.pages.nbits ≤ (tableCount size * 1024 : Nat)

structure KernelState.Sound (size : Nat) (boot : PhysicalMemory) (s : KernelState) : Prop where
  owned : PagesOwned boot.pages s.memory.pages s.out
  mapped : Mapped size s.memory.mem
  returned : ∀ allocation ∈ s.returned, allocation.Valid boot.pages
  dirs : ∀ dir ∈ s.dirs, Mapped size dir.2 ∧
    ∀ k, k < userStartIndex → pdeValue dir.2 dir.1 k = pdeValue dir.2 kernelPageDir k

variable {boot : PhysicalMemory} {s : KernelState}

theorem KernelState.Sound.alloc (sound : s.Sound size boot) (bootedFor : BootedFor size boot)
    {count : Nat} (positive : 1 ≤ count) : (s.alloc count).Sound size boot := by
  unfold KernelState.alloc
  rcases sound.owned.allocPages_spec bootedFor.booted count positive with
    ⟨refused, _⟩ | ⟨found, nonzero, _, run, served⟩
  · simp only [refused, if_true]
    exact sound
  · have taken := sound.owned.take positive nonzero run
    have addr : found * pageSize ≠ 0 := Nat.mul_ne_zero (by omega) (by decide)
    simp only [served, if_neg addr]
    refine ⟨taken, sound.mapped, ?_, sound.dirs⟩
    intro allocation member
    rcases List.mem_cons.mp member with isNew | old
    · rw [isNew]
      exact taken.valid _ (List.mem_cons_self ..)
    · exact sound.returned allocation old

theorem KernelState.Sound.create (sound : s.Sound size boot) (bootedFor : BootedFor size boot) :
    s.create.Sound size boot := by
  unfold KernelState.create
  rcases sound.owned.allocPages_spec bootedFor.booted 1 (Nat.le_refl 1) with
    ⟨refused, _⟩ | ⟨found, nonzero, _, run, served⟩
  · have full : s.memory.allocPage.1 = 0 := congrArg Prod.fst refused
    have same : s.memory.allocPage.2 = s.memory := by
      unfold PhysicalMemory.allocPage
      rw [refused]
    rw [createPde_full full, same]
    simp only [if_true]
    exact sound
  · have taken := sound.owned.take (Nat.le_refl 1) nonzero run
    have addr : found * pageSize ≠ 0 := Nat.mul_ne_zero (by omega) (by decide)
    have isMade : createPde s.memory = (found * pageSize,
        { mem := fillPde s.memory.mem (found * pageSize)
          pages := bitmapSetBits s.memory.pages found true 1 true }) := by
      have isAddr : s.memory.allocPage.1 = found * pageSize := congrArg Prod.fst served
      unfold createPde
      rw [isAddr, if_neg addr]
      unfold PhysicalMemory.allocPage PhysicalMemory.setMem
      rw [served]
    have valid := taken.valid _ (List.mem_cons_self ..)
    have above : 0x600 ≤ found := by
      have place : found * pageSize / pageSize = found := Nat.mul_div_cancel found (by decide)
      have clear := valid.clear found ⟨Nat.le_of_eq place, by
        change found < found * pageSize / pageSize + 1
        rw [place]
        exact Nat.lt_succ_self found⟩
      have below := run.below
      rw [sound.owned.nbits] at below
      exact bootedFor.above found clear (by omega)
    have mapped : Mapped size (fillPde s.memory.mem (found * pageSize)) :=
      sound.mapped.congr (fun x inside => fillPde_table s.memory.mem above inside)
    have entries : ∀ k, k < userStartIndex →
        pdeValue (fillPde s.memory.mem (found * pageSize)) (found * pageSize) k =
          pdeValue (fillPde s.memory.mem (found * pageSize)) kernelPageDir k := by
      intro k isKernel
      rw [fillPde_kernel s.memory.mem isKernel above]
      apply Eq.symm
      apply ByteMemory.word_congr
      intro x lower upper
      apply fillPde_table s.memory.mem above
      rw [userStartIndex_eq] at isKernel
      unfold KernelTable kernelPageDir at *
      omega
    generalize fillPde s.memory.mem (found * pageSize) = filled at isMade mapped entries
    rw [isMade]
    simp only [if_neg addr]
    refine ⟨taken, mapped, ?_, ?_⟩
    · intro allocation member
      rcases List.mem_cons.mp member with isNew | old
      · rw [isNew]
        exact valid
      · exact sound.returned allocation old
    · intro dir member
      rcases List.mem_cons.mp member with isNew | old
      · rw [isNew]
        exact ⟨mapped, entries⟩
      · exact sound.dirs dir old

theorem KernelRun.sound (run : KernelRun boot s) (bootedFor : BootedFor size boot) :
    s.Sound size boot := by
  induction run with
  | start =>
      constructor
      · exact PagesOwned.start boot.pages
      · exact bootedFor.mapped
      · intro allocation member
        cases member
      · intro dir member
        cases member
  | alloc run count positive ih => exact ih.alloc bootedFor positive
  | free run allocation member ih => exact ⟨ih.owned.give member, ih.mapped, ih.returned, ih.dirs⟩
  | create run ih => exact ih.create bootedFor
  | write run mem tables ih =>
      exact ⟨ih.owned, ih.mapped.congr tables, ih.returned, ih.dirs⟩

/-- A free page below `nbits` that a directory of `create_pde` cannot map. -/
def FreeAbove (bitmap : BitMap) (p : Nat) : Prop :=
  bitmap.used p = false ∧ (p : Int) < bitmap.nbits ∧ userMemoryBegin ≤ p * pageSize

theorem KernelRun.addressable (run : KernelRun boot s) (bootedFor : BootedFor size boot)
    (none : ∀ p, ¬ FreeAbove boot.pages p) : s.Addressable := by
  have sound := run.sound bootedFor
  have covered := bootedFor.covered
  have inside : ∀ allocation ∈ s.returned, ∀ p, allocation.Holds p →
      p < tableCount size * 1024 ∧ p / 1024 < userStartIndex := by
    intro allocation member p holds
    have valid := sound.returned allocation member
    have below := valid.below
    have clear := valid.clear p holds
    have high := holds.2
    have kernel := none p
    unfold FreeAbove userMemoryBegin pageSize at kernel
    have inBoot : (p : Int) < boot.pages.nbits := by omega
    rw [userStartIndex_eq]
    constructor
    · omega
    · by_contra user
      exact kernel ⟨clear, inBoot, by omega⟩
  constructor
  · intro allocation member p holds
    obtain ⟨below, isKernel⟩ := inside allocation member p holds
    exact sound.mapped.translate below isKernel rfl
  · intro allocation member p holds dir inDirs
    obtain ⟨mapped, entries⟩ := sound.dirs dir inDirs
    obtain ⟨below, isKernel⟩ := inside allocation member p holds
    exact mapped.translate below isKernel (entries _ isKernel)

/-! ### A page above -/

theorem KernelState.alloc_served {addr : Nat} {after : BitMap}
    (served : allocPages s.memory.pages 1 = (addr, after)) (nonzero : addr ≠ 0) :
    s.alloc 1 = { s with
      memory := { s.memory with pages := after }
      out := ⟨addr, 1⟩ :: s.out
      returned := ⟨addr, 1⟩ :: s.returned } := by
  unfold KernelState.alloc
  simp only [served, if_neg nonzero]

theorem BitMap.Booted.takes {pages after : BitMap} {q : Nat} (booted : pages.Booted)
    (positive : 0 < q) (nbits : after.nbits = pages.nbits)
    (bits : ∀ p, after.used p = if p = q then true else pages.used p) : after.Booted where
  bounded := by
    rw [nbits]
    exact booted.bounded
  first := by
    rw [bits, if_neg (Nat.ne_of_lt positive)]
    exact booted.first

/-- Single pages are handed out until the free page `p` is. -/
theorem KernelRun.reaches (count : Nat) (run : KernelRun boot s)
    (booted : s.memory.pages.Booted) (start : Nat)
    (taken : ∀ q, q < start → s.memory.pages.used q = true)
    (clear : s.memory.pages.used p = false) (below : (p : Int) < s.memory.pages.nbits)
    (enough : p < start + count) :
    ∃ after, KernelRun boot after ∧ ⟨p * pageSize, 1⟩ ∈ after.returned ∧ after.dirs = s.dirs := by
  induction count generalizing s start with
  | zero =>
      rw [taken p (by omega)] at clear
      cases clear
  | succ count ih =>
      rcases allocPages_one s.memory.pages booted.bounded booted.first with
        ⟨_, allSet⟩ | ⟨q, after, served, positive, clearQ, least, nbits, bits⟩
      · rw [allSet p below] at clear
        cases clear
      · have addr : q * pageSize ≠ 0 := Nat.mul_ne_zero (by omega) (by decide)
        have next := run.alloc 1 (Nat.le_refl 1)
        rw [KernelState.alloc_served served addr] at next
        by_cases isQ : p = q
        · refine ⟨_, next, ?_, rfl⟩
          rw [isQ]
          exact List.mem_cons_self ..
        · have startQ : start ≤ q := by
            by_contra before
            rw [taken q (by omega)] at clearQ
            cases clearQ
          apply ih next _ (start + 1)
          · intro r earlier
            simp only
            rw [bits]
            by_cases same : r = q
            · rw [if_pos same]
            · rw [if_neg same]
              exact least r (by omega)
          · simp only
            rw [bits, if_neg isQ]
            exact clear
          · simp only
            omega
          · omega
          · exact booted.takes positive nbits bits

/-- A new directory maps nothing of the user half. -/
theorem translate_fillPde_user (mem : ByteMemory) (pde : Nat) (user : UserIndex (p / 1024)) :
    translate (fillPde mem pde) pde (p * pageSize) = none := by
  have index : pdeIndex (p * pageSize) = p / 1024 := by
    unfold pdeIndex pageSize
    omega
  have entry := fillPde_user mem pde user
  unfold translate
  rw [index, entry, if_neg]
  rintro ⟨marked, _⟩
  cases marked

theorem FreeAbove.not_addressable (free : FreeAbove boot.pages p) (booted : boot.pages.Booted) :
    ¬ KernelAddressable boot := by
  intro addressable
  obtain ⟨clear, below, high⟩ := free
  have bounded := booted.bounded
  rcases allocPages_one boot.pages booted.bounded booted.first with
    ⟨_, allSet⟩ | ⟨q, after, served, positive, clearQ, least, nbits, bits⟩
  · rw [allSet p below] at clear
    cases clear
  · have addr : q * pageSize ≠ 0 := Nat.mul_ne_zero (by omega) (by decide)
    have isMade : createPde boot = (q * pageSize,
        { mem := fillPde boot.mem (q * pageSize), pages := after }) := by
      have isAddr : boot.allocPage.1 = q * pageSize := congrArg Prod.fst served
      unfold createPde
      rw [isAddr, if_neg addr]
      unfold PhysicalMemory.allocPage PhysicalMemory.setMem
      rw [served]
    have user : UserIndex (p / 1024) := by
      unfold userMemoryBegin pageSize at high
      constructor
      · rw [userStartIndex_eq]
        omega
      · omega
    have unmapped := translate_fillPde_user boot.mem (q * pageSize) user
    have built := (KernelRun.start : KernelRun boot _).create
    have isBuilt : (KernelState.start boot).create =
        { memory := { mem := fillPde boot.mem (q * pageSize), pages := after }
          out := [⟨q * pageSize, 1⟩]
          returned := [⟨q * pageSize, 1⟩]
          dirs := [(q * pageSize, fillPde boot.mem (q * pageSize))] } := by
      unfold KernelState.create KernelState.start
      generalize fillPde boot.mem (q * pageSize) = filled at isMade
      simp only [isMade, if_neg addr]
    generalize fillPde boot.mem (q * pageSize) = filled at isBuilt unmapped
    rw [isBuilt] at built
    obtain ⟨final, run, member, dirs⟩ : ∃ final, KernelRun boot final ∧
        ⟨p * pageSize, 1⟩ ∈ final.returned ∧ final.dirs = [(q * pageSize, filled)] := by
      by_cases isQ : p = q
      · refine ⟨_, built, ?_, rfl⟩
        rw [isQ]
        exact List.mem_singleton_self _
      · apply built.reaches (p + 1) _ 0
        · intro r earlier
          omega
        · simp only
          rw [bits, if_neg isQ]
          exact clear
        · simp only
          omega
        · omega
        · exact booted.takes positive nbits bits
    have place : p * pageSize / pageSize = p := Nat.mul_div_cancel p (by decide)
    have mapped := (addressable final run).dirs _ member p ⟨Nat.le_of_eq place, by
      change p < p * pageSize / pageSize + 1
      rw [place]
      exact Nat.lt_succ_self p⟩ (q * pageSize, filled) (by
        rw [dirs]
        exact List.mem_singleton_self _)
    rw [unmapped] at mapped
    cases mapped

theorem kernelAddressable_iff (bootedFor : BootedFor size boot) :
    KernelAddressable boot ↔ ∀ p, ¬ FreeAbove boot.pages p := by
  constructor
  · intro addressable p free
    exact free.not_addressable bootedFor.booted addressable
  · intro none s run
    exact run.addressable bootedFor none

/-! ### From the layout -/

variable {low : ByteMemory} {regions : List MemLayout} {bitmap initial : BitMap} {fuel : Nat}

theorem sizeSum_cons (region : MemLayout) (regions : List MemLayout) :
    sizeSum (region :: regions) = region.size + sizeSum regions := by
  unfold sizeSum
  rw [List.map_cons, List.sum_cons]

theorem sizeSum_nonneg (sizes : ∀ region ∈ regions, 0 ≤ region.size) : 0 ≤ sizeSum regions := by
  induction regions with
  | nil => exact Int.le_refl 0
  | cons region regions ih =>
      rw [sizeSum_cons]
      have here := sizes region (List.mem_cons_self ..)
      have others := ih (fun other member => sizes other (List.mem_cons_of_mem region member))
      omega

private theorem memSize_from (sizes : ∀ region ∈ regions, 0 ≤ region.size) (total : Nat)
    (fits : total + sizeSum regions < 4294967296) :
    ((regions.foldl (fun total region => uint32 (total + uint32 region.size)) total : Nat) :
      Int) = total + sizeSum regions := by
  induction regions generalizing total with
  | nil => simp [sizeSum]
  | cons region regions ih =>
      rw [sizeSum_cons] at fits ⊢
      have here := sizes region (List.mem_cons_self ..)
      have later : ∀ other ∈ regions, 0 ≤ other.size :=
        fun other member => sizes other (List.mem_cons_of_mem region member)
      have others := sizeSum_nonneg later
      have step : (uint32 (total + uint32 region.size) : Int) = total + region.size := by
        unfold uint32
        omega
      rw [List.foldl_cons, ih later _ (by omega), step]
      omega

theorem memSize_eq (sizes : ∀ region ∈ regions, 0 ≤ region.size)
    (fits : sizeSum regions < 4294967296) : (memSize regions : Int) = sizeSum regions := by
  have total := memSize_from sizes 0 (by omega)
  unfold memSize
  rw [total]
  omega

theorem sizeSum_scanned (sizes : ∀ region ∈ regions, 0 ≤ region.size) :
    0 ≤ sizeSum (scanned regions) ∧ sizeSum (scanned regions) ≤ sizeSum regions := by
  have split := scanned_missed regions
  have inFirst : ∀ region ∈ scanned regions, 0 ≤ region.size := by
    intro region member
    apply sizes
    rw [← split]
    exact List.mem_append_left _ member
  have inRest : ∀ region ∈ missed regions, 0 ≤ region.size := by
    intro region member
    apply sizes
    rw [← split]
    exact List.mem_append_right _ member
  have sum : sizeSum regions = sizeSum (scanned regions) + sizeSum (missed regions) := by
    conv_lhs => rw [← split]
    unfold sizeSum
    rw [List.map_append, List.sum_append]
  have first := sizeSum_nonneg inFirst
  have rest := sizeSum_nonneg inRest
  omega

theorem MemLayout.Below.clears_free {layout : MemLayout} (below : layout.Below)
    (clears : layout.Clears p) : 0x600 ≤ p ∧ p < 1048576 := by
  have first := below.firstPage_eq
  have last := below.endPage_eq
  have finish := below.finish
  have start := below.start
  have size := below.size
  obtain ⟨⟨_, beyond⟩, pieces⟩ := clears
  unfold freeMemStart at first beyond
  unfold MemLayout.Whole MemLayout.Rounded at pieces
  omega

/-- The pages that are marked free and below the page count of the sizes lie below the user
half. -/
def AllocatesLow (regions : List MemLayout) : Prop :=
  ∀ region ∈ scanned regions, ∀ p, region.Clears p →
    p < bitmapPages (uint32 (sizeSum (scanned regions))) → p * pageSize < userMemoryBegin

theorem bitmapPages_le (total : Nat) (small : total < 4294967296) :
    bitmapPages total ≤ 1048576 ∧ bitmapPages total ≤ tableCount total * 1024 := by
  have enough := @size_le_tables total
  have wrapped : uint32 (total + pageSize - 1) ≤ total + 4095 ∧
      uint32 (total + pageSize - 1) < 4294967296 := by
    unfold uint32 pageSize
    omega
  unfold bitmapPages
  generalize uint32 (total + pageSize - 1) = rounded at *
  unfold pageSize
  split
  · omega
  · omega

theorem tableCount_mono {less more : Nat} (le : less ≤ more) :
    tableCount less ≤ tableCount more := by
  unfold tableCount
  split
  · split
    · omega
    · omega
  · split
    · omega
    · omega

theorem bitmapInit_nbits (stored : Stored low regions) (few : regions.length ≤ 50)
    (enough : regions.length < fuel) (called : bitmapInit fuel low bitmap = some initial) :
    initial.nbits = bitmapPages (uint32 (sizeSum (scanned regions))) := by
  rw [bitmapInit_spec stored few bitmap enough, Option.some.injEq] at called
  rw [← called]

theorem bitmapInit_freeAbove (stored : Stored low regions) (few : regions.length ≤ 50)
    (enough : regions.length < fuel) (called : bitmapInit fuel low bitmap = some initial) :
    (∀ p, ¬ FreeAbove initial p) ↔ AllocatesLow regions := by
  have used := fun p small => bitmapInit_used (p := p) stored few enough called small
  unfold AllocatesLow FreeAbove
  rw [bitmapInit_nbits stored few enough called]
  constructor
  · intro none region member p clears below
    by_contra high
    have small := (stored.below region member clears.1).clears_free clears
    have clear := (used p small.2).mpr ⟨region, member, clears⟩
    exact none p ⟨clear, Int.ofNat_lt.mpr below, Nat.not_lt.mp high⟩
  · rintro allLow p ⟨clear, below, high⟩
    have bound := (bitmapPages_le (uint32 (sizeSum (scanned regions))) (by
      unfold uint32
      omega)).1
    obtain ⟨region, member, clears⟩ := (used p (by omega)).mp clear
    exact absurd (allLow region member p clears (Int.ofNat_lt.mp below)) (Nat.not_lt.mpr high)

theorem bitmapInit_bootedFor (stored : Stored low regions) (few : regions.length ≤ 50)
    (enough : regions.length < fuel) (called : bitmapInit fuel low bitmap = some initial)
    (sizes : ∀ region ∈ regions, 0 ≤ region.size) (fits : sizeSum regions < 4294967296)
    (mem : ByteMemory) :
    BootedFor (memSize regions) ⟨setupPage (memSize regions) mem, initial⟩ := by
  have used := fun p small => bitmapInit_used (p := p) stored few enough called small
  have nbits := bitmapInit_nbits stored few enough called
  have total := memSize_eq sizes fits
  obtain ⟨positive, less⟩ := sizeSum_scanned sizes
  have scannedSum : (uint32 (sizeSum (scanned regions)) : Int) = sizeSum (scanned regions) := by
    unfold uint32
    omega
  obtain ⟨bounded, covered⟩ :=
    bitmapPages_le (uint32 (sizeSum (scanned regions))) (by omega)
  have above : ∀ p : Nat, initial.used p = false → p < 1048576 → 0x600 ≤ p := by
    intro p clear small
    obtain ⟨region, member, clears⟩ := (used p small).mp clear
    exact ((stored.below region member clears.1).clears_free clears).1
  constructor
  · constructor
    · change initial.nbits ≤ 1048576
      omega
    · cases set : initial.used 0 with
      | true => rfl
      | false => exact absurd (above 0 set (by decide)) (by decide)
  · exact setupPage_mapped (by omega) mem
  · intro p clear below
    change (p : Int) < initial.nbits at below
    exact above p clear (by omega)
  · have more := tableCount_mono (by omega : uint32 (sizeSum (scanned regions)) ≤ memSize regions)
    change initial.nbits ≤ (tableCount (memSize regions) * 1024 : Nat)
    omega

/-- What the kernel allocates is mapped everywhere exactly where nothing that may be handed out
lies in the user half. -/
theorem bootAddressable_iff (stored : Stored low regions) (few : regions.length ≤ 50)
    (enough : regions.length < fuel) (sizes : ∀ region ∈ regions, 0 ≤ region.size)
    (fits : sizeSum regions < 4294967296) (bitmap : BitMap) (mem : ByteMemory) :
    (∃ initial, bitmapInit fuel low bitmap = some initial ∧
        KernelAddressable ⟨setupPage (memSize regions) mem, initial⟩) ↔
      AllocatesLow regions := by
  have called := bitmapInit_spec stored few bitmap enough
  have bootedFor := bitmapInit_bootedFor stored few enough called sizes fits mem
  rw [← bitmapInit_freeAbove stored few enough called, ← kernelAddressable_iff bootedFor]
  constructor
  · rintro ⟨other, isOther, addressable⟩
    rw [called, Option.some.injEq] at isOther
    rw [isOther]
    exact addressable
  · intro addressable
    exact ⟨_, called, addressable⟩

/-- 128 MB: everything is mapped. -/
theorem bootAddressable_small :
    ∃ initial, bitmapInit 2 (oneRegion 0x100000 0x7ee0000) ⟨0, fun _ => 0#8⟩ = some initial ∧
      KernelAddressable ⟨setupPage (memSize [⟨0x100000, 0x7ee0000, 1⟩]) (fun _ => 0#8), initial⟩ := by
  have loaded : Loaded (oneRegion 0x100000 0x7ee0000) [⟨0x100000, 0x7ee0000, 1⟩] :=
    oneRegion_loaded (by decide) (by decide) (by decide)
  apply (bootAddressable_iff loaded.stored (by decide) (by decide) (by decide) (by decide) _ _).mpr
  intro region _ p _ below
  have pages : bitmapPages (uint32 (sizeSum (scanned [⟨0x100000, 0x7ee0000, 1⟩]))) = 0x7ee0 := by
    decide
  rw [pages] at below
  unfold userMemoryBegin pageSize
  omega

/-- 2 GB: the page at 1 GB can be handed out, and no new directory maps it. -/
theorem bootAddressable_large :
    Loaded (oneRegion 0x100000 0x7ff00000) [⟨0x100000, 0x7ff00000, 1⟩] ∧
      ¬ ∃ initial, bitmapInit 2 (oneRegion 0x100000 0x7ff00000) ⟨0, fun _ => 0#8⟩ = some initial ∧
        KernelAddressable
          ⟨setupPage (memSize [⟨0x100000, 0x7ff00000, 1⟩]) (fun _ => 0#8), initial⟩ := by
  have loaded : Loaded (oneRegion 0x100000 0x7ff00000) [⟨0x100000, 0x7ff00000, 1⟩] :=
    oneRegion_loaded (by decide) (by decide) (by decide)
  refine ⟨loaded, ?_⟩
  rintro ⟨initial, called, addressable⟩
  have bootedFor := bitmapInit_bootedFor loaded.stored (by decide) (by decide) called (by decide)
    (by decide) (fun _ => 0#8)
  have none := (kernelAddressable_iff bootedFor).mp addressable
  have low := (bitmapInit_freeAbove loaded.stored (by decide) (by decide) called).mp none
  have clears : MemLayout.Clears ⟨0x100000, 0x7ff00000, 1⟩ 0x40000 := by
    unfold MemLayout.Clears MemLayout.Marked MemLayout.Whole MemLayout.Rounded
    decide
  exact absurd (low _ (List.mem_singleton_self _) 0x40000 clears (by decide)) (by decide)

end MangoOS
