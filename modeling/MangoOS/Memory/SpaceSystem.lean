/-
The address spaces of all tasks in one physical memory.

A page is the kernel's, a caller's of `alloc_pages`, or it is the directory, a table or a frame
of one address space.  `SpacesSound` says that it is only one of these.
-/

import Mathlib.Order.Interval.Finset.Nat
import MangoOS.Library.Holdings
import MangoOS.Memory.BootPaging
import MangoOS.Memory.DestroyPde
import MangoOS.Memory.ForkCopy
import MangoOS.Memory.VpagesFrame

namespace MangoOS

open PhysicalMemory

/-- What an address space uses a page for. -/
inductive Role
  | directory
  | table (i : Nat)
  | frame (i j : Nat)
  deriving DecidableEq

namespace Role

variable {mem other : ByteMemory} {pde : Nat}

/-- The number of the page. -/
def page (mem : ByteMemory) (pde : Nat) : Role → Nat
  | directory => pde / pageSize
  | table i => pdeValue mem pde i / pageSize
  | frame i j => pteValue mem pde i j / pageSize

/-- The directory `pde` has such a page. -/
def Live (mem : ByteMemory) (pde : Nat) : Role → Prop
  | directory => True
  | table i => UserIndex i ∧ present (pdeValue mem pde i) = true
  | frame i j => UserIndex i ∧ j < 1024 ∧ present (pdeValue mem pde i) = true ∧
      present (pteValue mem pde i j) = true

end Role

/-- Who holds a page: the address space of the directory `d`, or nobody of these. -/
inductive PageUse
  | outside
  | space (d : Nat) (role : Role)
  deriving DecidableEq

/-- The page `p` has this use. -/
def Holds (outside : Nat → Prop) (dirs : Finset Nat) (mem : ByteMemory) : PageUse → Nat → Prop
  | .outside, p => outside p
  | .space d role, p => d ∈ dirs ∧ role.Live mem d ∧ p = role.page mem d

/-- Every page has one use at most and pages in use are taken; entries of user memory are zero
or present, and the kernel half of every directory is the kernel's. -/
structure SpacesSound (outside : Nat → Prop) (dirs : Finset Nat) (s : PhysicalMemory) : Prop where
  booted : s.pages.Booted
  booked : Booked (Holds outside dirs s.mem) s.Used
  null : outside 0
  kernelDir : outside (kernelPageDir / pageSize)
  aligned : ∀ d, d ∈ dirs → pageSize ∣ d
  below : ∀ d, d ∈ dirs → d < 4294967296
  entries : ∀ d, d ∈ dirs → ∀ i, UserIndex i →
    pdeValue s.mem d i = 0 ∨ present (pdeValue s.mem d i) = true
  kernelHalf : ∀ d, d ∈ dirs → ∀ i, i < userStartIndex →
    pdeValue s.mem d i = pdeValue s.mem kernelPageDir i

/-- No word of the page at `addr` looks like a mapping. -/
def CleanPage (mem : ByteMemory) (addr : Nat) : Prop :=
  ∀ j, j < 1024 → ¬ present (mem.word (addr + 4 * j)) = true

/-! ### The calls -/

structure SpaceSystem where
  memory : PhysicalMemory
  /-- What create_pde returned and destroy_pde was not called for. -/
  dirs : Finset Nat
  /-- The pages that callers of alloc_pages have. -/
  lent : Finset Nat

inductive SpaceCall
  | createPde
  | allocVpages (pde addr size : Nat)
  | copyMemory (ppde pde : Nat)
  | destroyPde (pde : Nat)
  /-- A store instruction of the program. -/
  | store (pde vaddr value : Nat)
  /-- A byte of copy_to_user. -/
  | copyToUser (pde vaddr value : Nat)
  /-- A store of the kernel in memory of its own. -/
  | write (addr value : Nat)
  | allocPages (count : Nat)
  | freePages (addr count : Nat)

/-- The processor sets the accessed and the dirty bit of the table entry; the directory entries
that the kernel writes have the accessed bit from the start. -/
def markDirty (mem : ByteMemory) (pde vaddr : Nat) : ByteMemory :=
  mem.setWord (alignDown (pdeValue mem pde (pdeIndex vaddr)) + 4 * pteIndex vaddr)
    (pteValue mem pde (pdeIndex vaddr) (pteIndex vaddr) ||| 96)

def UserAddress (vaddr : Nat) : Prop := userMemoryBegin ≤ vaddr ∧ vaddr < 4294967296

instance (vaddr : Nat) : Decidable (UserAddress vaddr) :=
  inferInstanceAs (Decidable (_ ∧ _))

namespace SpaceSystem

def run (s : SpaceSystem) : SpaceCall → SpaceSystem
  | .createPde =>
      let made := MangoOS.createPde s.memory
      { s with
        memory := made.2
        dirs := if made.1 = 0 then s.dirs else insert made.1 s.dirs }
  | .allocVpages pde addr size =>
      { s with memory := (MangoOS.allocVpages s.memory pde addr size).state }
  | .copyMemory ppde pde => { s with memory := (MangoOS.copyMemory s.memory ppde pde).2 }
  | .destroyPde pde =>
      { s with
        memory := (MangoOS.destroyPde s.memory pde).2
        dirs := s.dirs.erase pde }
  | .store pde vaddr value =>
      match translate s.memory.mem pde vaddr with
      | some p =>
          let mem := markDirty s.memory.mem pde vaddr
          { s with memory := s.memory.setMem (mem.setByte p value) }
      | none => s
  | .copyToUser pde vaddr value =>
      let mem := s.memory.mem
      { s with memory := s.memory.setMem (mem.setByte (transVtop mem pde vaddr) value) }
  | .write addr value =>
      { s with memory := s.memory.setMem (s.memory.mem.setByte addr value) }
  | .allocPages count =>
      let got := MangoOS.allocPages s.memory.pages count
      let first := got.1 / pageSize
      { s with
        memory := { s.memory with pages := got.2 }
        lent := if got.1 = 0 then s.lent else s.lent ∪ Finset.Ico first (first + count) }
  | .freePages addr count =>
      let first := addr / pageSize
      { s with
        memory := { s.memory with pages := MangoOS.freePages s.memory.pages addr count }
        lent := s.lent \ Finset.Ico first (first + count) }

/-- What the callers keep to.  A page that becomes a table must not hold words that look like
mappings, since neither alloc_vpages nor copy_memory clears it; the run of alloc_vpages stays in
one table; fork copies to a directory without user memory, and does not run out of pages. -/
def Allowed (kernel : Nat → Prop) (s : SpaceSystem) : SpaceCall → Prop
  | .createPde => True
  | .allocVpages pde addr size =>
      pde ∈ s.dirs ∧ UserAddress addr ∧ 1 ≤ vpagesCount size ∧
        pteIndex addr + vpagesCount size ≤ 1024 ∧
        (pdeValue s.memory.mem pde (pdeIndex addr) = 0 → s.memory.allocPage.1 ≠ 0 →
          CleanPage s.memory.mem s.memory.allocPage.1)
  | .copyMemory ppde pde =>
      ppde ∈ s.dirs ∧ pde ∈ s.dirs ∧ ppde ≠ pde ∧
        (∀ i, UserIndex i → pdeValue s.memory.mem pde i = 0) ∧
        (MangoOS.copyMemory s.memory ppde pde).1 = 0 ∧
        ∀ i, UserIndex i → present (pdeValue s.memory.mem ppde i) = true →
          CleanPage s.memory.mem (tablePage s.memory ppde i)
  | .destroyPde pde => pde ∈ s.dirs
  | .store pde vaddr _ => pde ∈ s.dirs ∧ UserAddress vaddr
  | .copyToUser pde vaddr _ =>
      pde ∈ s.dirs ∧ UserAddress vaddr ∧ (translate s.memory.mem pde vaddr).isSome = true
  | .write addr _ =>
      (kernel (addr / pageSize) ∨ addr / pageSize ∈ s.lent) ∧
        addr / pageSize ≠ kernelPageDir / pageSize
  | .allocPages count => 1 ≤ count
  | .freePages addr count =>
      1 ≤ count ∧ ∀ p, p ∈ Finset.Ico (addr / pageSize) (addr / pageSize + count) → p ∈ s.lent

/-- The pages that are no address space's. -/
def Outside (kernel : Nat → Prop) (s : SpaceSystem) (p : Nat) : Prop := kernel p ∨ p ∈ s.lent

/-- `kernel` are the pages that the kernel has from the start. -/
structure Sound (kernel : Nat → Prop) (s : SpaceSystem) : Prop where
  spaces : SpacesSound (s.Outside kernel) s.dirs s.memory
  null : kernel 0
  kernelDir : kernel (kernelPageDir / pageSize)
  lent : ∀ p, p ∈ s.lent → ¬ kernel p

end SpaceSystem

variable {outside : Nat → Prop} {dirs : Finset Nat} {s after : PhysicalMemory}
  {mem other : ByteMemory} {d e f i j k l p : Nat}

/-! ### The bytes that say what is mapped -/

/-- The pages with the entries of a directory: itself and its tables. -/
def Skeleton (mem : ByteMemory) (d p : Nat) : Prop :=
  p = d / pageSize ∨ ∃ i, UserIndex i ∧ present (pdeValue mem d i) = true ∧
    p = pdeValue mem d i / pageSize

theorem entry_page_eq (aligned : pageSize ∣ d) (small : i < 1024) {x : Nat}
    (lower : d + 4 * i ≤ x) (upper : x < d + 4 * i + 4) : x / pageSize = d / pageSize := by
  obtain ⟨n, isPage⟩ := aligned
  unfold pageSize at *
  omega

theorem slot_page_eq (small : j < 1024) {x : Nat} (lower : p * pageSize + 4 * j ≤ x)
    (upper : x < p * pageSize + 4 * j + 4) : x / pageSize = p := by
  unfold pageSize at *
  omega

theorem pde_same (aligned : pageSize ∣ d)
    (same : ∀ x, Skeleton mem d (x / pageSize) → other x = mem x) (small : i < 1024) :
    pdeValue other d i = pdeValue mem d i := by
  apply ByteMemory.word_congr
  intro x lower upper
  apply same
  rw [entry_page_eq aligned small lower upper]
  exact Or.inl rfl

theorem pte_same (aligned : pageSize ∣ d)
    (same : ∀ x, Skeleton mem d (x / pageSize) → other x = mem x) (isUser : UserIndex i)
    (small : j < 1024) (isPresent : present (pdeValue mem d i) = true) :
    pteValue other d i j = pteValue mem d i j := by
  rw [pteValue_eq, pteValue_eq, pde_same aligned same isUser.2]
  apply ByteMemory.word_congr
  intro x lower upper
  apply same
  rw [slot_page_eq small lower upper]
  exact Or.inr ⟨i, isUser, isPresent, rfl⟩

/-- Memories that agree on the entries of a directory agree on its pages. -/
theorem role_same (pdes : ∀ i, i < 1024 → pdeValue other d i = pdeValue mem d i)
    (ptes : ∀ i j, UserIndex i → j < 1024 → present (pdeValue mem d i) = true →
      pteValue other d i j = pteValue mem d i j) (role : Role) (live : role.Live other d) :
    role.Live mem d ∧ role.page other d = role.page mem d := by
  cases role with
  | directory => exact ⟨trivial, rfl⟩
  | table i =>
      obtain ⟨isUser, isPresent⟩ := live
      rw [pdes i isUser.2] at isPresent
      exact ⟨⟨isUser, isPresent⟩, congrArg (· / pageSize) (pdes i isUser.2)⟩
  | frame i j =>
      obtain ⟨isUser, small, isPresent, isEntry⟩ := live
      rw [pdes i isUser.2] at isPresent
      rw [ptes i j isUser small isPresent] at isEntry
      exact ⟨⟨isUser, small, isPresent, isEntry⟩,
        congrArg (· / pageSize) (ptes i j isUser small isPresent)⟩

namespace SpacesSound

theorem used (sound : SpacesSound outside dirs s) {use : PageUse}
    (holds : Holds outside dirs s.mem use p) : s.Used p := sound.booked.taken holds

theorem outside_used (sound : SpacesSound outside dirs s) (isOutside : outside p) : s.Used p :=
  sound.booked.taken (a := .outside) isOutside

/-- A page of an address space is nobody else's. -/
theorem apart (sound : SpacesSound outside dirs s) {role : Role}
    (held : Holds outside dirs s.mem (.space d role) p) : ¬ outside p := by
  intro isOutside
  have isMine : Holds outside dirs s.mem .outside p := isOutside
  have clash := sound.booked.one held isMine
  cases clash

variable (outside) in
theorem directory_holds (mem : ByteMemory) (member : d ∈ dirs) :
    Holds outside dirs mem (.space d .directory) (d / pageSize) := ⟨member, trivial, rfl⟩

variable (outside) in
theorem table_holds (member : d ∈ dirs) (isUser : UserIndex i)
    (isPresent : present (pdeValue mem d i) = true) :
    Holds outside dirs mem (.space d (.table i)) (pdeValue mem d i / pageSize) :=
  ⟨member, ⟨isUser, isPresent⟩, rfl⟩

variable (outside) in
theorem frame_holds (member : d ∈ dirs) (isUser : UserIndex i) (small : j < 1024)
    (isPresent : present (pdeValue mem d i) = true)
    (isEntry : present (pteValue mem d i j) = true) :
    Holds outside dirs mem (.space d (.frame i j)) (pteValue mem d i j / pageSize) :=
  ⟨member, ⟨isUser, small, isPresent, isEntry⟩, rfl⟩

variable (outside) in
/-- A page of the skeleton is a directory's or a table's. -/
theorem skeleton_holds (member : d ∈ dirs) (inside : Skeleton mem d p) :
    ∃ role, (role = .directory ∨ ∃ i, role = .table i) ∧
      Holds outside dirs mem (.space d role) p := by
  rcases inside with isDirectory | ⟨i, isUser, isPresent, isTable⟩
  · exact ⟨.directory, Or.inl rfl, member, trivial, isDirectory⟩
  · exact ⟨.table i, Or.inr ⟨i, rfl⟩, member, ⟨isUser, isPresent⟩, isTable⟩

theorem directory_used (sound : SpacesSound outside dirs s) (member : d ∈ dirs) :
    s.Used (d / pageSize) := sound.used (directory_holds outside s.mem member)

theorem table_not_directory (sound : SpacesSound outside dirs s) (member : d ∈ dirs)
    (eMember : e ∈ dirs) (isUser : UserIndex i)
    (isPresent : present (pdeValue s.mem d i) = true) :
    pdeValue s.mem d i / pageSize ≠ e / pageSize := by
  intro same
  have first := table_holds outside member isUser isPresent
  have second := directory_holds outside s.mem eMember
  rw [same] at first
  have clash := sound.booked.one first second
  cases clash

theorem table_alone (sound : SpacesSound outside dirs s) (member : d ∈ dirs) (eMember : e ∈ dirs)
    (isUser : UserIndex i) (kUser : UserIndex k)
    (isPresent : present (pdeValue s.mem d i) = true)
    (kPresent : present (pdeValue s.mem e k) = true)
    (same : pdeValue s.mem d i / pageSize = pdeValue s.mem e k / pageSize) : d = e ∧ i = k := by
  have first := table_holds outside member isUser isPresent
  have second := table_holds outside eMember kUser kPresent
  rw [same] at first
  have unique := sound.booked.one first second
  cases unique
  exact ⟨rfl, rfl⟩

/-- Writing where no entry of a directory is keeps everything. -/
theorem scribble (sound : SpacesSound outside dirs s)
    (same : ∀ x, other x ≠ s.mem x → x / pageSize ≠ kernelPageDir / pageSize ∧
      ∀ d, d ∈ dirs → ¬ Skeleton s.mem d (x / pageSize)) :
    SpacesSound outside dirs (s.setMem other) := by
  have agree : ∀ d, d ∈ dirs → ∀ x, Skeleton s.mem d (x / pageSize) → other x = s.mem x := by
    intro d member x inside
    by_contra changed
    exact (same x changed).2 d member inside
  have kernel : ∀ i, i < 1024 →
      pdeValue other kernelPageDir i = pdeValue s.mem kernelPageDir i := by
    intro i small
    apply ByteMemory.word_congr
    intro x lower upper
    by_contra changed
    exact (same x changed).1 (entry_page_eq (by decide) small lower upper)
  have pdes : ∀ d, d ∈ dirs → ∀ i, i < 1024 → pdeValue other d i = pdeValue s.mem d i :=
    fun d member i small => pde_same (sound.aligned d member) (agree d member) small
  refine ⟨sound.booted, ?_, sound.null, sound.kernelDir, sound.aligned, sound.below, ?_, ?_⟩
  · apply sound.booked.shrink
    · exact fun p taken => taken
    · rintro (_ | ⟨d, role⟩) p held
      · exact held
      · obtain ⟨member, live, isPage⟩ := held
        obtain ⟨wasLive, samePage⟩ := role_same (pdes d member)
          (fun i j isUser small isPresent =>
            pte_same (sound.aligned d member) (agree d member) isUser small isPresent) role live
        exact ⟨member, wasLive, isPage.trans samePage⟩
  · intro d member i isUser
    rw [setMem_mem, pdes d member i isUser.2]
    exact sound.entries d member i isUser
  · intro d member i isKernel
    have small : i < 1024 := by
      rw [userStartIndex_eq] at isKernel
      omega
    rw [setMem_mem, pdes d member i small, kernel i small]
    exact sound.kernelHalf d member i isKernel

/-- Frames and pages outside hold no entries. -/
theorem scribble_use (sound : SpacesSound outside dirs s) {use : PageUse}
    (holds : Holds outside dirs s.mem use p)
    (data : use = .outside ∨ ∃ d i j, use = .space d (.frame i j)) (member : d ∈ dirs) :
    ¬ Skeleton s.mem d p := by
  intro inside
  obtain ⟨role, isEntry, held⟩ := skeleton_holds outside member inside
  have same := sound.booked.one holds held
  rcases data with isOutside | ⟨e, i, j, isFrame⟩
  · rw [isOutside] at same
    cases same
  · rw [isFrame] at same
    rcases isEntry with isDirectory | ⟨k, isTable⟩
    · rw [isDirectory] at same
      cases same
    · rw [isTable] at same
      cases same

end SpacesSound

end MangoOS
