/-
Address spaces over whole runs: what each program can see of its memory, and what the calls
of the others do to it.
-/

import MangoOS.Memory.SpaceCalls

namespace MangoOS

open PhysicalMemory

variable {outside more : Nat → Prop} {dirs : Finset Nat} {s after : PhysicalMemory}
  {mem other : ByteMemory} {d e i j k l p q v w : Nat}

/-! ### Translations of one memory -/

namespace SpacesSound

variable (outside) in
theorem translate_held (member : d ∈ dirs) (user : UserAddress v)
    (mapped : translate mem d v = some p) :
    Holds outside dirs mem (.space d (.frame (pdeIndex v) (pteIndex v))) (p / pageSize) := by
  obtain ⟨isPresent, isEntry⟩ := translate_present mapped
  rw [translate_page mapped]
  exact frame_holds outside member (pdeIndex_user user.1 user.2) (pteIndex_lt v) isPresent isEntry

/-- A physical byte is at one user address of one address space only. -/
theorem translate_alone (sound : SpacesSound outside dirs s) (member : d ∈ dirs)
    (eMember : e ∈ dirs) (user : UserAddress v) (otherUser : UserAddress w)
    (mapped : translate s.mem d v = some p) (otherMapped : translate s.mem e w = some p) :
    d = e ∧ v = w := by
  have unique := sound.booked.one (translate_held outside member user mapped)
    (translate_held outside eMember otherUser otherMapped)
  obtain ⟨sameDir, sameRole⟩ := PageUse.space.inj unique
  obtain ⟨sameTable, sameSlot⟩ := Role.frame.inj sameRole
  have offset : p % pageSize = v % pageSize := by
    rw [translate_frame mapped]
    unfold pageSize
    omega
  have otherOffset : p % pageSize = w % pageSize := by
    rw [translate_frame otherMapped]
    unfold pageSize
    omega
  refine ⟨sameDir, ?_⟩
  obtain ⟨_, high⟩ := user
  obtain ⟨_, otherHigh⟩ := otherUser
  unfold pdeIndex pteIndex pageSize at *
  omega

/-- Memories that agree on the pages of an address space show it alike. -/
theorem space_same (sound : SpacesSound outside dirs s) (member : d ∈ dirs)
    (same : ∀ x role, Holds outside dirs s.mem (.space d role) (x / pageSize) →
      other x = s.mem x) (user : UserAddress v) :
    translate other d v = translate s.mem d v ∧
      ∀ p, translate s.mem d v = some p → other p = s.mem p := by
  have aligned := sound.aligned d member
  have agree : ∀ x, Skeleton s.mem d (x / pageSize) → other x = s.mem x := by
    intro x inside
    obtain ⟨role, _, held⟩ := skeleton_holds outside member inside
    exact same x role held
  have isUser := pdeIndex_user user.1 user.2
  have entry := pde_same aligned agree isUser.2
  constructor
  · by_cases isPresent : present (pdeValue s.mem d (pdeIndex v)) = true
    · have slot := pte_same aligned agree isUser (pteIndex_lt v) isPresent
      unfold translate
      rw [entry, slot]
    · unfold translate
      rw [entry, if_neg (fun both => isPresent both.1), if_neg (fun both => isPresent both.1)]
  · intro p mapped
    exact same p _ (translate_held outside member user mapped)

/-- Kernel addresses are the kernel's in every address space. -/
theorem translate_kernel (sound : SpacesSound outside dirs s) (member : d ∈ dirs)
    (low : v < userMemoryBegin) : translate s.mem d v = translate s.mem kernelPageDir v := by
  have isKernel : pdeIndex v < userStartIndex := by
    rw [userStartIndex_eq]
    unfold userMemoryBegin at low
    unfold pdeIndex
    omega
  have entry := sound.kernelHalf d member _ isKernel
  unfold translate pteValue
  rw [entry]

/-! ### Pages lent to callers of alloc_pages -/

theorem reassign (sound : SpacesSound outside dirs s) (sameMem : after.mem = s.mem)
    (booted : after.pages.Booted) (booked : Booked (Holds more dirs s.mem) after.Used)
    (null : more 0) (kernelDir : more (kernelPageDir / pageSize)) :
    SpacesSound more dirs after := by
  refine ⟨booted, ?_, null, kernelDir, sound.aligned, sound.below, ?_, ?_⟩
  · rw [sameMem]
    exact booked
  · rw [sameMem]
    exact sound.entries
  · rw [sameMem]
    exact sound.kernelHalf

theorem lend (sound : SpacesSound outside dirs s) (sameMem : after.mem = s.mem)
    (booted : after.pages.Booted) {run : Finset Nat} (free : ∀ p, p ∈ run → ¬ s.Used p)
    (used : ∀ p, after.Used p ↔ s.Used p ∨ p ∈ run)
    (isMore : ∀ p, more p ↔ outside p ∨ p ∈ run) : SpacesSound more dirs after := by
  refine sound.reassign sameMem booted ?_ ((isMore _).mpr (Or.inl sound.null))
    ((isMore _).mpr (Or.inl sound.kernelDir))
  apply sound.booked.grow
  · exact fun p isUsed => (used p).mpr (Or.inl isUsed)
  · rintro (_ | ⟨d, role⟩) p held
    · rcases (isMore p).mp held with old | inRun
      · exact Or.inl old
      · exact Or.inr ⟨free p inRun, (used p).mpr (Or.inr inRun)⟩
    · exact Or.inl held
  · rintro (_ | ⟨d, role⟩) (_ | ⟨e, otherRole⟩) p unused first second
    · rfl
    · have held : Holds outside dirs s.mem (.space e otherRole) p := second
      exact absurd (sound.used held) unused
    · have held : Holds outside dirs s.mem (.space d role) p := first
      exact absurd (sound.used held) unused
    · have held : Holds outside dirs s.mem (.space d role) p := first
      exact absurd (sound.used held) unused

theorem giveBack (sound : SpacesSound outside dirs s) (sameMem : after.mem = s.mem)
    (bounded : after.pages.nbits = s.pages.nbits) {run : Finset Nat}
    (used : ∀ p, after.Used p ↔ s.Used p ∧ p ∉ run) (isMore : ∀ p, more p ↔ outside p ∧ p ∉ run)
    (mine : ∀ p, p ∈ run → outside p) (null : more 0)
    (kernelDir : more (kernelPageDir / pageSize)) : SpacesSound more dirs after := by
  have first : after.Used 0 := by
    refine (used 0).mpr ⟨sound.booted.first, ?_⟩
    exact ((isMore 0).mp null).2
  refine sound.reassign sameMem ⟨bounded ▸ sound.booted.bounded, first⟩ ?_ null kernelDir
  apply sound.booked.release
  · rintro (_ | ⟨d, role⟩) p held
    · exact ((isMore p).mp held).1
    · exact held
  · intro p wasUsed freed
    have inRun : p ∈ run := by
      by_contra notInRun
      exact freed ((used p).mpr ⟨wasUsed, notInRun⟩)
    exact ⟨.outside, mine p inRun, fun later => ((isMore p).mp later).2 inRun⟩

end SpacesSound

/-! ### Bits of a table entry -/

theorem or_accessed {value : Nat} (fits : value < 4294967296) :
    (value ||| 96) < 4294967296 ∧ (value ||| 96) / pageSize = value / pageSize ∧
      present (value ||| 96) = present value := by
  refine ⟨Nat.or_lt_two_pow (n := 32) fits (by decide), ?_, ?_⟩
  · have shifted := Nat.shiftRight_or_distrib (i := 12) (a := value) (b := 96)
    rw [Nat.shiftRight_eq_div_pow, Nat.shiftRight_eq_div_pow, Nat.shiftRight_eq_div_pow] at shifted
    rw [show pageSize = 2 ^ 12 from rfl, shifted]
    exact Nat.or_zero _
  · have low := Nat.or_mod_two_pow (a := value) (b := 96) (n := 1)
    unfold present
    rw [show (2 : Nat) = 2 ^ 1 from rfl, low]
    exact congrArg (· == 1) (Nat.or_zero _)

theorem transVtop_mapped (mapped : (translate mem d v).isSome = true) :
    translate mem d v = some (transVtop mem d v) := by
  obtain ⟨p, isMapped⟩ := Option.isSome_iff_exists.mp mapped
  rw [isMapped, transVtop_of_translate isMapped]

/-! ### Stores -/

namespace SpacesSound

/-- A byte of a frame is data. -/
theorem storeByte (sound : SpacesSound outside dirs s) (member : d ∈ dirs) (user : UserAddress v)
    (mapped : translate s.mem d v = some p) (value : Nat) :
    SpacesSound outside dirs (s.setMem (s.mem.setByte p value)) := by
  apply sound.fillFrame (translate_held outside member user mapped)
  intro x changed
  by_contra different
  apply changed
  apply ByteMemory.setByte_other
  rintro rfl
  exact different rfl

theorem markDirty_written (sound : SpacesSound outside dirs s) (member : d ∈ dirs)
    (user : UserAddress v) (mapped : translate s.mem d v = some p) :
    SlotWritten dirs s.mem (markDirty s.mem d v) d (pdeIndex v) (pteIndex v)
      (pteValue s.mem d (pdeIndex v) (pteIndex v) ||| 96) := by
  have isPresent := (translate_present mapped).1
  unfold markDirty
  rw [alignDown_eq]
  apply sound.slot_written member (pdeIndex_user user.1 user.2) (pteIndex_lt v) isPresent
  exact (or_accessed (ByteMemory.word_lt _ _)).1

/-- Setting the dirty bit changes no translation. -/
theorem markDirty_translate (sound : SpacesSound outside dirs s) (member : d ∈ dirs)
    (user : UserAddress v) (mapped : translate s.mem d v = some p) (eMember : e ∈ dirs)
    (otherUser : UserAddress w) :
    translate (markDirty s.mem d v) e w = translate s.mem e w := by
  have written := sound.markDirty_written member user mapped
  have isUser := pdeIndex_user otherUser.1 otherUser.2
  have entry := written.pdes e eMember (pdeIndex w) isUser.2
  by_cases isPresent : present (pdeValue s.mem e (pdeIndex w)) = true
  · by_cases this : e = d ∧ pdeIndex w = pdeIndex v ∧ pteIndex w = pteIndex v
    · obtain ⟨rfl, sameTable, sameSlot⟩ := this
      obtain ⟨_, samePage, samePresent⟩ :=
        or_accessed (ByteMemory.word_lt s.mem (alignDown (pdeValue s.mem e (pdeIndex v)) +
          4 * pteIndex v))
      unfold translate
      rw [entry, sameTable, sameSlot, written.here, alignDown_eq, alignDown_eq]
      unfold pteValue
      rw [samePage, samePresent]
    · have slot := written.ptes e eMember _ _ isUser (pteIndex_lt w) isPresent this
      unfold translate
      rw [entry, slot]
  · unfold translate
    rw [entry, if_neg (fun both => isPresent both.1), if_neg (fun both => isPresent both.1)]

theorem markDirty_sound (sound : SpacesSound outside dirs s) (member : d ∈ dirs)
    (user : UserAddress v) (mapped : translate s.mem d v = some p) :
    SpacesSound outside dirs (s.setMem (markDirty s.mem d v)) := by
  obtain ⟨isPresent, isEntry⟩ := translate_present mapped
  have bits := or_accessed (ByteMemory.word_lt s.mem (alignDown (pdeValue s.mem d (pdeIndex v)) +
    4 * pteIndex v))
  unfold markDirty
  rw [alignDown_eq]
  exact sound.flags member (pdeIndex_user user.1 user.2) (pteIndex_lt v) isPresent bits.1 bits.2.1
    isEntry

variable (outside) in
/-- Marking an entry dirty writes the table that it is in. -/
theorem markDirty_bytes (member : d ∈ dirs) (user : UserAddress v)
    (mapped : translate s.mem d v = some p) {x : Nat} (changed : markDirty s.mem d v x ≠ s.mem x) :
    Holds outside dirs s.mem (.space d (.table (pdeIndex v))) (x / pageSize) := by
  have isPresent := (translate_present mapped).1
  have page : x / pageSize = pdeValue s.mem d (pdeIndex v) / pageSize := by
    by_contra different
    apply changed
    apply ByteMemory.setWord_other
    rw [alignDown_eq]
    have inTable := pteIndex_lt v
    unfold pageSize at *
    omega
  rw [page]
  exact table_holds outside member (pdeIndex_user user.1 user.2) isPresent

end SpacesSound

/-! ### Every call -/

namespace SpaceSystem

variable {kernel : Nat → Prop} {s : SpaceSystem} {call : SpaceCall}

/-- The pages that `alloc_pages(count)` found. -/
theorem allocPages_run (booted : s.memory.pages.Booted) {count : Nat} (positive : 1 ≤ count) :
    ((MangoOS.allocPages s.memory.pages count).1 = 0 ∧
        (MangoOS.allocPages s.memory.pages count).2 = s.memory.pages) ∨
      ∃ found, (MangoOS.allocPages s.memory.pages count).1 = found * pageSize ∧
        found * pageSize ≠ 0 ∧
        (∀ p, p ∈ Finset.Ico found (found + count) → ¬ s.memory.Used p) ∧
        (MangoOS.allocPages s.memory.pages count).2.Booted ∧
        ∀ p, (MangoOS.allocPages s.memory.pages count).2.used p = true ↔
          s.memory.Used p ∨ p ∈ Finset.Ico found (found + count) := by
  rcases (PagesOwned.start s.memory.pages).allocPages_spec booted count positive with
    ⟨refused, _⟩ | ⟨found, nonzero, small, run, served⟩
  · left
    rw [refused]
    exact ⟨rfl, rfl⟩
  · right
    have bits : ∀ p, (bitmapSetBits s.memory.pages found true count true).used p = true ↔
        s.memory.Used p ∨ p ∈ Finset.Ico found (found + count) := by
      intro p
      rw [bitmapSetBits_used s.memory.pages found count p true positive, Finset.mem_Ico]
      by_cases inside : found ≤ p ∧ p < found + count
      · rw [if_pos inside]
        exact ⟨fun _ => Or.inr inside, fun _ => rfl⟩
      · rw [if_neg inside]
        exact ⟨Or.inl, fun either => either.resolve_right inside⟩
    rw [served]
    refine ⟨found, rfl, Nat.mul_ne_zero (Nat.ne_of_gt nonzero) (by decide), ?_, ?_, bits⟩
    · intro p inRun isUsed
      obtain ⟨lower, upper⟩ := Finset.mem_Ico.mp inRun
      have clear := run.clear p lower upper
      unfold Used at isUsed
      rw [clear] at isUsed
      cases isUsed
    · refine ⟨?_, (bits 0).mpr (Or.inl booted.first)⟩
      rw [bitmapSetBits_nbits]
      exact booted.bounded

theorem Sound.allocPages (sound : s.Sound kernel) {count : Nat} (positive : 1 ≤ count) :
    (s.run (.allocPages count)).Sound kernel := by
  rcases allocPages_run sound.spaces.booted positive with
    ⟨refused, same⟩ | ⟨found, served, nonzero, free, booted, used⟩
  · have unchanged : s.run (.allocPages count) = s := by
      unfold run
      simp only [refused, same, if_pos]
    rw [unchanged]
    exact sound
  · have lent : (s.run (.allocPages count)).lent = s.lent ∪ Finset.Ico found (found + count) := by
      unfold run
      simp only [served, if_neg nonzero, Nat.mul_div_cancel found (by decide : 0 < pageSize)]
    refine ⟨sound.spaces.lend rfl booted free used ?_, sound.null, sound.kernelDir, ?_⟩
    · intro p
      unfold Outside
      rw [lent, Finset.mem_union, or_assoc]
    · intro p isLent isKernel
      rw [lent] at isLent
      rcases Finset.mem_union.mp isLent with old | inRun
      · exact sound.lent p old isKernel
      · exact free p inRun (sound.spaces.outside_used (Or.inl isKernel))

theorem Sound.freePages (sound : s.Sound kernel) {addr count : Nat} (positive : 1 ≤ count)
    (mine : ∀ p, p ∈ Finset.Ico (addr / pageSize) (addr / pageSize + count) → p ∈ s.lent) :
    (s.run (.freePages addr count)).Sound kernel := by
  have used : ∀ p, (s.run (.freePages addr count)).memory.Used p ↔
      s.memory.Used p ∧ p ∉ Finset.Ico (addr / pageSize) (addr / pageSize + count) := by
    intro p
    change (bitmapSetBits s.memory.pages (addr / pageSize : Nat) false count true).used p = true ↔ _
    rw [bitmapSetBits_used s.memory.pages (addr / pageSize) count p false positive, Finset.mem_Ico]
    by_cases inside : addr / pageSize ≤ p ∧ p < addr / pageSize + count
    · rw [if_pos inside]
      constructor
      · intro set
        cases set
      · exact fun both => absurd inside both.2
    · rw [if_neg inside]
      exact ⟨fun set => ⟨set, inside⟩, fun both => both.1⟩
  refine ⟨sound.spaces.giveBack rfl (bitmapSetBits_nbits ..) used ?_
    (fun p inRun => Or.inr (mine p inRun)) (Or.inl sound.null) (Or.inl sound.kernelDir),
    sound.null, sound.kernelDir, ?_⟩
  · intro p
    change (kernel p ∨ p ∈ s.lent \ _) ↔ (kernel p ∨ p ∈ s.lent) ∧ _
    rw [Finset.mem_sdiff]
    constructor
    · rintro (isKernel | ⟨isLent, notInRun⟩)
      · exact ⟨Or.inl isKernel, fun inRun => sound.lent p (mine p inRun) isKernel⟩
      · exact ⟨Or.inr isLent, notInRun⟩
    · rintro ⟨isKernel | isLent, notInRun⟩
      · exact Or.inl isKernel
      · exact Or.inr ⟨isLent, notInRun⟩
  · intro p isLent
    exact sound.lent p (Finset.mem_sdiff.mp isLent).1

theorem Sound.spaces_only (sound : s.Sound kernel) (after : SpaceSystem)
    (sameLent : after.lent = s.lent)
    (spaces : SpacesSound (s.Outside kernel) after.dirs after.memory) : after.Sound kernel := by
  refine ⟨?_, sound.null, sound.kernelDir, ?_⟩
  · unfold Outside at *
    rw [sameLent]
    exact spaces
  · rw [sameLent]
    exact sound.lent

/-- Every allowed call keeps every page at one use. -/
theorem Sound.run (sound : s.Sound kernel) (allowed : s.Allowed kernel call) :
    (s.run call).Sound kernel := by
  have spaces := sound.spaces
  cases call with
  | createPde =>
      rcases createPde_cases spaces.booted with failed | ⟨c, made⟩
      · have unchanged : s.run .createPde = s := by
          unfold SpaceSystem.run
          simp only [failed, if_pos]
        rw [unchanged]
        exact sound
      · refine sound.spaces_only _ rfl ?_
        have created := createPde_sound spaces made
        have dirs : (s.run .createPde).dirs = insert (c * pageSize) s.dirs := by
          unfold SpaceSystem.run
          dsimp only
          rw [if_neg made.addr_ne, made.addr]
        rw [dirs]
        exact created
  | allocVpages pde addr size =>
      obtain ⟨member, user, counted, fits, clean⟩ := allowed
      exact sound.spaces_only _ rfl
        (allocVpages_sound spaces member (pdeIndex_user user.1 user.2) counted fits clean)
  | copyMemory ppde pde =>
      obtain ⟨parent, child, different, empty, done, clean⟩ := allowed
      exact sound.spaces_only _ rfl
        (copyMemory_sound spaces parent child different empty done clean)
  | destroyPde pde => exact sound.spaces_only _ rfl (destroyPde_sound spaces allowed)
  | store pde vaddr value =>
      obtain ⟨member, user⟩ := allowed
      unfold SpaceSystem.run
      dsimp only
      split
      case h_1 p mapped =>
          refine sound.spaces_only _ rfl ?_
          have dirty := spaces.markDirty_sound member user mapped
          have stillMapped := spaces.markDirty_translate member user mapped member user
          exact dirty.storeByte member user (stillMapped.trans mapped) value
      case h_2 => exact sound
  | copyToUser pde vaddr value =>
      obtain ⟨member, user, mapped⟩ := allowed
      exact sound.spaces_only _ rfl (spaces.storeByte member user (transVtop_mapped mapped) value)
  | write addr value =>
      obtain ⟨mine, notDirectory⟩ := allowed
      refine sound.spaces_only _ rfl ?_
      apply spaces.scribble
      intro x changed
      have isAddr : x = addr := by
        by_contra different
        exact changed (ByteMemory.setByte_other _ _ different)
      rw [isAddr]
      have held : Holds (s.Outside kernel) s.dirs s.memory.mem .outside (addr / pageSize) := mine
      exact ⟨notDirectory, fun d member => spaces.scribble_use held (Or.inl rfl) member⟩
  | allocPages count => exact sound.allocPages allowed
  | freePages addr count => exact sound.freePages allowed.1 allowed.2

end SpaceSystem

end MangoOS
