/-
Every call keeps the pages of all address spaces apart.

alloc_vpages and copy_memory are taken apart into two writes: a table entered into a directory,
and a frame entered into a table.
-/

import MangoOS.Memory.SpaceSystem

namespace MangoOS

open PhysicalMemory

variable {outside : Nat → Prop} {dirs : Finset Nat} {s after : PhysicalMemory}
  {mem : ByteMemory} {d e f i j k l p w : Nat}

theorem word_setWord_ne (mem : ByteMemory) {a b : Nat} (value : Nat) (aAligned : a % 4 = 0)
    (bAligned : b % 4 = 0) (different : a ≠ b) : (mem.setWord b value).word a = mem.word a := by
  apply ByteMemory.word_setWord_other
  omega

theorem entry_mod (aligned : pageSize ∣ d) (i : Nat) : (d + 4 * i) % 4 = 0 := by
  obtain ⟨n, isPage⟩ := aligned
  unfold pageSize at isPage
  omega

theorem entry_div (aligned : pageSize ∣ d) (small : i < 1024) :
    (d + 4 * i) / pageSize = d / pageSize := by
  obtain ⟨n, isPage⟩ := aligned
  unfold pageSize at *
  omega

/-- Two entries at one address are one entry. -/
theorem entry_index (dAligned : pageSize ∣ d) (eAligned : pageSize ∣ e) (iSmall : i < 1024)
    (kSmall : k < 1024) (same : d + 4 * i = e + 4 * k) : d = e ∧ i = k := by
  obtain ⟨n, isPage⟩ := dAligned
  obtain ⟨m, isPageE⟩ := eAligned
  unfold pageSize at *
  omega

theorem slot_index (iSmall : i < 1024) (kSmall : k < 1024)
    (same : p * pageSize + 4 * i = f * pageSize + 4 * k) : p = f ∧ i = k := by
  unfold pageSize at *
  omega

theorem pteValue_slot (mem : ByteMemory) (d i j : Nat) :
    pteValue mem d i j = mem.word (pdeValue mem d i / pageSize * pageSize + 4 * j) :=
  pteValue_eq mem d i j

/-! ### A frame entered into a table -/

/-- What a write to the entry `j` of the table `i` of `d` leaves. -/
structure SlotWritten (dirs : Finset Nat) (mem other : ByteMemory) (d i j w : Nat) : Prop where
  kernel : ∀ k, k < 1024 → pdeValue other kernelPageDir k = pdeValue mem kernelPageDir k
  pdes : ∀ e, e ∈ dirs → ∀ k, k < 1024 → pdeValue other e k = pdeValue mem e k
  here : pteValue other d i j = w
  ptes : ∀ e, e ∈ dirs → ∀ k l, UserIndex k → l < 1024 → present (pdeValue mem e k) = true →
    ¬ (e = d ∧ k = i ∧ l = j) → pteValue other e k l = pteValue mem e k l

namespace SpacesSound

/-- Directory entries as before, and pages with one use: that is all. -/
theorem rebook (sound : SpacesSound outside dirs s) (booted : after.pages.Booted)
    (booked : Booked (Holds outside dirs after.mem) after.Used)
    (kernel : ∀ k, k < 1024 → pdeValue after.mem kernelPageDir k = pdeValue s.mem kernelPageDir k)
    (pdes : ∀ e, e ∈ dirs → ∀ k, k < 1024 → pdeValue after.mem e k = pdeValue s.mem e k) :
    SpacesSound outside dirs after := by
  refine ⟨booted, booked, sound.null, sound.kernelDir, sound.aligned, sound.below, ?_, ?_⟩
  · intro e member k isUser
    rw [pdes e member k isUser.2]
    exact sound.entries e member k isUser
  · intro e member k isKernel
    have small : k < 1024 := by
      rw [userStartIndex_eq] at isKernel
      omega
    rw [pdes e member k small, kernel k small]
    exact sound.kernelHalf e member k isKernel

theorem table_not_kernel (sound : SpacesSound outside dirs s) (member : d ∈ dirs)
    (isUser : UserIndex i) (isPresent : present (pdeValue s.mem d i) = true) :
    pdeValue s.mem d i / pageSize ≠ kernelPageDir / pageSize := by
  intro same
  have held := table_holds outside member isUser isPresent
  rw [same] at held
  exact sound.apart held sound.kernelDir

theorem slot_written (sound : SpacesSound outside dirs s) (member : d ∈ dirs)
    (isUser : UserIndex i) (small : j < 1024) (isPresent : present (pdeValue s.mem d i) = true)
    (fits : w < 4294967296) :
    SlotWritten dirs s.mem
      (s.mem.setWord (pdeValue s.mem d i / pageSize * pageSize + 4 * j) w) d i j w := by
  have slotAligned := slot_aligned (pdeValue s.mem d i / pageSize) j
  have inTable := entry_inPage (pdeValue s.mem d i / pageSize) small
  have apart : ∀ e, pageSize ∣ e → pdeValue s.mem d i / pageSize ≠ e / pageSize → ∀ k, k < 1024 →
      pdeValue (s.mem.setWord (pdeValue s.mem d i / pageSize * pageSize + 4 * j) w) e k =
        pdeValue s.mem e k := by
    intro e aligned different k kSmall
    apply word_setWord_ne _ _ (entry_mod aligned k) slotAligned
    intro same
    apply different
    rw [← inTable, ← same]
    exact entry_div aligned kSmall
  have pdes : ∀ e, e ∈ dirs → ∀ k, k < 1024 →
      pdeValue (s.mem.setWord (pdeValue s.mem d i / pageSize * pageSize + 4 * j) w) e k =
        pdeValue s.mem e k := fun e eMember =>
    apart e (sound.aligned e eMember) (sound.table_not_directory member eMember isUser isPresent)
  refine ⟨?_, pdes, ?_, ?_⟩
  · exact apart kernelPageDir (by decide) (sound.table_not_kernel member isUser isPresent)
  · rw [pteValue_slot, pdes d member i isUser.2, ByteMemory.word_setWord, Nat.mod_eq_of_lt fits]
  · intro e eMember k l kUser lSmall kPresent elsewhere
    rw [pteValue_slot, pteValue_slot, pdes e eMember k kUser.2]
    apply word_setWord_ne _ _ (slot_aligned _ _) slotAligned
    intro same
    obtain ⟨samePage, sameSlot⟩ := slot_index lSmall small same
    obtain ⟨sameDir, sameTable⟩ :=
      sound.table_alone eMember member kUser isUser kPresent isPresent samePage
    exact elsewhere ⟨sameDir, sameTable, sameSlot⟩

/-- Changing the flags of a table entry keeps everything. -/
theorem flags (sound : SpacesSound outside dirs s) (member : d ∈ dirs) (isUser : UserIndex i)
    (small : j < 1024) (isPresent : present (pdeValue s.mem d i) = true) (fits : w < 4294967296)
    (samePage : w / pageSize = pteValue s.mem d i j / pageSize)
    (isEntry : present (pteValue s.mem d i j) = true) :
    SpacesSound outside dirs
      (s.setMem (s.mem.setWord (pdeValue s.mem d i / pageSize * pageSize + 4 * j) w)) := by
  have written := sound.slot_written member isUser small isPresent fits
  refine sound.rebook sound.booted ?_ written.kernel written.pdes
  refine sound.booked.shrink (fun p taken => taken) ?_
  rintro (_ | ⟨e, role⟩) p held
  · exact held
  · obtain ⟨eMember, live, isPage⟩ := held
    cases role with
    | directory => exact ⟨eMember, live, isPage⟩
    | table k =>
        obtain ⟨kUser, kPresent⟩ := live
        change p = pdeValue _ e k / pageSize at isPage
        rw [setMem_mem, written.pdes e eMember k kUser.2] at kPresent isPage
        exact ⟨eMember, ⟨kUser, kPresent⟩, isPage⟩
    | frame k l =>
        obtain ⟨kUser, lSmall, kPresent, lEntry⟩ := live
        change p = pteValue _ e k l / pageSize at isPage
        rw [setMem_mem] at kPresent lEntry isPage
        rw [written.pdes e eMember k kUser.2] at kPresent
        by_cases this : e = d ∧ k = i ∧ l = j
        · obtain ⟨rfl, rfl, rfl⟩ := this
          rw [written.here, samePage] at isPage
          exact ⟨eMember, ⟨kUser, lSmall, kPresent, isEntry⟩, isPage⟩
        · rw [written.ptes e eMember k l kUser lSmall kPresent this] at lEntry isPage
          exact ⟨eMember, ⟨kUser, lSmall, kPresent, lEntry⟩, isPage⟩

/-- A page just taken becomes a frame; what the entry mapped before is lost, not shared. -/
theorem enterFrame (sound : SpacesSound outside dirs s) (member : d ∈ dirs) (isUser : UserIndex i)
    (small : j < 1024) (isPresent : present (pdeValue s.mem d i) = true) (took : s.Took f) :
    SpacesSound outside dirs (s.allocPage.2.setMem
      (s.mem.setWord (pdeValue s.mem d i / pageSize * pageSize + 4 * j) (f * pageSize + 551))) := by
  have written := sound.slot_written member isUser small isPresent (entry_lt took.small)
  refine sound.rebook (took_booted sound.booted took _) ?_ written.kernel written.pdes
  refine sound.booked.add took.fresh took.used (a := .space d (.frame i j)) ?_
  rintro (_ | ⟨e, role⟩) p held
  · exact Or.inl held
  · obtain ⟨eMember, live, isPage⟩ := held
    cases role with
    | directory => exact Or.inl ⟨eMember, live, isPage⟩
    | table k =>
        obtain ⟨kUser, kPresent⟩ := live
        change p = pdeValue _ e k / pageSize at isPage
        rw [setMem_mem, written.pdes e eMember k kUser.2] at kPresent isPage
        exact Or.inl ⟨eMember, ⟨kUser, kPresent⟩, isPage⟩
    | frame k l =>
        obtain ⟨kUser, lSmall, kPresent, lEntry⟩ := live
        change p = pteValue _ e k l / pageSize at isPage
        rw [setMem_mem] at kPresent lEntry isPage
        rw [written.pdes e eMember k kUser.2] at kPresent
        by_cases this : e = d ∧ k = i ∧ l = j
        · obtain ⟨rfl, rfl, rfl⟩ := this
          rw [written.here, entry_page] at isPage
          exact Or.inr ⟨rfl, isPage⟩
        · rw [written.ptes e eMember k l kUser lSmall kPresent this] at lEntry isPage
          exact Or.inl ⟨eMember, ⟨kUser, lSmall, kPresent, lEntry⟩, isPage⟩

/-! ### A table entered into a directory -/

/-- What a write to the entry `i` of `d`, which was empty, leaves. -/
structure EntryWritten (dirs : Finset Nat) (mem other : ByteMemory) (d i w : Nat) : Prop where
  kernel : ∀ k, k < 1024 → pdeValue other kernelPageDir k = pdeValue mem kernelPageDir k
  here : pdeValue other d i = w
  pdes : ∀ e, e ∈ dirs → ∀ k, k < 1024 → ¬ (e = d ∧ k = i) → pdeValue other e k = pdeValue mem e k
  ptes : ∀ e, e ∈ dirs → ∀ k l, UserIndex k → l < 1024 → present (pdeValue mem e k) = true →
    pteValue other e k l = pteValue mem e k l
  words : ∀ p l, l < 1024 → p ≠ d / pageSize →
    other.word (p * pageSize + 4 * l) = mem.word (p * pageSize + 4 * l)

theorem directory_not_kernel (sound : SpacesSound outside dirs s) (member : d ∈ dirs) :
    d / pageSize ≠ kernelPageDir / pageSize := by
  intro same
  have held := directory_holds outside s.mem member
  rw [same] at held
  exact sound.apart held sound.kernelDir

theorem entry_written (sound : SpacesSound outside dirs s) (member : d ∈ dirs)
    (isUser : UserIndex i) (absent : ¬ present (pdeValue s.mem d i) = true)
    (fits : w < 4294967296) :
    EntryWritten dirs s.mem (s.mem.setWord (d + 4 * i) w) d i w := by
  have aligned := sound.aligned d member
  have entryAligned := entry_mod aligned i
  have inDirectory := entry_div aligned isUser.2
  have pdes : ∀ e, e ∈ dirs → ∀ k, k < 1024 → ¬ (e = d ∧ k = i) →
      pdeValue (s.mem.setWord (d + 4 * i) w) e k = pdeValue s.mem e k := by
    intro e eMember k kSmall elsewhere
    apply word_setWord_ne _ _ (entry_mod (sound.aligned e eMember) k) entryAligned
    intro same
    exact elsewhere (entry_index (sound.aligned e eMember) aligned kSmall isUser.2 same)
  have words : ∀ p l, l < 1024 → p ≠ d / pageSize →
      (s.mem.setWord (d + 4 * i) w).word (p * pageSize + 4 * l) =
        s.mem.word (p * pageSize + 4 * l) := by
    intro p l lSmall different
    apply word_setWord_ne _ _ (slot_aligned _ _) entryAligned
    intro same
    apply different
    rw [← inDirectory, ← same]
    exact (entry_inPage p lSmall).symm
  refine ⟨?_, ?_, pdes, ?_, words⟩
  · intro k small
    apply word_setWord_ne _ _ (entry_mod (by decide) k) entryAligned
    intro same
    apply sound.directory_not_kernel member
    rw [← inDirectory, ← same]
    exact entry_div (by decide) small
  · exact (ByteMemory.word_setWord _ _ _).trans (Nat.mod_eq_of_lt fits)
  · intro e eMember k l kUser lSmall kPresent
    have elsewhere : ¬ (e = d ∧ k = i) := by
      rintro ⟨rfl, rfl⟩
      exact absent kPresent
    rw [pteValue_slot, pteValue_slot, pdes e eMember k kUser.2 elsewhere]
    exact words _ l lSmall (sound.table_not_directory eMember member kUser kPresent)

/-- A clean page just taken becomes a table. -/
theorem enterTable (sound : SpacesSound outside dirs s) (member : d ∈ dirs) (isUser : UserIndex i)
    (absent : ¬ present (pdeValue s.mem d i) = true) (took : s.Took f)
    (clean : CleanPage s.mem (f * pageSize)) :
    SpacesSound outside dirs
      (s.allocPage.2.setMem (s.mem.setWord (d + 4 * i) (f * pageSize + 551))) := by
  have written := sound.entry_written member isUser absent (entry_lt took.small)
  have notDirectory : f ≠ d / pageSize := by
    intro same
    apply took.fresh
    rw [same]
    exact sound.directory_used member
  refine ⟨took_booted sound.booted took _, ?_, sound.null, sound.kernelDir, sound.aligned,
    sound.below, ?_, ?_⟩
  · refine sound.booked.add took.fresh took.used (a := .space d (.table i)) ?_
    rintro (_ | ⟨e, role⟩) p held
    · exact Or.inl held
    · obtain ⟨eMember, live, isPage⟩ := held
      cases role with
      | directory => exact Or.inl ⟨eMember, live, isPage⟩
      | table k =>
          obtain ⟨kUser, kPresent⟩ := live
          change p = pdeValue _ e k / pageSize at isPage
          rw [setMem_mem] at kPresent isPage
          by_cases this : e = d ∧ k = i
          · obtain ⟨rfl, rfl⟩ := this
            rw [written.here, entry_page] at isPage
            exact Or.inr ⟨rfl, isPage⟩
          · rw [written.pdes e eMember k kUser.2 this] at kPresent isPage
            exact Or.inl ⟨eMember, ⟨kUser, kPresent⟩, isPage⟩
      | frame k l =>
          obtain ⟨kUser, lSmall, kPresent, lEntry⟩ := live
          change p = pteValue _ e k l / pageSize at isPage
          rw [setMem_mem] at kPresent lEntry isPage
          by_cases this : e = d ∧ k = i
          · obtain ⟨rfl, rfl⟩ := this
            rw [pteValue_slot, written.here, entry_page, written.words f l lSmall notDirectory]
              at lEntry
            exact absurd lEntry (clean l lSmall)
          · rw [written.pdes e eMember k kUser.2 this] at kPresent
            rw [written.ptes e eMember k l kUser lSmall kPresent] at lEntry isPage
            exact Or.inl ⟨eMember, ⟨kUser, lSmall, kPresent, lEntry⟩, isPage⟩
  · intro e eMember k kUser
    rw [setMem_mem]
    by_cases this : e = d ∧ k = i
    · obtain ⟨rfl, rfl⟩ := this
      rw [written.here]
      exact Or.inr (present_entry f)
    · rw [written.pdes e eMember k kUser.2 this]
      exact sound.entries e eMember k kUser
  · intro e eMember k isKernel
    have small : k < 1024 := by
      rw [userStartIndex_eq] at isKernel
      omega
    have elsewhere : ¬ (e = d ∧ k = i) := by
      rintro ⟨_, rfl⟩
      exact absurd isUser.1 (Nat.not_le.mpr isKernel)
    rw [setMem_mem, written.pdes e eMember k small elsewhere, written.kernel k small]
    exact sound.kernelHalf e eMember k isKernel

end SpacesSound

/-! ### alloc_vpages -/

/-- The table `T` for the entry `i` of `d`: there before, or made by the call. -/
inductive Placed (s : PhysicalMemory) (d i : Nat) : (T : Nat) → (now : PhysicalMemory) → Prop
  | found (isPresent : present (pdeValue s.mem d i) = true) :
      Placed s d i (pdeValue s.mem d i / pageSize) s
  | made {T : Nat} (absent : pdeValue s.mem d i = 0) (took : s.Took T) :
      Placed s d i T (s.allocPage.2.setMem (s.mem.setWord (d + 4 * i) (T * pageSize + 551)))

theorem allocVpagesTable_shape (booted : s.pages.Booted) (page index size : Nat) :
    ∃ frames, frames.length ≤ vpagesRounds (vpagesCount size) ∧
      Takes s (page / pageSize * pageSize + 4 * index) frames
        (allocVpagesTable s page index size).state := by
  unfold allocVpagesTable
  rw [alignDown_eq]
  dsimp only
  split
  case isTrue mapped => exact ⟨[], Nat.zero_le _, Takes.nil s _⟩
  case isFalse unmapped =>
      rcases allocVpagesLoop_cases booted (page / pageSize * pageSize + 4 * index)
          (vpagesRounds (vpagesCount size)) with
        ⟨frames, after, length, takes, result⟩ | ⟨frames, after, length, takes, _, result⟩
      · rw [result]
        exact ⟨frames, Nat.le_of_eq length, takes⟩
      · rw [result]
        exact ⟨frames, Nat.le_of_lt length, takes⟩

/-- A call that changes anything has its table in place and enters frames there. -/
theorem allocVpages_shape (size : Nat) (booted : s.pages.Booted) {pde addr : Nat}
    (entry : pdeValue s.mem pde (pdeIndex addr) = 0 ∨
      present (pdeValue s.mem pde (pdeIndex addr)) = true) :
    (allocVpages s pde addr size).state = s ∨ ∃ T now frames,
      Placed s pde (pdeIndex addr) T now ∧ frames.length ≤ vpagesRounds (vpagesCount size) ∧
        Takes now (T * pageSize + 4 * pteIndex addr) frames
          (allocVpages s pde addr size).state := by
  unfold allocVpages
  dsimp only
  by_cases absent : pdeValue s.mem pde (pdeIndex addr) = 0
  · rw [if_pos absent]
    rcases allocPage_cases booted with ⟨full, same⟩ | ⟨T, took⟩
    · left
      rw [if_pos full]
      exact same
    · right
      rw [if_neg took.addr_ne, took.addr, entry_eq]
      obtain ⟨frames, short, takes⟩ := allocVpagesTable_shape
        (took_booted booted took (s.mem.setWord (pde + 4 * pdeIndex addr) (T * pageSize + 551)))
        (T * pageSize) (pteIndex addr) size
      rw [Nat.mul_div_cancel _ (by decide : 0 < pageSize)] at takes
      exact ⟨T, _, frames, Placed.made absent took, short, takes⟩
  · right
    rw [if_neg absent]
    obtain ⟨frames, short, takes⟩ := allocVpagesTable_shape booted
      (pdeValue s.mem pde (pdeIndex addr)) (pteIndex addr) size
    exact ⟨_, s, frames, Placed.found (entry.resolve_left absent), short, takes⟩

/-- With its table in place, the directory is as sound as before. -/
theorem Placed.sound {T : Nat} {now : PhysicalMemory} (placed : Placed s d i T now)
    (sound : SpacesSound outside dirs s) (member : d ∈ dirs) (isUser : UserIndex i)
    (clean : pdeValue s.mem d i = 0 → s.allocPage.1 ≠ 0 → CleanPage s.mem s.allocPage.1) :
    SpacesSound outside dirs now ∧ present (pdeValue now.mem d i) = true ∧
      pdeValue now.mem d i / pageSize = T := by
  cases placed with
  | found isPresent => exact ⟨sound, isPresent, rfl⟩
  | made absent took =>
      have unmapped : ¬ present (pdeValue s.mem d i) = true := by
        rw [absent]
        decide
      have cleanPage := clean absent took.addr_ne
      rw [took.addr] at cleanPage
      have written := sound.entry_written member isUser unmapped (entry_lt took.small)
      refine ⟨sound.enterTable member isUser unmapped took cleanPage, ?_, ?_⟩
      · rw [setMem_mem, written.here]
        exact present_entry T
      · rw [setMem_mem, written.here]
        exact entry_page T

theorem Takes.sound {frames : List Nat} (takes : Takes s p frames after) (member : d ∈ dirs)
    (isUser : UserIndex i) (j : Nat) (fits : j + frames.length ≤ 1024)
    (start : frames ≠ [] → p = pdeValue s.mem d i / pageSize * pageSize + 4 * j)
    (isPresent : present (pdeValue s.mem d i) = true) (sound : SpacesSound outside dirs s) :
    SpacesSound outside dirs after := by
  induction takes generalizing j with
  | nil => exact sound
  | cons took rest ih =>
      rename_i now final pte f frames
      rw [List.length_cons] at fits
      have isSlot := start (List.cons_ne_nil f frames)
      have small : j < 1024 := by omega
      have written := sound.slot_written member isUser small isPresent (entry_lt took.small)
      have entered := sound.enterFrame member isUser small isPresent took
      rw [← isSlot] at written entered
      have directory := written.pdes d member i isUser.2
      apply ih (j + 1) (by omega) _ _ entered
      · intro more
        have below : pdeValue now.mem d i < 4294967296 := ByteMemory.word_lt _ _
        have room : 0 < frames.length := List.length_pos_iff.mpr more
        rw [setMem_mem, directory, isSlot]
        unfold pageSize
        omega
      · rw [setMem_mem, directory]
        exact isPresent

theorem allocVpages_sound {addr size : Nat} (sound : SpacesSound outside dirs s)
    (member : d ∈ dirs) (isUser : UserIndex (pdeIndex addr)) (counted : 1 ≤ vpagesCount size)
    (fits : pteIndex addr + vpagesCount size ≤ 1024)
    (clean : pdeValue s.mem d (pdeIndex addr) = 0 → s.allocPage.1 ≠ 0 →
      CleanPage s.mem s.allocPage.1) :
    SpacesSound outside dirs (allocVpages s d addr size).state := by
  have rounds : vpagesRounds (vpagesCount size) = vpagesCount size := if_neg (by omega)
  rcases allocVpages_shape size sound.booted
      (sound.entries d member (pdeIndex addr) isUser) with
    same | ⟨T, now, frames, placed, short, takes⟩
  · rw [same]
    exact sound
  · obtain ⟨nowSound, isPresent, isTable⟩ := placed.sound sound member isUser clean
    refine takes.sound member isUser (pteIndex addr) (by omega) ?_ isPresent nowSound
    intro _
    rw [isTable]

/-- Outside the table the run of entries changes nothing. -/
theorem Takes.byte_outside {frames : List Nat} {T : Nat} (small : T < 1048576)
    (takes : Takes s (T * pageSize + 4 * j) frames after) (fits : j + frames.length ≤ 1024)
    {x : Nat}
    (away : x < T * pageSize + 4 * j ∨ T * pageSize + 4 * (j + frames.length) ≤ x) :
    after.mem x = s.mem x := by
  apply takes.outside
  · unfold pageSize
    omega
  · omega

/-- The entry `j` of the table is none of those that the run enters. -/
theorem Takes.slot_outside {frames : List Nat} {T P : Nat} (small : T < 1048576)
    (takes : Takes s (T * pageSize + 4 * j) frames after) (fits : j + frames.length ≤ 1024)
    (inTable : l < 1024) (elsewhere : ¬ (P = T ∧ j ≤ l ∧ l < j + frames.length)) :
    after.mem.word (P * pageSize + 4 * l) = s.mem.word (P * pageSize + 4 * l) := by
  apply ByteMemory.word_congr
  intro x lower upper
  apply takes.byte_outside small fits
  unfold pageSize at *
  omega

theorem Placed.table_lt {T : Nat} {now : PhysicalMemory} (placed : Placed s d i T now) :
    T < 1048576 := by
  cases placed with
  | found isPresent =>
      have below : pdeValue s.mem d i < 4294967296 := ByteMemory.word_lt _ _
      unfold pageSize
      omega
  | made absent took => exact took.small

/-- alloc_vpages writes the directory and one of its tables. -/
theorem allocVpages_byte {addr size x : Nat} (sound : SpacesSound outside dirs s)
    (member : d ∈ dirs) (isUser : UserIndex (pdeIndex addr)) (counted : 1 ≤ vpagesCount size)
    (fits : pteIndex addr + vpagesCount size ≤ 1024) (used : s.Used (x / pageSize))
    (elsewhere : ¬ Skeleton s.mem d (x / pageSize)) :
    (allocVpages s d addr size).state.mem x = s.mem x := by
  have rounds : vpagesRounds (vpagesCount size) = vpagesCount size := if_neg (by omega)
  rcases allocVpages_shape size sound.booted
      (sound.entries d member (pdeIndex addr) isUser) with
    same | ⟨T, now, frames, placed, short, takes⟩
  · rw [same]
  · have inside := pteIndex_lt addr
    have notTable : x / pageSize ≠ T → (allocVpages s d addr size).state.mem x = now.mem x := by
      intro different
      apply takes.byte_outside placed.table_lt (by omega)
      unfold pageSize at *
      omega
    cases placed with
    | found isPresent =>
        exact notTable (fun same => elsewhere (Or.inr ⟨_, isUser, isPresent, same⟩))
    | made absent took =>
        rw [notTable (fun same => took.fresh (same ▸ used))]
        apply ByteMemory.setWord_other
        have apart : x / pageSize ≠ d / pageSize := fun same => elsewhere (Or.inl same)
        obtain ⟨n, isPage⟩ := sound.aligned d member
        have small := isUser.2
        unfold pageSize at *
        omega

/-- With its table in place, the directory maps what it mapped before. -/
theorem Placed.translate {T : Nat} {now : PhysicalMemory} (placed : Placed s d i T now)
    (sound : SpacesSound outside dirs s) (member : d ∈ dirs) (isUser : UserIndex i)
    (clean : pdeValue s.mem d i = 0 → s.allocPage.1 ≠ 0 → CleanPage s.mem s.allocPage.1) {v : Nat}
    (vUser : UserIndex (pdeIndex v)) : translate now.mem d v = translate s.mem d v := by
  cases placed with
  | found isPresent => rfl
  | made absent took =>
      have unmapped : ¬ present (pdeValue s.mem d i) = true := by
        rw [absent]
        decide
      have cleanPage := clean absent took.addr_ne
      rw [took.addr] at cleanPage
      have written := sound.entry_written member isUser unmapped (entry_lt took.small)
      have notDirectory : T ≠ d / pageSize := by
        intro same
        apply took.fresh
        rw [same]
        exact sound.directory_used member
      unfold MangoOS.translate
      rw [setMem_mem]
      by_cases here : pdeIndex v = i
      · have stray : ¬ present (pteValue (s.mem.setWord (d + 4 * i) (T * pageSize + 551)) d
            (pdeIndex v) (pteIndex v)) = true := by
          rw [here, pteValue_slot, written.here, entry_page,
            written.words T (pteIndex v) (pteIndex_lt v) notDirectory]
          exact cleanPage (pteIndex v) (pteIndex_lt v)
        rw [if_neg (fun both => stray both.2), here, if_neg (fun both => unmapped both.1)]
      · rw [written.pdes d member _ vUser.2 (fun both => here both.2)]
        by_cases isPresent : present (pdeValue s.mem d (pdeIndex v)) = true
        · rw [written.ptes d member _ _ vUser (pteIndex_lt v) isPresent]
        · rw [if_neg (fun both => isPresent both.1), if_neg (fun both => isPresent both.1)]

/-- alloc_vpages changes no translation but those of its range. -/
theorem allocVpages_translate {addr size v : Nat} (sound : SpacesSound outside dirs s)
    (member : d ∈ dirs) (isUser : UserIndex (pdeIndex addr)) (counted : 1 ≤ vpagesCount size)
    (fits : pteIndex addr + vpagesCount size ≤ 1024)
    (clean : pdeValue s.mem d (pdeIndex addr) = 0 → s.allocPage.1 ≠ 0 →
      CleanPage s.mem s.allocPage.1)
    (vUser : UserIndex (pdeIndex v))
    (elsewhere : ¬ (pdeIndex v = pdeIndex addr ∧ pteIndex addr ≤ pteIndex v ∧
      pteIndex v < pteIndex addr + vpagesCount size)) :
    translate (allocVpages s d addr size).state.mem d v = translate s.mem d v := by
  have rounds : vpagesRounds (vpagesCount size) = vpagesCount size := if_neg (by omega)
  rcases allocVpages_shape size sound.booted
      (sound.entries d member (pdeIndex addr) isUser) with
    same | ⟨T, now, frames, placed, short, takes⟩
  · rw [same]
  · obtain ⟨nowSound, isPresent, isTable⟩ := placed.sound sound member isUser clean
    rw [← placed.translate sound member isUser clean vUser]
    have tableSmall := placed.table_lt
    have room : pteIndex addr + frames.length ≤ 1024 := by omega
    have entry : ∀ k, k < 1024 →
        pdeValue (allocVpages s d addr size).state.mem d k = pdeValue now.mem d k := by
      intro k small
      have apart := nowSound.table_not_directory member member isUser isPresent
      obtain ⟨n, isPage⟩ := sound.aligned d member
      apply ByteMemory.word_congr
      intro x lower upper
      apply takes.byte_outside tableSmall room
      rw [isTable] at apart
      unfold pageSize at *
      omega
    by_cases vPresent : present (pdeValue now.mem d (pdeIndex v)) = true
    · have slot : pteValue (allocVpages s d addr size).state.mem d (pdeIndex v) (pteIndex v) =
          pteValue now.mem d (pdeIndex v) (pteIndex v) := by
        rw [pteValue_slot, pteValue_slot, entry _ vUser.2]
        apply takes.slot_outside tableSmall room (pteIndex_lt v)
        rintro ⟨samePage, lower, upper⟩
        rw [← isTable] at samePage
        have sameTable :=
          (nowSound.table_alone member member vUser isUser vPresent isPresent samePage).2
        exact elsewhere ⟨sameTable, lower, by omega⟩
      unfold translate
      rw [entry _ vUser.2, slot]
    · unfold translate
      rw [entry _ vUser.2, if_neg (fun both => vPresent both.1),
        if_neg (fun both => vPresent both.1)]

/-! ### create_pde -/

theorem fillPde_kernelHalf (mem : ByteMemory) {c k : Nat} (isKernel : k < userStartIndex)
    (apart : c ≠ kernelPageDir / pageSize) :
    pdeValue (fillPde mem (c * pageSize)) (c * pageSize) k = pdeValue mem kernelPageDir k := by
  have far : c * pageSize + 4096 ≤ kernelPageDir ∨ kernelPageDir + 4096 ≤ c * pageSize := by
    unfold kernelPageDir pageSize at *
    omega
  have few : k < 1024 := by
    rw [userStartIndex_eq] at isKernel
    omega
  unfold fillPde
  rw [createPdeLoop_kernel _ 1024 isKernel far _ 0 (Nat.zero_le k) (by omega) (Nat.le_refl _)]
  apply ByteMemory.word_congr
  intro x lower upper
  apply kmemset_outside
  rw [Int.toNat_natCast]
  unfold pageSize at *
  omega

theorem MadeDirectory.kernelHalf {c : Nat} (made : MadeDirectory s c)
    (apart : c ≠ kernelPageDir / pageSize) {k : Nat} (isKernel : k < userStartIndex) :
    pdeValue (createPde s).2.mem (c * pageSize) k = pdeValue s.mem kernelPageDir k := by
  have half := fillPde_kernelHalf s.mem isKernel apart
  rw [createPde_took made.took]
  simp only [setMem_mem]
  exact half

theorem createPde_sound {c : Nat} (sound : SpacesSound outside dirs s) (made : MadeDirectory s c) :
    SpacesSound outside (insert (c * pageSize) dirs) (createPde s).2 := by
  have used : ∀ p, (createPde s).2.Used p ↔ s.Used p ∨ p = c := by
    intro p
    rw [← made.took.used p]
    unfold Used
    rw [made.pages]
  have kept : ∀ x, s.Used (x / pageSize) → (createPde s).2.mem x = s.mem x :=
    fun x isUsed => made.grows.byte isUsed id
  have agree : ∀ d, d ∈ dirs → ∀ x, Skeleton s.mem d (x / pageSize) →
      (createPde s).2.mem x = s.mem x := by
    intro d member x inside
    obtain ⟨role, _, held⟩ := SpacesSound.skeleton_holds outside member inside
    exact kept x (sound.used held)
  have pdes : ∀ d, d ∈ dirs → ∀ i, i < 1024 →
      pdeValue (createPde s).2.mem d i = pdeValue s.mem d i :=
    fun d member i small => pde_same (sound.aligned d member) (agree d member) small
  have kernelUsed := sound.outside_used sound.kernelDir
  have kernel : ∀ i, i < 1024 →
      pdeValue (createPde s).2.mem kernelPageDir i = pdeValue s.mem kernelPageDir i := by
    intro i small
    apply ByteMemory.word_congr
    intro x lower upper
    apply kept
    rw [entry_page_eq (by decide) small lower upper]
    exact kernelUsed
  have apart : c ≠ kernelPageDir / pageSize := by
    intro same
    rw [← same] at kernelUsed
    exact made.took.fresh kernelUsed
  refine ⟨made.grows.booted sound.booted, ?_, sound.null, sound.kernelDir, ?_, ?_, ?_, ?_⟩
  · refine sound.booked.add made.took.fresh used (a := .space (c * pageSize) .directory) ?_
    rintro (_ | ⟨d, role⟩) p held
    · exact Or.inl held
    · obtain ⟨member, live, isPage⟩ := held
      rcases Finset.mem_insert.mp member with isNew | old
      · rw [isNew] at live isPage ⊢
        cases role with
        | directory => exact Or.inr ⟨rfl, isPage.trans (Nat.mul_div_cancel c (by decide))⟩
        | table i =>
            obtain ⟨isUser, isPresent⟩ := live
            rw [made.empty i isUser] at isPresent
            cases isPresent
        | frame i j =>
            obtain ⟨isUser, _, isPresent, _⟩ := live
            rw [made.empty i isUser] at isPresent
            cases isPresent
      · obtain ⟨wasLive, samePage⟩ := role_same (pdes d old) (fun i j isUser small isPresent =>
          pte_same (sound.aligned d old) (agree d old) isUser small isPresent) role live
        exact Or.inl ⟨old, wasLive, isPage.trans samePage⟩
  · intro d member
    rcases Finset.mem_insert.mp member with isNew | old
    · rw [isNew]
      exact Nat.dvd_mul_left pageSize c
    · exact sound.aligned d old
  · intro d member
    rcases Finset.mem_insert.mp member with isNew | old
    · rw [isNew]
      have small := made.took.small
      unfold pageSize
      omega
    · exact sound.below d old
  · intro d member i isUser
    rcases Finset.mem_insert.mp member with isNew | old
    · rw [isNew]
      exact Or.inl (made.empty i isUser)
    · rw [pdes d old i isUser.2]
      exact sound.entries d old i isUser
  · intro d member i isKernel
    have small : i < 1024 := by
      rw [userStartIndex_eq] at isKernel
      omega
    rw [kernel i small]
    rcases Finset.mem_insert.mp member with isNew | old
    · rw [isNew]
      exact made.kernelHalf apart isKernel
    · rw [pdes d old i small]
      exact sound.kernelHalf d old i isKernel

end MangoOS
