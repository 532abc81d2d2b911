/-
copy_memory and destroy_pde among all address spaces, and with them every call.
-/

import MangoOS.Memory.SpaceSteps

namespace MangoOS

open PhysicalMemory

variable {outside : Nat → Prop} {dirs : Finset Nat} {s after : PhysicalMemory}
  {mem other : ByteMemory} {d e f i j k l p c t : Nat}

/-! ### copy_memory -/

/-- What a frame holds is no entry. -/
theorem SpacesSound.fillFrame (sound : SpacesSound outside dirs s)
    (holds : Holds outside dirs s.mem (.space d (.frame i j)) f)
    (inside : ∀ x, other x ≠ s.mem x → x / pageSize = f) :
    SpacesSound outside dirs (s.setMem other) := by
  apply sound.scribble
  intro x changed
  rw [inside x changed]
  constructor
  · intro same
    rw [same] at holds
    exact sound.apart holds sound.kernelDir
  · intro e member
    exact sound.scribble_use holds (Or.inr ⟨d, i, j, rfl⟩) member

/-- One page of the child: its entry and then its bytes. -/
theorem copyPage_sound (sound : SpacesSound outside dirs s) (member : d ∈ dirs)
    (isUser : UserIndex i) (small : j < 1024) (isPresent : present (pdeValue s.mem d i) = true)
    (isTable : pdeValue s.mem d i / pageSize = t) (took : s.Took f) (ppte : Nat) :
    SpacesSound outside dirs (copyPage s.allocPage.2 ppte (t * pageSize) j (f * pageSize)) ∧
      pdeValue (copyPage s.allocPage.2 ppte (t * pageSize) j (f * pageSize)).mem d i =
        pdeValue s.mem d i := by
  have entered := sound.enterFrame member isUser small isPresent took
  have written := sound.slot_written member isUser small isPresent (entry_lt took.small)
  rw [isTable] at entered written
  have entry := written.pdes d member i isUser.2
  have slot := written.here
  have held : Holds outside dirs
      (s.mem.setWord (t * pageSize + 4 * j) (f * pageSize + 551)) (.space d (.frame i j)) f := by
    refine ⟨member, ⟨isUser, small, ?_, ?_⟩, ?_⟩
    · rw [entry]
      exact isPresent
    · rw [slot]
      exact present_entry f
    · change f = pteValue _ d i j / pageSize
      rw [slot, entry_page]
  have inside : ∀ x, (copyPage s.allocPage.2 ppte (t * pageSize) j (f * pageSize)).mem x ≠
      (s.mem.setWord (t * pageSize + 4 * j) (f * pageSize + 551)) x → x / pageSize = f := by
    intro x changed
    by_contra different
    apply changed
    unfold copyPage
    rw [setMem_mem, kmemcpy_outside, allocPage_mem, entry_eq]
    rw [Int.toNat_natCast]
    exact page_outside different
  have result : copyPage s.allocPage.2 ppte (t * pageSize) j (f * pageSize) =
      (s.allocPage.2.setMem (s.mem.setWord (t * pageSize + 4 * j) (f * pageSize + 551))).setMem
        (copyPage s.allocPage.2 ppte (t * pageSize) j (f * pageSize)).mem := rfl
  have whole := entered.fillFrame held inside
  rw [← result] at whole
  refine ⟨whole, ?_⟩
  rw [← entry]
  apply ByteMemory.word_congr
  intro x lower upper
  by_contra changed
  have inFrame := inside x changed
  rw [entry_page_eq (sound.aligned d member) isUser.2 lower upper] at inFrame
  apply took.fresh
  rw [← inFrame]
  exact sound.directory_used member

theorem copyTableLoop_sound (ppte count : Nat) :
    ∀ s j, SpacesSound outside dirs s → d ∈ dirs → UserIndex i → j + count ≤ 1024 →
      present (pdeValue s.mem d i) = true → pdeValue s.mem d i / pageSize = t →
      SpacesSound outside dirs (copyTableLoop s ppte (t * pageSize) j count).2 := by
  induction count with
  | zero =>
      intro s j sound member isUser inTable isPresent isTable
      exact sound
  | succ count ih =>
      intro s j sound member isUser inTable isPresent isTable
      by_cases copies : present (s.mem.word (ppte + 4 * j)) = true
      · rcases allocPage_cases sound.booted with ⟨full, same⟩ | ⟨f, took⟩
        · rw [copyTableLoop_full ppte _ count copies full, same]
          exact sound
        · rw [copyTableLoop_copy ppte _ count copies took]
          obtain ⟨copied, entry⟩ :=
            copyPage_sound sound member isUser (by omega : j < 1024) isPresent isTable took ppte
          refine ih _ (j + 1) copied member isUser (by omega) ?_ ?_
          · rw [entry]
            exact isPresent
          · rw [entry]
            exact isTable
      · rw [copyTableLoop_skip ppte _ count copies]
        exact ih s (j + 1) sound member isUser (by omega) isPresent isTable

theorem copyTable_sound (sound : SpacesSound outside dirs s) (member : c * pageSize ∈ dirs)
    (isUser : UserIndex i) (empty : pdeValue s.mem (c * pageSize) i = 0) (took : s.Took t)
    (clean : CleanPage s.mem (t * pageSize)) (ppde : Nat) :
    SpacesSound outside dirs (copyTable s.allocPage.2 ppde (c * pageSize) i (t * pageSize)).2 := by
  have absent : ¬ present (pdeValue s.mem (c * pageSize) i) = true := by
    rw [empty]
    decide
  have tableEntered := sound.enterTable member isUser absent took clean
  have entry := entered_entry took c i
  rw [copyTable_eq]
  unfold entered at *
  rw [entry_eq] at *
  apply copyTableLoop_sound _ 1024 _ 0 tableEntered member isUser (Nat.le_refl _)
  · rw [entry]
    exact present_entry t
  · rw [entry]
    exact entry_page t

theorem copyTable_entry (took : s.Took t) (booted : s.pages.Booted) (used : s.Used c)
    (small : i < 1024) (ppde : Nat) :
    pdeValue (copyTable s.allocPage.2 ppde (c * pageSize) i (t * pageSize)).2.mem
      (c * pageSize) i = t * pageSize + 551 := by
  have first := entered_grows took c i
  have child : c ≠ t := fun same => took.fresh (same ▸ used)
  rw [copyTable_eq, ← entered_entry took c i]
  have loop := copyTableLoop_grows (t := t) (alignDown (pdeValue (entered s c i t).mem ppde i)) 1024
    (entered s c i t) 0 (first.booted booted) (by omega)
  apply loop.word (entry_aligned c i)
  · rw [entry_inPage c small]
    exact first.kept c used
  · intro x lower upper inTable
    have inPage := inTable.page
    rw [slot_page_eq small lower upper] at inPage
    exact child inPage

/-- The pages that become tables of `c` between `s` and `after` are clean in `s`. -/
def CleanTables (s after : PhysicalMemory) (c : Nat) : Prop :=
  ∀ k, UserIndex k → present (pdeValue after.mem (c * pageSize) k) = true →
    ¬ s.Used (pdeValue after.mem (c * pageSize) k / pageSize) →
    CleanPage s.mem (pdeValue after.mem (c * pageSize) k / pageSize * pageSize)

theorem copyMemoryLoop_sound (ppde count : Nat) :
    ∀ s i, SpacesSound outside dirs s → c * pageSize ∈ dirs → userStartIndex ≤ i →
      i + count ≤ 1024 → (∀ k, i ≤ k → k < 1024 → pdeValue s.mem (c * pageSize) k = 0) →
      (copyMemoryLoop s ppde (c * pageSize) i count).1 = true →
      CleanTables s (copyMemoryLoop s ppde (c * pageSize) i count).2 c →
      SpacesSound outside dirs (copyMemoryLoop s ppde (c * pageSize) i count).2 := by
  induction count with
  | zero =>
      intro s i sound member low inDirectory empty done clean
      exact sound
  | succ count ih =>
      intro s i sound member low inDirectory empty done clean
      have isUser : UserIndex i := ⟨low, by omega⟩
      by_cases copies : present (pdeValue s.mem ppde i) = true
      · rcases allocPage_cases sound.booted with ⟨full, same⟩ | ⟨t, took⟩
        · rw [copyMemoryLoop_full s ppde _ i count copies full] at done
          cases done
        · rw [copyMemoryLoop_table s ppde _ i count copies took] at done clean ⊢
          by_cases filled :
              (copyTable s.allocPage.2 ppde (c * pageSize) i (t * pageSize)).1 = true
          · rw [if_pos filled] at done clean ⊢
            have used : s.Used c := by
              have held := sound.directory_used member
              rw [Nat.mul_div_cancel c (by decide)] at held
              exact held
            have step := copyTable_grows took sound.booted c i ppde
            have entry := copyTable_entry took sound.booted used isUser.2 ppde
            have rest := copyMemoryLoop_grows c ppde count
              (copyTable s.allocPage.2 ppde (c * pageSize) i (t * pageSize)).2 (i + 1)
              (step.booted sound.booted) (by omega)
            have cleanTable : CleanPage s.mem (t * pageSize) := by
              have last := rest.settled (step.kept c used) (Nat.lt_succ_self i) isUser.2
              change pdeValue _ (c * pageSize) i = pdeValue _ (c * pageSize) i at last
              have isClean := clean i isUser
              rw [last, entry, entry_page] at isClean
              exact isClean (present_entry t) took.fresh
            have copied := copyTable_sound sound member isUser (empty i (Nat.le_refl i) isUser.2)
              took cleanTable ppde
            generalize (copyTable s.allocPage.2 ppde (c * pageSize) i (t * pageSize)).2 = now at *
            refine ih now (i + 1) copied member (by omega) (by omega) ?_ done ?_
            · intro k lower small
              rw [← empty k (by omega) small]
              apply step.word (entry_aligned c k)
              · rw [entry_inPage c small]
                exact used
              · intro x kLower kUpper inside
                unfold EntryAt at inside
                omega
            · intro k kUser kPresent fresh j small
              have isClean :=
                clean k kUser kPresent (fun isUsed => fresh (step.kept _ isUsed)) j small
              rw [step.free_word (entry_aligned _ j)]
              · exact isClean
              · rw [entry_inPage _ small]
                exact fresh
              · intro x lower upper inside
                have inChild := entryAt_inChild isUser.2 x inside
                rw [slot_page_eq small lower upper] at inChild
                rw [inChild] at fresh
                exact fresh (step.kept c used)
          · rw [if_neg filled] at done
            cases done
      · rw [copyMemoryLoop_skip s ppde _ i count copies] at done clean ⊢
        exact ih s (i + 1) sound member (by omega) (by omega)
          (fun k lower small => empty k (by omega) small) done clean

/-- A page of the user half has a role. -/
theorem ParentPage.role {ppde : Nat} (page : ParentPage mem ppde p) :
    ∃ role : Role, role.Live mem ppde ∧ p = role.page mem ppde := by
  cases page with
  | directory => exact ⟨.directory, trivial, rfl⟩
  | @table i isUser isPresent => exact ⟨.table i, ⟨isUser, isPresent⟩, rfl⟩
  | @frame i j isUser small isPresent isEntry =>
      exact ⟨.frame i j, ⟨isUser, small, isPresent, isEntry⟩, rfl⟩

/-- Two address spaces, the second without user memory, are what copy_memory starts from. -/
theorem SpacesSound.forkReady {ppde pde : Nat} (sound : SpacesSound outside dirs s)
    (parent : ppde ∈ dirs) (child : pde ∈ dirs) (different : ppde ≠ pde)
    (empty : ∀ i, UserIndex i → pdeValue s.mem pde i = 0) : ForkReady s ppde pde := by
  have childHeld := directory_holds outside s.mem child
  refine ⟨⟨sound.booted, sound.aligned ppde parent, ?_, ?_⟩, sound.aligned pde child,
    sound.used childHeld, ?_, empty⟩
  · intro p page
    obtain ⟨role, live, isPage⟩ := page.role
    have held : Holds outside dirs s.mem (.space ppde role) p := ⟨parent, live, isPage⟩
    exact sound.used held
  · intro i j isUser small isPresent isEntry isNull
    have held := frame_holds outside parent isUser small isPresent isEntry
    rw [isNull] at held
    exact sound.apart held sound.null
  · intro page
    obtain ⟨role, live, isPage⟩ := page.role
    have unique := sound.booked.one (a := .space ppde role) ⟨parent, live, isPage⟩ childHeld
    exact different (PageUse.space.inj unique).1

theorem copyMemory_state {ppde pde : Nat} (done : (copyMemory s ppde pde).1 = 0) :
    (copyMemoryLoop s ppde pde userStartIndex (1024 - userStartIndex)).1 = true ∧
      (copyMemory s ppde pde).2 =
        (copyMemoryLoop s ppde pde userStartIndex (1024 - userStartIndex)).2 := by
  unfold copyMemory at done ⊢
  by_cases complete : (copyMemoryLoop s ppde pde userStartIndex (1024 - userStartIndex)).1 = true
  · rw [if_pos complete]
    exact ⟨complete, rfl⟩
  · rw [if_neg complete] at done
    cases done

theorem copyMemory_sound {ppde pde : Nat} (sound : SpacesSound outside dirs s)
    (parent : ppde ∈ dirs) (child : pde ∈ dirs) (different : ppde ≠ pde)
    (empty : ∀ i, UserIndex i → pdeValue s.mem pde i = 0) (done : (copyMemory s ppde pde).1 = 0)
    (clean : ∀ i, UserIndex i → present (pdeValue s.mem ppde i) = true →
      CleanPage s.mem (tablePage s ppde i)) :
    SpacesSound outside dirs (copyMemory s ppde pde).2 := by
  have ready := sound.forkReady parent child different empty
  have copied := copyMemory_copied ready done
  obtain ⟨complete, state⟩ := copyMemory_state done
  have addr := ready.child_eq
  have inDirectory : userStartIndex + (1024 - userStartIndex) ≤ 1024 := by
    rw [userStartIndex_eq]
  rw [state] at copied ⊢
  rw [← addr] at complete child ⊢
  refine copyMemoryLoop_sound ppde _ s userStartIndex sound child (Nat.le_refl _) inDirectory ?_
    complete ?_
  · intro k lower small
    rw [addr]
    exact empty k ⟨lower, small⟩
  · rw [addr]
    intro k isUser kPresent _
    rw [addr] at kPresent ⊢
    by_cases isPresent : present (pdeValue s.mem ppde k) = true
    · obtain ⟨t, page, made⟩ := copied.present_table isUser isPresent
      have entry := made.entry
      rw [addr] at entry
      rw [entry, entry_page, ← page]
      exact clean k isUser isPresent
    · rw [copied.absent_entry ready isUser isPresent] at kPresent
      cases kPresent

/-! ### destroy_pde -/

def entryRoles (mem : ByteMemory) (pde i : Nat) : List Role :=
  if present (pdeValue mem pde i) then
    ((List.range' 0 1024).filter fun j => present (pteValue mem pde i j)).map (Role.frame i) ++
      [.table i]
  else []

/-- The pages of an address space in the order in which destroy_pde gives them back. -/
def spaceRoles (mem : ByteMemory) (pde : Nat) : List Role :=
  (List.range' userStartIndex (1024 - userStartIndex)).flatMap (entryRoles mem pde) ++ [.directory]

theorem mem_entryRoles {pde : Nat} {role : Role} (member : role ∈ entryRoles mem pde i) :
    present (pdeValue mem pde i) = true ∧
      (role = .table i ∨
        ∃ j, j < 1024 ∧ present (pteValue mem pde i j) = true ∧ role = .frame i j) := by
  unfold entryRoles at member
  split at member
  case isTrue isPresent =>
      refine ⟨isPresent, ?_⟩
      rcases List.mem_append.mp member with inFrames | isTable
      · obtain ⟨j, inTable, isFrame⟩ := List.mem_map.mp inFrames
        obtain ⟨inRange, isEntry⟩ := List.mem_filter.mp inTable
        have bounds := List.mem_range'_1.mp inRange
        exact Or.inr ⟨j, by omega, isEntry, isFrame.symm⟩
      · exact Or.inl (List.mem_singleton.mp isTable)
  case isFalse => cases member

theorem mem_spaceRoles {pde : Nat} {role : Role} :
    role ∈ spaceRoles mem pde ↔ role.Live mem pde := by
  have upper : userStartIndex + (1024 - userStartIndex) = 1024 := rfl
  unfold spaceRoles
  rw [List.mem_append, List.mem_flatMap]
  constructor
  · rintro (⟨i, inRange, inEntry⟩ | isLast)
    · have bounds := List.mem_range'_1.mp inRange
      rw [upper] at bounds
      obtain ⟨isPresent, isTable | ⟨j, small, isEntry, isFrame⟩⟩ := mem_entryRoles inEntry
      · rw [isTable]
        exact ⟨bounds, isPresent⟩
      · rw [isFrame]
        exact ⟨bounds, small, isPresent, isEntry⟩
    · rw [List.mem_singleton.mp isLast]
      trivial
  · intro live
    cases role with
    | directory => exact Or.inr (List.mem_singleton_self _)
    | table i =>
        obtain ⟨isUser, isPresent⟩ := live
        refine Or.inl ⟨i, List.mem_range'_1.mpr ⟨isUser.1, upper ▸ isUser.2⟩, ?_⟩
        unfold entryRoles
        rw [if_pos isPresent]
        exact List.mem_append_right _ (List.mem_singleton_self _)
    | frame i j =>
        obtain ⟨isUser, small, isPresent, isEntry⟩ := live
        refine Or.inl ⟨i, List.mem_range'_1.mpr ⟨isUser.1, upper ▸ isUser.2⟩, ?_⟩
        unfold entryRoles
        rw [if_pos isPresent]
        apply List.mem_append_left
        apply List.mem_map_of_mem
        exact List.mem_filter.mpr ⟨List.mem_range'_1.mpr ⟨Nat.zero_le j, by omega⟩, isEntry⟩

theorem entryRoles_nodup (mem : ByteMemory) (pde i : Nat) : (entryRoles mem pde i).Nodup := by
  unfold entryRoles
  split
  · refine List.nodup_append.mpr ⟨?_, List.nodup_singleton _, ?_⟩
    · apply List.Nodup.map
      · intro j l same
        exact (Role.frame.inj same).2
      · exact List.Nodup.filter _ List.nodup_range'
    · intro role inFrames other isTable same
      obtain ⟨j, _, isFrame⟩ := List.mem_map.mp inFrames
      rw [List.mem_singleton.mp isTable, ← isFrame] at same
      cases same
  · exact List.nodup_nil

theorem spaceRoles_nodup (mem : ByteMemory) (pde : Nat) : (spaceRoles mem pde).Nodup := by
  refine List.nodup_append.mpr ⟨?_, List.nodup_singleton _, ?_⟩
  · refine List.nodup_flatMap.mpr ⟨fun i _ => entryRoles_nodup mem pde i, ?_⟩
    apply List.Pairwise.imp _ List.nodup_range'
    intro i k different role inFirst inSecond
    obtain ⟨_, isTable | ⟨j, _, _, isFrame⟩⟩ := mem_entryRoles inFirst
    · obtain ⟨_, again | ⟨l, _, _, again⟩⟩ := mem_entryRoles inSecond
      · exact different (Role.table.inj (isTable.symm.trans again))
      · cases isTable.symm.trans again
    · obtain ⟨_, again | ⟨l, _, _, again⟩⟩ := mem_entryRoles inSecond
      · cases isFrame.symm.trans again
      · exact different (Role.frame.inj (isFrame.symm.trans again)).1
  · intro role inTables other isLast same
    obtain ⟨i, _, inEntry⟩ := List.mem_flatMap.mp inTables
    rw [List.mem_singleton.mp isLast] at same
    obtain ⟨_, isTable | ⟨j, _, _, isFrame⟩⟩ := mem_entryRoles inEntry
    · cases isTable.symm.trans same
    · cases isFrame.symm.trans same

theorem entryPages_roles (mem : ByteMemory) (pde i : Nat) :
    entryPages mem pde i = (entryRoles mem pde i).map fun role => role.page mem pde * pageSize := by
  unfold entryPages entryRoles
  split
  · have slots : (fun j => mem.word (alignDown (pdeValue mem pde i) + 4 * j)) =
        fun j => pteValue mem pde i j := rfl
    unfold tableFrames
    rw [slots, List.map_append, List.filter_map, List.map_map, List.map_map, List.map_singleton,
      alignDown_eq]
    congr 1
    apply List.map_congr_left
    intro j _
    exact alignDown_eq _
  · rfl

theorem spacePages_roles {pde : Nat} (aligned : pageSize ∣ pde) :
    spacePages mem pde = (spaceRoles mem pde).map fun role => role.page mem pde * pageSize := by
  unfold spacePages spaceRoles
  rw [List.map_append, List.map_flatMap]
  congr 1
  · apply List.flatMap_congr
    intro i _
    exact entryPages_roles mem pde i
  · exact congrArg (fun addr => [addr]) (Nat.div_mul_cancel aligned).symm

theorem spacePages_nodup (sound : SpacesSound outside dirs s) (member : d ∈ dirs) :
    (spacePages s.mem d).Nodup := by
  rw [spacePages_roles (sound.aligned d member)]
  apply List.Nodup.map_on _ (spaceRoles_nodup s.mem d)
  intro role inSpace other otherIn same
  have samePage : role.page s.mem d = other.page s.mem d :=
    Nat.eq_of_mul_eq_mul_right (by decide) same
  have first : Holds outside dirs s.mem (.space d role) (role.page s.mem d) :=
    ⟨member, mem_spaceRoles.mp inSpace, rfl⟩
  have second : Holds outside dirs s.mem (.space d other) (role.page s.mem d) :=
    ⟨member, mem_spaceRoles.mp otherIn, samePage⟩
  exact (PageUse.space.inj (sound.booked.one first second)).2

/-- A page given back was one of the address space's. -/
theorem spacePages_held (sound : SpacesSound outside dirs s) (member : d ∈ dirs) {a : Nat}
    (listed : a ∈ spacePages s.mem d) :
    ∃ role, Holds outside dirs s.mem (.space d role) (a / pageSize) := by
  rw [spacePages_roles (sound.aligned d member)] at listed
  obtain ⟨role, inSpace, isPage⟩ := List.mem_map.mp listed
  refine ⟨role, member, mem_spaceRoles.mp inSpace, ?_⟩
  rw [← isPage]
  exact Nat.mul_div_cancel _ (by decide)

/-- What destroy_pde writes are entries of the directory it takes down. -/
theorem userHalf_skeleton (aligned : pageSize ∣ d) {x : Nat} (inside : UserHalf mem d x) :
    Skeleton mem d (x / pageSize) := by
  rcases inside with inDirectory | ⟨i, isUser, isPresent, isTable⟩
  · left
    obtain ⟨n, isPage⟩ := aligned
    rw [userStartIndex_eq] at inDirectory
    unfold pageSize at *
    omega
  · exact Or.inr ⟨i, isUser, isPresent, isTable⟩

theorem destroyPde_sound (sound : SpacesSound outside dirs s) (member : d ∈ dirs) :
    SpacesSound outside (dirs.erase d) (destroyPde s d).2 := by
  have aligned := sound.aligned d member
  have destroyed := destroyPde_exact s aligned (spacePages_nodup sound member)
  have kept : ∀ use p, Holds outside dirs s.mem use p → (∀ role, use ≠ .space d role) →
      ∀ x, x / pageSize = p → (destroyPde s d).2.mem x = s.mem x := by
    intro use p held others x isPage
    by_contra changed
    obtain ⟨role, _, mine⟩ := SpacesSound.skeleton_holds outside member
      (userHalf_skeleton aligned (destroyed.bytes x changed))
    rw [isPage] at mine
    exact others role (sound.booked.one held mine)
  have agree : ∀ e, e ∈ dirs.erase d → ∀ x, Skeleton s.mem e (x / pageSize) →
      (destroyPde s d).2.mem x = s.mem x := by
    intro e eMember x inside
    obtain ⟨different, eMember⟩ := Finset.mem_erase.mp eMember
    obtain ⟨role, _, held⟩ := SpacesSound.skeleton_holds outside eMember inside
    refine kept _ _ held ?_ x rfl
    intro other same
    exact different (PageUse.space.inj same).1
  have pdes : ∀ e, e ∈ dirs.erase d → ∀ i, i < 1024 →
      pdeValue (destroyPde s d).2.mem e i = pdeValue s.mem e i := by
    intro e eMember i small
    exact pde_same (sound.aligned e (Finset.mem_of_mem_erase eMember)) (agree e eMember) small
  have kernel : ∀ i, i < 1024 →
      pdeValue (destroyPde s d).2.mem kernelPageDir i = pdeValue s.mem kernelPageDir i := by
    intro i small
    apply ByteMemory.word_congr
    intro x lower upper
    refine kept .outside _ sound.kernelDir ?_ x (entry_page_eq (by decide) small lower upper)
    intro role same
    cases same
  have used : ∀ p, s.Used p → ¬ (destroyPde s d).2.Used p →
      ∃ role, Holds outside dirs s.mem (.space d role) p := by
    intro p wasUsed freed
    by_contra nobody
    apply freed
    rw [destroyed.others p]
    · exact wasUsed
    · intro a listed same
      apply nobody
      rw [same]
      exact spacePages_held sound member listed
  have fewer : ∀ use p, Holds outside (dirs.erase d) (destroyPde s d).2.mem use p →
      Holds outside dirs s.mem use p := by
    rintro (_ | ⟨e, role⟩) p held
    · exact held
    · obtain ⟨eMember, live, isPage⟩ := held
      have old := Finset.mem_of_mem_erase eMember
      obtain ⟨wasLive, samePage⟩ := role_same (pdes e eMember) (fun i j isUser small isPresent =>
        pte_same (sound.aligned e old) (agree e eMember) isUser small isPresent) role live
      exact ⟨old, wasLive, isPage.trans samePage⟩
  refine ⟨⟨?_, ?_⟩, ?_, sound.null, sound.kernelDir, ?_, ?_, ?_, ?_⟩
  · rw [destroyed.nbits]
    exact sound.booted.bounded
  · by_contra freed
    obtain ⟨role, held⟩ := used 0 sound.booted.first freed
    exact sound.apart held sound.null
  · apply sound.booked.release fewer
    intro p wasUsed freed
    obtain ⟨role, held⟩ := used p wasUsed freed
    exact ⟨_, held, fun later => absurd later.1 (Finset.notMem_erase d dirs)⟩
  · exact fun e eMember => sound.aligned e (Finset.mem_of_mem_erase eMember)
  · exact fun e eMember => sound.below e (Finset.mem_of_mem_erase eMember)
  · intro e eMember i isUser
    rw [pdes e eMember i isUser.2]
    exact sound.entries e (Finset.mem_of_mem_erase eMember) i isUser
  · intro e eMember i isKernel
    have small : i < 1024 := by
      rw [userStartIndex_eq] at isKernel
      omega
    rw [pdes e eMember i small, kernel i small]
    exact sound.kernelHalf e (Finset.mem_of_mem_erase eMember) i isKernel

end MangoOS
