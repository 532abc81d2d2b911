/-
Whether a mount that fails has released what it acquired: the paths of ext2_mount
(fs/ext2.c), and the ones that release everything.
-/

import MangoOS.FileSystem.MountResources
import MangoOS.Device.DeviceLaw

namespace MangoOS

open Intrusive FileSystem

/-! ### The reads of the bitmaps -/

/-- How many reads load so many sectors. -/
def transfersFor (secCount : Nat) : Nat := (secCount + 7) / 8

namespace Device

/-- The disk serves the reads of so many sectors, at most 8 at a time, from its transfer number
`first` on. -/
def ServesSectors (device : Device) (first secCount : Nat) : Prop :=
  ∀ j, j < transfersFor secCount → min 8 (secCount - 8 * j) ≤ device.served (first + j)

/-- The read of a bitmap without a whole sector counts as failed. -/
def ServesBitmap (device : Device) (first size : Nat) : Prop :=
  512 ≤ size ∧ device.ServesSectors first (size / 512)

/-- The same for all groups, each with its block bitmap and then its inode bitmap. -/
def ServesGroups (device : Device) (first count blocks inodes : Nat) : Prop :=
  ∀ k, k < count →
    let begin := first + k * (transfersFor (blocks / 512) + transfersFor (inodes / 512))
    device.ServesBitmap begin blocks ∧
      device.ServesBitmap (begin + transfersFor (blocks / 512)) inodes

def later (device : Device) (transfers : Nat) : Device :=
  { device with transfers := device.transfers + transfers }

variable {device : Device} {first secCount : Nat}

theorem servesSectors_last (positive : 0 < secCount) (last : secCount ≤ 8) :
    device.ServesSectors first secCount ↔ secCount ≤ device.served first := by
  have one : transfersFor secCount = 1 := by
    unfold transfersFor
    omega
  unfold ServesSectors
  rw [one, Nat.forall_lt_succ_left, Nat.mul_zero, Nat.sub_zero, Nat.min_eq_right last]
  exact and_iff_left (fun j impossible => absurd impossible (Nat.not_lt_zero j))

theorem servesSectors_more (more : 8 < secCount) :
    device.ServesSectors first secCount ↔
      8 ≤ device.served first ∧ device.ServesSectors (first + 1) (secCount - 8) := by
  have next : transfersFor secCount = transfersFor (secCount - 8) + 1 := by
    unfold transfersFor
    omega
  unfold ServesSectors
  rw [next, Nat.forall_lt_succ_left, Nat.mul_zero, Nat.sub_zero, Nat.min_eq_left (by omega),
    Nat.add_zero]
  refine and_congr_right fun _ => forall₂_congr fun j _ => ?_
  rw [Nat.add_assoc, Nat.add_comm 1 j, Nat.sub_sub, Nat.mul_succ, Nat.add_comm 8]

theorem servesGroups_succ {count blocks inodes : Nat} :
    device.ServesGroups first (count + 1) blocks inodes ↔
      (device.ServesBitmap first blocks ∧
        device.ServesBitmap (first + transfersFor (blocks / 512)) inodes) ∧
      device.ServesGroups (first + (transfersFor (blocks / 512) + transfersFor (inodes / 512)))
        count blocks inodes := by
  unfold ServesGroups
  rw [Nat.forall_lt_succ_left, Nat.zero_mul, Nat.add_zero]
  refine and_congr_right fun _ => forall₂_congr fun k _ => ?_
  rw [Nat.succ_mul, Nat.add_comm (k * _), ← Nat.add_assoc first]

theorem devRead_eq (device : Device) (begin count : Nat) (buf : Region) (positive : 0 < count) :
    ∃ answer rest, device.devRead begin buf count = (answer, rest, device.later 1) ∧
      (answer ≤ 0 ↔ device.served device.transfers < count) := by
  refine ⟨_, _, rfl, ?_⟩
  unfold outcome enodisk
  split
  · omega
  · omega

end Device

variable {device : Device}

theorem loadBitmapLoop_served (sector size fuel : Nat) {secCount : Nat} (positive : 0 < secCount)
    (enough : secCount ≤ 8 * fuel) (offset : Nat) (bitmap data : Region) (device : Device) :
    (device.ServesSectors device.transfers secCount ∧
      ∃ loaded rest, loadBitmapLoop sector size fuel secCount offset bitmap data device =
        some (loaded, rest, device.later (transfersFor secCount))) ∨
    (¬ device.ServesSectors device.transfers secCount ∧
      loadBitmapLoop sector size fuel secCount offset bitmap data device = none) := by
  induction fuel generalizing secCount offset bitmap data device with
  | zero => omega
  | succ fuel ih =>
      have count : (if (secCount : Int) > 8 then 8 else (secCount : Int).toNat) =
          min 8 secCount := by
        split <;> omega
      obtain ⟨answer, rest, read, failed⟩ :=
        device.devRead_eq sector (min 8 secCount) data (by omega)
      rw [loadBitmapLoop, count, read]
      dsimp only
      by_cases more : 8 < secCount
      · have left : (secCount : Int) - 8 = (secCount - 8 : Nat) := by omega
        rw [Nat.min_eq_left (by omega)] at failed
        rw [Device.servesSectors_more more]
        by_cases short : device.served device.transfers < 8
        · rw [if_pos (failed.mpr short)]
          exact Or.inr ⟨fun both => absurd both.1 (by omega), rfl⟩
        · have again : ((secCount - 8 : Nat) : Int) > 0 := by omega
          rw [if_neg (mt failed.mp short), left, if_pos again]
          have total : transfersFor secCount = 1 + transfersFor (secCount - 8) := by
            unfold transfersFor
            omega
          rw [and_iff_right (Nat.le_of_not_lt short), total]
          have split : device.later (1 + transfersFor (secCount - 8)) =
              (device.later 1).later (transfersFor (secCount - 8)) := by
            unfold Device.later
            rw [Nat.add_assoc]
          rw [split]
          exact ih (by omega) (by omega) (offset + 1) _ rest (device.later 1)
      · have done : ¬ (secCount : Int) - 8 > 0 := by omega
        have once : transfersFor secCount = 1 := by
          unfold transfersFor
          omega
        rw [Nat.min_eq_right (by omega)] at failed
        rw [Device.servesSectors_last positive (by omega), once]
        by_cases short : device.served device.transfers < secCount
        · rw [if_pos (failed.mpr short)]
          exact Or.inr ⟨Nat.not_le_of_lt short, rfl⟩
        · rw [if_neg (mt failed.mp short), if_neg done]
          exact Or.inl ⟨Nat.le_of_not_lt short, _, _, rfl⟩

theorem loadBitmap_served (blockSize block size : Nat) (bitmap data : Region) (device : Device) :
    (device.ServesBitmap device.transfers size ∧
      ∃ loaded rest, loadBitmap blockSize block size bitmap data device =
        some (loaded, rest, device.later (transfersFor (size / 512)))) ∨
    (¬ device.ServesBitmap device.transfers size ∧
      loadBitmap blockSize block size bitmap data device = none) := by
  unfold loadBitmap Device.ServesBitmap
  dsimp only
  by_cases whole : 512 ≤ size
  · rw [and_iff_right whole]
    exact loadBitmapLoop_served _ size _ (by omega) (by omega) 0 bitmap data device
  · have none : size / 512 = 0 := by omega
    refine Or.inr ⟨fun served => whole served.1, ?_⟩
    rw [none, loadBitmapLoop]
    rfl

/-- The bitmaps of all groups have the same sizes. -/
def FileSystem.SizedBy (fs : FileSystem) (blocks inodes : Nat) : Prop :=
  ∀ i, (fs.groups i).blockBitmapSize = blocks ∧ (fs.groups i).inodeBitmapSize = inodes

variable {fs : FileSystem} {blocks inodes : Nat}

theorem FileSystem.SizedBy.setBitmaps (sized : fs.SizedBy blocks inodes) (device : Device)
    (i : Nat) (block inode : Region) :
    (fs.setBitmaps device i block inode).SizedBy blocks inodes := by
  intro j
  rw [setBitmaps_groups]
  by_cases here : j = i
  · rw [if_pos here]
    exact sized i
  · rw [if_neg here]
    exact sized j

theorem loadGroup_served (sized : fs.SizedBy blocks inodes) (data : Region) (i : Nat) :
    let device := fs.store.device
    let between := device.transfers + transfersFor (blocks / 512)
    ((device.ServesBitmap device.transfers blocks ∧ device.ServesBitmap between inodes) ∧
      ∃ rest next, fs.loadGroup data i = some (rest, next) ∧ next.SizedBy blocks inodes ∧
        next.store.device =
          device.later (transfersFor (blocks / 512) + transfersFor (inodes / 512))) ∨
    (¬ (device.ServesBitmap device.transfers blocks ∧ device.ServesBitmap between inodes) ∧
      fs.loadGroup data i = none) := by
  obtain ⟨blockSize, inodeSize⟩ := sized i
  unfold FileSystem.loadGroup
  dsimp only
  rw [blockSize, inodeSize]
  rcases loadBitmap_served fs.blockSize (fs.groups i).blockBitmap blocks
      (fs.groups i).pBlockBitmap data fs.store.device with
    ⟨served, loaded, rest, loads⟩ | ⟨unserved, fails⟩
  · rw [loads, and_iff_right served]
    dsimp only
    rcases loadBitmap_served fs.blockSize (fs.groups i).inodeBitmap inodes
        (fs.groups i).pInodeBitmap rest (fs.store.device.later (transfersFor (blocks / 512))) with
      ⟨servedNext, loadedNext, last, loadsNext⟩ | ⟨unserved, fails⟩
    · rw [loadsNext]
      refine Or.inl ⟨servedNext, _, _, rfl, sized.setBitmaps _ _ _ _, ?_⟩
      change Device.later (Device.later _ _) _ = _
      unfold Device.later
      rw [Nat.add_assoc]
    · rw [fails]
      exact Or.inr ⟨unserved, rfl⟩
  · rw [fails]
    exact Or.inr ⟨fun both => unserved both.1, rfl⟩

/-- All groups are loaded if and only if the disk serves the reads of their bitmaps. -/
theorem loadGroups_served (sized : fs.SizedBy blocks inodes) (left i : Nat) (data : Region) :
    (∃ last, fs.loadGroups left i data = some last) ↔
      fs.store.device.ServesGroups fs.store.device.transfers left blocks inodes := by
  induction left generalizing i data fs with
  | zero =>
      refine iff_of_true ⟨fs, rfl⟩ ?_
      intro k impossible
      exact absurd impossible (Nat.not_lt_zero k)
  | succ left ih =>
      rw [FileSystem.loadGroups, Device.servesGroups_succ]
      rcases loadGroup_served sized data i with
        ⟨served, rest, next, loads, sizedNext, device⟩ | ⟨unserved, fails⟩
      · rw [loads, and_iff_right served]
        have others := ih sizedNext (i + 1) rest
        rw [device] at others
        exact others
      · rw [fails]
        refine iff_of_false ?_ (fun both => unserved both.1)
        rintro ⟨last, impossible⟩
        cases impossible

/-! ### What a mount releases, and the paths that release it -/

namespace MountCall

variable (call : MountCall)

/-- The answer of `dev_open`. -/
def devId : Int := (call.table.devOpen call.major call.minor 0).1

/-- `data`, once the super block is read. -/
def superData : Region := mountBuffer call.memory call.store.device

def groupBlock : Nat := call.superData.word 32

def groupCount : Nat := loopBound call.superData

/-- `open_count` is an `int`. -/
def IntCounts : Prop :=
  ∀ id, int32 (call.table.slot id).openCount = (call.table.slot id).openCount

/-- Something went wrong in a call that ends so. -/
def Failed (ends : MountEnd) : Prop :=
  call.devId < 0 ∨ ends.readFailed = true ∨ ∃ k, k < ends.run.asked ∧ call.serve k = 0

/-- The call ends; it fails with a negative answer, and then nothing that it acquired is kept and
nothing else is released; it stays inside the group table; and it sets the fields otherwise. -/
def Releases : Prop :=
  ∃ ends, call.ext2Mount = some ends ∧
    (call.Failed ends → ends.answer < 0) ∧
    (ends.answer < 0 →
      (∀ id, (ends.run.table.slot id).openCount = (call.table.slot id).openCount) ∧
        ends.run.freed = ends.run.allocated) ∧
    (∀ i ∈ ends.run.touched, 0 ≤ i ∧ i < call.groupCount) ∧
    (0 ≤ ends.answer → ends.fields.devId = ends.answer ∧
      ends.fields.data ∈ ends.run.allocated ∧ ends.fields.mutex ∈ ends.run.allocated)

/-- The disk serves the reads of all bitmaps. -/
def ServesBitmaps : Prop :=
  call.store.device.ServesGroups (call.store.device.transfers + 1) call.groupCount
    (mountBitmapSize (call.superData.word 32)) (mountBitmapSize (call.superData.word 40))

/-- There is memory for the super block, but not for its copy nor for the mutex. -/
def CopyAndMutexRefused : Prop :=
  call.serve 0 = 0 ∧ call.serve 1 ≠ 0 ∧ call.serve (3 * call.groupCount + 2) = 0

/-- The device cannot be opened; or the super block is read and describes groups, and either
`kmalloc` refuses both the copy and the super block itself, or the disk serves all bitmaps while
`kmalloc` serves every call or refuses the copy and the mutex. -/
def Clean : Prop :=
  call.devId < 0 ∨
    7 ≤ call.store.device.served call.store.device.transfers ∧ call.groupBlock ≠ 0 ∧
      (call.serve 0 = 0 ∧ call.serve 1 = 0 ∨
        call.ServesBitmaps ∧
          (call.CopyAndMutexRefused ∨ ∀ k, k < 3 * call.groupCount + 3 → call.serve k ≠ 0))

variable {call}

/-! ### The device -/

theorem devOpen_failed (fails : call.devId < 0) (id : Nat) :
    ((call.table.devOpen call.major call.minor 0).2.slot id).openCount =
      (call.table.slot id).openCount := by
  unfold devId at fails
  rcases DeviceTable.devOpen_cases call.table call.major call.minor 0 with
    ⟨slot, _, _, _, opened⟩ | ⟨_, ⟨_, opened⟩ | ⟨slot, _, _, free, ⟨_, opened⟩ | ⟨_, opened⟩⟩⟩
  · rw [opened] at fails
    omega
  · rw [opened]
  · rw [opened, DeviceTable.setSlot_slot]
    split
    case isTrue here =>
      rw [here]
      exact free.symm
    case isFalse => rfl
  · rw [opened] at fails
    omega

/-- The open count of the device is one more until it is closed. -/
theorem devOpen_counts (ints : call.IntCounts) (opens : ¬ call.devId < 0) :
    let opened := (call.table.devOpen call.major call.minor 0).2
    (opened.slot call.devId.toNat).openCount ≠ (call.table.slot call.devId.toNat).openCount ∧
      ∀ id, ((opened.devClose call.devId.toNat).2.slot id).openCount =
        (call.table.slot id).openCount := by
  unfold devId at opens ⊢
  rcases DeviceTable.devOpen_cases call.table call.major call.minor 0 with
    ⟨slot, _, _, _, opened⟩ | ⟨_, ⟨_, opened⟩ | ⟨slot, _, _, free, ⟨_, opened⟩ | ⟨_, opened⟩⟩⟩
  · have counted := ints slot
    have bounds := int32_bounds (call.table.slot slot).openCount
    rw [opened]
    dsimp only
    rw [Int.toNat_natCast, DeviceTable.setSlot_slot, if_pos rfl]
    constructor
    · change int32 ((call.table.slot slot).openCount + 1) ≠ _
      unfold int32 at counted ⊢
      omega
    · intro id
      rw [DeviceTable.devClose_openCount, DeviceTable.setSlot_slot, if_pos rfl,
        DeviceTable.setSlot_slot]
      split
      case isTrue here =>
        rw [here, Int.sub_eq_add_neg, int32_add]
        exact (congrArg int32 (by omega)).trans counted
      case isFalse => rfl
  · rw [opened] at opens
    exact absurd (by decide : -DeviceTable.enodev < 0) opens
  · rw [opened] at opens
    exact absurd (by decide : -DeviceTable.enodev < 0) opens
  · rw [opened]
    dsimp only
    have isOpen (id : Nat) :
        ((call.table.opened slot call.minor 0).slot id).openCount =
          if id = slot then 1 else (call.table.slot id).openCount := by
      change ((call.table.setSlot slot _).slot id).openCount = _
      rw [DeviceTable.setSlot_slot]
      split <;> rfl
    rw [Int.toNat_natCast, isOpen, if_pos rfl, free]
    refine ⟨by decide, ?_⟩
    intro id
    rw [DeviceTable.devClose_openCount, isOpen, isOpen, if_pos rfl]
    split
    case isTrue here =>
      rw [here, free]
      exact int32_of_range (by decide) (by decide)
    case isFalse => rfl

/-! ### The paths -/

/-- The run after `dev_open`. -/
def begun (call : MountCall) : MountRun :=
  .start (call.table.devOpen call.major call.minor 0).2 call.stale

/-- The run after the second call of `kmalloc`. -/
def ready (call : MountCall) : MountRun :=
  ((call.begun.kmalloc call.serve).2.kmalloc call.serve).2

theorem ext2Mount_unopened (fails : call.devId < 0) :
    call.ext2Mount = some ⟨call.devId, false, call.fields, call.begun⟩ := by
  unfold ext2Mount
  exact if_pos fails

theorem ext2Mount_unread (opens : ¬ call.devId < 0)
    (short : ¬ 7 ≤ call.store.device.served call.store.device.transfers) :
    (call.store.device.devRead 2 call.memory.data 7).1 ≤ 0 ∧
      call.ext2Mount =
        some ⟨(call.store.device.devRead 2 call.memory.data 7).1, true, call.fields,
          call.begun⟩ := by
  obtain ⟨count, data, read, failed⟩ :=
    call.store.device.devRead_eq 2 7 call.memory.data (by decide)
  have negative := failed.mpr (Nat.lt_of_not_le short)
  rw [read]
  refine ⟨negative, ?_⟩
  unfold ext2Mount
  rw [read]
  dsimp only
  exact (if_neg opens).trans (if_pos negative)

theorem ext2Mount_read (opens : ¬ call.devId < 0)
    (read : 7 ≤ call.store.device.served call.store.device.transfers) :
    call.ext2Mount =
      if call.groupBlock = 0 then none
      else if call.serve 1 = 0 then some ⟨-enomem, false, call.fields, call.ready.close call.devId⟩
      else some (call.mountGroups call.devId call.superData (call.store.device.later 1)
        call.groupCount (call.serve 1) call.ready) := by
  unfold ext2Mount
  rw [devRead_mountBuffer read]
  dsimp only
  exact (if_neg opens).trans (if_neg (by decide))

/-- The super block before the bitmaps are read. -/
def emptySuper (call : MountCall) : FileSystem :=
  mountSuper call.memory call.superData
    { call.store with device := call.store.device.later 1 } call.dirty

/-- The table of `count` groups with its memory for the bitmaps. -/
def allocated (call : MountCall) (count : Nat) : MountRun :=
  (call.ready.setGroup (-1)
    (headerPointers call.superData (call.ready.groups (-1)))).allocBitmaps call.serve count 0

/-- The end of `ext2_mount`, once all bitmaps are read. -/
def finish (call : MountCall) (count : Nat) (run : MountRun) : MountEnd :=
  let fields := { call.fields with data := call.serve 1, devId := call.devId }
  let (mutex, run) := run.kmalloc call.serve
  if mutex = 0 then
    ⟨-enomem, false, fields,
      ((run.freeGroups count 0).kfree (call.serve 1)).close call.devId⟩
  else ⟨call.devId, false, { fields with mutex := mutex }, run⟩

def conclude (call : MountCall) (count : Nat) (loaded : Bool × MountRun) : MountEnd :=
  if loaded.1 = false then
    ⟨-enomem, true, call.fields, (loaded.2.kfree (call.serve 1)).close call.devId⟩
  else call.finish count loaded.2

theorem mountGroups_eq (call : MountCall) (count : Nat) :
    call.mountGroups call.devId call.superData (call.store.device.later 1) count (call.serve 1)
        call.ready =
      call.conclude count ((call.allocated count).loadGroups call.serve count 0 call.superData
        call.emptySuper) := by
  unfold mountGroups
  rfl

/-- The table of `count` groups once all bitmaps are read. -/
structure Loaded (call : MountCall) (count : Nat) (run : MountRun) : Prop where
  table : run.table = call.begun.table
  freed : run.freed = 0
  asked : run.asked = 3 * count + 2
  allocated : run.allocated = blockAt (call.serve 0) + blockAt (call.serve 1) +
    run.held MountRun.bitmapBlocks 0 count +
    run.held (fun pointers => blockAt pointers.inodeData) 0 count
  touched : ∀ i ∈ run.touched, 0 ≤ i ∧ i < count

/-- A failed read leaves the table, and the others lead to the call for the mutex. -/
theorem mountGroups_cases (call : MountCall) :
    (¬ call.ServesBitmaps ∧ ∃ run : MountRun, (-1 : Int) ∈ run.touched ∧
      call.mountGroups call.devId call.superData (call.store.device.later 1) call.groupCount
        (call.serve 1) call.ready =
          ⟨-enomem, true, call.fields, (run.kfree (call.serve 1)).close call.devId⟩) ∨
    (call.ServesBitmaps ∧ ∃ run, call.Loaded call.groupCount run ∧
      call.mountGroups call.devId call.superData (call.store.device.later 1) call.groupCount
        (call.serve 1) call.ready = call.finish call.groupCount run) := by
  have sized : call.emptySuper.SizedBy (mountBitmapSize (call.superData.word 32))
      (mountBitmapSize (call.superData.word 40)) := fun _ => ⟨rfl, rfl⟩
  have served := loadGroups_served sized call.groupCount 0 call.superData
  obtain ⟨within, freed, asked, allocated⟩ := MountRun.allocBitmaps_spec call.serve
    call.groupCount 0
    (call.ready.setGroup (-1) (headerPointers call.superData (call.ready.groups (-1))))
  rw [mountGroups_eq]
  rcases MountRun.loadGroups_spec call.serve call.groupCount 0 call.superData call.emptySuper
      (call.allocated call.groupCount) with
    ⟨fails, run, ends, left⟩ | ⟨isLoaded, run, ends, loads⟩
  · rw [ends]
    refine Or.inl ⟨?_, run, left, rfl⟩
    intro isServed
    obtain ⟨last, impossible⟩ := served.mpr isServed
    cases fails.symm.trans impossible
  · rw [ends]
    refine Or.inr ⟨served.mp isLoaded, run, ?_, rfl⟩
    refine ⟨loads.within.table.trans within.table, loads.freed.trans freed, ?_, ?_, ?_⟩
    · rw [loads.asked]
      change (MountRun.allocBitmaps _ _ _ _).asked + _ = _
      rw [asked]
      change 2 + _ + _ = _
      omega
    · rw [loads.allocated, MountRun.held_congr loads.bitmaps]
      change (MountRun.allocBitmaps _ _ _ _).allocated + _ = _
      rw [allocated]
      change 0 + blockAt (call.serve 0) + blockAt (call.serve 1) + _ + _ = _
      rw [zero_add]
      rfl
    · intro i member
      rcases loads.within.touched i member with before | here
      · rcases within.touched i before with none | here
        · cases none
        · omega
      · omega

/-- Without memory for the mutex everything but the copy of the super block is released. -/
theorem finish_refused {count : Nat} {run : MountRun} (loaded : call.Loaded count run)
    (refused : call.serve (3 * count + 2) = 0) :
    let ends := call.finish count run
    ends.answer = -enomem ∧ ends.readFailed = false ∧
      ends.run.table = (call.begun.table.devClose call.devId.toNat).2 ∧
      ends.run.allocated = blockAt (call.serve 0) + ends.run.freed ∧
      ∀ i ∈ ends.run.touched, 0 ≤ i ∧ i < count := by
  obtain ⟨within, allocated, asked, freed⟩ := MountRun.freeGroups_spec count 0
    (run.kmalloc call.serve).2
  have answer : call.serve run.asked = 0 := by
    rw [loaded.asked]
    exact refused
  have ends : call.finish count run =
      ⟨-enomem, false, { call.fields with data := call.serve 1, devId := call.devId },
        ((((run.kmalloc call.serve).2.freeGroups count 0).kfree (call.serve 1)).close
          call.devId)⟩ := if_pos answer
  rw [ends]
  refine ⟨rfl, rfl, ?_, ?_, ?_⟩
  · change ((MountRun.freeGroups _ _ _).table.devClose _).2 = _
    rw [within.table]
    change (run.table.devClose _).2 = _
    rw [loaded.table]
  · have kept (blocks : GroupPointers → Multiset Nat) :
        (run.kmalloc call.serve).2.held blocks 0 count = run.held blocks 0 count := rfl
    have before : (run.kmalloc call.serve).2.freed = run.freed := rfl
    have asks : (run.kmalloc call.serve).2.allocated =
        run.allocated + blockAt (call.serve run.asked) := rfl
    change ((run.kmalloc call.serve).2.freeGroups count 0).allocated = blockAt (call.serve 0) +
      (((run.kmalloc call.serve).2.freeGroups count 0).freed + blockAt (call.serve 1))
    rw [allocated, freed, kept, kept, before, asks, loaded.freed, loaded.allocated, answer]
    change _ + 0 = _ + (0 + _ + _ + _)
    rw [add_zero, zero_add]
    abel
  · intro i member
    rcases within.touched i member with before | here
    · exact loaded.touched i before
    · omega

theorem finish_served {count : Nat} {run : MountRun} (loaded : call.Loaded count run)
    (granted : call.serve (3 * count + 2) ≠ 0) (super : call.serve 1 ≠ 0) :
    let ends := call.finish count run
    ends.answer = call.devId ∧ ends.readFailed = false ∧
      ends.run.asked = 3 * count + 3 ∧
      (∀ i ∈ ends.run.touched, 0 ≤ i ∧ i < count) ∧
      ends.fields.devId = call.devId ∧ ends.fields.data ∈ ends.run.allocated ∧
      ends.fields.mutex ∈ ends.run.allocated := by
  have answer : call.serve run.asked ≠ 0 := by
    rw [loaded.asked]
    exact granted
  have ends : call.finish count run =
      ⟨call.devId, false,
        { data := call.serve 1, devId := call.devId, mutex := call.serve run.asked },
        (run.kmalloc call.serve).2⟩ := if_neg answer
  have stored {address : Nat} (nonzero : address ≠ 0) : address ∈ blockAt address := by
    rw [blockAt, if_neg nonzero]
    exact Multiset.mem_singleton_self address
  rw [ends]
  refine ⟨rfl, rfl, congrArg (· + 1) loaded.asked, loaded.touched, rfl, ?_, ?_⟩
  · change call.serve 1 ∈ run.allocated + _
    rw [loaded.allocated]
    simp only [Multiset.mem_add]
    exact Or.inl (Or.inl (Or.inl (Or.inr (stored super))))
  · change call.serve run.asked ∈ run.allocated + blockAt (call.serve run.asked)
    exact Multiset.mem_add.mpr (Or.inr (stored answer))

/-! ### Which paths keep it -/

theorem blockAt_eq_zero {address : Nat} : blockAt address = 0 ↔ address = 0 := by
  unfold blockAt
  by_cases null : address = 0
  · rw [if_pos null]
    exact iff_of_true rfl null
  · rw [if_neg null]
    exact iff_of_false (Multiset.singleton_ne_zero address) null

theorem enomem_negative : -enomem < 0 := by decide

theorem Clean.releases (ints : call.IntCounts) (clean : call.Clean) : call.Releases := by
  by_cases opens : call.devId < 0
  · refine ⟨_, ext2Mount_unopened opens, fun _ => opens, ?_, ?_, ?_⟩
    · exact fun _ => ⟨devOpen_failed opens, rfl⟩
    · intro i impossible
      cases impossible
    · exact fun positive => absurd positive (Int.not_le.mpr opens)
  have closed := (devOpen_counts ints opens).2
  rcases clean with impossible | ⟨read, divides, ⟨noCopy, noSuper⟩ | ⟨serves, served⟩⟩
  · exact absurd impossible opens
  · have ends := ext2Mount_read opens read
    rw [if_neg divides, if_pos noSuper] at ends
    refine ⟨_, ends, fun _ => enomem_negative, ?_, ?_, ?_⟩
    · refine fun _ => ⟨closed, ?_⟩
      change 0 = 0 + blockAt (call.serve 0) + blockAt (call.serve 1)
      rw [blockAt_eq_zero.mpr noCopy, blockAt_eq_zero.mpr noSuper]
      rfl
    · intro i impossible
      cases impossible
    · exact fun positive => absurd positive (Int.not_le.mpr enomem_negative)
  · have super : call.serve 1 ≠ 0 := by
      rcases served with ⟨_, super, _⟩ | all
      · exact super
      · exact all 1 (by omega)
    have ends := ext2Mount_read opens read
    rw [if_neg divides, if_neg super] at ends
    rcases mountGroups_cases call with ⟨unserved, _⟩ | ⟨_, run, loaded, finished⟩
    · exact absurd serves unserved
    rw [finished] at ends
    rcases served with ⟨noCopy, _, noMutex⟩ | all
    · obtain ⟨answer, _, table, allocated, touched⟩ := finish_refused loaded noMutex
      have negative := answer.trans_lt enomem_negative
      refine ⟨_, ends, fun _ => negative, ?_, touched, ?_⟩
      · refine fun _ => ⟨?_, ?_⟩
        · rw [table]
          exact closed
        · rw [allocated, blockAt_eq_zero.mpr noCopy, zero_add]
      · exact fun positive => absurd positive (Int.not_le.mpr negative)
    · obtain ⟨answer, readOk, asked, touched, fields⟩ :=
        finish_served loaded (all _ (by omega)) super
      have nonnegative : ¬ (call.finish call.groupCount run).answer < 0 := by
        rw [answer]
        exact opens
      refine ⟨_, ends, ?_, fun negative => absurd negative nonnegative, touched, ?_⟩
      · rintro (unopened | unread | ⟨k, early, refused⟩)
        · exact absurd unopened opens
        · rw [readOk] at unread
          cases unread
        · exact absurd refused (all k (asked ▸ early))
      · intro _
        rw [answer]
        exact fields

theorem Releases.clean (ints : call.IntCounts) (releases : call.Releases) : call.Clean := by
  by_cases opens : call.devId < 0
  · exact Or.inl opens
  obtain ⟨ends, ended, failed, released, touched, _⟩ := releases
  have stillOpen := (devOpen_counts ints opens).1
  by_cases read : 7 ≤ call.store.device.served call.store.device.transfers
  swap
  · obtain ⟨_, unread⟩ := ext2Mount_unread opens read
    cases ended.symm.trans unread
    exact absurd ((released (failed (Or.inr (Or.inl rfl)))).1 _) stillOpen
  rw [ext2Mount_read opens read] at ended
  by_cases divides : call.groupBlock = 0
  · rw [if_pos divides] at ended
    cases ended
  rw [if_neg divides] at ended
  refine Or.inr ⟨read, divides, ?_⟩
  by_cases super : call.serve 1 = 0
  · rw [if_pos super] at ended
    cases ended
    have same : 0 = 0 + blockAt (call.serve 0) + blockAt (call.serve 1) :=
      (released enomem_negative).2
    rw [zero_add, blockAt_eq_zero.mpr super, add_zero] at same
    exact Or.inl ⟨blockAt_eq_zero.mp same.symm, super⟩
  rw [if_neg super, Option.some.injEq] at ended
  rcases mountGroups_cases call with ⟨_, run, outside, unread⟩ | ⟨serves, run, loaded, finished⟩
  · rw [unread] at ended
    cases ended
    exact absurd (touched _ outside).1 (by decide)
  refine Or.inr ⟨serves, ?_⟩
  rw [finished] at ended
  by_cases mutex : call.serve (3 * call.groupCount + 2) = 0
  · obtain ⟨answer, _, _, allocated, _⟩ := finish_refused loaded mutex
    rw [ended] at answer allocated
    have same := (released (answer.trans_lt enomem_negative)).2
    rw [allocated, eq_comm, add_eq_right] at same
    exact Or.inl ⟨blockAt_eq_zero.mp same, super, mutex⟩
  · obtain ⟨answer, _, asked, _⟩ := finish_served loaded mutex super
    rw [ended] at answer asked
    refine Or.inr ?_
    intro k early refused
    have negative := failed (Or.inr (Or.inr ⟨k, asked ▸ early, refused⟩))
    exact opens (answer ▸ negative)

/-! ### The mount as a reader of the disk -/

/-- What the call tells `ext2Mount`. -/
def mountMemory (call : MountCall) : MountMemory :=
  { call.memory with
    devOpen := call.devId
    superBlock := call.serve 1 ≠ 0
    mutex := call.serve (3 * call.groupCount + 2) ≠ 0 }

theorem mountMemory_superBlock : call.mountMemory.superBlock = false ↔ call.serve 1 = 0 := by
  simp [mountMemory]

theorem mountMemory_mutex :
    call.mountMemory.mutex = false ↔ call.serve (3 * call.groupCount + 2) = 0 := by
  simp [mountMemory]

theorem ext2Mount_answer {ends : MountEnd} (ended : call.ext2Mount = some ends)
    (small : mountGroupCount call.superData < 2147483648) :
    ends.answer = (MangoOS.ext2Mount call.mountMemory call.store call.dirty).1 := by
  have count : call.groupCount = mountGroupCount call.superData := by
    unfold groupCount loopBound
    rw [int32_of_range (by omega) (by omega), Int.toNat_natCast]
  unfold MangoOS.ext2Mount
  have sameAnswer : call.mountMemory.devOpen = call.devId := rfl
  rw [sameAnswer]
  by_cases opens : call.devId < 0
  · rw [ext2Mount_unopened opens] at ended
    cases ended
    rw [if_pos opens]
  rw [if_neg opens]
  by_cases read : 7 ≤ call.store.device.served call.store.device.transfers
  swap
  · obtain ⟨negative, unread⟩ := ext2Mount_unread opens read
    cases ended.symm.trans unread
    dsimp only [Device.devRead] at negative ⊢
    rw [if_pos negative]
  rw [ext2Mount_read opens read] at ended
  rw [devRead_mountBuffer read]
  dsimp only
  rw [if_neg (by decide)]
  by_cases divides : call.groupBlock = 0
  · rw [if_pos divides] at ended
    cases ended
  rw [if_neg divides] at ended
  by_cases super : call.serve 1 = 0
  · rw [if_pos super] at ended
    cases ended
    rw [if_pos (mountMemory_superBlock.mpr super)]
  rw [if_neg super, Option.some.injEq] at ended
  rw [if_neg (mt mountMemory_superBlock.mp super)]
  have sized : call.emptySuper.SizedBy (mountBitmapSize (call.superData.word 32))
      (mountBitmapSize (call.superData.word 40)) := fun _ => ⟨rfl, rfl⟩
  have served : (∃ last, loadGroups (mountGroupCount call.superData) 0 call.superData
      call.emptySuper = some last) ↔ call.ServesBitmaps := by
    rw [← count]
    exact loadGroups_served sized call.groupCount 0 call.superData
  rw [← ended]
  rcases mountGroups_cases call with ⟨unserved, run, _, unread⟩ | ⟨serves, run, loaded, finished⟩
  · rw [unread]
    dsimp only
    split
    case h_1 => rfl
    case h_2 last loads => exact absurd (served.mp ⟨last, loads⟩) unserved
  · rw [finished]
    split
    case h_1 fails =>
      obtain ⟨last, loads⟩ := served.mpr serves
      cases fails.symm.trans loads
    case h_2 last loads =>
      by_cases mutex : call.serve (3 * call.groupCount + 2) = 0
      · rw [(finish_refused loaded mutex).1, if_pos (mountMemory_mutex.mpr mutex)]
      · rw [(finish_served loaded mutex super).1, if_neg (mt mountMemory_mutex.mp mutex)]

/-! ### The calls that release everything -/

/-- A call releases what it acquired and reports what went wrong if and only if it takes one of
the paths that do. -/
theorem ext2Mount_releases_iff (ints : call.IntCounts) : call.Releases ↔ call.Clean :=
  ⟨Releases.clean ints, Clean.releases ints⟩

/-- A mount of the first partition. -/
def sample (store : BlockStore) : MountCall where
  table := DeviceTable.bootUsers.dev
  major := 1
  minor := 1
  serve := fun k => 4096 * (k + 1)
  stale := fun _ => ⟨0, 0, 0⟩
  fields := ⟨0, 0, 0⟩
  memory := mountSample
  store := store
  dirty := noDirty

theorem sample_ints (store : BlockStore) : (sample store).IntCounts := fun _ =>
  int32_of_range (by decide : (-2147483648 : Int) ≤ 0) (by decide : (0 : Int) < 2147483648)

theorem ext2Mount_releases_group : (sample (superStore (superSample 4096))).Releases := by
  have sizes : mountBitmapSize ((sample (superStore (superSample 4096))).superData.word 32) = 4096 ∧
      mountBitmapSize ((sample (superStore (superSample 4096))).superData.word 40) = 512 := by
    decide +kernel
  have sectors (first secCount : Nat) :
      (superStore (superSample 4096)).device.ServesSectors first secCount := by
    intro j _
    exact Nat.le_trans (Nat.min_le_left ..) (BlockStore.zeroed_reliable (first + j))
  refine (ext2Mount_releases_iff (sample_ints _)).mpr (Or.inr ⟨by decide, by decide +kernel, ?_⟩)
  refine Or.inr ⟨?_, Or.inr fun k _ => ?_⟩
  · unfold ServesBitmaps
    rw [sizes.1, sizes.2]
    exact fun k _ => ⟨⟨by decide, sectors _ _⟩, ⟨by decide, sectors _ _⟩⟩
  · exact Nat.mul_ne_zero (by decide) (Nat.succ_ne_zero k)

/-- The disk fails at the super block, and the device stays open. -/
theorem ext2Mount_releases_not :
    ¬ ∀ call : MountCall, call.IntCounts → call.Releases := by
  intro always
  have releases := always (sample { BlockStore.zeroed with
    device := { BlockStore.zeroed.device with served := fun _ => 0 } }) (sample_ints _)
  rcases releases.clean (sample_ints _) with unopened | ⟨read, _⟩
  · exact absurd unopened (by decide +kernel)
  · exact absurd read (by decide)

end MountCall

end MangoOS
