/-
The group descriptors that ext2_mount loads.

Seven sectors are read from the super block on, and the descriptors are taken from a fixed
place behind it.  On the disk they begin with the block behind that of the super block.
-/

import MangoOS.FileSystem.Remount

namespace MangoOS

open Intrusive

/-- What the table keeps of a descriptor. -/
structure Descriptor where
  blockBitmap : Nat
  inodeBitmap : Nat
  inodeTable : Nat
  freeBlock : Nat
  freeInode : Nat

def Region.descriptor (data : Region) (place : Nat) : Descriptor where
  blockBitmap := data.word (place + 0 : Nat)
  inodeBitmap := data.word (place + 4 : Nat)
  inodeTable := data.word (place + 8 : Nat)
  freeBlock := data.half (place + 12 : Nat)
  freeInode := data.half (place + 14 : Nat)

def Group.descriptor (group : Group) : Descriptor where
  blockBitmap := group.blockBitmap
  inodeBitmap := group.inodeBitmap
  inodeTable := group.inodeTable
  freeBlock := group.freeBlock
  freeInode := group.freeInode

/-- Descriptor `i` on the disk, in the blocks behind that of byte 1024. -/
def Device.descriptor (device : Device) (blockSize i : Nat) : Descriptor :=
  (device.sectors 0).descriptor ((1024 / blockSize + 1) * blockSize + i * 32)

namespace FileSystem

/-- The table holds the descriptors of the disk, whatever the stack held at `data`. -/
structure DescriptorsLoaded (memory : MountMemory) (store : BlockStore)
    (dirty : Links (Option Nat)) (fs : FileSystem) : Prop where
  fromDisk : ∀ i, i < fs.groupCount →
    (fs.groups i).descriptor = store.device.descriptor fs.blockSize i
  fromRead : ∀ stack answer again,
    ext2Mount { memory with data := stack } store dirty = (answer, some again) →
      ∀ i, i < fs.groupCount → (again.groups i).descriptor = (fs.groups i).descriptor

/-- Where the table is right: the descriptors end with the sectors that are read, and for
blocks of 2048 bytes, where it begins with descriptor 64, these are the same as the first. -/
def DescriptorsInPlace (device : Device) (fs : FileSystem) : Prop :=
  fs.blockSize = 1024 ∧ fs.groupCount ≤ 80 ∨
    fs.blockSize = 4096 ∧ fs.groupCount ≤ 16 ∨
      fs.blockSize = 2048 ∧ fs.groupCount ≤ 16 ∧ ∀ i, i < fs.groupCount →
        device.descriptor 2048 (i + 64) = device.descriptor 2048 i

end FileSystem

variable {left right data : Region} {place : Nat}

theorem Region.half_congr {offset : Int} (agree : left.Agree right offset (offset + 2)) :
    left.half offset = right.half offset := by
  unfold half
  rw [agree offset (by omega) (by omega), agree (offset + 1) (by omega) (by omega)]

theorem Region.descriptor_congr {other : Nat}
    (same : ∀ x : Int, 0 ≤ x → x < 16 → left (place + x) = right (other + x)) :
    left.descriptor place = right.descriptor other := by
  have word : ∀ k : Nat, k + 4 ≤ 16 → left.word (place + k : Nat) = right.word (other + k : Nat) := by
    intro k inside
    have shifted : Region.Agree (fun x => left (place + x)) (fun x => right (other + x)) k (k + 4) :=
      fun x lower upper => same x (by omega) (by omega)
    have isSame := Region.word_congr shifted
    unfold Region.word at isSame ⊢
    simpa only [Int.natCast_add, Int.add_assoc] using isSame
  have half : ∀ k : Nat, k + 2 ≤ 16 → left.half (place + k : Nat) = right.half (other + k : Nat) := by
    intro k inside
    have shifted : Region.Agree (fun x => left (place + x)) (fun x => right (other + x)) k (k + 2) :=
      fun x lower upper => same x (by omega) (by omega)
    have isSame := Region.half_congr shifted
    unfold Region.half at isSame ⊢
    simpa only [Int.natCast_add, Int.add_assoc] using isSame
  unfold descriptor
  rw [word 0 (by decide), word 4 (by decide), word 8 (by decide), half 12 (by decide),
    half 14 (by decide)]

namespace FileSystem

variable {fs after again : FileSystem} {memory : MountMemory} {store : BlockStore}
  {dirty : Links (Option Nat)} {answer : Int}

/-! ### What loading the bitmaps keeps -/

/-- The same geometry and the same descriptors. -/
structure SameDescriptors (fs after : FileSystem) : Prop where
  blockSize : after.blockSize = fs.blockSize
  groupCount : after.groupCount = fs.groupCount
  descriptor : ∀ i, (after.groups i).descriptor = (fs.groups i).descriptor

theorem loadGroup_descriptors {rest : Region} {i : Nat}
    (loads : fs.loadGroup data i = some (rest, after)) : SameDescriptors fs after := by
  unfold loadGroup at loads
  dsimp only at loads
  split at loads
  · cases loads
  · split at loads
    · cases loads
    · rw [Option.some.injEq, Prod.mk.injEq] at loads
      rw [← loads.2]
      refine ⟨rfl, rfl, ?_⟩
      intro j
      rw [setBitmaps_groups]
      by_cases here : j = i
      · rw [if_pos here, here]
        rfl
      · rw [if_neg here]

theorem loadGroups_descriptors :
    ∀ left i data (fs : FileSystem), loadGroups left i data fs = some after →
      SameDescriptors fs after := by
  intro left
  induction left with
  | zero =>
      intro i data fs loads
      rw [← Option.some.inj loads]
      exact ⟨rfl, rfl, fun _ => rfl⟩
  | succ left ih =>
      intro i data fs loads
      rw [loadGroups] at loads
      split at loads
      · cases loads
      case h_2 loaded =>
          have first := loadGroup_descriptors loaded
          have others := ih _ _ _ loads
          refine ⟨others.blockSize.trans first.blockSize, others.groupCount.trans first.groupCount, ?_⟩
          intro j
          exact (others.descriptor j).trans (first.descriptor j)

/-- The buffer behind the first read: seven sectors of the disk, then the stack. -/
def mountBuffer (memory : MountMemory) (device : Device) : Region :=
  memory.data.copy 0 (device.sectors 2) 0 3584

theorem mountBuffer_read {device : Device} {x : Int} (lower : 0 ≤ x) (upper : x < 3584) :
    mountBuffer memory device x = device.bytes (1024 + x.toNat) := by
  unfold mountBuffer
  rw [Region.copy_inside _ _ lower (by omega), Int.zero_add, Int.sub_zero]
  rfl

theorem mountBuffer_stack {device : Device} {x : Int} (behind : 3584 ≤ x) :
    mountBuffer memory device x = memory.data x :=
  Region.copy_outside _ _ (by omega)

theorem devRead_mountBuffer {device : Device} (served : 7 ≤ device.served device.transfers) :
    device.devRead 2 memory.data 7 =
      (7, mountBuffer memory device, { device with transfers := device.transfers + 1 }) := by
  unfold Device.devRead
  rw [Nat.min_eq_right served]
  rfl

/-- The table before the bitmaps are loaded. -/
def mountedSuper (memory : MountMemory) (store : BlockStore) (dirty : Links (Option Nat)) :
    FileSystem :=
  mountSuper memory (mountBuffer memory store.device)
    { store with device := { store.device with transfers := store.device.transfers + 1 } } dirty

/-- A mount succeeds if all seven sectors are read and every group is loaded. -/
theorem ext2Mount_some_iff :
    ext2Mount memory store dirty = (answer, some fs) ↔
      ¬ memory.devOpen < 0 ∧ ¬ memory.superBlock = false ∧ ¬ memory.mutex = false ∧
        7 ≤ store.device.served store.device.transfers ∧ memory.devOpen = answer ∧
        loadGroups (mountedSuper memory store dirty).groupCount 0
          (mountBuffer memory store.device) (mountedSuper memory store dirty) = some fs := by
  unfold ext2Mount
  dsimp only
  constructor
  · intro mounts
    split at mounts
    · cases mounts
    case isFalse isOpen =>
      split at mounts
      · cases mounts
      case isFalse moved =>
        have served : 7 ≤ store.device.served store.device.transfers := by
          unfold Device.devRead Device.outcome enodisk at moved
          dsimp only at moved
          split at moved
          · omega
          · omega
        rw [devRead_mountBuffer served] at mounts
        split at mounts
        · cases mounts
        case isFalse allocated =>
          split at mounts
          · cases mounts
          case h_2 loaded =>
            split at mounts
            · cases mounts
            case isFalse locked =>
              rw [Prod.mk.injEq, Option.some.injEq] at mounts
              rw [mounts.2] at loaded
              exact ⟨isOpen, allocated, locked, served, mounts.1, loaded⟩
  · rintro ⟨isOpen, allocated, locked, served, isAnswer, loaded⟩
    rw [if_neg isOpen, devRead_mountBuffer served]
    dsimp only
    rw [if_neg (by decide), if_neg allocated]
    split
    case h_1 failed => cases loaded.symm.trans failed
    case h_2 isLoaded =>
      rw [if_neg locked, isAnswer, Option.some.inj (loaded.symm.trans isLoaded)]

theorem ext2Mount_loads (mounts : ext2Mount memory store dirty = (answer, some fs)) :
    fs.blockSize = mountBlockSize (mountBuffer memory store.device) ∧
      fs.groupCount = mountGroupCount (mountBuffer memory store.device) ∧
      ∀ i, (fs.groups i).descriptor =
        (mountBuffer memory store.device).descriptor (descriptorPlace fs.blockSize i) := by
  obtain ⟨_, _, _, _, _, loaded⟩ := ext2Mount_some_iff.mp mounts
  have same := loadGroups_descriptors _ _ _ _ loaded
  refine ⟨same.blockSize, same.groupCount, ?_⟩
  intro i
  rw [same.blockSize]
  exact same.descriptor i

/-! ### The stack does not decide whether a mount succeeds -/

/-- Whether a bitmap is loaded depends on its size and on the disk alone. -/
theorem loadBitmapLoop_stack {sector size : Nat} {loaded rest : Region} {later : Device}
    (other : Nat) :
    ∀ fuel (secCount : Int) offset (bitmap data bitmap' data' : Region) (device : Device),
      loadBitmapLoop sector size fuel secCount offset bitmap data device =
          some (loaded, rest, later) →
        ∃ loaded' rest',
          loadBitmapLoop other size fuel secCount offset bitmap' data' device =
            some (loaded', rest', later) := by
  intro fuel
  induction fuel with
  | zero =>
      intro secCount offset bitmap data bitmap' data' device loads
      rw [loadBitmapLoop, Option.some.injEq, Prod.mk.injEq, Prod.mk.injEq] at loads
      exact ⟨bitmap', data', by rw [loadBitmapLoop, loads.2.2]⟩
  | succ fuel ih =>
      intro secCount offset bitmap data bitmap' data' device loads
      rw [loadBitmapLoop] at loads ⊢
      unfold Device.devRead at loads ⊢
      dsimp only at loads ⊢
      generalize (if secCount > 8 then 8 else secCount.toNat) = count at loads ⊢
      by_cases failed : Device.outcome (min (device.served device.transfers) count) count ≤ 0
      · rw [if_pos failed] at loads
        cases loads
      · rw [if_neg failed] at loads ⊢
        by_cases more : secCount - 8 > 0
        · rw [if_pos more] at loads ⊢
          exact ih _ _ _ _ _ _ _ loads
        · rw [if_neg more] at loads ⊢
          rw [Option.some.injEq, Prod.mk.injEq, Prod.mk.injEq] at loads
          rw [loads.2.2]
          exact ⟨_, _, rfl⟩

/-- Two tables with bitmaps of the same sizes in front of the same disk. -/
structure SameLoads (fs again : FileSystem) : Prop where
  device : again.store.device = fs.store.device
  blockSize : again.blockSize = fs.blockSize
  blocks : ∀ i, (again.groups i).blockBitmapSize = (fs.groups i).blockBitmapSize
  inodes : ∀ i, (again.groups i).inodeBitmapSize = (fs.groups i).inodeBitmapSize

theorem SameLoads.setBitmaps (same : SameLoads fs again) (device : Device) (i : Nat)
    (blocks inodes blocks' inodes' : Region) :
    SameLoads (fs.setBitmaps device i blocks inodes)
      (again.setBitmaps device i blocks' inodes') := by
  refine ⟨rfl, same.blockSize, ?_, ?_⟩
  · intro j
    rw [setBitmaps_groups, setBitmaps_groups]
    by_cases here : j = i
    · rw [if_pos here, if_pos here]
      exact same.blocks i
    · rw [if_neg here, if_neg here]
      exact same.blocks j
  · intro j
    rw [setBitmaps_groups, setBitmaps_groups]
    by_cases here : j = i
    · rw [if_pos here, if_pos here]
      exact same.inodes i
    · rw [if_neg here, if_neg here]
      exact same.inodes j

theorem loadGroup_stack {rest : Region} {i : Nat} (same : SameLoads fs again) (stack : Region)
    (loads : fs.loadGroup data i = some (rest, after)) :
    ∃ rest' after', again.loadGroup stack i = some (rest', after') ∧ SameLoads after after' := by
  unfold loadGroup at loads ⊢
  dsimp only at loads ⊢
  rw [same.device, same.blockSize, same.blocks, same.inodes]
  split at loads
  · cases loads
  case h_2 first =>
    split at loads
    · cases loads
    case h_2 second =>
      obtain ⟨blocks, middle, firstAgain⟩ := loadBitmapLoop_stack
        (BlockStore.sectorOf fs.blockSize (again.groups i).blockBitmap) _ _ _ _ _
        (again.groups i).pBlockBitmap stack _ first
      obtain ⟨inodes, last, secondAgain⟩ := loadBitmapLoop_stack
        (BlockStore.sectorOf fs.blockSize (again.groups i).inodeBitmap) _ _ _ _ _
        (again.groups i).pInodeBitmap middle _ second
      unfold loadBitmap
      dsimp only
      rw [firstAgain]
      dsimp only
      rw [secondAgain]
      rw [Option.some.injEq, Prod.mk.injEq] at loads
      rw [← loads.2]
      exact ⟨_, _, rfl, same.setBitmaps _ _ _ _ _ _⟩

theorem loadGroups_stack :
    ∀ left i data stack (fs again : FileSystem), SameLoads fs again →
      loadGroups left i data fs = some after →
        ∃ after', loadGroups left i stack again = some after' := by
  intro left
  induction left with
  | zero =>
      intro i data stack fs again _ _
      exact ⟨again, rfl⟩
  | succ left ih =>
      intro i data stack fs again same loads
      rw [loadGroups] at loads ⊢
      split at loads
      · cases loads
      case h_2 loaded =>
        obtain ⟨rest, after', isLoaded, still⟩ := loadGroup_stack same stack loaded
        rw [isLoaded]
        exact ih _ _ _ _ _ still loads

/-- What the super block says is among the sectors that are read. -/
theorem mountBuffer_word (memory : MountMemory) (stack : Region) (device : Device) {offset : Int}
    (lower : 0 ≤ offset) (upper : offset + 4 ≤ 3584) :
    (mountBuffer { memory with data := stack } device).word offset =
      (mountBuffer memory device).word offset := by
  apply Region.word_congr
  intro x above below
  rw [mountBuffer_read (by omega) (by omega), mountBuffer_read (by omega) (by omega)]

theorem ext2Mount_stack (mounts : ext2Mount memory store dirty = (answer, some fs))
    (stack : Region) :
    ∃ again, ext2Mount { memory with data := stack } store dirty = (answer, some again) := by
  obtain ⟨isOpen, allocated, locked, served, isAnswer, loaded⟩ := ext2Mount_some_iff.mp mounts
  have word : ∀ {offset : Int}, 0 ≤ offset → offset + 4 ≤ 3584 →
      (mountBuffer { memory with data := stack } store.device).word offset =
        (mountBuffer memory store.device).word offset :=
    fun lower upper => mountBuffer_word memory stack store.device lower upper
  have count : mountGroupCount (mountBuffer { memory with data := stack } store.device) =
      mountGroupCount (mountBuffer memory store.device) := by
    unfold mountGroupCount
    rw [word (by decide) (by decide), word (by decide) (by decide)]
  have same : SameLoads (mountedSuper memory store dirty)
      (mountedSuper { memory with data := stack } store dirty) := by
    refine ⟨rfl, ?_, ?_, ?_⟩
    · unfold mountedSuper mountSuper mountBlockSize
      dsimp only
      rw [word (by decide) (by decide)]
    · intro i
      unfold mountedSuper mountSuper
      dsimp only
      rw [word (by decide) (by decide)]
    · intro i
      unfold mountedSuper mountSuper
      dsimp only
      rw [word (by decide) (by decide)]
  obtain ⟨again, isAgain⟩ := loadGroups_stack _ _ _
    (mountBuffer { memory with data := stack } store.device) _ _ same loaded
  refine ⟨again, ext2Mount_some_iff.mpr ⟨isOpen, allocated, locked, served, isAnswer, ?_⟩⟩
  have sameCount : (mountedSuper { memory with data := stack } store dirty).groupCount =
      (mountedSuper memory store dirty).groupCount := count
  rw [sameCount]
  exact isAgain

/-! ### Where the descriptors are right -/

/-- Inside the sectors that are read, the table holds what the disk has at its fixed place. -/
theorem mountBuffer_descriptor {device : Device} {place : Nat} (inside : place + 16 ≤ 3584) :
    (mountBuffer memory device).descriptor place =
      (device.sectors 0).descriptor (1024 + place) := by
  apply Region.descriptor_congr
  intro x lower upper
  rw [mountBuffer_read (by omega) (by omega)]
  unfold Device.sectors
  congr 1
  omega

theorem mountBuffer_descriptor_stack {device : Device} {place : Nat} (behind : 3584 ≤ place) :
    (mountBuffer memory device).descriptor place = memory.data.descriptor place := by
  apply Region.descriptor_congr
  intro x lower upper
  exact mountBuffer_stack (by omega)

/-- A table whose last descriptor is not read can be any. -/
theorem DescriptorsLoaded.fits (loaded : DescriptorsLoaded memory store dirty fs)
    (mounts : ext2Mount memory store dirty = (answer, some fs)) {i : Nat}
    (behind : 3584 ≤ descriptorPlace fs.blockSize i) : fs.groupCount ≤ i := by
  by_contra inTable
  have stacked : ∀ value : BitVec 8,
      (fs.groups i).descriptor = Region.descriptor (fun _ => value) (descriptorPlace fs.blockSize i) := by
    intro value
    obtain ⟨again, mountsAgain⟩ := ext2Mount_stack mounts (fun _ => value)
    obtain ⟨blockSize, _, descriptors⟩ := ext2Mount_loads mounts
    obtain ⟨blockSizeAgain, _, descriptorsAgain⟩ := ext2Mount_loads mountsAgain
    have sameSize : again.blockSize = fs.blockSize := by
      rw [blockSizeAgain, blockSize]
      unfold mountBlockSize
      rw [mountBuffer_word memory _ _ (by decide) (by decide)]
    rw [← loaded.fromRead _ _ _ mountsAgain i (by omega), descriptorsAgain, sameSize,
      mountBuffer_descriptor_stack behind]
  have differ : (0#8).toNat + 256 * (0#8).toNat ≠ (255#8).toNat + 256 * (255#8).toNat := by decide
  exact differ (congrArg Descriptor.freeBlock ((stacked 0#8).symm.trans (stacked 255#8)))

theorem ext2Mount_descriptor (mounts : ext2Mount memory store dirty = (answer, some fs)) {i : Nat}
    (inside : descriptorPlace fs.blockSize i + 32 ≤ 3584) :
    (fs.groups i).descriptor =
      (store.device.sectors 0).descriptor (1024 + descriptorPlace fs.blockSize i) := by
  rw [(ext2Mount_loads mounts).2.2 i]
  exact mountBuffer_descriptor (by omega)

/-- After a mount every group has its descriptor if and only if the table lies where it is
looked for and ends with the sectors that are read. -/
theorem ext2Mount_descriptors_iff (mounts : ext2Mount memory store dirty = (answer, some fs))
    (valid : fs.blockSize = 1024 ∨ fs.blockSize = 2048 ∨ fs.blockSize = 4096) :
    DescriptorsLoaded memory store dirty fs ↔ DescriptorsInPlace store.device fs := by
  have fixed : ∀ {stack answer again}, ext2Mount { memory with data := stack } store dirty =
      (answer, some again) → again.blockSize = fs.blockSize := by
    intro stack answer again mountsAgain
    rw [(ext2Mount_loads mountsAgain).1, (ext2Mount_loads mounts).1]
    unfold mountBlockSize
    rw [mountBuffer_word memory _ _ (by decide) (by decide)]
  have place : ∀ i, descriptorPlace fs.blockSize i =
      i * 32 + (if fs.blockSize > 1024 then 6 else 2) * 512 := fun _ => rfl
  -- where all descriptors are read, the stack plays no part
  have right : (∀ i, i < fs.groupCount → descriptorPlace fs.blockSize i + 32 ≤ 3584 ∧
      (store.device.sectors 0).descriptor (1024 + descriptorPlace fs.blockSize i) =
        store.device.descriptor fs.blockSize i) → DescriptorsLoaded memory store dirty fs := by
    intro inside
    constructor
    · intro i inTable
      rw [ext2Mount_descriptor mounts (inside i inTable).1]
      exact (inside i inTable).2
    · intro stack answer again mountsAgain i inTable
      have read := (inside i inTable).1
      rw [ext2Mount_descriptor mounts read]
      rw [← fixed mountsAgain] at read ⊢
      exact ext2Mount_descriptor mountsAgain read
  constructor
  · intro loaded
    rcases valid with size | size | size
    · refine Or.inl ⟨size, loaded.fits mounts ?_⟩
      rw [size]
      decide
    · have few : fs.groupCount ≤ 16 := by
        apply loaded.fits mounts
        rw [size]
        decide
      refine Or.inr (Or.inr ⟨size, few, ?_⟩)
      intro i inTable
      have onDisk := loaded.fromDisk i inTable
      rw [size, if_pos (by decide)] at place
      rw [ext2Mount_descriptor mounts (by rw [size, place]; omega), size, place] at onDisk
      rw [← onDisk]
      unfold Device.descriptor
      congr 1
      omega
    · refine Or.inr (Or.inl ⟨size, loaded.fits mounts ?_⟩)
      rw [size]
      decide
  · intro inPlace
    apply right
    intro i inTable
    rcases inPlace with ⟨size, few⟩ | ⟨size, few⟩ | ⟨size, few, same⟩
    · rw [size, if_neg (by decide)] at place
      rw [size, place]
      refine ⟨by omega, ?_⟩
      unfold Device.descriptor
      congr 1
      omega
    · rw [size, if_pos (by decide)] at place
      rw [size, place]
      refine ⟨by omega, ?_⟩
      unfold Device.descriptor
      congr 1
      omega
    · rw [size, if_pos (by decide)] at place
      rw [size, place, ← same i inTable]
      refine ⟨by omega, ?_⟩
      unfold Device.descriptor
      congr 1
      omega

/-- A disk with these sectors from byte 1024 on. -/
def superStore (super : Region) : BlockStore :=
  { BlockStore.zeroed with
    device := { BlockStore.zeroed.device with bytes := fun a => super ((a : Int) - 1024) } }

/-- Blocks of 4096 bytes and one group. -/
theorem ext2Mount_descriptors_large :
    ∃ answer fs, ext2Mount mountSample (superStore (superSample 4096)) noDirty =
        (answer, some fs) ∧
      DescriptorsLoaded mountSample (superStore (superSample 4096)) noDirty fs := by
  have mounts : (ext2Mount mountSample (superStore (superSample 4096)) noDirty).2.map
      (fun fs => (fs.blockSize, fs.groupCount)) = some (4096, 1) := by decide +kernel
  obtain ⟨fs, isTable, geometry⟩ := Option.map_eq_some_iff.mp mounts
  rw [Prod.mk.injEq] at geometry
  have mounted : ext2Mount mountSample (superStore (superSample 4096)) noDirty = (_, some fs) :=
    Prod.ext rfl isTable
  refine ⟨_, fs, mounted, ?_⟩
  refine (ext2Mount_descriptors_iff mounted (Or.inr (Or.inr geometry.1))).mpr ?_
  exact Or.inr (Or.inl ⟨geometry.1, by rw [geometry.2]; decide⟩)

/-- 16384 blocks of 2048 bytes in one group, with its bitmaps in blocks 3 and 4. -/
def middleSample : Region := fun x =>
  if x = 5 then 64#8 else if x = 24 then 1#8 else if x = 33 then 64#8 else if x = 41 then 16#8
  else if x = 1024 then 3#8 else if x = 1028 then 4#8 else if x = 1032 then 5#8 else 0#8

/-- Blocks of 2048 bytes: the table begins with descriptor 64, which says block 0. -/
theorem ext2Mount_descriptors_middle :
    ∃ answer fs, ext2Mount mountSample (superStore middleSample) noDirty = (answer, some fs) ∧
      fs.blockSize = 2048 ∧ fs.groupCount = 1 ∧
      ¬ DescriptorsLoaded mountSample (superStore middleSample) noDirty fs := by
  have mounts : (ext2Mount mountSample (superStore middleSample) noDirty).2.map
      (fun fs => (fs.blockSize, fs.groupCount, (fs.groups 0).blockBitmap)) =
        some (2048, 1, 0) := by decide +kernel
  obtain ⟨fs, isTable, geometry⟩ := Option.map_eq_some_iff.mp mounts
  rw [Prod.mk.injEq, Prod.mk.injEq] at geometry
  obtain ⟨size, count, bitmap⟩ := geometry
  refine ⟨_, fs, Prod.ext rfl isTable, size, count, ?_⟩
  intro loaded
  have onDisk := congrArg Descriptor.blockBitmap (loaded.fromDisk 0 (by omega))
  rw [size] at onDisk
  have isThree : ((superStore middleSample).device.descriptor 2048 0).blockBitmap = 3 := by
    decide +kernel
  have isZero : (fs.groups 0).descriptor.blockBitmap = 0 := bitmap
  omega

end FileSystem

end MangoOS
