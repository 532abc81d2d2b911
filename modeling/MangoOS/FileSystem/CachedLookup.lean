/-
The two ways through `iget_inode` (fs/ext2.c).

A lookup inside the window of a group computes the slot from how far the inode's block
lies behind the start of the window.  The slot holds what a reload at the inode's own
block would have put into the first slots.
-/

import MangoOS.FileSystem.Window

namespace MangoOS

/-- An inode only depends on its own bytes of the block. -/
theorem loadInode_congr {left right : Region} {step : Nat}
    (agree : left.Agree right step (step + 100 : Nat)) (a b : Inode) :
    SameStored (loadInode left step a) (loadInode right step b) := by
  have half : ∀ k : Nat, k + 2 ≤ 100 → left.half (step + k : Nat) = right.half (step + k : Nat) := by
    intro k inside
    unfold Region.half
    rw [agree _ (by omega) (by omega), agree _ (by omega) (by omega)]
  have word : ∀ k : Nat, k + 4 ≤ 100 → left.word (step + k : Nat) = right.word (step + k : Nat) := by
    intro k inside
    apply Region.word_congr
    intro x lower upper
    exact agree x (by omega) (by omega)
  constructor
  · exact half 0 (by decide)
  · exact congrArg (· % 65536) (word 28 (by decide))
  · exact half 2 (by decide)
  · exact half 24 (by decide)
  · exact word 4 (by decide)
  · exact word 8 (by decide)
  · exact word 16 (by decide)
  · exact word 12 (by decide)
  · intro k inside
    have entry := word (40 + 4 * k) (by omega)
    rw [← Nat.add_assoc] at entry
    unfold loadInode
    simp only [if_pos inside]
    exact entry

theorem SameStored.symm {a b : Inode} (same : SameStored a b) : SameStored b a :=
  ⟨same.iMode.symm, same.iBlocks.symm, same.iUid.symm, same.iGid.symm, same.iSize.symm,
    same.iAtime.symm, same.iMtime.symm, same.iCtime.symm,
    fun k inside => (same.iBlock k inside).symm⟩

theorem SameStored.trans {a b c : Inode} (first : SameStored a b) (second : SameStored b c) :
    SameStored a c :=
  ⟨first.iMode.trans second.iMode, first.iBlocks.trans second.iBlocks,
    first.iUid.trans second.iUid, first.iGid.trans second.iGid, first.iSize.trans second.iSize,
    first.iAtime.trans second.iAtime, first.iMtime.trans second.iMtime,
    first.iCtime.trans second.iCtime,
    fun k inside => (first.iBlock k inside).trans (second.iBlock k inside)⟩

namespace FileSystem

/-- The inode table of a group: inodes fill its blocks, and its bytes and its block numbers
are counted in 32 bits. -/
structure TableGeometry (fs : FileSystem) (g : Nat) : Prop where
  blockSize : fs.blockSize = 1024 ∨ fs.blockSize = 2048 ∨ fs.blockSize = 4096
  inodeSize : 128 ≤ fs.inodeSize
  divides : fs.inodeSize ∣ fs.blockSize
  groupInode : 0 < fs.groupInode
  bytes : fs.groupInode * fs.inodeSize < 4294967296
  blocks : ∀ index, index < fs.groupInode →
    (fs.groups g).inodeTable + index * fs.inodeSize / fs.blockSize < 4294967296

/-- The slots of a group's window hold the inodes of consecutive blocks from `inodeBegin` on. -/
def HoldsWindow (fs : FileSystem) (g : Nat) (content : Nat → Region) : Prop :=
  let group := fs.groups g
  let num := fs.blockSize / fs.inodeSize
  ∀ i, i < 4096 * 5 / fs.inodeSize →
    SameStored (group.inodeData i)
      (loadInode (content ((uint32 group.inodeBegin + i / num) % 4294967296))
        (i % num * fs.inodeSize) (group.inodeData i))

/-- The inode as its own slot of the inode table holds it. -/
def ownInode (fs : FileSystem) (content : Nat → Region) (ino : Nat) (old : Inode) : Inode :=
  let place := (ino - 1) % fs.groupInode * fs.inodeSize
  loadInode (content ((fs.groups (fs.inodeGroup ino)).inodeTable + place / fs.blockSize))
    (place % fs.blockSize) old

/-- The same file system where a window begins elsewhere and the cache is another one. -/
def rewound (fs : FileSystem) (store : BlockStore) (g : Nat) (inodeBegin : Int) : FileSystem :=
  (fs.setStore store).setGroup g { fs.groups g with inodeBegin := inodeBegin }

/-- Every block that a reload at an inode reads shows its content. -/
def ReadsContent (fs : FileSystem) (content : Nat → Region) (ino : Nat) : Prop :=
  ∀ j data, (fs.windowShape ino).roundData (fs.writeInode (fs.groups (fs.inodeGroup ino))) j =
      some data →
    data.Agree (content ((fs.windowShape ino).block j)) 0 fs.blockSize

variable {fs after : FileSystem} {content : Nat → Region} {ino g : Nat} {ref : InodeRef}

theorem TableGeometry.tableShape (geometry : fs.TableGeometry g) : fs.TableShape := by
  have sizes := geometry.blockSize
  have size := geometry.inodeSize
  exact ⟨by omega, geometry.divides, by omega, by omega, geometry.groupInode,
    Nat.le_of_lt geometry.bytes⟩

/-- The block of an inode is the one that its place in the table asks for. -/
theorem TableGeometry.inodeBlock (geometry : fs.TableGeometry (fs.inodeGroup ino)) :
    fs.inodeBlock ino = (fs.groups (fs.inodeGroup ino)).inodeTable +
      (ino - 1) % fs.groupInode * fs.inodeSize / fs.blockSize := by
  unfold FileSystem.inodeBlock
  rw [geometry.tableShape.place]
  exact Nat.mod_eq_of_lt (geometry.blocks _ (Nat.mod_lt _ geometry.groupInode))

theorem TableGeometry.ownInode_eq (geometry : fs.TableGeometry (fs.inodeGroup ino))
    (content : Nat → Region) (old : Inode) :
    fs.ownInode content ino old =
      loadInode (content (fs.inodeBlock ino)) (fs.inodeSlot ino * fs.inodeSize) old := by
  have shape := geometry.tableShape
  unfold ownInode
  rw [← shape.place_mod, shape.place, geometry.inodeBlock]

theorem TableGeometry.slot_inside (geometry : fs.TableGeometry g) {slot : Nat}
    (inside : slot < fs.blockSize / fs.inodeSize) :
    slot * fs.inodeSize + 100 ≤ fs.blockSize := by
  have scaled := Nat.mul_le_mul_right fs.inodeSize (Nat.succ_le_of_lt inside)
  have whole := geometry.tableShape.blockSize_eq
  have size := geometry.inodeSize
  rw [Nat.mul_comm fs.inodeSize] at whole
  rw [Nat.succ_mul] at scaled
  omega

theorem TableGeometry.same (geometry : fs.TableGeometry g) (same : SameLayout fs after) : after.TableGeometry g := by
  constructor
  · rw [same.blockSize]
    exact geometry.blockSize
  · rw [same.inodeSize]
    exact geometry.inodeSize
  · rw [same.inodeSize, same.blockSize]
    exact geometry.divides
  · rw [same.groupInode]
    exact geometry.groupInode
  · rw [same.groupInode, same.inodeSize]
    exact geometry.bytes
  · rw [same.groupInode, same.inodeSize, same.blockSize, same.inodeTable]
    exact geometry.blocks

theorem TableGeometry.keep (geometry : fs.TableGeometry (fs.inodeGroup ino))
    (same : SameLayout fs after) : after.TableGeometry (after.inodeGroup ino) := by
  rw [same.inodeGroup]
  exact geometry.same same

theorem SameLayout.ownInode (same : SameLayout fs after) (content : Nat → Region) (ino : Nat)
    (old : Inode) : after.ownInode content ino old = fs.ownInode content ino old := by
  unfold FileSystem.ownInode
  rw [same.inodeGroup, same.groupInode, same.inodeSize, same.blockSize, same.inodeTable]

/-! ### A lookup in the window -/

/-- How far a block lies behind the start of the window brings one back to the block. -/
theorem inodeAway_block (fs : FileSystem) (ino : Nat) :
    (uint32 (fs.groups (fs.inodeGroup ino)).inodeBegin + fs.inodeAway ino) % 4294967296 =
      fs.inodeBlock ino := by
  have small : fs.inodeBlock ino < 4294967296 := Nat.mod_lt _ (by decide)
  unfold inodeAway uint32
  omega

theorem TableShape.cachedRef_div (shape : fs.TableShape) (ino : Nat) :
    (fs.cachedRef ino).slot / (fs.blockSize / fs.inodeSize) = fs.inodeAway ino := by
  rw [shape.cachedRef_slot, Nat.mul_comm, Nat.mul_add_div shape.num_pos,
    Nat.div_eq_of_lt (shape.slot_lt ino), Nat.add_zero]

theorem TableShape.cachedRef_mod (shape : fs.TableShape) (ino : Nat) :
    (fs.cachedRef ino).slot % (fs.blockSize / fs.inodeSize) = fs.inodeSlot ino := by
  rw [shape.cachedRef_slot, Nat.mul_add_mod_self_right, Nat.mod_eq_of_lt (shape.slot_lt ino)]

theorem HoldsWindow.cachedRef (holds : fs.HoldsWindow (fs.inodeGroup ino) content)
    (geometry : fs.TableGeometry (fs.inodeGroup ino)) (near : fs.inodeAway ino < 5)
    (old : Inode) : SameStored (fs.inode (fs.cachedRef ino)) (fs.ownInode content ino old) := by
  have shape := geometry.tableShape
  have slot := holds (fs.cachedRef ino).slot (shape.cachedRef_lt near)
  rw [shape.cachedRef_div, shape.cachedRef_mod, inodeAway_block] at slot
  rw [geometry.ownInode_eq]
  exact slot.trans (SameStored.loadInode _ _ _ _)

/-! ### A reload -/

/-- The slots of a window that was read from `content`. -/
theorem loadWindow_slot (geometry : fs.TableGeometry g) (reads : fs.ReadsContent content ino)
    {store : BlockStore} {inodeData : Nat → Inode}
    (loads : fs.loadWindow ino = (true, store, inodeData)) {i : Nat}
    (inside : i < 4096 * 5 / fs.inodeSize) (old : Inode) :
    SameStored (inodeData i)
      (loadInode (content ((fs.inodeBlock ino + i / (fs.blockSize / fs.inodeSize)) % 4294967296))
        (i % (fs.blockSize / fs.inodeSize) * fs.inodeSize) old) := by
  have shape := geometry.tableShape
  have start := InodeShape.At.zero (fs.windowShape ino)
    (fs.writeInode (fs.groups (fs.inodeGroup ino)))
  have positive : 0 < (fs.windowShape ino).num := shape.num_pos
  have slots := InodeShape.loadLoop_slot positive start loads i
  rw [if_pos ⟨Nat.zero_le i, by rw [Nat.zero_add]; exact inside⟩] at slots
  obtain ⟨data, isData, isInode⟩ := slots
  have agree := reads _ _ isData
  have fits := geometry.slot_inside (Nat.mod_lt i shape.num_pos)
  rw [isInode]
  apply loadInode_congr
  intro x lower upper
  exact agree x (by omega) (Int.lt_of_lt_of_le upper (Int.ofNat_le.mpr fits))

/-- A reload leaves the window that a lookup relies on. -/
theorem igetInode_holdsWindow (geometry : fs.TableGeometry (fs.inodeGroup ino))
    (valid : fs.ValidIno ino) (missed : ¬ fs.InodeCached ino)
    (reads : fs.ReadsContent content ino) (returns : fs.igetInode ino = (some ref, after)) :
    after.HoldsWindow (fs.inodeGroup ino) content ∧ ref = ⟨fs.inodeGroup ino, fs.inodeSlot ino⟩ ∧
      (after.groups (fs.inodeGroup ino)).inodeBegin = int32 (fs.inodeBlock ino) := by
  obtain ⟨store, inodeData, loads, isRef, isAfter⟩ :=
    igetInode_reloaded valid.1 valid.2 missed returns
  rw [isAfter]
  refine ⟨?_, isRef, ?_⟩
  · intro i inside
    have small : fs.inodeBlock ino < 4294967296 := Nat.mod_lt _ (by decide)
    have slot := loadWindow_slot geometry reads loads inside (inodeData i)
    rw [setGroup_self]
    change SameStored (inodeData i) (loadInode (content
      ((uint32 (int32 (fs.inodeBlock ino)) + _) % 4294967296)) _ _)
    rw [uint32_int32 small]
    exact slot
  · rw [setGroup_self]

/-- What a reload at an inode returns is the inode's own slot. -/
theorem igetInode_reloads (geometry : fs.TableGeometry (fs.inodeGroup ino))
    (valid : fs.ValidIno ino) (missed : ¬ fs.InodeCached ino)
    (reads : fs.ReadsContent content ino) (returns : fs.igetInode ino = (some ref, after))
    (old : Inode) : SameStored (after.inode ref) (fs.ownInode content ino old) := by
  have shape := geometry.tableShape
  obtain ⟨store, inodeData, loads, isRef, isAfter⟩ :=
    igetInode_reloaded valid.1 valid.2 missed returns
  have below := shape.slot_lt ino
  have five := shape.total
  have small : fs.inodeBlock ino < 4294967296 := Nat.mod_lt _ (by decide)
  have slot := loadWindow_slot geometry reads loads (by omega : fs.inodeSlot ino < _) old
  rw [Nat.div_eq_of_lt below, Nat.mod_eq_of_lt below, Nat.add_zero,
    Nat.mod_eq_of_lt small] at slot
  rw [isRef, isAfter]
  unfold FileSystem.inode
  rw [setGroup_self, geometry.ownInode_eq]
  exact slot

/-- A lookup in the window returns what a reload would return. -/
theorem igetInode_agrees (geometry : fs.TableGeometry (fs.inodeGroup ino))
    (valid : fs.ValidIno ino) (holds : fs.HoldsWindow (fs.inodeGroup ino) content)
    (hit : fs.InodeCached ino) :
    ∃ ref, fs.igetInode ino = (some ref, fs) ∧ ref.group = fs.inodeGroup ino ∧
      ref.slot < 4096 * 5 / fs.inodeSize ∧
      (∀ old, SameStored (fs.inode ref) (fs.ownInode content ino old)) ∧
      ∀ store begin reloaded after,
        ¬ (fs.rewound store (fs.inodeGroup ino) begin).InodeCached ino →
        (fs.rewound store (fs.inodeGroup ino) begin).ReadsContent content ino →
        (fs.rewound store (fs.inodeGroup ino) begin).igetInode ino = (some reloaded, after) →
        SameStored (after.inode reloaded) (fs.inode ref) := by
  have shape := geometry.tableShape
  refine ⟨fs.cachedRef ino, igetInode_cached valid.1 valid.2 hit, rfl, shape.cachedRef_lt hit.2,
    holds.cachedRef geometry hit.2, ?_⟩
  intro store begin reloaded after missed reads returns
  have layout : SameLayout fs (fs.rewound store (fs.inodeGroup ino) begin) :=
    (sameWindows_setStore fs store).toSameLayout.trans
      (sameLayout_setGroup (fs.setStore store) (fs.inodeGroup ino)
        { fs.groups (fs.inodeGroup ino) with inodeBegin := begin } rfl)
  have own := igetInode_reloads (geometry.keep layout) (layout.validIno.mpr valid) missed reads
    returns (fs.inode (fs.cachedRef ino))
  rw [layout.ownInode] at own
  exact own.trans (holds.cachedRef geometry hit.2 _).symm

/-! ### A window of five blocks -/

/-- Every block holds other bytes. -/
def windowContent (bno : Nat) : Region := fun x => BitVec.ofNat 8 (bno + x.toNat)

/-- One group whose window begins one block behind the start of its table. -/
def windowSample : FileSystem :=
  let fs := FileSystem.sample 0
  let group := fs.groups 0
  fs.setGroup 0
    { group with
      inodeBegin := 5
      inodeData := fun i =>
        loadInode (windowContent ((5 + i / 32) % 4294967296)) (i % 32 * 128)
          (group.inodeData i) }

theorem windowSample_geometry : windowSample.TableGeometry 0 := by
  constructor
  · exact Or.inr (Or.inr rfl)
  · decide
  · decide
  · decide
  · decide
  · intro index below
    change index < 160 at below
    change 4 + index * 128 / 4096 < 4294967296
    omega

theorem windowSample_holds : windowSample.HoldsWindow 0 windowContent :=
  fun _ _ => SameStored.loadInode _ _ _ _

/-- Inode 71 is the seventh of its block, one block behind the start of the window. -/
theorem igetInode_agrees_seventh :
    ∃ ref, windowSample.igetInode 71 = (some ref, windowSample) ∧ ref.group = 0 ∧
      ref.slot < 160 ∧
      (∀ old, SameStored (windowSample.inode ref) (windowSample.ownInode windowContent 71 old)) ∧
      ∀ store begin reloaded after,
        ¬ (windowSample.rewound store 0 begin).InodeCached 71 →
        (windowSample.rewound store 0 begin).ReadsContent windowContent 71 →
        (windowSample.rewound store 0 begin).igetInode 71 = (some reloaded, after) →
        SameStored (after.inode reloaded) (windowSample.inode ref) :=
  have valid : windowSample.ValidIno 71 := by decide
  igetInode_agrees windowSample_geometry valid windowSample_holds (by decide)

end FileSystem

end MangoOS
