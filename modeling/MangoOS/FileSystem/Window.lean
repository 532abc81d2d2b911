/-
What a pointer into the inode cache denotes.

`iget_inode` computes it from where the window of the group begins; a reload changes
that for every pointer into the group.
-/

import MangoOS.FileSystem.InodeCache

namespace MangoOS

/-- What an inode has on disk. -/
structure SameStored (a b : Inode) : Prop where
  iMode : a.iMode = b.iMode
  iBlocks : a.iBlocks = b.iBlocks
  iUid : a.iUid = b.iUid
  iGid : a.iGid = b.iGid
  iSize : a.iSize = b.iSize
  iAtime : a.iAtime = b.iAtime
  iMtime : a.iMtime = b.iMtime
  iCtime : a.iCtime = b.iCtime
  iBlock : ∀ k, k < 15 → a.iBlock k = b.iBlock k

theorem SameStored.refl (a : Inode) : SameStored a a :=
  ⟨rfl, rfl, rfl, rfl, rfl, rfl, rfl, rfl, fun _ _ => rfl⟩

theorem SameStored.parent {a b : Inode} (same : SameStored a b) (parent : Option InodeRef) :
    SameStored { a with parent := parent } b :=
  ⟨same.iMode, same.iBlocks, same.iUid, same.iGid, same.iSize, same.iAtime, same.iMtime,
    same.iCtime, same.iBlock⟩

theorem SameStored.loadInode (data : Region) (step : Nat) (a b : Inode) :
    SameStored (loadInode data step a) (loadInode data step b) := by
  refine ⟨rfl, rfl, rfl, rfl, rfl, rfl, rfl, rfl, ?_⟩
  intro k inside
  unfold MangoOS.loadInode
  simp only [if_pos inside]

/-! ### What a reload reads -/

namespace InodeShape

/-- Block `j` of the window. -/
def block (shape : InodeShape) (j : Nat) : Nat := (shape.inodeBlock + j) % 4294967296

/-- The store when block `j` is read. -/
def roundStore (shape : InodeShape) (store : BlockStore) : Nat → BlockStore
  | 0 => store
  | j + 1 => ((shape.roundStore store j).readBlock shape.blockSize (shape.block j)).2

/-- What is read for block `j`. -/
def roundData (shape : InodeShape) (store : BlockStore) (j : Nat) : Option Region :=
  match (shape.roundStore store j).readBlock shape.blockSize (shape.block j) with
  | (none, _) => none
  | (some bb, store) => some (store.buffers bb).data

/-- The state of the loop of `iget_inode` at inode `i`. -/
def At (shape : InodeShape) (start : BlockStore) (i : Nat) (store : BlockStore)
    (bb step : Nat) : Prop :=
  if i % shape.num = 0 then store = shape.roundStore start (i / shape.num)
  else (shape.roundStore start (i / shape.num)).readBlock shape.blockSize
      (shape.block (i / shape.num)) = (some bb, store) ∧ step = i % shape.num * shape.inodeSize

variable {shape : InodeShape} {start store : BlockStore} {i bb step : Nat}

theorem At.zero (shape : InodeShape) (start : BlockStore) : shape.At start 0 start 0 0 := by
  unfold At
  rw [if_pos (Nat.zero_mod _), Nat.zero_div]
  rfl

/-- The block of inode `i` is there once its round has started. -/
theorem startRound_some (state : shape.At start i store bb step) {next : Nat × Nat}
    {after : BlockStore} (starts : shape.startRound store i bb step = (some next, after)) :
    (shape.roundStore start (i / shape.num)).readBlock shape.blockSize
      (shape.block (i / shape.num)) = (some next.1, after) ∧
    next.2 = i % shape.num * shape.inodeSize := by
  unfold startRound at starts
  unfold At at state
  by_cases first : i % shape.num = 0
  · rw [if_pos first] at starts state
    rw [← state]
    unfold block
    cases reads : store.readBlock shape.blockSize
        ((shape.inodeBlock + i / shape.num) % 4294967296) with
    | mk read readStore =>
        rw [reads] at starts
        cases read with
        | none => cases starts
        | some bb =>
            cases starts
            rw [first]
            exact ⟨rfl, (Nat.zero_mul _).symm⟩
  · rw [if_neg first] at starts state
    cases starts
    exact state

theorem At.next (positive : 0 < shape.num)
    (reads : (shape.roundStore start (i / shape.num)).readBlock shape.blockSize
      (shape.block (i / shape.num)) = (some bb, store))
    (isStep : step = i % shape.num * shape.inodeSize) :
    shape.At start (i + 1) store bb (step + shape.inodeSize) := by
  unfold At
  have split := Nat.div_add_mod i shape.num
  have inside := Nat.mod_lt i positive
  by_cases last : i % shape.num + 1 = shape.num
  · have whole : i + 1 = shape.num * (i / shape.num + 1) := by
      rw [Nat.mul_add, Nat.mul_one]
      omega
    have quotient : (i + 1) / shape.num = i / shape.num + 1 := by
      rw [whole]
      exact Nat.mul_div_cancel_left _ positive
    have rest : (i + 1) % shape.num = 0 := by
      rw [whole]
      exact Nat.mul_mod_right _ _
    rw [if_pos rest, quotient, roundStore, reads]
  · have whole : i + 1 = (i % shape.num + 1) + shape.num * (i / shape.num) := by omega
    have quotient : (i + 1) / shape.num = i / shape.num := by
      rw [whole, Nat.add_mul_div_left _ _ positive, Nat.div_eq_of_lt (by omega), Nat.zero_add]
    have rest : (i + 1) % shape.num = i % shape.num + 1 := by
      rw [whole, Nat.add_mul_mod_self_left]
      exact Nat.mod_eq_of_lt (by omega)
    rw [if_neg (by omega), quotient, rest, isStep, Nat.add_mul, Nat.one_mul]
    exact ⟨reads, rfl⟩

/-- A reload that succeeds puts every inode of its blocks into its slot. -/
theorem loadLoop_slot (positive : 0 < shape.num) {left : Nat} {inodeData after : Nat → Inode}
    {last : BlockStore} (state : shape.At start i store bb step)
    (loads : shape.loadLoop left i store inodeData bb step = (true, last, after)) (k : Nat) :
    if i ≤ k ∧ k < i + left then
      ∃ data, shape.roundData start (k / shape.num) = some data ∧
        after k = loadInode data (k % shape.num * shape.inodeSize) (inodeData k)
    else after k = inodeData k := by
  induction left generalizing i store inodeData bb step with
  | zero =>
      rw [loadLoop] at loads
      cases loads
      rw [if_neg (by omega)]
  | succ left ih =>
      rw [loadLoop] at loads
      cases starts : shape.startRound store i bb step with
      | mk next middle =>
          cases next with
          | none =>
              rw [starts] at loads
              cases loads
          | some next =>
              obtain ⟨nextBb, nextStep⟩ := next
              obtain ⟨reads, isStep⟩ := startRound_some state starts
              rw [starts] at loads
              have rest := ih (At.next positive reads isStep) loads
              by_cases here : k = i
              · rw [if_neg (by omega), here, Function.update_self] at rest
                rw [if_pos (by omega), here, rest]
                refine ⟨(middle.buffers nextBb).data, ?_, ?_⟩
                · unfold roundData
                  rw [reads]
                · change nextStep = _ at isStep
                  rw [isStep]
              · rw [Function.update_of_ne here] at rest
                by_cases inside : i ≤ k ∧ k < i + (left + 1)
                · rw [if_pos inside]
                  rw [if_pos (by omega)] at rest
                  exact rest
                · rw [if_neg inside]
                  rw [if_neg (by omega)] at rest
                  exact rest

end InodeShape

namespace FileSystem

/-- The pointer that `iget_inode` returns for an inode of the window. -/
def cachedRef (fs : FileSystem) (ino : Nat) : InodeRef :=
  ⟨fs.inodeGroup ino, fs.inodeAway ino * fs.blockSize / fs.inodeSize + fs.inodeSlot ino⟩

/-- The inode numbers that `iget_inode` takes. -/
def ValidIno (fs : FileSystem) (ino : Nat) : Prop := 1 ≤ ino ∧ ino ≤ fs.inodeCount

theorem igetInode_notValid {fs : FileSystem} {ino : Nat} (invalid : ¬ fs.ValidIno ino) :
    fs.igetInode ino = (none, fs) := by
  apply igetInode_invalid
  unfold ValidIno at invalid
  omega

instance (fs : FileSystem) (ino : Nat) : Decidable (fs.ValidIno ino) :=
  inferInstanceAs (Decidable (_ ∧ _))

/-- The pointer refers to the cached inode of this number. -/
structure Denotes (fs : FileSystem) (ref : InodeRef) (ino : Nat) : Prop where
  valid : fs.ValidIno ino
  cached : fs.InodeCached ino
  place : ref = fs.cachedRef ino
  inside : ref.slot < 4096 * 5 / fs.inodeSize

/-- Inodes fill the blocks of a table, and five blocks fit into a window. -/
structure TableShape (fs : FileSystem) : Prop where
  inodeSize : 0 < fs.inodeSize
  divides : fs.inodeSize ∣ fs.blockSize
  blockSize : 0 < fs.blockSize
  fits : fs.blockSize ≤ 4096
  groupInode : 0 < fs.groupInode
  small : fs.groupInode * fs.inodeSize ≤ 4294967296

/-- The window at the block of an inode. -/
def windowShape (fs : FileSystem) (ino : Nat) : InodeShape :=
  ⟨fs.blockSize, fs.inodeSize, fs.inodeBlock ino⟩

/-- How many blocks inode `n` lies behind inode `ino`. -/
def blocksBehind (fs : FileSystem) (ino n : Nat) : Nat :=
  uint32 ((fs.inodeBlock n : Int) - fs.inodeBlock ino)

/-- What a reload for `ino` reads for inode `n`. -/
def readInode (fs : FileSystem) (ino n : Nat) (old : Inode) : Inode :=
  match (fs.windowShape ino).roundData (fs.writeInode (fs.groups (fs.inodeGroup ino)))
      (fs.blocksBehind ino n) with
  | some data => loadInode data (fs.inodePlace n % fs.blockSize) old
  | none => old

/-- What the inodes were last loaded as or changed to, after `iget_inode` of `ino`. -/
def learn (fs : FileSystem) (ino : Nat) (latest : Nat → Inode) : Nat → Inode := fun n =>
  if fs.ValidIno ino ∧ ¬ fs.InodeCached ino ∧ fs.inodeGroup n = fs.inodeGroup ino ∧
      fs.blocksBehind ino n < 5 then fs.readInode ino n (latest n)
  else latest n

/-- Every inode of a window has the contents it was last given. -/
def Known (fs : FileSystem) (latest : Nat → Inode) : Prop :=
  ∀ n, fs.ValidIno n → fs.InodeCached n → SameStored (fs.inode (fs.cachedRef n)) (latest n)

/-- The inode is in the window, or no pointer is held into its group and the reload
succeeds, or there was no window that it could spoil. -/
def LookCalm (fs : FileSystem) (ino : Nat) (held : InodeRef → Nat → Prop) : Prop :=
  fs.ValidIno ino → fs.InodeCached ino ∨
    (∀ ref n, held ref n → ref.group ≠ fs.inodeGroup ino) ∧ fs.inodeBlock ino ≠ 4294967295 ∧
      ((fs.loadWindow ino).1 = true ∨ (fs.groups (fs.inodeGroup ino)).inodeBegin = -1)

variable {fs after : FileSystem} {ino n : Nat} {ref : InodeRef} {latest : Nat → Inode}

/-! ### The slots of a window -/

theorem TableShape.num_pos (shape : fs.TableShape) : 0 < fs.blockSize / fs.inodeSize :=
  Nat.div_pos (Nat.le_of_dvd shape.blockSize shape.divides) shape.inodeSize

theorem TableShape.blockSize_eq (shape : fs.TableShape) :
    fs.inodeSize * (fs.blockSize / fs.inodeSize) = fs.blockSize :=
  Nat.mul_div_cancel' shape.divides

theorem TableShape.place (shape : fs.TableShape) (ino : Nat) :
    fs.inodePlace ino = (ino - 1) % fs.groupInode * fs.inodeSize := by
  have below := Nat.mod_lt (ino - 1) shape.groupInode
  have scaled := Nat.mul_lt_mul_of_pos_right below shape.inodeSize
  have small := shape.small
  unfold inodePlace
  exact Nat.mod_eq_of_lt (by omega)

theorem TableShape.place_div (shape : fs.TableShape) (ino : Nat) :
    fs.inodePlace ino / fs.blockSize =
      (ino - 1) % fs.groupInode / (fs.blockSize / fs.inodeSize) := by
  rw [shape.place]
  nth_rewrite 1 [← shape.blockSize_eq]
  rw [Nat.mul_comm fs.inodeSize, Nat.mul_div_mul_right _ _ shape.inodeSize]

theorem TableShape.slot (shape : fs.TableShape) (ino : Nat) :
    fs.inodeSlot ino = (ino - 1) % fs.groupInode % (fs.blockSize / fs.inodeSize) := by
  unfold inodeSlot
  rw [shape.place]
  nth_rewrite 1 [← shape.blockSize_eq]
  rw [Nat.mul_comm fs.inodeSize, Nat.mul_mod_mul_right, Nat.mul_div_cancel _ shape.inodeSize]

theorem TableShape.place_mod (shape : fs.TableShape) (ino : Nat) :
    fs.inodePlace ino % fs.blockSize = fs.inodeSlot ino * fs.inodeSize := by
  rw [shape.slot, shape.place]
  nth_rewrite 1 [← shape.blockSize_eq]
  rw [Nat.mul_comm fs.inodeSize, Nat.mul_mod_mul_right]

theorem TableShape.slot_lt (shape : fs.TableShape) (ino : Nat) :
    fs.inodeSlot ino < fs.blockSize / fs.inodeSize := by
  rw [shape.slot]
  exact Nat.mod_lt _ shape.num_pos

theorem TableShape.cachedRef_slot (shape : fs.TableShape) (ino : Nat) :
    (fs.cachedRef ino).slot =
      fs.inodeAway ino * (fs.blockSize / fs.inodeSize) + fs.inodeSlot ino := by
  unfold cachedRef
  rw [Nat.mul_div_assoc _ shape.divides]

theorem TableShape.total (shape : fs.TableShape) :
    5 * (fs.blockSize / fs.inodeSize) ≤ 4096 * 5 / fs.inodeSize := by
  have fits := shape.fits
  have whole := shape.blockSize_eq
  rw [Nat.le_div_iff_mul_le shape.inodeSize, Nat.mul_assoc, Nat.mul_comm _ fs.inodeSize, whole]
  omega

theorem TableShape.cachedRef_lt (shape : fs.TableShape) (near : fs.inodeAway ino < 5) :
    (fs.cachedRef ino).slot < 4096 * 5 / fs.inodeSize := by
  have inside := shape.slot_lt ino
  have whole := shape.total
  have scaled := Nat.mul_le_mul_right (fs.blockSize / fs.inodeSize) (Nat.lt_succ_iff.mp near)
  rw [shape.cachedRef_slot]
  omega

theorem denotes_cachedRef (shape : fs.TableShape) (valid : fs.ValidIno ino)
    (cached : fs.InodeCached ino) : fs.Denotes (fs.cachedRef ino) ino :=
  ⟨valid, cached, rfl, shape.cachedRef_lt cached.2⟩

theorem TableShape.cachedRef_inj (shape : fs.TableShape) (valid : fs.ValidIno ino)
    (other : fs.ValidIno n) (same : fs.cachedRef n = fs.cachedRef ino) : n = ino := by
  have group : (n - 1) / fs.groupInode = (ino - 1) / fs.groupInode :=
    congrArg InodeRef.group same
  have slot := congrArg InodeRef.slot same
  rw [shape.cachedRef_slot, shape.cachedRef_slot] at slot
  have positive := shape.num_pos
  have sameSlot : fs.inodeSlot n = fs.inodeSlot ino := by
    have rest := congrArg (· % (fs.blockSize / fs.inodeSize)) slot
    simp only [Nat.mul_add_mod_self_right, Nat.mod_eq_of_lt (shape.slot_lt n),
      Nat.mod_eq_of_lt (shape.slot_lt ino)] at rest
    exact rest
  have sameAway : fs.inodeAway n = fs.inodeAway ino := by
    rw [sameSlot] at slot
    exact Nat.eq_of_mul_eq_mul_right positive (Nat.add_right_cancel slot)
  have sameBlock : fs.inodePlace n / fs.blockSize % 4294967296 =
      fs.inodePlace ino / fs.blockSize % 4294967296 := by
    unfold inodeAway inodeBlock inodeGroup uint32 at sameAway
    rw [group] at sameAway
    omega
  have below : ∀ k, fs.inodePlace k / fs.blockSize < 4294967296 := by
    intro k
    have small : fs.inodePlace k < 4294967296 := Nat.mod_lt _ (by decide)
    exact Nat.lt_of_le_of_lt (Nat.div_le_self _ _) small
  rw [Nat.mod_eq_of_lt (below n), Nat.mod_eq_of_lt (below ino), shape.place_div,
    shape.place_div] at sameBlock
  rw [shape.slot, shape.slot] at sameSlot
  have index : (n - 1) % fs.groupInode = (ino - 1) % fs.groupInode := by
    rw [← Nat.div_add_mod ((n - 1) % fs.groupInode) (fs.blockSize / fs.inodeSize), sameBlock,
      sameSlot, Nat.div_add_mod]
  have whole : n - 1 = ino - 1 := by
    rw [← Nat.div_add_mod (n - 1) fs.groupInode, group, index, Nat.div_add_mod]
  have lower := valid.1
  have otherLower := other.1
  omega

/-! ### What keeps the windows -/

/-- The places of the inodes on the disk are the same. -/
structure SameLayout (fs after : FileSystem) : Prop where
  inodeCount : after.inodeCount = fs.inodeCount
  groupInode : after.groupInode = fs.groupInode
  inodeSize : after.inodeSize = fs.inodeSize
  blockSize : after.blockSize = fs.blockSize
  inodeTable : ∀ g, (after.groups g).inodeTable = (fs.groups g).inodeTable

/-- So are the windows of all groups and what they hold. -/
structure SameWindows (fs after : FileSystem) : Prop extends SameLayout fs after where
  inodeBegin : ∀ g, (after.groups g).inodeBegin = (fs.groups g).inodeBegin
  inodeData : ∀ g, (after.groups g).inodeData = (fs.groups g).inodeData

variable {middle : FileSystem} {g : Nat}

theorem SameLayout.inodeGroup (same : SameLayout fs after) (ino : Nat) :
    after.inodeGroup ino = fs.inodeGroup ino := by
  unfold FileSystem.inodeGroup
  rw [same.groupInode]

theorem SameLayout.inodePlace (same : SameLayout fs after) (ino : Nat) :
    after.inodePlace ino = fs.inodePlace ino := by
  unfold FileSystem.inodePlace
  rw [same.groupInode, same.inodeSize]

theorem SameLayout.inodeBlock (same : SameLayout fs after) (ino : Nat) :
    after.inodeBlock ino = fs.inodeBlock ino := by
  unfold FileSystem.inodeBlock
  rw [same.inodeGroup, same.inodePlace, same.inodeTable, same.blockSize]

theorem SameLayout.inodeSlot (same : SameLayout fs after) (ino : Nat) :
    after.inodeSlot ino = fs.inodeSlot ino := by
  unfold FileSystem.inodeSlot
  rw [same.inodePlace, same.inodeSize, same.blockSize]

theorem SameLayout.validIno (same : SameLayout fs after) : after.ValidIno ino ↔ fs.ValidIno ino := by
  unfold ValidIno
  rw [same.inodeCount]

theorem SameLayout.blocksBehind (same : SameLayout fs after) (ino n : Nat) :
    after.blocksBehind ino n = fs.blocksBehind ino n := by
  unfold FileSystem.blocksBehind
  rw [same.inodeBlock, same.inodeBlock]

theorem SameLayout.inodeAway (same : SameLayout fs after)
    (begin : (after.groups (fs.inodeGroup ino)).inodeBegin =
      (fs.groups (fs.inodeGroup ino)).inodeBegin) : after.inodeAway ino = fs.inodeAway ino := by
  unfold FileSystem.inodeAway
  rw [same.inodeGroup, same.inodeBlock, begin]

theorem SameLayout.inodeCached (same : SameLayout fs after)
    (begin : (after.groups (fs.inodeGroup ino)).inodeBegin =
      (fs.groups (fs.inodeGroup ino)).inodeBegin) : after.InodeCached ino ↔ fs.InodeCached ino := by
  unfold InodeCached
  rw [same.inodeGroup, begin, same.inodeAway begin]

theorem SameLayout.cachedRef (same : SameLayout fs after)
    (begin : (after.groups (fs.inodeGroup ino)).inodeBegin =
      (fs.groups (fs.inodeGroup ino)).inodeBegin) : after.cachedRef ino = fs.cachedRef ino := by
  unfold FileSystem.cachedRef
  rw [same.inodeGroup, same.inodeAway begin, same.inodeSlot, same.blockSize, same.inodeSize]

/-- A pointer goes on denoting its inode as long as the window of its group stays. -/
theorem Denotes.keep (held : fs.Denotes ref n) (same : SameLayout fs after)
    (begin : (after.groups ref.group).inodeBegin = (fs.groups ref.group).inodeBegin) :
    after.Denotes ref n := by
  have isGroup : ref.group = fs.inodeGroup n := by
    rw [held.place]
    rfl
  rw [isGroup] at begin
  have place := held.place
  rw [← same.cachedRef begin] at place
  have inside := held.inside
  rw [← same.inodeSize] at inside
  exact ⟨same.validIno.mpr held.valid, (same.inodeCached begin).mpr held.cached, place, inside⟩

theorem TableShape.keep (shape : fs.TableShape) (same : SameLayout fs after) :
    after.TableShape := by
  constructor
  · rw [same.inodeSize]
    exact shape.inodeSize
  · rw [same.inodeSize, same.blockSize]
    exact shape.divides
  · rw [same.blockSize]
    exact shape.blockSize
  · rw [same.blockSize]
    exact shape.fits
  · rw [same.groupInode]
    exact shape.groupInode
  · rw [same.inodeSize, same.groupInode]
    exact shape.small

theorem SameLayout.refl (fs : FileSystem) : SameLayout fs fs :=
  ⟨rfl, rfl, rfl, rfl, fun _ => rfl⟩

theorem SameLayout.trans (first : SameLayout fs middle) (second : SameLayout middle after) :
    SameLayout fs after :=
  ⟨second.inodeCount.trans first.inodeCount, second.groupInode.trans first.groupInode,
    second.inodeSize.trans first.inodeSize, second.blockSize.trans first.blockSize,
    fun g => (second.inodeTable g).trans (first.inodeTable g)⟩

theorem SameWindows.refl (fs : FileSystem) : SameWindows fs fs :=
  ⟨.refl fs, fun _ => rfl, fun _ => rfl⟩

theorem SameWindows.trans (first : SameWindows fs middle) (second : SameWindows middle after) :
    SameWindows fs after :=
  ⟨first.toSameLayout.trans second.toSameLayout,
    fun g => (second.inodeBegin g).trans (first.inodeBegin g),
    fun g => (second.inodeData g).trans (first.inodeData g)⟩

theorem sameWindows_setStore (fs : FileSystem) (store : BlockStore) :
    SameWindows fs (fs.setStore store) :=
  ⟨⟨rfl, rfl, rfl, rfl, fun _ => rfl⟩, fun _ => rfl, fun _ => rfl⟩

theorem sameLayout_setGroup (fs : FileSystem) (index : Nat) (group : Group)
    (table : group.inodeTable = (fs.groups index).inodeTable) :
    SameLayout fs (fs.setGroup index group) :=
  ⟨rfl, rfl, rfl, rfl, setGroup_field Group.inodeTable table⟩

theorem sameWindows_setGroup (fs : FileSystem) (index : Nat) (group : Group)
    (table : group.inodeTable = (fs.groups index).inodeTable)
    (begin : group.inodeBegin = (fs.groups index).inodeBegin)
    (data : group.inodeData = (fs.groups index).inodeData) :
    SameWindows fs (fs.setGroup index group) :=
  ⟨sameLayout_setGroup fs index group table, setGroup_field Group.inodeBegin begin,
    setGroup_field Group.inodeData data⟩

theorem SameWindows.inode (same : SameWindows fs after) (ref : InodeRef) :
    after.inode ref = fs.inode ref := by
  unfold FileSystem.inode
  rw [same.inodeData]

theorem Known.keep (known : fs.Known latest) (same : SameWindows fs after) :
    after.Known latest := by
  intro n valid cached
  have begin := same.inodeBegin (fs.inodeGroup n)
  rw [same.cachedRef begin, same.inode]
  exact known n (same.validIno.mp valid) ((same.inodeCached begin).mp cached)

/-! ### `iget_inode` -/

/-- The windows and the pointers that are held are what they should be. -/
structure Sound (fs : FileSystem) (latest : Nat → Inode) (held : InodeRef → Nat → Prop) :
    Prop where
  shape : fs.TableShape
  known : fs.Known latest
  denotes : ∀ ref n, held ref n → fs.Denotes ref n

variable {held : InodeRef → Nat → Prop}

theorem Sound.keep (sound : fs.Sound latest held) (same : SameWindows fs after) :
    after.Sound latest held :=
  ⟨sound.shape.keep same.toSameLayout, sound.known.keep same,
    fun ref n isHeld =>
      (sound.denotes ref n isHeld).keep same.toSameLayout (same.inodeBegin ref.group)⟩

theorem learn_calm (calm : ¬ fs.ValidIno ino ∨ fs.InodeCached ino) :
    fs.learn ino latest = latest := by
  funext n
  unfold learn
  rw [if_neg]
  intro reloads
  rcases calm with invalid | cached
  · exact invalid reloads.1
  · exact reloads.2.1 cached

theorem learn_other (different : fs.inodeGroup n ≠ fs.inodeGroup ino) :
    fs.learn ino latest n = latest n := by
  unfold learn
  rw [if_neg]
  exact fun reloads => different reloads.2.2.1

theorem int32_begin {block : Nat} (below : block < 4294967296) (notMinus : block ≠ 4294967295) :
    int32 block ≠ -1 ∧ ∀ other : Int, uint32 (other - int32 block) = uint32 (other - block) := by
  unfold int32 uint32
  constructor
  · omega
  · intro other
    omega

theorem inodeBlock_lt (fs : FileSystem) (ino : Nat) : fs.inodeBlock ino < 4294967296 :=
  Nat.mod_lt _ (by decide)

/-- The file system after a reload of the group of `ino`. -/
def reloaded (fs : FileSystem) (ino : Nat) (store : BlockStore) (inodeData : Nat → Inode)
    (begin : Int) : FileSystem :=
  (fs.setStore store).setGroup (fs.inodeGroup ino)
    { fs.groups (fs.inodeGroup ino) with inodeData := inodeData, inodeBegin := begin }

section Reloaded

variable {store : BlockStore} {inodeData : Nat → Inode} {begin : Int}

theorem reloaded_group : (fs.reloaded ino store inodeData begin).groups (fs.inodeGroup ino) =
    { fs.groups (fs.inodeGroup ino) with inodeData := inodeData, inodeBegin := begin } :=
  setGroup_self ..

theorem reloaded_other (different : g ≠ fs.inodeGroup ino) :
    (fs.reloaded ino store inodeData begin).groups g = fs.groups g :=
  setGroup_other _ _ different

theorem reloaded_layout : SameLayout fs (fs.reloaded ino store inodeData begin) :=
  (sameWindows_setStore fs store).toSameLayout.trans (sameLayout_setGroup _ _ _ rfl)

theorem reloaded_inode (different : ref.group ≠ fs.inodeGroup ino) :
    (fs.reloaded ino store inodeData begin).inode ref = fs.inode ref := by
  unfold FileSystem.inode
  rw [reloaded_other different]

theorem reloaded_denotes (denotes : fs.Denotes ref n) (different : ref.group ≠ fs.inodeGroup ino) :
    (fs.reloaded ino store inodeData begin).Denotes ref n := by
  apply denotes.keep reloaded_layout
  rw [reloaded_other different]

/-- Behind the block of `ino` the windows of the other groups are as they were. -/
theorem reloaded_known_other (known : fs.Known latest) (valid : fs.ValidIno n)
    (different : fs.inodeGroup n ≠ fs.inodeGroup ino)
    (cached : (fs.reloaded ino store inodeData begin).InodeCached n) :
    SameStored ((fs.reloaded ino store inodeData begin).inode
      ((fs.reloaded ino store inodeData begin).cachedRef n)) (fs.learn ino latest n) := by
  have layout : SameLayout fs (fs.reloaded ino store inodeData begin) := reloaded_layout
  have sameBegin : ((fs.reloaded ino store inodeData begin).groups (fs.inodeGroup n)).inodeBegin =
      (fs.groups (fs.inodeGroup n)).inodeBegin := by
    rw [reloaded_other different]
  have apart : (fs.cachedRef n).group ≠ fs.inodeGroup ino := different
  rw [layout.cachedRef sameBegin, reloaded_inode apart, learn_other different]
  exact known n valid ((layout.inodeCached sameBegin).mp cached)

end Reloaded

section Loaded

variable {store : BlockStore} {inodeData : Nat → Inode}

theorem loaded_away (store : BlockStore) (inodeData : Nat → Inode)
    (notMinus : fs.inodeBlock ino ≠ 4294967295) (group : fs.inodeGroup n = fs.inodeGroup ino) :
    (fs.reloaded ino store inodeData (int32 (fs.inodeBlock ino))).inodeAway n =
      fs.blocksBehind ino n := by
  have layout : SameLayout fs
    (fs.reloaded ino store inodeData (int32 (fs.inodeBlock ino))) := reloaded_layout
  unfold FileSystem.inodeAway blocksBehind
  rw [layout.inodeGroup, layout.inodeBlock, group, reloaded_group]
  exact (int32_begin (fs.inodeBlock_lt ino) notMinus).2 _

theorem loaded_denotes (shape : fs.TableShape) (valid : fs.ValidIno ino)
    (notMinus : fs.inodeBlock ino ≠ 4294967295) :
    (fs.reloaded ino store inodeData (int32 (fs.inodeBlock ino))).Denotes
      ⟨fs.inodeGroup ino, fs.inodeSlot ino⟩ ino := by
  have layout : SameLayout fs
    (fs.reloaded ino store inodeData (int32 (fs.inodeBlock ino))) := reloaded_layout
  have away := loaded_away (n := ino) store inodeData notMinus rfl
  have none : fs.blocksBehind ino ino = 0 := by
    unfold blocksBehind
    rw [Int.sub_self]
    rfl
  rw [none] at away
  have place : (fs.reloaded ino store inodeData (int32 (fs.inodeBlock ino))).cachedRef ino =
      ⟨fs.inodeGroup ino, fs.inodeSlot ino⟩ := by
    unfold cachedRef
    rw [away, layout.inodeGroup, layout.inodeSlot, Nat.zero_mul, Nat.zero_div, Nat.zero_add]
  rw [← place]
  apply denotes_cachedRef (shape.keep layout) (layout.validIno.mpr valid)
  constructor
  · rw [layout.inodeGroup, reloaded_group]
    exact (int32_begin (fs.inodeBlock_lt ino) notMinus).1
  · rw [away]
    decide

theorem loaded_known (sound : fs.Sound latest held) (valid : fs.ValidIno ino)
    (missed : ¬ fs.InodeCached ino) (notMinus : fs.inodeBlock ino ≠ 4294967295)
    (loads : fs.loadWindow ino = (true, store, inodeData)) :
    (fs.reloaded ino store inodeData (int32 (fs.inodeBlock ino))).Known
      (fs.learn ino latest) := by
  have layout : SameLayout fs
    (fs.reloaded ino store inodeData (int32 (fs.inodeBlock ino))) := reloaded_layout
  intro n validN cachedN
  cases decEq (fs.inodeGroup n) (fs.inodeGroup ino) with
  | isFalse different =>
      exact reloaded_known_other sound.known (layout.validIno.mp validN) different cachedN
  | isTrue group =>
      have away := loaded_away store inodeData notMinus group
      have near := cachedN.2
      have slot := (sound.shape.keep layout).cachedRef_slot n
      have inside := (sound.shape.keep layout).cachedRef_lt near
      rw [away] at near slot
      rw [layout.inodeSlot, layout.blockSize, layout.inodeSize] at slot
      rw [layout.inodeSize] at inside
      have slotLt := sound.shape.slot_lt n
      have start := InodeShape.At.zero (fs.windowShape ino)
        (fs.writeInode (fs.groups (fs.inodeGroup ino)))
      have loaded := (fs.windowShape ino).loadLoop_slot sound.shape.num_pos start loads
        (fs.blocksBehind ino n * (fs.blockSize / fs.inodeSize) + fs.inodeSlot n)
      rw [if_pos ⟨Nat.zero_le _, by
        rw [Nat.zero_add, ← slot]
        exact inside⟩] at loaded
      obtain ⟨data, reads, isInode⟩ := loaded
      have quotient : (fs.blocksBehind ino n * (fs.blockSize / fs.inodeSize) + fs.inodeSlot n) /
          (fs.windowShape ino).num = fs.blocksBehind ino n := by
        change _ / (fs.blockSize / fs.inodeSize) = _
        rw [Nat.mul_comm, Nat.mul_add_div sound.shape.num_pos, Nat.div_eq_of_lt slotLt,
          Nat.add_zero]
      have rest : (fs.blocksBehind ino n * (fs.blockSize / fs.inodeSize) + fs.inodeSlot n) %
          (fs.windowShape ino).num = fs.inodeSlot n := by
        change _ % (fs.blockSize / fs.inodeSize) = _
        rw [Nat.mul_add_mod_self_right, Nat.mod_eq_of_lt slotLt]
      rw [quotient] at reads
      rw [rest] at isInode
      have learned : fs.learn ino latest n =
          loadInode data (fs.inodeSlot n * fs.inodeSize) (latest n) := by
        unfold learn
        rw [if_pos ⟨valid, missed, group, near⟩]
        unfold readInode
        rw [reads, sound.shape.place_mod]
      have isRef : (fs.reloaded ino store inodeData (int32 (fs.inodeBlock ino))).inode
          ((fs.reloaded ino store inodeData (int32 (fs.inodeBlock ino))).cachedRef n) =
          inodeData (fs.blocksBehind ino n * (fs.blockSize / fs.inodeSize) + fs.inodeSlot n) := by
        unfold FileSystem.inode
        rw [slot]
        have sameGroup : ((fs.reloaded ino store inodeData
            (int32 (fs.inodeBlock ino))).cachedRef n).group = fs.inodeGroup ino := by
          change FileSystem.inodeGroup _ n = _
          rw [layout.inodeGroup, group]
        rw [sameGroup, reloaded_group]
      rw [isRef, isInode, learned]
      exact SameStored.loadInode data _ _ _

end Loaded

/-- A calm lookup: the pointers held before denote what they did, with the same contents,
and so does the new one. -/
structure Looked (fs after : FileSystem) (latest : Nat → Inode) (held : InodeRef → Nat → Prop)
    (ino : Nat) (found : Option InodeRef) : Prop where
  sound : after.Sound (fs.learn ino latest) held
  layout : SameLayout fs after
  kept : ∀ ref n, held ref n → after.inode ref = fs.inode ref
  found : ∀ ref, found = some ref → after.Denotes ref ino

theorem looked_same (sound : fs.Sound latest held)
    (calm : ¬ fs.ValidIno ino ∨ fs.InodeCached ino) {found : Option InodeRef}
    (denotes : ∀ ref, found = some ref → fs.Denotes ref ino) :
    Looked fs fs latest held ino found := by
  refine ⟨?_, .refl fs, fun _ _ _ => rfl, denotes⟩
  rw [learn_calm calm]
  exact sound

theorem looked_failed (sound : fs.Sound latest held) {store : BlockStore}
    {inodeData : Nat → Inode} (free : ∀ ref n, held ref n → ref.group ≠ fs.inodeGroup ino)
    (empty : (fs.groups (fs.inodeGroup ino)).inodeBegin = -1) :
    Looked fs (fs.reloaded ino store inodeData (fs.groups (fs.inodeGroup ino)).inodeBegin)
      latest held ino none := by
  have layout : SameLayout fs (fs.reloaded ino store inodeData
    (fs.groups (fs.inodeGroup ino)).inodeBegin) := reloaded_layout
  refine ⟨⟨sound.shape.keep layout, ?_, ?_⟩, layout, ?_, ?_⟩
  · intro n valid cached
    cases decEq (fs.inodeGroup n) (fs.inodeGroup ino) with
    | isFalse different =>
        exact reloaded_known_other sound.known (layout.validIno.mp valid) different cached
    | isTrue group =>
        have minus := cached.1
        rw [layout.inodeGroup, group, reloaded_group] at minus
        exact absurd empty minus
  · exact fun ref n isHeld => reloaded_denotes (sound.denotes ref n isHeld) (free ref n isHeld)
  · exact fun ref n isHeld => reloaded_inode (free ref n isHeld)
  · intro ref isFound
    cases isFound

theorem looked_loaded (sound : fs.Sound latest held) (valid : fs.ValidIno ino)
    (missed : ¬ fs.InodeCached ino) {store : BlockStore} {inodeData : Nat → Inode}
    (loads : fs.loadWindow ino = (true, store, inodeData))
    (free : ∀ ref n, held ref n → ref.group ≠ fs.inodeGroup ino)
    (notMinus : fs.inodeBlock ino ≠ 4294967295) :
    Looked fs (fs.reloaded ino store inodeData (int32 (fs.inodeBlock ino))) latest held ino
      (some ⟨fs.inodeGroup ino, fs.inodeSlot ino⟩) := by
  refine ⟨⟨sound.shape.keep reloaded_layout, ?_, ?_⟩, reloaded_layout, ?_, ?_⟩
  · exact loaded_known sound valid missed notMinus loads
  · exact fun ref n isHeld => reloaded_denotes (sound.denotes ref n isHeld) (free ref n isHeld)
  · exact fun ref n isHeld => reloaded_inode (free ref n isHeld)
  · intro ref isFound
    cases isFound
    exact loaded_denotes sound.shape valid notMinus

theorem igetInode_looked (sound : fs.Sound latest held) (calm : fs.LookCalm ino held) :
    Looked fs (fs.igetInode ino).2 latest held ino (fs.igetInode ino).1 := by
  by_cases valid : fs.ValidIno ino
  · by_cases cached : fs.InodeCached ino
    · rw [igetInode_cached valid.1 valid.2 cached]
      apply looked_same sound (Or.inr cached)
      intro ref isFound
      cases isFound
      exact denotes_cachedRef sound.shape valid cached
    · obtain ⟨free, notMinus, reads⟩ := (calm valid).resolve_left cached
      rcases loads : fs.loadWindow ino with ⟨done, store, inodeData⟩
      cases done with
      | true =>
          rw [igetInode_loaded valid.1 valid.2 cached loads]
          exact looked_loaded sound valid cached loads free notMinus
      | false =>
          rw [igetInode_failed valid.1 valid.2 cached loads]
          rw [loads] at reads
          exact looked_failed sound free (reads.resolve_left Bool.false_ne_true)
  · rw [igetInode_notValid valid]
    apply looked_same sound (Or.inl valid)
    intro ref isFound
    cases isFound

/-! ### Changing an inode -/

theorem setInode_layout (fs : FileSystem) (ref : InodeRef) (inode : Inode) :
    SameLayout fs (fs.setInode ref inode) :=
  sameLayout_setGroup fs ref.group _ rfl

theorem setInode_begin (fs : FileSystem) (ref : InodeRef) (inode : Inode) (g : Nat) :
    ((fs.setInode ref inode).groups g).inodeBegin = (fs.groups g).inodeBegin := by
  unfold setInode
  cases decEq g ref.group with
  | isTrue same => rw [same, setGroup_self]
  | isFalse different => rw [setGroup_other _ _ different]

theorem setInode_inode (fs : FileSystem) (ref other : InodeRef) (inode : Inode) :
    (fs.setInode ref inode).inode other = if other = ref then inode else fs.inode other := by
  unfold FileSystem.inode setInode
  cases decEq other.group ref.group with
  | isTrue same =>
      rw [same, setGroup_self]
      change Function.update _ _ _ _ = _
      rw [Function.update_apply]
      by_cases slot : other.slot = ref.slot
      · rw [if_pos slot, if_pos (by cases other; cases ref; cases same; cases slot; rfl)]
      · rw [if_neg slot, if_neg (fun equal => slot (congrArg InodeRef.slot equal))]
  | isFalse different =>
      rw [setGroup_other _ _ different,
        if_neg (fun equal => different (congrArg InodeRef.group equal))]

theorem setInode_denotes {other : InodeRef} {inode : Inode} (denotes : fs.Denotes other n) :
    (fs.setInode ref inode).Denotes other n :=
  denotes.keep (setInode_layout fs ref inode) (setInode_begin fs ref inode _)

/-- A change through a pointer changes the inode it denotes and no other. -/
theorem Sound.setInode (sound : fs.Sound latest held) (denotes : fs.Denotes ref ino)
    {inode value : Inode} (same : SameStored inode value) :
    (fs.setInode ref inode).Sound (Function.update latest ino value) held := by
  have layout := setInode_layout fs ref inode
  refine ⟨sound.shape.keep layout, ?_, fun other n isHeld =>
    setInode_denotes (sound.denotes other n isHeld)⟩
  intro n valid cached
  have begin := setInode_begin fs ref inode (fs.inodeGroup n)
  rw [layout.cachedRef begin, setInode_inode]
  have validN := layout.validIno.mp valid
  cases decEq n ino with
  | isTrue equal =>
      rw [equal, Function.update_self, if_pos denotes.place.symm]
      exact same
  | isFalse different =>
      have apart : fs.cachedRef n ≠ ref := by
        rw [denotes.place]
        exact fun equal => different (sound.shape.cachedRef_inj denotes.valid validN equal)
      rw [Function.update_of_ne different, if_neg apart]
      exact sound.known n validN ((layout.inodeCached begin).mp cached)

theorem Denotes.stored (denotes : fs.Denotes ref n) (known : fs.Known latest) :
    SameStored (fs.inode ref) (latest n) := by
  rw [denotes.place]
  exact known n denotes.valid denotes.cached

end FileSystem

end MangoOS
