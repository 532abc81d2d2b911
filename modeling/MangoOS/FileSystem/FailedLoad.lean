/-
A reload that `iget_inode` gives up (fs/ext2.c).

The loop reads over the old window block by block and the start of the window is set behind
the loop only.  A block that cannot be read leaves the inodes of the blocks before it in the
slots of an old window that still counts as one.
-/

import MangoOS.FileSystem.CachedLookup
import MangoOS.FileSystem.InodeCodec

namespace MangoOS

variable {a b : Inode}

/-- `write_inode` puts nothing else than the stored fields into a block. -/
theorem SameStored.storeInode (same : SameStored a b) (data : Region) (step : Nat) :
    storeInode data step a = storeInode data step b := by
  have heads : storeHead data step a = storeHead data step b := by
    unfold storeHead
    rw [same.iBlocks, same.iUid, same.iSize, same.iAtime, same.iMtime, same.iCtime]
  have blocks : ∀ n, n ≤ 15 → storeBlocks (storeHead data step b) step a.iBlock n =
      storeBlocks (storeHead data step b) step b.iBlock n := by
    intro n inside
    induction n with
    | zero => rfl
    | succ n ih =>
        rw [storeBlocks_succ, storeBlocks_succ, ih (by omega), same.iBlock n (by omega)]
  rw [storeInode_eq, storeInode_eq, heads]
  exact blocks 15 (Nat.le_refl 15)

namespace InodeShape

/-- Block `j` of the window is the first one that cannot be read. -/
structure FailsAt (shape : InodeShape) (start : BlockStore) (j : Nat) : Prop where
  inside : shape.num * j < shape.total
  fails : shape.roundData start j = none
  first : ∀ q, q < j → shape.roundData start q ≠ none

variable {shape : InodeShape} {start store last : BlockStore} {i j bb step left : Nat}
  {inodeData other after : Nat → Inode}

/-- Windows of the same stored inodes are written back alike. -/
theorem writeLoop_congr (same : ∀ k, i ≤ k → k < i + left → SameStored (inodeData k) (other k)) :
    shape.writeLoop inodeData left i store bb step = shape.writeLoop other left i store bb step := by
  induction left generalizing i store bb step with
  | zero => rfl
  | succ left ih =>
      rw [writeLoop, writeLoop]
      cases starts : shape.startRound store i bb step with
      | mk next middle =>
          cases next with
          | none => rfl
          | some next =>
              have here := same i (Nat.le_refl i) (by omega)
              simp only [here.storeInode]
              exact ih fun k lower upper => same k (by omega) (by omega)

/-- A round that does not start is one whose block cannot be read. -/
theorem startRound_none (state : shape.At start i store bb step)
    (starts : shape.startRound store i bb step = (none, last)) :
    i % shape.num = 0 ∧ shape.roundData start (i / shape.num) = none := by
  unfold startRound at starts
  unfold At at state
  by_cases first : i % shape.num = 0
  · refine ⟨first, ?_⟩
    rw [if_pos first] at starts state
    rw [state] at starts
    unfold roundData block
    cases reads : (shape.roundStore start (i / shape.num)).readBlock shape.blockSize
        ((shape.inodeBlock + i / shape.num) % 4294967296) with
    | mk read readStore =>
        rw [reads] at starts
        cases read with
        | none => rfl
        | some bb => cases starts
  · rw [if_neg first] at starts
    cases starts

/-- A reload that fails has put the inodes of the blocks before into their slots and left
the other slots as they were. -/
theorem loadLoop_failed (positive : 0 < shape.num) (state : shape.At start i store bb step)
    (loads : shape.loadLoop left i store inodeData bb step = (false, last, after)) :
    ∃ j, i ≤ shape.num * j ∧ shape.num * j < i + left ∧ shape.roundData start j = none ∧
      ∀ k, if i ≤ k ∧ k < shape.num * j then
          ∃ data, shape.roundData start (k / shape.num) = some data ∧
            after k = loadInode data (k % shape.num * shape.inodeSize) (inodeData k)
        else after k = inodeData k := by
  induction left generalizing i store inodeData bb step with
  | zero =>
      rw [loadLoop] at loads
      cases loads
  | succ left ih =>
      rw [loadLoop] at loads
      cases starts : shape.startRound store i bb step with
      | mk next middle =>
          cases next with
          | none =>
              rw [starts] at loads
              cases loads
              obtain ⟨whole, fails⟩ := startRound_none state starts
              have place := Nat.mul_div_cancel' (Nat.dvd_of_mod_eq_zero whole)
              refine ⟨i / shape.num, by omega, by omega, fails, ?_⟩
              intro k
              rw [if_neg (by omega)]
          | some next =>
              obtain ⟨nextBb, nextStep⟩ := next
              obtain ⟨reads, isStep⟩ := startRound_some state starts
              rw [starts] at loads
              obtain ⟨j, behind, inside, fails, slots⟩ :=
                ih (At.next positive reads isStep) loads
              refine ⟨j, by omega, by omega, fails, ?_⟩
              intro k
              have slot := slots k
              by_cases here : k = i
              · rw [if_neg (by omega), here, Function.update_self] at slot
                rw [if_pos (by omega), here, slot]
                refine ⟨(middle.buffers nextBb).data, ?_, ?_⟩
                · unfold roundData
                  rw [reads]
                · change nextStep = _ at isStep
                  rw [isStep]
              · rw [Function.update_of_ne here] at slot
                by_cases read : i ≤ k ∧ k < shape.num * j
                · rw [if_pos read]
                  rw [if_pos (by omega)] at slot
                  exact slot
                · rw [if_neg read]
                  rw [if_neg (by omega)] at slot
                  exact slot

theorem FailsAt.unique {other : Nat} (fails : shape.FailsAt start j)
    (same : shape.FailsAt start other) : j = other := by
  rcases Nat.lt_trichotomy j other with before | equal | behind
  · exact absurd fails.fails (same.first j before)
  · exact equal
  · exact absurd same.fails (fails.first other behind)

/-- The loop of `iget_inode` fails at the first block that it cannot read. -/
theorem loadLoop_failsAt (positive : 0 < shape.num)
    (loads : shape.loadLoop shape.total 0 start inodeData 0 0 = (false, last, after)) :
    ∃ j, shape.FailsAt start j ∧
      ∀ k, if k < shape.num * j then
          ∃ data, shape.roundData start (k / shape.num) = some data ∧
            after k = loadInode data (k % shape.num * shape.inodeSize) (inodeData k)
        else after k = inodeData k := by
  obtain ⟨j, _, inside, fails, slots⟩ := loadLoop_failed positive (At.zero shape start) loads
  rw [Nat.zero_add] at inside
  simp only [Nat.zero_le, true_and] at slots
  refine ⟨j, ⟨inside, fails, ?_⟩, slots⟩
  intro q before
  have slot := slots (shape.num * q)
  rw [if_pos (Nat.mul_lt_mul_of_pos_left before positive),
    Nat.mul_div_cancel_left q positive] at slot
  obtain ⟨data, reads, _⟩ := slot
  rw [reads]
  exact Option.some_ne_none data

theorem FailsAt.not_loaded (fails : shape.FailsAt start j) (positive : 0 < shape.num)
    (loads : shape.loadLoop shape.total 0 start inodeData 0 0 = (true, last, after)) : False := by
  have slot := loadLoop_slot positive (At.zero shape start) loads (shape.num * j)
  rw [Nat.zero_add, if_pos ⟨Nat.zero_le _, fails.inside⟩,
    Nat.mul_div_cancel_left j positive] at slot
  obtain ⟨data, reads, _⟩ := slot
  rw [fails.fails] at reads
  cases reads

end InodeShape

namespace FileSystem

/-- There is no window, or its slots hold the inodes of the blocks from its start on. -/
def SoundWindow (fs : FileSystem) (g : Nat) (content : Nat → Region) : Prop :=
  (fs.groups g).inodeBegin = -1 ∨ fs.HoldsWindow g content

/-- The inode whose slot of the inode table belongs to slot `i` of the window. -/
def slotInode (fs : FileSystem) (g : Nat) (content : Nat → Region) (i : Nat) : Inode :=
  let num := fs.blockSize / fs.inodeSize
  loadInode (content ((uint32 (fs.groups g).inodeBegin + i / num) % 4294967296))
    (i % num * fs.inodeSize) ((fs.groups g).inodeData i)

/-- What the users of a window rely on: a lookup in it finds the inode it is for, and writing
it back puts into every slot of the table the inode that belongs there. -/
structure Consistent (fs : FileSystem) (g : Nat) (content : Nat → Region) : Prop where
  window : fs.SoundWindow g content
  hits : ∀ n, fs.ValidIno n → fs.inodeGroup n = g → fs.InodeCached n →
    ∃ ref, fs.igetInode n = (some ref, fs) ∧
      ∀ old, SameStored (fs.inode ref) (fs.ownInode content n old)
  writes : fs.writeInode (fs.groups g) =
    fs.writeInode { fs.groups g with inodeData := fs.slotInode g content }

/-- The table lies in blocks that `read_block` reads whole; it overruns the buffers of smaller
ones. -/
structure WholeTable (fs : FileSystem) (g : Nat) : Prop extends fs.TableGeometry g where
  whole : fs.blockSize = 8 * sectorSize

/-- The store that the reload for an inode reads from. -/
def reloadStart (fs : FileSystem) (ino : Nat) : BlockStore :=
  fs.writeInode (fs.groups (fs.inodeGroup ino))

/-- A lookup that has to reload the window and cannot read block `j` of the new one finds no
old window, or in the blocks in front of `j` the inodes that the old one has in those slots. -/
def FailsHarmlessly (fs : FileSystem) (ino : Nat) : Prop :=
  let shape := fs.windowShape ino
  let group := fs.groups (fs.inodeGroup ino)
  fs.ValidIno ino → ¬ fs.InodeCached ino → group.inodeBegin ≠ -1 →
    ∀ j, shape.FailsAt (fs.reloadStart ino) j → ∀ k, k < shape.num * j → ∀ data,
      shape.roundData (fs.reloadStart ino) (k / shape.num) = some data →
      SameStored (loadInode data (k % shape.num * fs.inodeSize) (group.inodeData k))
        (group.inodeData k)

variable {fs : FileSystem} {g ino j : Nat} {content : Nat → Region}

/-- A window with the right inodes in its slots is all that its users need. -/
theorem SoundWindow.consistent (geometry : fs.TableGeometry g)
    (sound : fs.SoundWindow g content) : fs.Consistent g content := by
  refine ⟨sound, ?_, ?_⟩
  · intro n valid isGroup cached
    subst isGroup
    have holds := sound.resolve_left cached.1
    exact ⟨fs.cachedRef n, igetInode_cached valid.1 valid.2 cached,
      fun old => holds.cachedRef geometry cached.2 old⟩
  · unfold writeInode
    by_cases none : (fs.groups g).inodeBegin = -1
    · rw [if_pos none, if_pos none]
    · rw [if_neg none, if_neg none]
      have holds := sound.resolve_left none
      apply InodeShape.writeLoop_congr
      intro k _ inside
      rw [Nat.zero_add] at inside
      exact holds k inside

/-- What a failed reload leaves: the first `j` blocks of the new window in the old one. -/
structure Spoiled (fs after : FileSystem) (ino j : Nat) : Prop where
  layout : SameLayout fs after
  begin : ∀ g, (after.groups g).inodeBegin = (fs.groups g).inodeBegin
  others : ∀ g, g ≠ fs.inodeGroup ino → after.groups g = fs.groups g
  read : ∀ k, k < (fs.windowShape ino).num * j →
    ∃ data, (fs.windowShape ino).roundData (fs.reloadStart ino)
        (k / (fs.windowShape ino).num) = some data ∧
      (after.groups (fs.inodeGroup ino)).inodeData k =
        loadInode data (k % (fs.windowShape ino).num * fs.inodeSize)
          ((fs.groups (fs.inodeGroup ino)).inodeData k)
  kept : ∀ k, (fs.windowShape ino).num * j ≤ k →
    (after.groups (fs.inodeGroup ino)).inodeData k =
      (fs.groups (fs.inodeGroup ino)).inodeData k

theorem igetInode_spoiled (shape : fs.TableShape) (valid : fs.ValidIno ino)
    (missed : ¬ fs.InodeCached ino)
    (fails : (fs.windowShape ino).FailsAt (fs.reloadStart ino) j) :
    (fs.igetInode ino).1 = none ∧ Spoiled fs (fs.igetInode ino).2 ino j := by
  have positive : 0 < (fs.windowShape ino).num := shape.num_pos
  rcases loads : fs.loadWindow ino with ⟨done, store, inodeData⟩
  cases done with
  | true => exact (fails.not_loaded positive loads).elim
  | false =>
      obtain ⟨i, failsToo, slots⟩ := InodeShape.loadLoop_failsAt positive loads
      have same := fails.unique failsToo
      subst same
      rw [igetInode_failed valid.1 valid.2 missed loads]
      have layout : SameLayout fs (fs.reloaded ino store inodeData
        (fs.groups (fs.inodeGroup ino)).inodeBegin) := reloaded_layout
      refine ⟨rfl, layout, ?_, ?_, ?_, ?_⟩
      · intro g
        by_cases same : g = fs.inodeGroup ino
        · rw [same, setGroup_self]
        · rw [setGroup_other _ _ same]
          rfl
      · intro g different
        exact setGroup_other _ _ different
      · intro k before
        have slot := slots k
        rw [if_pos before] at slot
        rw [setGroup_self]
        exact slot
      · intro k behind
        have slot := slots k
        rw [if_neg (by omega)] at slot
        rw [setGroup_self]
        exact slot

/-- A lookup that returns NULL and changes something fails at some block. -/
theorem igetInode_fails (shape : fs.TableShape) (fails : (fs.igetInode ino).1 = none) :
    (fs.igetInode ino).2 = fs ∨ fs.ValidIno ino ∧ ¬ fs.InodeCached ino ∧
      ∃ j, (fs.windowShape ino).FailsAt (fs.reloadStart ino) j := by
  by_cases valid : fs.ValidIno ino
  · by_cases cached : fs.InodeCached ino
    · rw [igetInode_cached valid.1 valid.2 cached] at fails
      cases fails
    · right
      refine ⟨valid, cached, ?_⟩
      rcases loads : fs.loadWindow ino with ⟨done, store, inodeData⟩
      cases done with
      | true =>
          rw [igetInode_loaded valid.1 valid.2 cached loads] at fails
          cases fails
      | false =>
          have positive : 0 < (fs.windowShape ino).num := shape.num_pos
          obtain ⟨j, failsAt, _⟩ := InodeShape.loadLoop_failsAt positive loads
          exact ⟨j, failsAt⟩
  · left
    rw [igetInode_notValid valid]

namespace Spoiled

variable {after : FileSystem}

theorem other (spoiled : Spoiled fs after ino j) (different : g ≠ fs.inodeGroup ino)
    (sound : fs.SoundWindow g content) : after.SoundWindow g content := by
  unfold SoundWindow HoldsWindow at sound ⊢
  rw [spoiled.others g different, spoiled.layout.blockSize, spoiled.layout.inodeSize]
  exact sound

/-- The old window is sound again if the inodes read over it are those it had. -/
theorem sound_iff (spoiled : Spoiled fs after ino j)
    (inside : (fs.windowShape ino).num * j < (fs.windowShape ino).total)
    (some : (fs.groups (fs.inodeGroup ino)).inodeBegin ≠ -1)
    (holds : fs.HoldsWindow (fs.inodeGroup ino) content) :
    after.SoundWindow (fs.inodeGroup ino) content ↔
      ∀ k, k < (fs.windowShape ino).num * j → ∀ data,
        (fs.windowShape ino).roundData (fs.reloadStart ino)
          (k / (fs.windowShape ino).num) = .some data →
        SameStored (loadInode data (k % (fs.windowShape ino).num * fs.inodeSize)
            ((fs.groups (fs.inodeGroup ino)).inodeData k))
          ((fs.groups (fs.inodeGroup ino)).inodeData k) := by
  constructor
  · intro sound k before data reads
    have holdsAfter := sound.resolve_left (by rw [spoiled.begin]; exact some) k
      (by rw [spoiled.layout.inodeSize]; exact Nat.lt_trans before inside)
    obtain ⟨found, isFound, isInode⟩ := spoiled.read k before
    rw [reads] at isFound
    cases isFound
    rw [isInode, spoiled.begin, spoiled.layout.blockSize, spoiled.layout.inodeSize] at holdsAfter
    have own := holds k (Nat.lt_trans before inside)
    exact (holdsAfter.trans (SameStored.loadInode _ _ _ _)).trans own.symm
  · intro same
    right
    intro k below
    rw [spoiled.layout.inodeSize] at below
    rw [spoiled.begin, spoiled.layout.blockSize, spoiled.layout.inodeSize]
    have own := holds k below
    by_cases before : k < (fs.windowShape ino).num * j
    · obtain ⟨data, reads, isInode⟩ := spoiled.read k before
      rw [isInode]
      exact ((same k before data reads).trans own).trans (SameStored.loadInode _ _ _ _)
    · rw [spoiled.kept k (Nat.le_of_not_lt before)]
      exact own

end Spoiled

/-- A failed lookup leaves the window of a group consistent exactly if it is in another
group or spoils nothing. -/
theorem igetInode_consistent_iff (table : fs.WholeTable g)
    (sound : fs.SoundWindow g content) (ino : Nat) :
    ((fs.igetInode ino).1 = none → (fs.igetInode ino).2.Consistent g content) ↔
      (fs.inodeGroup ino = g → fs.FailsHarmlessly ino) := by
  have geometry := table.toTableGeometry
  have shape := geometry.tableShape
  constructor
  · intro keeps isGroup valid missed some j fails k before data reads
    subst isGroup
    obtain ⟨returns, spoiled⟩ := igetInode_spoiled shape valid missed fails
    have window := (keeps returns).window
    exact (spoiled.sound_iff fails.inside some (sound.resolve_left some)).mp window
      k before data reads
  · intro harmless returns
    rcases igetInode_fails shape returns with same | ⟨valid, missed, j, fails⟩
    · rw [same]
      exact sound.consistent geometry
    · obtain ⟨_, spoiled⟩ := igetInode_spoiled shape valid missed fails
      apply SoundWindow.consistent (geometry.same spoiled.layout)
      by_cases isGroup : fs.inodeGroup ino = g
      · subst isGroup
        by_cases none : (fs.groups (fs.inodeGroup ino)).inodeBegin = -1
        · left
          rw [spoiled.begin]
          exact none
        · apply (spoiled.sound_iff fails.inside none (sound.resolve_left none)).mpr
          exact harmless rfl valid missed none j fails
      · exact spoiled.other (Ne.symm isGroup) sound

/-! ### A reload that reads one block -/

/-- The window of five blocks over a disk that fails once, at the second block that a reload
for inode 1 reads. -/
def lossSample : FileSystem :=
  { windowSample with
    store :=
      { windowSample.store with
        device :=
          { windowSample.store.device with served := fun k => if k = 11 then 0 else 8 } } }

theorem lossSample_table : lossSample.WholeTable 0 :=
  ⟨windowSample_geometry.same ⟨rfl, rfl, rfl, rfl, fun _ => rfl⟩, rfl⟩

theorem lossSample_sound : lossSample.SoundWindow 0 windowContent :=
  Or.inr windowSample_holds

/-- Inode 1 is not in the window. -/
theorem igetInode_consistent_first :
    ((lossSample.igetInode 1).1 = none →
        (lossSample.igetInode 1).2.Consistent 0 windowContent) ↔
      (lossSample.inodeGroup 1 = 0 → lossSample.FailsHarmlessly 1) :=
  igetInode_consistent_iff lossSample_table lossSample_sound 1

/-- After the failed lookup of inode 1 the first slot of the window, which a lookup of
inode 33 takes, holds inode 1. -/
theorem igetInode_consistent_lost :
    lossSample.WholeTable 0 ∧ lossSample.SoundWindow 0 windowContent ∧
      (lossSample.igetInode 1).1 = none ∧
      ¬ (lossSample.igetInode 1).2.Consistent 0 windowContent := by
  refine ⟨lossSample_table, lossSample_sound, ?_, ?_⟩
  · exact Option.isNone_iff_eq_none.mp (by decide +kernel)
  · intro consistent
    have valid : (lossSample.igetInode 1).2.ValidIno 33 := by decide +kernel
    have cached : (lossSample.igetInode 1).2.InodeCached 33 := by decide +kernel
    have isGroup : (lossSample.igetInode 1).2.inodeGroup 33 = 0 := by decide +kernel
    obtain ⟨ref, returns, same⟩ := consistent.hits 33 valid isGroup cached
    rw [igetInode_cached valid.1 valid.2 cached] at returns
    cases returns
    have size := (same (windowSample.inode ⟨0, 0⟩)).iSize
    exact absurd size (by decide +kernel)

end FileSystem

end MangoOS
