/-
The groups that fs/ext2.c computes from an inode number.

`iget_inode` counts inodes from 1, as they are numbered.  `alloc_block`,
`ext2_write` and `ext2_unlink` divide the number itself, and `alloc_inode` returns
what it finds in one group as if that were the first one.
-/

import MangoOS.FileSystem.AllocInode
import MangoOS.FileSystem.InodeCache

namespace MangoOS

namespace FileSystem

/-- The group of which `alloc_block` takes a block. -/
def allocBlockGroup (fs : FileSystem) (file : File) : Nat := file.ino / fs.groupInode

/-- The group in which `ext2_write` counts a block. -/
def writeGroup (fs : FileSystem) (file : File) : Nat := file.ino / fs.groupInode

/-- The group in which `ext2_unlink` frees blocks. -/
def unlinkGroup (fs : FileSystem) (file : File) : Nat := file.ino / fs.groupInode

/-- All of them name the group in which `iget_inode` finds the inode, and `group_table` has it. -/
structure GroupsAgree (fs : FileSystem) (file : File) : Prop where
  allocBlock : fs.allocBlockGroup file = fs.inodeGroup file.ino
  write : fs.writeGroup file = fs.inodeGroup file.ino
  unlink : fs.unlinkGroup file = fs.inodeGroup file.ino
  inTable : fs.allocBlockGroup file < fs.groupCount

/-- A call of `alloc_inode` has changed the group. -/
def AllocatedIn (fs after : FileSystem) (group : Nat) : Prop := after.groups group ≠ fs.groups group

/-- The part of the inode bitmap of a group that is searched has a clear bit. -/
def HasClear (fs : FileSystem) (group : Nat) : Prop :=
  ∃ k, k < (fs.groups group).inodeBitmapSize / 32 ∧
    (fs.groups group).pInodeBitmap.word (4 * k : Nat) ≠ 4294967295

variable {fs after : FileSystem} {file : File} {fuel n group : Nat}

theorem groupsAgree_iff (positive : 0 < fs.groupInode) (numbered : 1 ≤ file.ino) :
    fs.GroupsAgree file ↔
      file.ino % fs.groupInode ≠ 0 ∧ file.ino ≤ fs.groupCount * fs.groupInode := by
  have next : file.ino / fs.groupInode =
      (file.ino - 1) / fs.groupInode + if file.ino % fs.groupInode = 0 then 1 else 0 := by
    obtain ⟨before, isNumber⟩ := Nat.exists_eq_add_of_le' numbered
    rw [isNumber, Nat.add_sub_cancel, Nat.succ_div]
    simp only [Nat.dvd_iff_mod_eq_zero]
  have inTable : (file.ino - 1) / fs.groupInode < fs.groupCount ↔
      file.ino ≤ fs.groupCount * fs.groupInode := by
    rw [Nat.div_lt_iff_lt_mul positive]
    omega
  constructor
  · intro agree
    have same : file.ino / fs.groupInode = (file.ino - 1) / fs.groupInode := agree.allocBlock
    have below : file.ino / fs.groupInode < fs.groupCount := agree.inTable
    rw [same] at below
    refine ⟨?_, inTable.mp below⟩
    intro first
    rw [if_pos first] at next
    omega
  · rintro ⟨notFirst, inside⟩
    rw [if_neg notFirst, Nat.add_zero] at next
    refine ⟨next, next, next, ?_⟩
    change file.ino / fs.groupInode < fs.groupCount
    rw [next]
    exact inTable.mpr inside

theorem takeInode_allocatedIn (fs : FileSystem) (group n other : Nat) :
    fs.AllocatedIn (fs.takeInode group n) other ↔ other = group := by
  unfold AllocatedIn takeInode setGroup
  simp only [Function.update_apply]
  by_cases same : other = group
  · rw [if_pos same, same]
    refine iff_of_true ?_ rfl
    intro unchanged
    have count := congrArg Group.freeInode unchanged
    dsimp only at count
    omega
  · rw [if_neg same]
    exact iff_of_false (fun changed => changed rfl) same

/-- What is found in a group is the number of a bit in it. -/
theorem InodeLayout.found_lt (layout : fs.InodeLayout) (found : fs.GroupHas fuel group n)
    (notSize : n ≠ (fs.groups group).inodeBitmapSize) : n < fs.groupInode := by
  rcases findFirstZeroBit_some found with isSize | ⟨k, inside, isFound, _⟩
  · exact absurd isSize notSize
  · rw [layout.bitmapSize] at inside
    have positive := layout.positive
    omega

theorem hasClear_of_found (found : fs.GroupHas fuel group n)
    (notSize : n ≠ (fs.groups group).inodeBitmapSize) : fs.HasClear group := by
  by_contra full
  have whole : fs.GroupHas fuel group (fs.groups group).inodeBitmapSize := by
    apply findFirstZeroBit_none_iff.mpr
    intro k inside
    by_contra clear
    exact full ⟨k, inside, clear⟩
  unfold GroupHas at found whole
  rw [found, Option.some.injEq] at whole
  exact notSize whole

/-- A call that finds an inode takes one of the first group if and only if it finds one there. -/
theorem allocInode_firstGroup (layout : fs.InodeLayout)
    (returns : fs.allocInode fuel = some (n, after)) (nonzero : n ≠ 0) :
    n < fs.groupInode ∧ (fs.AllocatedIn after 0 ↔ fs.HasClear 0) := by
  rcases allocInodeLoop_cases returns with ⟨zero, _⟩ | ⟨group, takes, _, found, notSize, before⟩
  · exact absurd zero nonzero
  · refine ⟨layout.found_lt found notSize, ?_⟩
    rw [takes, takeInode_allocatedIn]
    by_cases first : 0 = group
    · exact iff_of_true first (first ▸ hasClear_of_found found notSize)
    · refine iff_of_false first ?_
      rintro ⟨k, inside, clear⟩
      exact clear (findFirstZeroBit_none_iff.mp (before 0 (Nat.le_refl 0) (by omega)) k inside)

/-- Where the groups computed from an inode number are the right ones, and where they are so for
a number that `alloc_inode` has just returned. -/
theorem groups_agree (layout : fs.InodeLayout) (file : File) (numbered : 1 ≤ file.ino) :
    (fs.GroupsAgree file ↔
        file.ino % fs.groupInode ≠ 0 ∧ file.ino ≤ fs.groupCount * fs.groupInode) ∧
      ∀ fuel after, fs.allocInode fuel = some (file.ino, after) →
        (fs.GroupsAgree file ∧ fs.AllocatedIn after (fs.allocBlockGroup file) ↔
          0 < fs.groupCount ∧ fs.HasClear 0) := by
  refine ⟨groupsAgree_iff layout.positive numbered, ?_⟩
  intro fuel after returns
  obtain ⟨inside, allocated⟩ :=
    allocInode_firstGroup layout returns (Nat.one_le_iff_ne_zero.mp numbered)
  have first : fs.allocBlockGroup file = 0 := Nat.div_eq_of_lt inside
  have notFirst : file.ino % fs.groupInode ≠ 0 := by
    rw [Nat.mod_eq_of_lt inside]
    omega
  rw [groupsAgree_iff layout.positive numbered, first, allocated]
  apply and_congr_left
  intro _
  constructor
  · rintro ⟨_, upper⟩
    by_contra none
    have empty : fs.groupCount = 0 := by omega
    rw [empty, Nat.zero_mul] at upper
    omega
  · intro some
    refine ⟨notFirst, Nat.le_trans (Nat.le_of_lt inside) ?_⟩
    exact Nat.le_mul_of_pos_left _ some

/-- A file with an inode number. -/
def numberedFile (ino : Nat) : File where
  pos := 0
  mode := 0
  startBlock := 0
  curBlock := 0
  ino := ino
  inode := ⟨0, 0⟩
  ref := 1

theorem groups_agree_five : (inodeSample (fun _ => 0#8)).GroupsAgree (numberedFile 5) :=
  (groups_agree (inodeSample_layout _) (numberedFile 5) (by decide)).1.mpr (by decide)

/-- The last inode of the only group, which is the last one of the disk. -/
theorem groups_agree_not :
    (inodeSample (fun _ => 0#8)).inodeGroup 512 = 0 ∧
      (inodeSample (fun _ => 0#8)).allocBlockGroup (numberedFile 512) = 1 ∧
      (inodeSample (fun _ => 0#8)).groupCount = 1 ∧
      ¬ (inodeSample (fun _ => 0#8)).GroupsAgree (numberedFile 512) := by
  refine ⟨by decide, by decide, by decide, ?_⟩
  intro agree
  exact absurd agree.inTable (by decide)

end FileSystem

end MangoOS
