/-
`alloc_inode` (fs/ext2.c) over sequences of calls.

The inode bitmap of a group counts from bit 0 and inode numbers count from 1 over
all groups, as `iget_inode` looks them up.
-/

import MangoOS.FileSystem.Bits
import MangoOS.FileSystem.Ext2

namespace MangoOS

namespace FileSystem

/-- The groups from group `i` on, `left` of them. -/
def allocInodeLoop (fuel : Nat) (fs : FileSystem) : (left i : Nat) → Option (Nat × FileSystem)
  | 0, _ => some (0, fs)
  | left + 1, i =>
      let group := fs.groups i
      match findFirstZeroBit fuel group.pInodeBitmap group.inodeBitmapSize with
      | none => none
      | some ino =>
          if ino = group.inodeBitmapSize then allocInodeLoop fuel fs left (i + 1)
          else
            let fs := fs.setGroup i
              { group with
                pInodeBitmap := setBit group.pInodeBitmap ino 1
                freeInode := (group.freeInode + 65535) % 65536 }
            some (ino, { fs with freeInode := (fs.freeInode + 4294967295) % 4294967296 })

def allocInode (fuel : Nat) (fs : FileSystem) : Option (Nat × FileSystem) :=
  allocInodeLoop fuel fs (fs.inodeCount / fs.groupInode) 0

/-- Bit `bit` of the inode bitmap of a group. -/
def inodeBit (fs : FileSystem) (group bit : Nat) : Bool :=
  bitOf (fs.groups group).pInodeBitmap bit

/-- Inode `n` is in use; `iget_inode` looks it up at this place. -/
def InodeUsed (fs : FileSystem) (n : Nat) : Prop :=
  fs.inodeBit ((n - 1) / fs.groupInode) ((n - 1) % fs.groupInode) = true

/-- Every inode is in use. -/
def InodesFull (fs : FileSystem) : Prop :=
  ∀ n, 1 ≤ n → n ≤ fs.inodeCount → fs.InodeUsed n

/-- `ext2_mount` sets the size of the inode bitmaps, a `ushort`. -/
structure InodeLayout (fs : FileSystem) : Prop where
  positive : 0 < fs.groupInode
  bitmapSize : ∀ group,
    (fs.groups group).inodeBitmapSize = (fs.groupInode + 7) / 8 % 65536

/-- The states that calls of `alloc_inode` lead to, with the numbers they returned. -/
inductive InodeRun (initial : FileSystem) : FileSystem → List Nat → Prop
  | start : InodeRun initial initial []
  | call {fs after : FileSystem} {out : List Nat} {n : Nat} (fuel : Nat) :
      InodeRun initial fs out → fs.allocInode fuel = some (n, after) →
      InodeRun initial after (n :: out)

/-- The bit of inode `n` goes from 0 to 1 and no other bit changes. -/
def Takes (fs after : FileSystem) (n : Nat) : Prop :=
  ¬ fs.InodeUsed n ∧ ∀ group bit, after.inodeBit group bit =
    (decide (group = (n - 1) / fs.groupInode ∧ bit = (n - 1) % fs.groupInode) ||
      fs.inodeBit group bit)

/-- What one call does: it ends, and takes a free inode or finds none. -/
def AllocatesInode (fs : FileSystem) : Prop :=
  ∃ fuel n after, fs.allocInode fuel = some (n, after) ∧
    (n ≠ 0 → 1 ≤ n ∧ n ≤ fs.inodeCount ∧ fs.Takes after n) ∧
    (n = 0 → fs.InodesFull ∧ after = fs)

/-- Over every sequence of calls the numbers returned are new and distinct, and the next
call takes a free inode or finds none. -/
def InodesDistinct (initial : FileSystem) : Prop :=
  ∀ fs out, InodeRun initial fs out →
    (out.filter (· ≠ 0)).Nodup ∧
    (∀ n, n ∈ out → n ≠ 0 → n ≤ initial.inodeCount ∧ ¬ initial.InodeUsed n) ∧
    fs.AllocatesInode

variable {fs after : FileSystem} {fuel n : Nat}

/-- In none of the groups `alloc_inode` finds a clear bit. -/
def NoInode (fs : FileSystem) : Prop :=
  ∀ group, group < fs.inodeCount / fs.groupInode →
    ∀ k, k < (fs.groups group).inodeBitmapSize / 32 →
      (fs.groups group).pInodeBitmap.word (4 * k : Nat) = 4294967295

theorem allocInodeLoop_full (fuel left i : Nat)
    (full : ∀ group, i ≤ group → group < i + left →
      findFirstZeroBit fuel (fs.groups group).pInodeBitmap (fs.groups group).inodeBitmapSize =
        some (fs.groups group).inodeBitmapSize) :
    allocInodeLoop fuel fs left i = some (0, fs) := by
  induction left generalizing i with
  | zero => rfl
  | succ left ih =>
      have whole := full i (Nat.le_refl i) (by omega)
      rw [allocInodeLoop]
      simp only [whole, if_true]
      exact ih (i + 1) (fun group lower upper => full group (by omega) (by omega))

/-- Bit `n` of the bitmap of a group is set and counted. -/
def takeInode (fs : FileSystem) (group n : Nat) : FileSystem :=
  { fs.setGroup group
      { fs.groups group with
        pInodeBitmap := setBit (fs.groups group).pInodeBitmap n 1
        freeInode := ((fs.groups group).freeInode + 65535) % 65536 } with
    freeInode := (fs.freeInode + 4294967295) % 4294967296 }

/-- `find_first_zero_bit` returns a number for a group. -/
def GroupHas (fs : FileSystem) (fuel group n : Nat) : Prop :=
  findFirstZeroBit fuel (fs.groups group).pInodeBitmap (fs.groups group).inodeBitmapSize = some n

/-- What a search that returns has come to: nothing, or a bit that it takes. -/
theorem allocInodeLoop_cases {left i : Nat}
    (returns : allocInodeLoop fuel fs left i = some (n, after)) :
    (n = 0 ∧ after = fs ∧ ∀ group, i ≤ group → group < i + left →
        fs.GroupHas fuel group (fs.groups group).inodeBitmapSize) ∨
      ∃ group, after = fs.takeInode group n ∧ group < i + left ∧ fs.GroupHas fuel group n ∧
        n ≠ (fs.groups group).inodeBitmapSize ∧
          ∀ g, i ≤ g → g < group → fs.GroupHas fuel g (fs.groups g).inodeBitmapSize := by
  induction left generalizing i with
  | zero =>
      rw [allocInodeLoop, Option.some.injEq, Prod.mk.injEq] at returns
      exact Or.inl ⟨returns.1.symm, returns.2.symm,
        fun group lower upper => absurd upper (Nat.not_lt.mpr lower)⟩
  | succ left ih =>
      rw [allocInodeLoop] at returns
      cases search : findFirstZeroBit fuel (fs.groups i).pInodeBitmap
          (fs.groups i).inodeBitmapSize with
      | none =>
          simp only [search] at returns
          cases returns
      | some ino =>
          simp only [search] at returns
          by_cases whole : ino = (fs.groups i).inodeBitmapSize
          · rw [if_pos whole] at returns
            have here : fs.GroupHas fuel i (fs.groups i).inodeBitmapSize := by
              unfold GroupHas
              rw [search, whole]
            rcases ih returns with
              ⟨zero, same, full⟩ | ⟨group, takes, inside, found, notWhole, before⟩
            · refine Or.inl ⟨zero, same, ?_⟩
              intro group lower upper
              by_cases first : group = i
              · rw [first]
                exact here
              · exact full group (by omega) (by omega)
            · refine Or.inr ⟨group, takes, by omega, found, notWhole, ?_⟩
              intro g lower upper
              by_cases first : g = i
              · rw [first]
                exact here
              · exact before g (by omega) upper
          · rw [if_neg whole, Option.some.injEq, Prod.mk.injEq] at returns
            obtain ⟨rfl, rfl⟩ := returns
            refine Or.inr ⟨i, rfl, by omega, search, whole, ?_⟩
            intro g lower upper
            exact absurd upper (Nat.not_lt.mpr lower)

/-- The bit set is that of the number, without regard to its group. -/
theorem takeInode_bit (fs : FileSystem) (group n g bit : Nat) :
    (fs.takeInode group n).inodeBit g bit =
      (decide (g = group ∧ bit = n) || fs.inodeBit g bit) := by
  unfold inodeBit takeInode FileSystem.setGroup
  simp only [Function.update_apply]
  cases decEq g group with
  | isTrue same =>
      rw [if_pos same, bitOf_setBit, same]
      simp
  | isFalse different => simp [different]

theorem allocInodeLoop_some {left i : Nat}
    (returns : allocInodeLoop fuel fs left i = some (n, after)) (nonzero : n ≠ 0) :
    ∃ group, after = fs.takeInode group n := by
  rcases allocInodeLoop_cases returns with ⟨zero, _⟩ | ⟨group, takes, _⟩
  · exact absurd zero nonzero
  · exact ⟨group, takes⟩

/-- A call finds nothing, or it takes a bit and returns its number. -/
theorem allocInode_cases (returns : fs.allocInode fuel = some (n, after)) :
    (n = 0 ∧ after = fs ∧ fs.NoInode) ∨ ∃ group, after = fs.takeInode group n := by
  rcases allocInodeLoop_cases returns with ⟨zero, same, full⟩ | ⟨group, takes, _⟩
  · refine Or.inl ⟨zero, same, ?_⟩
    intro group inside
    exact findFirstZeroBit_none_iff.mp (full group (Nat.zero_le group) (by omega))
  · exact Or.inr ⟨group, takes⟩

theorem NoInode.allocInode (noInode : fs.NoInode) (fuel : Nat) :
    fs.allocInode fuel = some (0, fs) := by
  apply allocInodeLoop_full
  intro group _ upper
  exact findFirstZeroBit_none_iff.mpr (noInode group (by omega))

theorem allocInode_full (layout : fs.InodeLayout) (full : fs.InodesFull) (fuel : Nat) :
    fs.allocInode fuel = some (0, fs) := by
  apply allocInodeLoop_full
  intro group _ upper
  apply findFirstZeroBit_full
  intro bit inside
  have positive := layout.positive
  rw [layout.bitmapSize] at inside
  have inGroup : bit < fs.groupInode := by omega
  have isGroup : (group * fs.groupInode + bit) / fs.groupInode = group := by
    rw [Nat.mul_comm, Nat.mul_add_div positive, Nat.div_eq_of_lt inGroup, Nat.add_zero]
  have isBit : (group * fs.groupInode + bit) % fs.groupInode = bit := by
    rw [Nat.mul_comm, Nat.mul_add_mod, Nat.mod_eq_of_lt inGroup]
  have counted : group * fs.groupInode + bit + 1 ≤ fs.inodeCount := by
    have next : (group + 1) * fs.groupInode ≤ fs.inodeCount := by
      have counts : group + 1 ≤ fs.inodeCount / fs.groupInode := by omega
      exact Nat.le_trans (Nat.mul_le_mul_right _ counts) (Nat.div_mul_le_self _ _)
    rw [Nat.add_mul, Nat.one_mul] at next
    omega
  have used := full (group * fs.groupInode + bit + 1) (by omega) counted
  unfold InodeUsed at used
  rw [Nat.add_sub_cancel, isGroup, isBit] at used
  exact used

/-- The inode that a bit stands for has a higher number. -/
theorem Takes.above {group bit : Nat} (takes : fs.Takes (fs.takeInode group bit) n)
    (nonzero : n ≠ 0) : bit < n := by
  by_contra notAbove
  have below : (n - 1) % fs.groupInode ≤ n - 1 := Nat.mod_le _ _
  have other : ¬ ((n - 1) / fs.groupInode = group ∧ (n - 1) % fs.groupInode = bit) := by
    intro ⟨_, same⟩
    omega
  have taken := takes.2 ((n - 1) / fs.groupInode) ((n - 1) % fs.groupInode)
  rw [takeInode_bit, decide_eq_false other, decide_eq_true ⟨rfl, rfl⟩, Bool.false_or,
    Bool.true_or] at taken
  exact takes.1 taken

/-- No number but 0 is the number of the bit that it sets. -/
theorem allocInode_misses (returns : fs.allocInode fuel = some (n, after)) (nonzero : n ≠ 0) :
    ¬ fs.Takes after n := by
  intro takes
  obtain ⟨group, isAfter⟩ := allocInodeLoop_some returns nonzero
  rw [isAfter] at takes
  exact Nat.lt_irrefl n (takes.above nonzero)

theorem AllocatesInode.full (allocates : fs.AllocatesInode) : fs.InodesFull := by
  obtain ⟨fuel, n, after, returns, takes, zero⟩ := allocates
  cases decEq n 0 with
  | isTrue isZero => exact (zero isZero).1
  | isFalse nonzero => exact False.elim (allocInode_misses returns nonzero (takes nonzero).2.2)

theorem InodeRun.full {initial : FileSystem} {out : List Nat} (layout : initial.InodeLayout)
    (full : initial.InodesFull) (run : InodeRun initial fs out) :
    fs = initial ∧ ∀ n, n ∈ out → n = 0 := by
  induction run with
  | start => exact ⟨rfl, fun n member => by cases member⟩
  | call fuel _ returns ih =>
      obtain ⟨rfl, zeros⟩ := ih
      rw [allocInode_full layout full, Option.some.injEq, Prod.mk.injEq] at returns
      refine ⟨returns.2.symm, ?_⟩
      intro n member
      rcases List.mem_cons.mp member with isFirst | earlier
      · rw [isFirst]
        exact returns.1.symm
      · exact zeros n earlier

theorem inodesDistinct_iff (layout : fs.InodeLayout) : fs.InodesDistinct ↔ fs.InodesFull := by
  constructor
  · intro distinct
    exact (distinct fs [] .start).2.2.full
  · intro full now out run
    obtain ⟨rfl, zeros⟩ := run.full layout full
    refine ⟨?_, ?_, 0, 0, now, allocInode_full layout full 0, ?_, ?_⟩
    · rw [List.filter_eq_nil_iff.mpr (fun n member => by simp [zeros n member])]
      exact List.nodup_nil
    · intro n member nonzero
      exact absurd (zeros n member) nonzero
    · intro nonzero
      exact absurd rfl nonzero
    · intro _
      exact ⟨full, rfl⟩

/-- One group of 512 inodes with its bitmap. -/
def inodeSample (bitmap : Region) : FileSystem :=
  { sample 0 with
    inodeCount := 512
    groupInode := 512
    groups := fun group =>
      { (sample 0).groups group with inodeBitmapSize := 64, pInodeBitmap := bitmap } }

theorem inodeSample_layout (bitmap : Region) : (inodeSample bitmap).InodeLayout := by
  refine ⟨(by decide : 0 < 512), ?_⟩
  intro group
  exact (by decide : 64 = (512 + 7) / 8 % 65536)

theorem inodesDistinct_full : (inodeSample (fun _ => 255#8)).InodesDistinct := by
  apply (inodesDistinct_iff (inodeSample_layout _)).mpr
  intro n _ _
  have inByte : (n - 1) % 512 % 8 < 8 := Nat.mod_lt _ (by decide)
  exact (BitVec.getLsbD_allOnes (i := (n - 1) % 512 % 8) (v := 8)).trans (decide_eq_true inByte)

/-- On an empty bitmap the first two calls both return inode 1. -/
theorem inodesDistinct_twice : ¬ (inodeSample (fun _ => 0#8)).InodesDistinct := by
  intro distinct
  obtain ⟨after, run⟩ : ∃ after, InodeRun (inodeSample (fun _ => 0#8)) after [1, 1] :=
    ⟨_, .call 1 (.call 1 .start rfl) rfl⟩
  have nodup := (distinct after _ run).1
  revert nodup
  decide

end FileSystem

end MangoOS
