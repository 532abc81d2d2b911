/-
The table of mounted file systems (fs/fs.c): how `mount` fills it, and through which
slot `sys_open`, `sys_unlink` and `sys_sync` call a file system.

What `op->mount` makes of a slot is left to the result it returns.
-/

import MangoOS.FileSystem.Directory
import Mathlib.Data.List.GetD

namespace MangoOS

namespace MountTable

def maxMount : Nat := 10

def fsExt2 : Int := 1

/-- The bytes of a string and the zeros behind it. -/
def bytesOf (str : CString) (i : Nat) : BitVec 8 := str.getD i 0

/-- The loop of `kmemcmp` from byte `i` on. -/
def kmemcmpFrom (first second : Nat → BitVec 8) : (size i : Nat) → Int
  | 0, _ => 0
  | size + 1, i => if first i ≠ second i then 1 else kmemcmpFrom first second size (i + 1)

def kmemcmp (first second : CString) (size : Nat) : Int :=
  kmemcmpFrom (bytesOf first) (bytesOf second) size 0

/-- The operations of a file system. -/
inductive FsOp
  | ext2
  deriving DecidableEq

/-- `fs_t`; it is mounted when `op->mount` has set the rest of it. -/
structure FsSlot where
  mountPoint : CString
  type : Nat
  op : Option FsOp
  mounted : Bool
  deriving DecidableEq

end MountTable

open MountTable in
/-- `fs_table` and `root`. -/
structure MountTable where
  slot : Nat → FsSlot
  root : Option Nat

namespace MountTable

def opFromFs (type : Int) : Option FsOp := if type = fsExt2 then some .ext2 else none

/-- The loop of `mount` from slot `i` on: the free slot that it found, or `none` if the point is
taken. -/
def mountScan (slot : Nat → FsSlot) (point : CString) :
    (left i : Nat) → (freeIndex : Option Nat) → Option (Option Nat)
  | 0, _, freeIndex => some freeIndex
  | left + 1, i, freeIndex =>
      if kmemcmp (slot i).mountPoint point point.length = 0 then none
      else mountScan slot point left (i + 1)
        (if (slot i).type = 0 ∧ freeIndex = none then some i else freeIndex)

def setSlot (s : MountTable) (i : Nat) (fs : FsSlot) : MountTable :=
  { s with slot := Function.update s.slot i fs }

/-- `mount`, where `op->mount` returns `err`; `none` is a call through a null pointer. -/
def mount (s : MountTable) (type : Int) (point : CString) (err : Int) :
    Option (Option Nat × MountTable) :=
  match mountScan s.slot point maxMount 0 none with
  | none => some (none, s)
  | some none => some (none, s)
  | some (some freeIndex) =>
      match opFromFs type with
      | none => none
      | some op =>
          let fs : FsSlot :=
            { mountPoint := point, type := type.toNat % 256, op := some op, mounted := false }
          if err < 0 then some (none, s.setSlot freeIndex fs)
          else some (some freeIndex, s.setSlot freeIndex { fs with mounted := true })

/-- The search for the file system of a path from slot `i` on. -/
def findFrom (slot : Nat → FsSlot) (name : CString) : (left i : Nat) → Option Nat
  | 0, _ => none
  | left + 1, i =>
      if kmemcmp (slot i).mountPoint name (slot i).mountPoint.length = 0 then some i
      else findFrom slot name left (i + 1)

/-- The slot that a path belongs to, else the root; `none` is a null pointer. -/
def findFs (s : MountTable) (name : CString) : Option Nat :=
  (findFrom s.slot name maxMount 0).or s.root

/-- The slot whose `open` is called by `sys_open`. -/
def sysOpen (s : MountTable) (name : CString) : Option Nat := s.findFs name

/-- The slot whose `unlink` is called by `sys_unlink`. -/
def sysUnlink (s : MountTable) (name : CString) : Option Nat := s.findFs name

/-- The slots whose `sync` is called by `sys_sync`. -/
def sysSync (_ : MountTable) : List Nat := List.range maxMount

/-! ### Tables -/

def empty : MountTable where
  slot := fun _ => { mountPoint := [], type := 0, op := none, mounted := false }
  root := none

/-- A string that `mount_point` has room for. -/
def FitsPoint (point : CString) : Prop := point.length < 128 ∧ 0 ∉ point

/-- `fs_init` goes on only with a root, and then anything is mounted. -/
inductive MountRun : MountTable → Prop
  | boot {s : MountTable} {i : Nat} (err : Int) :
      empty.mount fsExt2 [slash] err = some (some i, s) → MountRun { s with root := some i }
  | mount {s after : MountTable} {answer : Option Nat} (type : Int) (point : CString) (err : Int) :
      MountRun s → FitsPoint point → s.mount type point err = some (answer, after) →
      MountRun after

/-! ### What a path belongs to -/

/-- A prefix that ends with a component of the path. -/
def AtBoundary (point path : CString) : Prop :=
  point <+: path ∧
    (point.getLast? = some slash ∨ point.length = path.length ∨
      path[point.length]? = some slash)

def Candidate (s : MountTable) (path : CString) (i : Nat) : Prop :=
  i < maxMount ∧ (s.slot i).mounted = true ∧ AtBoundary (s.slot i).mountPoint path

def Longest (s : MountTable) (path : CString) (i : Nat) : Prop :=
  s.Candidate path i ∧ ∀ j, s.Candidate path j →
    (s.slot j).mountPoint.length ≤ (s.slot i).mountPoint.length

/-- The longest mounted prefix of the path, or the root if there is none. -/
def Resolves (s : MountTable) (path : CString) (i : Nat) : Prop :=
  s.Longest path i ∨ (∀ j, ¬ s.Candidate path j) ∧ s.root = some i

/-- A call goes to a mounted file system, the one that the path belongs to. -/
def RightFor (s : MountTable) (path : CString) (answer : Option Nat) : Prop :=
  ∃ i, answer = some i ∧ (s.slot i).type ≠ 0 ∧ (s.slot i).mounted = true ∧ s.Resolves path i

/-- Exactly the mounted file systems are called. -/
def SyncRight (s : MountTable) : Prop :=
  ∀ i, i ∈ s.sysSync ↔ i < maxMount ∧ (s.slot i).mounted = true

/-- The first slot in use whose mount point begins the path. -/
def First (s : MountTable) (path : CString) (i : Nat) : Prop :=
  i < maxMount ∧ (s.slot i).type ≠ 0 ∧ (s.slot i).mountPoint <+: path ∧
    ∀ j, j < i → ¬ (s.slot j).mountPoint <+: path

/-- An absolute path belongs to no mount point but the root's; for a relative one the first slot
that begins it is the longest, or there is none and every slot is in use. -/
def Meets (s : MountTable) (path : CString) : Prop :=
  (path.head? = some slash ∧ ∀ j, j ≠ 0 → ¬ s.Candidate path j) ∨
    path.head? ≠ some slash ∧
      ((∃ i, s.First path i ∧ s.Longest path i) ∨
        ∀ i, i < maxMount → (s.slot i).type ≠ 0 ∧ ¬ (s.slot i).mountPoint <+: path)

/-! ### Comparing strings -/

variable {s : MountTable} {path point : CString}

theorem kmemcmpFrom_eq_zero_iff (first second : Nat → BitVec 8) (size i : Nat) :
    kmemcmpFrom first second size i = 0 ↔ ∀ k, i ≤ k → k < i + size → first k = second k := by
  induction size generalizing i with
  | zero => exact iff_of_true rfl (fun k lower upper => by omega)
  | succ size ih =>
      rw [kmemcmpFrom]
      by_cases same : first i = second i
      · rw [if_neg (not_not.mpr same), ih]
        constructor
        · intro rest k lower upper
          cases decEq k i with
          | isTrue here => rw [here, same]
          | isFalse later => exact rest k (by omega) (by omega)
        · intro all k lower upper
          exact all k (by omega) (by omega)
      · rw [if_pos same]
        refine iff_of_false (by decide) (fun all => same (all i (Nat.le_refl i) (by omega)))

/-- As many bytes as a string has are the same if and only if it is a prefix. -/
theorem prefix_iff_bytes (whole : 0 ∉ point) :
    (∀ k, k < point.length → bytesOf point k = bytesOf path k) ↔ point <+: path := by
  unfold bytesOf
  constructor
  · intro same
    have shorter : point.length ≤ path.length := by
      by_contra longer
      have differs := same path.length (by omega)
      rw [List.getD_eq_getElem _ _ (by omega), List.getD_eq_default _ _ (Nat.le_refl _)] at differs
      exact whole (differs ▸ List.getElem_mem _)
    rw [List.prefix_iff_getElem]
    refine ⟨shorter, fun k upper => ?_⟩
    have here := same k upper
    rwa [List.getD_eq_getElem _ _ upper, List.getD_eq_getElem _ _ (by omega)] at here
  · intro begins k upper
    obtain ⟨shorter, same⟩ := List.prefix_iff_getElem.mp begins
    rw [List.getD_eq_getElem _ _ upper, List.getD_eq_getElem _ _ (by omega)]
    exact same k upper

theorem kmemcmp_left (whole : 0 ∉ point) :
    kmemcmp point path point.length = 0 ↔ point <+: path := by
  unfold kmemcmp
  rw [kmemcmpFrom_eq_zero_iff, ← prefix_iff_bytes whole]
  constructor
  · intro all k upper
    exact all k (Nat.zero_le k) (by omega)
  · intro all k _ upper
    exact all k (by omega)

theorem kmemcmp_right (whole : 0 ∉ point) :
    kmemcmp path point point.length = 0 ↔ point <+: path := by
  unfold kmemcmp
  rw [kmemcmpFrom_eq_zero_iff, ← prefix_iff_bytes whole]
  constructor
  · intro all k upper
    exact (all k (Nat.zero_le k) (by omega)).symm
  · intro all k _ upper
    exact (all k (by omega)).symm

/-! ### The slots in use -/

/-- The first `count` slots are in use, the root first, and the others are empty. -/
structure Filled (s : MountTable) (count : Nat) : Prop where
  nonempty : 1 ≤ count
  upper : count ≤ maxMount
  used : ∀ i, i < count → (s.slot i).type ≠ 0 ∧ (s.slot i).mountPoint ≠ [] ∧
    0 ∉ (s.slot i).mountPoint
  unused : ∀ i, count ≤ i → s.slot i = empty.slot i
  root : s.root = some 0
  rootPoint : (s.slot 0).mountPoint = [slash]
  rootMounted : (s.slot 0).mounted = true
  others : ∀ i, i ≠ 0 → (s.slot i).mountPoint ≠ [slash]

@[simp] theorem setSlot_slot (i other : Nat) (fs : FsSlot) :
    (s.setSlot i fs).slot other = if other = i then fs else s.slot other :=
  Function.update_apply s.slot i fs other

/-- A slot that `mount` has filled. -/
def inUse (point : CString) (mounted : Bool) : FsSlot where
  mountPoint := point
  type := 1
  op := some .ext2
  mounted := mounted

/-- A point that begins no mount point gets the first slot that is not in use. -/
theorem mountScan_spec (whole : 0 ∉ point) (left i : Nat) (freeIndex : Option Nat) :
    (mountScan s.slot point left i freeIndex = none) ∨
    (∀ k, i ≤ k → k < i + left → ¬ point <+: (s.slot k).mountPoint) ∧
      ∃ found, mountScan s.slot point left i freeIndex = some found ∧
        (freeIndex ≠ none → found = freeIndex) ∧
        (freeIndex = none → ∀ k, found = some k → i ≤ k ∧ k < i + left ∧ (s.slot k).type = 0 ∧
          ∀ j, i ≤ j → j < k → (s.slot j).type ≠ 0) := by
  induction left generalizing i freeIndex with
  | zero =>
      refine Or.inr ⟨fun k lower upper => by omega, freeIndex, rfl, fun _ => rfl, ?_⟩
      intro none k found
      rw [none] at found
      cases found
  | succ left ih =>
      rw [mountScan]
      by_cases taken : kmemcmp (s.slot i).mountPoint point point.length = 0
      · rw [if_pos taken]
        exact Or.inl rfl
      · rw [if_neg taken]
        have apart : ¬ point <+: (s.slot i).mountPoint := fun begins =>
          taken ((kmemcmp_right whole).mpr begins)
        rcases ih (i + 1) (if (s.slot i).type = 0 ∧ freeIndex = none then some i else freeIndex)
          with refused | ⟨rest, found, isFound, kept, fresh⟩
        · exact Or.inl refused
        · refine Or.inr ⟨fun k lower upper => ?_, found, isFound, fun known => ?_, ?_⟩
          · cases decEq k i with
            | isTrue here => exact here ▸ apart
            | isFalse later => exact rest k (by omega) (by omega)
          · rw [if_neg (fun both => known both.2)] at kept
            exact kept known
          · intro unknown k isK
            by_cases free : (s.slot i).type = 0
            · rw [if_pos ⟨free, unknown⟩] at kept
              have isI := kept (fun impossible => by cases impossible)
              obtain rfl := Option.some.inj (isI.symm.trans isK)
              exact ⟨Nat.le_refl _, by omega, free, fun j lower upper => by omega⟩
            · rw [if_neg (fun both => free both.1)] at fresh
              obtain ⟨lower, upper, isFree, before⟩ := fresh unknown k isK
              refine ⟨by omega, by omega, isFree, fun j from' below => ?_⟩
              cases decEq j i with
              | isTrue here => exact here ▸ free
              | isFalse later => exact before j (by omega) below

theorem mount_cases {after : MountTable} {answer : Option Nat} {type err : Int}
    (whole : 0 ∉ point) (mounts : s.mount type point err = some (answer, after)) :
    after = s ∨
    ∃ i mounted, i < maxMount ∧ (s.slot i).type = 0 ∧ (∀ j, j < i → (s.slot j).type ≠ 0) ∧
      (∀ k, k < maxMount → ¬ point <+: (s.slot k).mountPoint) ∧
      after = s.setSlot i (inUse point mounted) ∧
      (answer = if mounted then some i else none) := by
  unfold mount at mounts
  rcases @mountScan_spec s point whole maxMount 0 none with
    refused | ⟨apart, found, isFound, _, fresh⟩
  · rw [refused] at mounts
    obtain ⟨_, rfl⟩ := Prod.mk.inj (Option.some.inj mounts)
    exact Or.inl rfl
  · rw [isFound] at mounts
    cases found with
    | none =>
        obtain ⟨_, rfl⟩ := Prod.mk.inj (Option.some.inj mounts)
        exact Or.inl rfl
    | some i =>
        obtain ⟨_, upper, free, before⟩ := fresh rfl i rfl
        have unique : ∀ k, k < maxMount → ¬ point <+: (s.slot k).mountPoint :=
          fun k below => apart k (Nat.zero_le k) (by omega)
        have used : ∀ j, j < i → (s.slot j).type ≠ 0 :=
          fun j below => before j (Nat.zero_le j) below
        dsimp only at mounts
        unfold opFromFs at mounts
        by_cases ext2 : type = fsExt2
        · rw [if_pos ext2, ext2] at mounts
          dsimp only at mounts
          by_cases failed : err < 0
          · rw [if_pos failed] at mounts
            obtain ⟨rfl, rfl⟩ := Prod.mk.inj (Option.some.inj mounts)
            exact Or.inr ⟨i, false, by omega, free, used, unique, rfl, rfl⟩
          · rw [if_neg failed] at mounts
            obtain ⟨rfl, rfl⟩ := Prod.mk.inj (Option.some.inj mounts)
            exact Or.inr ⟨i, true, by omega, free, used, unique, rfl, rfl⟩
        · rw [if_neg ext2] at mounts
          cases mounts

theorem Filled.point_empty {count : Nat} (filled : s.Filled count) {i : Nat} (above : count ≤ i) :
    (s.slot i).mountPoint = [] ∧ (s.slot i).type = 0 := by
  rw [filled.unused i above]
  exact ⟨rfl, rfl⟩

theorem Filled.add {count i : Nat} (filled : s.Filled count) (inside : i < maxMount)
    (free : (s.slot i).type = 0) (before : ∀ j, j < i → (s.slot j).type ≠ 0)
    (apart : ∀ k, k < maxMount → ¬ point <+: (s.slot k).mountPoint) (whole : 0 ∉ point)
    (mounted : Bool) : (s.setSlot i (inUse point mounted)).Filled (count + 1) := by
  have isCount : i = count := by
    have notBelow : ¬ i < count := fun below => (filled.used i below).1 free
    have notAbove : ¬ count < i := fun above =>
      before count above (filled.point_empty (Nat.le_refl count)).2
    omega
  have nonempty := filled.nonempty
  have notEmpty : point ≠ [] := fun isEmpty =>
    apart 0 (by decide) (isEmpty ▸ List.nil_prefix)
  have notRoot : point ≠ [slash] := by
    intro isRoot
    have same : point = (s.slot 0).mountPoint := isRoot.trans filled.rootPoint.symm
    exact apart 0 (by decide) (same ▸ List.prefix_rfl)
  have rootSlot : (s.setSlot i (inUse point mounted)).slot 0 = s.slot 0 := by
    rw [setSlot_slot, if_neg (by omega)]
  constructor
  · omega
  · omega
  · intro j below
    rw [setSlot_slot]
    cases decEq j i with
    | isTrue here =>
        rw [if_pos here]
        exact ⟨Nat.one_ne_zero, notEmpty, whole⟩
    | isFalse other =>
        rw [if_neg other]
        exact filled.used j (by omega)
  · intro j above
    rw [setSlot_slot, if_neg (by omega)]
    exact filled.unused j (by omega)
  · exact filled.root
  · rw [rootSlot]
    exact filled.rootPoint
  · rw [rootSlot]
    exact filled.rootMounted
  · intro j notFirst
    rw [setSlot_slot]
    cases decEq j i with
    | isTrue here =>
        rw [if_pos here]
        exact notRoot
    | isFalse other =>
        rw [if_neg other]
        exact filled.others j notFirst

/-- The table after `fs_init`. -/
def booted : MountTable where
  slot := fun i =>
    if i = 0 then { mountPoint := [slash], type := 1, op := some .ext2, mounted := true }
    else empty.slot i
  root := some 0

theorem empty_boot {after : MountTable} {i : Nat} {err : Int}
    (mounts : empty.mount fsExt2 [slash] err = some (some i, after)) :
    { after with root := some i } = booted := by
  have scan : mountScan empty.slot [slash] maxMount 0 none = some (some 0) := by decide +kernel
  have op : opFromFs fsExt2 = some .ext2 := rfl
  unfold mount at mounts
  rw [scan] at mounts
  dsimp only at mounts
  rw [op] at mounts
  dsimp only at mounts
  by_cases failed : err < 0
  · rw [if_pos failed] at mounts
    cases (Prod.mk.inj (Option.some.inj mounts)).1
  · rw [if_neg failed] at mounts
    obtain ⟨isFirst, rfl⟩ := Prod.mk.inj (Option.some.inj mounts)
    obtain rfl := Option.some.inj isFirst
    unfold booted setSlot
    congr 1
    funext k
    exact Function.update_apply empty.slot 0 _ k

theorem booted_filled : booted.Filled 1 := by
  constructor
  · exact Nat.le_refl 1
  · decide
  · intro i below
    obtain rfl : i = 0 := by omega
    decide
  · exact fun i above => if_neg (by omega)
  · rfl
  · rfl
  · rfl
  · intro i notFirst
    have isEmpty : booted.slot i = empty.slot i := if_neg notFirst
    rw [isEmpty]
    change ([] : CString) ≠ [slash]
    decide

theorem MountRun.filled (run : MountRun s) : ∃ count, s.Filled count := by
  induction run with
  | boot err mounts =>
      rw [empty_boot mounts]
      exact ⟨1, booted_filled⟩
  | mount type point err _ fits mounts ih =>
      obtain ⟨count, filled⟩ := ih
      rcases mount_cases fits.2 mounts with same | ⟨i, mounted, inside, free, before, apart, rfl, _⟩
      · exact ⟨count, same ▸ filled⟩
      · exact ⟨count + 1, filled.add inside free before apart fits.2 mounted⟩

/-! ### Dispatch -/

theorem Filled.whole {count : Nat} (filled : s.Filled count) (i : Nat) :
    0 ∉ (s.slot i).mountPoint := by
  cases Nat.decLt i count with
  | isTrue below => exact (filled.used i below).2.2
  | isFalse above =>
      rw [(filled.point_empty (by omega)).1]
      exact List.not_mem_nil

theorem findFrom_spec (whole : ∀ i, 0 ∉ (s.slot i).mountPoint) (left i : Nat) :
    (∃ k, findFrom s.slot path left i = some k ∧ i ≤ k ∧ k < i + left ∧
      (s.slot k).mountPoint <+: path ∧ ∀ j, i ≤ j → j < k → ¬ (s.slot j).mountPoint <+: path) ∨
    findFrom s.slot path left i = none ∧
      ∀ j, i ≤ j → j < i + left → ¬ (s.slot j).mountPoint <+: path := by
  induction left generalizing i with
  | zero => exact Or.inr ⟨rfl, fun j lower upper => by omega⟩
  | succ left ih =>
      rw [findFrom]
      by_cases begins : (s.slot i).mountPoint <+: path
      · rw [if_pos ((kmemcmp_left (whole i)).mpr begins)]
        exact Or.inl ⟨i, rfl, Nat.le_refl i, by omega, begins, fun j lower upper => by omega⟩
      · rw [if_neg (fun same => begins ((kmemcmp_left (whole i)).mp same))]
        rcases ih (i + 1) with ⟨k, found, lower, upper, isPrefix, before⟩ | ⟨missing, none⟩
        · refine Or.inl ⟨k, found, by omega, by omega, isPrefix, fun j from' below => ?_⟩
          cases decEq j i with
          | isTrue here => exact here ▸ begins
          | isFalse later => exact before j (by omega) below
        · refine Or.inr ⟨missing, fun j from' below => ?_⟩
          cases decEq j i with
          | isTrue here => exact here ▸ begins
          | isFalse later => exact none j (by omega) (by omega)

theorem Candidate.begins {i : Nat} (candidate : s.Candidate path i) :
    (s.slot i).mountPoint <+: path := candidate.2.2.1

theorem slash_begins : [slash] <+: path ↔ path.head? = some slash := by
  cases path with
  | nil =>
      refine iff_of_false (fun begins => ?_) (fun impossible => by cases impossible)
      cases List.prefix_nil.mp begins
  | cons c rest =>
      rw [List.cons_prefix_cons, List.head?_cons, Option.some.injEq]
      exact ⟨fun both => both.1.symm, fun same => ⟨same.symm, List.nil_prefix⟩⟩

/-- The root is mounted where every absolute path passes. -/
theorem Filled.root_candidate {count : Nat} (filled : s.Filled count)
    (absolute : path.head? = some slash) : s.Candidate path 0 := by
  refine ⟨by decide, filled.rootMounted, ?_⟩
  rw [filled.rootPoint]
  exact ⟨slash_begins.mpr absolute, Or.inl rfl⟩

theorem Filled.root_longest_iff {count : Nat} (filled : s.Filled count)
    (absolute : path.head? = some slash) :
    s.Longest path 0 ↔ ∀ j, j ≠ 0 → ¬ s.Candidate path j := by
  constructor
  · intro longest j other candidate
    have short := longest.2 j candidate
    rw [filled.rootPoint] at short
    have used : j < count := by
      by_contra above
      have isEmpty := filled.unused j (by omega)
      have mounted := candidate.2.1
      rw [isEmpty] at mounted
      cases mounted
    have notEmpty := (filled.used j used).2.1
    have notRoot := filled.others j other
    have begins := candidate.begins
    cases point : (s.slot j).mountPoint with
    | nil => exact notEmpty point
    | cons c rest =>
        rw [point] at short begins notRoot
        obtain rfl : rest = [] := List.length_eq_zero_iff.mp (by simpa using short)
        refine notRoot ?_
        cases path with
        | nil => cases List.prefix_nil.mp begins
        | cons d more =>
            have same := (List.cons_prefix_cons.mp begins).1
            rw [List.head?_cons] at absolute
            rw [same, Option.some.inj absolute]
  · intro alone
    refine ⟨filled.root_candidate absolute, fun j candidate => ?_⟩
    cases decEq j 0 with
    | isTrue first => rw [first]
    | isFalse other => exact absurd candidate (alone j other)

theorem Filled.findFs_absolute {count : Nat} (filled : s.Filled count)
    (absolute : path.head? = some slash) : s.findFs path = some 0 := by
  have begins : (s.slot 0).mountPoint <+: path := by
    rw [filled.rootPoint]
    exact slash_begins.mpr absolute
  unfold findFs
  rcases @findFrom_spec s path filled.whole maxMount 0 with
    ⟨k, found, _, _, _, before⟩ | ⟨_, none⟩
  · rw [found]
    cases k with
    | zero => rfl
    | succ k => exact absurd begins (before 0 (Nat.le_refl 0) (Nat.succ_pos k))
  · exact absurd begins (none 0 (Nat.le_refl 0) (by decide))

theorem Filled.rightFor_iff {count : Nat} (filled : s.Filled count) (path : CString) :
    s.RightFor path (s.findFs path) ↔ s.Meets path := by
  unfold RightFor Meets
  by_cases absolute : path.head? = some slash
  · have rootUsed := (filled.used 0 filled.nonempty).1
    rw [filled.findFs_absolute absolute, ← filled.root_longest_iff absolute]
    constructor
    · intro ⟨i, same, _, _, resolves⟩
      obtain rfl := Option.some.inj same
      rcases resolves with longest | ⟨none, _⟩
      · exact Or.inl ⟨absolute, longest⟩
      · exact absurd (filled.root_candidate absolute) (none 0)
    · intro meets
      rcases meets with ⟨_, longest⟩ | ⟨relative, _⟩
      · exact ⟨0, rfl, rootUsed, filled.rootMounted, Or.inl longest⟩
      · exact absurd absolute relative
  · have notRoot : ¬ (s.slot 0).mountPoint <+: path := by
      rw [filled.rootPoint, slash_begins]
      exact absolute
    rw [or_iff_right (fun both => absolute both.1), and_iff_right absolute]
    unfold findFs
    rcases @findFrom_spec s path filled.whole maxMount 0 with
      ⟨k, found, _, upper, begins, before⟩ | ⟨missing, none⟩
    · rw [found]
      have earlier : ∀ j, j < k → ¬ (s.slot j).mountPoint <+: path :=
        fun j below => before j (Nat.zero_le j) below
      have notZero : k ≠ 0 := fun isZero => notRoot (isZero ▸ begins)
      constructor
      · intro ⟨i, same, used, _, resolves⟩
        obtain rfl := Option.some.inj same
        rcases resolves with longest | ⟨_, isRoot⟩
        · exact Or.inl ⟨k, ⟨by omega, used, begins, earlier⟩, longest⟩
        · rw [filled.root] at isRoot
          exact absurd (Option.some.inj isRoot).symm notZero
      · intro meets
        rcases meets with ⟨i, first, longest⟩ | full
        · obtain rfl : i = k := by
            have notBelow : ¬ i < k := fun below => earlier i below first.2.2.1
            have notAbove : ¬ k < i := fun below => first.2.2.2 k below begins
            omega
          exact ⟨i, rfl, first.2.1, longest.1.2.1, Or.inl longest⟩
        · exact absurd begins (full k (by omega)).2
    · rw [missing]
      have apart : ∀ j, j < maxMount → ¬ (s.slot j).mountPoint <+: path :=
        fun j below => none j (Nat.zero_le j) (by omega)
      have noCandidate : ∀ j, ¬ s.Candidate path j :=
        fun j candidate => apart j candidate.1 candidate.begins
      refine iff_of_true ?_ (Or.inr fun i below => ⟨?_, apart i below⟩)
      · exact ⟨0, filled.root, (filled.used 0 filled.nonempty).1, filled.rootMounted,
          Or.inr ⟨noCandidate, filled.root⟩⟩
      · intro free
        have isEmpty : (s.slot i).mountPoint = [] := by
          have above : count ≤ i := by
            by_contra below
            exact (filled.used i (by omega)).1 free
          exact (filled.point_empty above).1
        exact apart i below (isEmpty ▸ List.nil_prefix)

theorem syncRight_iff (s : MountTable) :
    s.SyncRight ↔ ∀ i, i < maxMount → (s.slot i).mounted = true := by
  unfold SyncRight sysSync
  constructor
  · intro right i below
    exact ((right i).mp (List.mem_range.mpr below)).2
  · intro all i
    rw [List.mem_range]
    exact ⟨fun below => ⟨below, all i below⟩, And.left⟩

/-- In every table that mounts lead to, a path is dispatched right if and only if it meets its
condition, and `sys_sync` calls the mounted file systems alone only where all slots are. -/
theorem mountRun_resolves (run : MountRun s) :
    (∀ path, (s.RightFor path (s.sysOpen path) ↔ s.Meets path) ∧
      (s.RightFor path (s.sysUnlink path) ↔ s.Meets path)) ∧
    (s.SyncRight ↔ ∀ i, i < maxMount → (s.slot i).mounted = true) := by
  obtain ⟨count, filled⟩ := run.filled
  exact ⟨fun path => ⟨filled.rightFor_iff path, filled.rightFor_iff path⟩, syncRight_iff s⟩

/-! ### The root alone, and one more -/

theorem booted_run : MountRun booted := by
  have scan : mountScan empty.slot [slash] maxMount 0 none = some (some 0) := by decide +kernel
  have mounts : empty.mount fsExt2 [slash] 0 =
      some (some 0, empty.setSlot 0 (inUse [slash] true)) := by
    unfold mount
    rw [scan]
    rfl
  rw [← empty_boot mounts]
  exact .boot 0 mounts

/-- "/mnt". -/
private def mntPoint : CString := [slash, 109#8, 110#8, 116#8]

private def withMnt : MountTable := booted.setSlot 1 (inUse mntPoint true)

private theorem withMnt_run : MountRun withMnt := by
  have scan : mountScan booted.slot mntPoint maxMount 0 none = some (some 1) := by decide +kernel
  have mounts : booted.mount fsExt2 mntPoint 0 = some (some 1, withMnt) := by
    unfold mount
    rw [scan]
    rfl
  exact booted_run.mount fsExt2 mntPoint 0 ⟨by decide, by decide⟩ mounts

/-- "/etc" with the root alone. -/
theorem mountRun_resolves_root :
    booted.RightFor [slash, 101#8, 116#8, 99#8] (booted.sysOpen [slash, 101#8, 116#8, 99#8]) ∧
      ¬ booted.SyncRight := by
  obtain ⟨dispatch, sync⟩ := mountRun_resolves booted_run
  constructor
  · refine (dispatch _).1.mpr (Or.inl ⟨rfl, fun j other candidate => ?_⟩)
    have isEmpty : booted.slot j = empty.slot j := if_neg other
    have mounted := candidate.2.1
    rw [isEmpty] at mounted
    cases mounted
  · intro right
    have mounted := sync.mp right 1 (by decide)
    cases mounted

/-- The name "a" goes through an empty slot, "/mnt/x" goes to the root though "/mnt" is mounted,
and `sys_sync` calls empty slots. -/
theorem mountRun_resolves_not :
    (MountRun booted ∧ booted.sysOpen [97#8] = some 1 ∧ (booted.slot 1).type = 0 ∧
      ¬ booted.RightFor [97#8] (booted.sysOpen [97#8])) ∧
    (MountRun withMnt ∧
      ¬ withMnt.RightFor (mntPoint ++ [slash, 120#8])
        (withMnt.sysOpen (mntPoint ++ [slash, 120#8]))) ∧
    ¬ booted.SyncRight := by
  have throughEmpty : booted.sysOpen [97#8] = some 1 := by decide +kernel
  have throughRoot : withMnt.sysOpen (mntPoint ++ [slash, 120#8]) = some 0 := by decide +kernel
  refine ⟨⟨booted_run, throughEmpty, rfl, ?_⟩, ⟨withMnt_run, ?_⟩, ?_⟩
  · intro ⟨i, same, used, _⟩
    rw [throughEmpty] at same
    obtain rfl := Option.some.inj same
    exact used rfl
  · intro ⟨i, same, _, _, resolves⟩
    have candidate : withMnt.Candidate (mntPoint ++ [slash, 120#8]) 1 :=
      ⟨by decide, rfl, List.prefix_append _ _, Or.inr (Or.inr rfl)⟩
    rw [throughRoot] at same
    obtain rfl := Option.some.inj same
    rcases resolves with ⟨_, longest⟩ | ⟨none, _⟩
    · exact absurd (longest 1 candidate) (by decide)
    · exact none 1 candidate
  · intro right
    have mounted := ((right 1).mp (by decide)).2
    cases mounted

end MountTable

end MangoOS
