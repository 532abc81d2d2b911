/-
What ext2_mount (fs/ext2.c) acquires and releases: the open count of the device, the blocks
of kmalloc, and which entries of the group table it touches on its way.
-/

import MangoOS.FileSystem.MountGroups
import MangoOS.Device.DeviceTable
import Mathlib.Algebra.BigOperators.Group.Finset.Basic
import Mathlib.Tactic.Abel

namespace MangoOS

open Intrusive

/-- The pointers in an entry of `group_table`. -/
structure GroupPointers where
  pBlockBitmap : Nat
  pInodeBitmap : Nat
  inodeData : Nat

/-- The fields of `fs_t` that a mount sets. -/
structure FsFields where
  data : Nat
  devId : Int
  mutex : Nat

/-- A call of `ext2_mount`.  `serve` is what `kmalloc` answers, from its first call here on, with
0 for NULL, and `stale` what stands in the memory that becomes `group_table`.  The disk and the
memory are those of `ext2Mount`, which is told its own answers of `dev_open` and `kmalloc`. -/
structure MountCall where
  table : DeviceTable
  major : Int
  minor : Int
  serve : Nat → Nat
  stale : Int → GroupPointers
  fields : FsFields
  memory : MountMemory
  store : BlockStore
  dirty : Links (Option Nat)

/-- How far a mount is. -/
structure MountRun where
  table : DeviceTable
  groups : Int → GroupPointers
  asked : Nat
  allocated : Multiset Nat
  freed : Multiset Nat
  touched : List Int

structure MountEnd where
  answer : Int
  readFailed : Bool
  fields : FsFields
  run : MountRun

/-- The block at an address, which is none for NULL. -/
def blockAt (address : Nat) : Multiset Nat := if address = 0 then 0 else {address}

/-- What the fields of the super block in front of `group_table` are, taken as an entry -1: its
two bitmaps are `group_block` and `group_inode`. -/
def headerPointers (data : Region) (stale : GroupPointers) : GroupPointers :=
  { stale with pBlockBitmap := data.word 32, pInodeBitmap := data.word 40 }

namespace MountRun

def start (table : DeviceTable) (stale : Int → GroupPointers) : MountRun where
  table := table
  groups := stale
  asked := 0
  allocated := 0
  freed := 0
  touched := []

def kmalloc (run : MountRun) (serve : Nat → Nat) : Nat × MountRun :=
  let address := serve run.asked
  (address,
    { run with asked := run.asked + 1, allocated := run.allocated + blockAt address })

/-- `kfree`, which does nothing for NULL. -/
def kfree (run : MountRun) (address : Nat) : MountRun :=
  { run with freed := run.freed + blockAt address }

/-- An access to `group_table[i]`. -/
def touch (run : MountRun) (i : Int) : MountRun := { run with touched := i :: run.touched }

def setGroup (run : MountRun) (i : Int) (pointers : GroupPointers) : MountRun :=
  { run with groups := Function.update run.groups i pointers }

/-- `dev_close`. -/
def close (run : MountRun) (devId : Int) : MountRun :=
  { run with table := (run.table.devClose devId.toNat).2 }

/-- The memory for the bitmaps of a group. -/
def allocGroup (serve : Nat → Nat) (run : MountRun) (i : Int) : MountRun :=
  let run := run.touch i
  let (block, run) := run.kmalloc serve
  let run := run.setGroup i { run.groups i with pBlockBitmap := block }
  let (inode, run) := run.kmalloc serve
  run.setGroup i { run.groups i with pInodeBitmap := inode }

/-- The loop over the descriptors, as far as it asks for memory. -/
def allocBitmaps (serve : Nat → Nat) : (left i : Nat) → MountRun → MountRun
  | 0, _, run => run
  | left + 1, i, run => allocBitmaps serve left (i + 1) (run.allocGroup serve i)

def freeBitmaps (run : MountRun) (i : Int) : MountRun :=
  let run := run.touch i
  let run := run.kfree (run.groups i).pBlockBitmap
  run.kfree (run.groups i).pInodeBitmap

/-- `while (i-- >= 0)`, which tests `i` before it counts down and so goes on once more at 0. -/
def unwind : (i : Nat) → MountRun → MountRun
  | 0, run => run.freeBitmaps (-1)
  | i + 1, run => unwind i (run.freeBitmaps i)

/-- The memory for the inodes of a group. -/
def allocInodes (serve : Nat → Nat) (run : MountRun) (i : Int) : MountRun :=
  let (inodeData, run) := run.kmalloc serve
  run.setGroup i { run.groups i with inodeData := inodeData }

/-- The loop that loads the bitmaps, and whether all reads succeeded. -/
def loadGroups (serve : Nat → Nat) :
    (left i : Nat) → Region → FileSystem → MountRun → Bool × MountRun
  | 0, _, _, _, run => (true, run)
  | left + 1, i, data, fs, run =>
      let run := run.touch i
      match fs.loadGroup data i with
      | none => (false, run.unwind i)
      | some (data, fs) => loadGroups serve left (i + 1) data fs (run.allocInodes serve i)

def freeGroup (run : MountRun) (i : Int) : MountRun :=
  let run := run.freeBitmaps i
  run.kfree (run.groups i).inodeData

/-- The loop that releases everything of all groups. -/
def freeGroups : (left i : Nat) → MountRun → MountRun
  | 0, _, run => run
  | left + 1, i, run => freeGroups left (i + 1) (run.freeGroup i)

end MountRun

/-- The bound of the loops, an `int`. -/
def loopBound (data : Region) : Nat := (int32 (FileSystem.mountGroupCount data)).toNat

/-- The rest of `ext2_mount`, with the super block in memory. -/
def MountCall.mountGroups (call : MountCall) (devId : Int) (data : Region) (device : Device)
    (groupCount superBlock : Nat) (run : MountRun) : MountEnd :=
  let fs := FileSystem.mountSuper call.memory data { call.store with device := device } call.dirty
  let run := run.setGroup (-1) (headerPointers data (run.groups (-1)))
  let run := run.allocBitmaps call.serve groupCount 0
  let (loaded, run) := run.loadGroups call.serve groupCount 0 data fs
  if loaded = false then ⟨-enomem, true, call.fields, (run.kfree superBlock).close devId⟩
  else
    let fields := { call.fields with data := superBlock, devId := devId }
    let (mutex, run) := run.kmalloc call.serve
    if mutex = 0 then
      ⟨-enomem, false, fields, ((run.freeGroups groupCount 0).kfree superBlock).close devId⟩
    else ⟨devId, false, { fields with mutex := mutex }, run⟩

/-- `ext2_mount`; a division by zero stops the task for good. -/
def MountCall.ext2Mount (call : MountCall) : Option MountEnd :=
  let (devId, table) := call.table.devOpen call.major call.minor 0
  let run := MountRun.start table call.stale
  if devId < 0 then some ⟨devId, false, call.fields, run⟩
  else
    let (count, data, device) := call.store.device.devRead 2 call.memory.data 7
    if count ≤ 0 then some ⟨count, true, call.fields, run⟩
    else
      let (_, run) := run.kmalloc call.serve
      if data.word 32 = 0 then none
      else
        let (superBlock, run) := run.kmalloc call.serve
        if superBlock = 0 then some ⟨-enomem, false, call.fields, run.close devId⟩
        else some (call.mountGroups devId data device (loopBound data) superBlock run)

/-! ### What the loops do -/

namespace MountRun

variable {run mid after : MountRun} {serve : Nat → Nat} {i left : Nat}

def bitmapBlocks (pointers : GroupPointers) : Multiset Nat :=
  blockAt pointers.pBlockBitmap + blockAt pointers.pInodeBitmap

/-- Only the entries of `left` groups from `i` on are touched. -/
structure Within (run after : MountRun) (i left : Nat) : Prop where
  table : after.table = run.table
  others : ∀ j : Int, j < i ∨ i + left ≤ j → after.groups j = run.groups j
  touched : ∀ x ∈ after.touched, x ∈ run.touched ∨ (i : Int) ≤ x ∧ x < i + left

theorem Within.refl (run : MountRun) (i : Nat) : Within run run i 0 where
  table := rfl
  others := fun _ _ => rfl
  touched := fun _ member => Or.inl member

theorem Within.trans (first : Within run mid i 1) (rest : Within mid after (i + 1) left) :
    Within run after i (left + 1) where
  table := rest.table.trans first.table
  others := by
    intro j outside
    rw [rest.others j (by omega), first.others j (by omega)]
  touched := by
    intro x member
    rcases rest.touched x member with before | here
    · rcases first.touched x before with earlier | here
      · exact Or.inl earlier
      · exact Or.inr (by omega)
    · exact Or.inr (by omega)

theorem sum_range_shift (f : Nat → Multiset Nat) (i left : Nat) :
    ∑ j ∈ Finset.range (left + 1), f (i + j) =
      f i + ∑ j ∈ Finset.range left, f (i + 1 + j) := by
  rw [Finset.sum_range_succ', Nat.add_zero, add_comm]
  congr 1
  apply Finset.sum_congr rfl
  intro j _
  rw [Nat.add_assoc, Nat.add_comm 1 j]

/-- What the groups from `i` on have. -/
def held (run : MountRun) (blocks : GroupPointers → Multiset Nat) (i left : Nat) : Multiset Nat :=
  ∑ j ∈ Finset.range left, blocks (run.groups (i + j : Nat))

theorem held_succ (run : MountRun) (blocks : GroupPointers → Multiset Nat) (i left : Nat) :
    run.held blocks i (left + 1) = blocks (run.groups i) + run.held blocks (i + 1) left :=
  sum_range_shift (fun j => blocks (run.groups j)) i left

theorem held_congr {blocks : GroupPointers → Multiset Nat}
    (same : ∀ j : Int, blocks (after.groups j) = blocks (run.groups j)) (i left : Nat) :
    after.held blocks i left = run.held blocks i left :=
  Finset.sum_congr rfl fun _ _ => same _

theorem allocGroup_spec (serve : Nat → Nat) (run : MountRun) (i : Nat) :
    let after := run.allocGroup serve i
    Within run after i 1 ∧ after.freed = run.freed ∧ after.asked = run.asked + 2 ∧
      after.allocated = run.allocated + bitmapBlocks (after.groups i) := by
  refine ⟨⟨rfl, ?_, ?_⟩, rfl, rfl, ?_⟩
  · intro j outside
    have other : j ≠ i := by omega
    simp [allocGroup, setGroup, kmalloc, touch, other]
  · intro x member
    rcases List.mem_cons.mp member with here | before
    · exact Or.inr (by omega)
    · exact Or.inl before
  · simp [allocGroup, setGroup, kmalloc, touch, bitmapBlocks, add_assoc]

theorem allocBitmaps_spec (serve : Nat → Nat) (left i : Nat) (run : MountRun) :
    let after := run.allocBitmaps serve left i
    Within run after i left ∧ after.freed = run.freed ∧ after.asked = run.asked + 2 * left ∧
      after.allocated = run.allocated + after.held bitmapBlocks i left := by
  induction left generalizing i run with
  | zero => exact ⟨Within.refl run i, rfl, rfl, (add_zero _).symm⟩
  | succ left ih =>
      obtain ⟨first, firstFreed, firstAsked, firstAllocated⟩ := allocGroup_spec serve run i
      obtain ⟨rest, freed, asked, allocated⟩ := ih (i + 1) (run.allocGroup serve i)
      refine ⟨first.trans rest, freed.trans firstFreed, ?_, ?_⟩
      · rw [allocBitmaps, asked, firstAsked]
        omega
      · rw [allocBitmaps, held_succ, rest.others i (by omega), allocated, firstAllocated,
          add_assoc]

theorem allocInodes_spec (serve : Nat → Nat) (run : MountRun) (i : Nat) :
    let after := (run.touch i).allocInodes serve i
    Within run after i 1 ∧ after.freed = run.freed ∧ after.asked = run.asked + 1 ∧
      (∀ j : Int, bitmapBlocks (after.groups j) = bitmapBlocks (run.groups j)) ∧
      after.allocated = run.allocated + blockAt (after.groups i).inodeData := by
  refine ⟨⟨rfl, ?_, ?_⟩, rfl, rfl, ?_, ?_⟩
  · intro j outside
    have other : j ≠ i := by omega
    simp [allocInodes, setGroup, kmalloc, touch, other]
  · intro x member
    rcases List.mem_cons.mp member with here | before
    · exact Or.inr (by omega)
    · exact Or.inl before
  · intro j
    by_cases here : j = i
    · simp [allocInodes, setGroup, kmalloc, touch, here, bitmapBlocks]
    · simp [allocInodes, setGroup, kmalloc, touch, here]
  · simp [allocInodes, setGroup, kmalloc, touch]

theorem unwind_touched (i : Nat) (run : MountRun) : (-1 : Int) ∈ (run.unwind i).touched := by
  induction i generalizing run with
  | zero => exact List.mem_cons_self ..
  | succ i ih => exact ih _

/-- A group whose bitmaps cannot be read ends the loop; the unwinding leaves the table. -/
theorem loadGroups_stops {data : Region} {fs : FileSystem} (failed : fs.loadGroup data i = none)
    (left : Nat) (run : MountRun) :
    run.loadGroups serve (left + 1) i data fs = (false, (run.touch i).unwind i) := by
  rw [loadGroups]
  split
  · rfl
  case h_2 loaded => cases failed.symm.trans loaded

theorem loadGroups_goes {data rest : Region} {fs next : FileSystem}
    (loaded : fs.loadGroup data i = some (rest, next)) (left : Nat) (run : MountRun) :
    run.loadGroups serve (left + 1) i data fs =
      ((run.touch i).allocInodes serve i).loadGroups serve left (i + 1) rest next := by
  rw [loadGroups]
  split
  case h_1 failed => cases failed.symm.trans loaded
  case h_2 again =>
    obtain ⟨rfl, rfl⟩ := Prod.mk.inj (Option.some.inj (again.symm.trans loaded))
    rfl

/-- What the loop leaves where every read succeeds. -/
structure Loads (serve : Nat → Nat) (run after : MountRun) (i left : Nat) : Prop where
  within : Within run after i left
  freed : after.freed = run.freed
  asked : after.asked = run.asked + left
  bitmaps : ∀ j : Int, bitmapBlocks (after.groups j) = bitmapBlocks (run.groups j)
  allocated : after.allocated =
    run.allocated + after.held (fun pointers => blockAt pointers.inodeData) i left

theorem loadGroups_spec (serve : Nat → Nat) (left i : Nat) (data : Region) (fs : FileSystem)
    (run : MountRun) :
    (fs.loadGroups left i data = none ∧
      ∃ after, run.loadGroups serve left i data fs = (false, after) ∧
        (-1 : Int) ∈ after.touched) ∨
    ((∃ last, fs.loadGroups left i data = some last) ∧
      ∃ after, run.loadGroups serve left i data fs = (true, after) ∧
        Loads serve run after i left) := by
  induction left generalizing i data fs run with
  | zero =>
      exact Or.inr ⟨⟨fs, rfl⟩, run, rfl, Within.refl run i, rfl, rfl, fun _ => rfl,
        (add_zero _).symm⟩
  | succ left ih =>
      cases loaded : fs.loadGroup data i with
      | none =>
          refine Or.inl ⟨?_, _, loadGroups_stops loaded left run, unwind_touched i _⟩
          rw [FileSystem.loadGroups, loaded]
      | some pair =>
          obtain ⟨rest, next⟩ := pair
          have goes : fs.loadGroups (left + 1) i data = next.loadGroups left (i + 1) rest := by
            rw [FileSystem.loadGroups, loaded]
          rw [loadGroups_goes loaded, goes]
          obtain ⟨first, firstFreed, firstAsked, firstBitmaps, firstAllocated⟩ :=
            allocInodes_spec serve run i
          rcases ih (i + 1) rest next ((run.touch i).allocInodes serve i) with
            stops | ⟨last, after, ends, loads⟩
          · exact Or.inl stops
          · refine Or.inr ⟨last, after, ends, first.trans loads.within,
              loads.freed.trans firstFreed, ?_, ?_, ?_⟩
            · rw [loads.asked, firstAsked]
              omega
            · intro j
              rw [loads.bitmaps, firstBitmaps]
            · rw [loads.allocated, firstAllocated, held_succ,
                loads.within.others i (by omega), add_assoc]

theorem freeGroup_spec (run : MountRun) (i : Nat) :
    let after := run.freeGroup i
    Within run after i 1 ∧ after.allocated = run.allocated ∧ after.asked = run.asked ∧
      after.groups = run.groups ∧
      after.freed = run.freed +
        (bitmapBlocks (run.groups i) + blockAt (run.groups i).inodeData) := by
  refine ⟨⟨rfl, fun _ _ => rfl, ?_⟩, rfl, rfl, rfl, ?_⟩
  · intro x member
    rcases List.mem_cons.mp member with here | before
    · exact Or.inr (by omega)
    · exact Or.inl before
  · simp [freeGroup, freeBitmaps, kfree, touch, bitmapBlocks, add_assoc]

theorem freeGroups_spec (left i : Nat) (run : MountRun) :
    let after := run.freeGroups left i
    Within run after i left ∧ after.allocated = run.allocated ∧ after.asked = run.asked ∧
      after.freed = run.freed + run.held bitmapBlocks i left +
        run.held (fun pointers => blockAt pointers.inodeData) i left := by
  induction left generalizing i run with
  | zero =>
      refine ⟨Within.refl run i, rfl, rfl, ?_⟩
      exact (add_zero _).symm.trans (add_zero _).symm
  | succ left ih =>
      obtain ⟨first, firstAllocated, firstAsked, groups, firstFreed⟩ := freeGroup_spec run i
      obtain ⟨rest, allocated, asked, freed⟩ := ih (i + 1) (run.freeGroup i)
      refine ⟨first.trans rest, allocated.trans firstAllocated, asked.trans firstAsked, ?_⟩
      have same (blocks : GroupPointers → Multiset Nat) :
          (run.freeGroup i).held blocks (i + 1) left = run.held blocks (i + 1) left :=
        held_congr (fun j => by rw [groups]) (i + 1) left
      rw [freeGroups, freed, firstFreed, same, same, held_succ, held_succ]
      abel

end MountRun

end MangoOS
