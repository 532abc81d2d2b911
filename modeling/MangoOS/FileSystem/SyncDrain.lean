/-
The loop of ext2_sync over the dirty list (fs/ext2.c).

The loop takes a node out and goes on behind the node that followed it, so it passes over every
second one.  At the end of the list the head counts as such a node, and the loop begins again
with those it has passed over; or the head is where it stops.
-/

import MangoOS.FileSystem.Eviction
import MangoOS.FileSystem.Sync
import Mathlib.Algebra.Order.Ring.Int

namespace MangoOS

open Intrusive
open BlockStore (sectorOf)

namespace FileSystem

variable {fs after : FileSystem} {nodes kept rest : List Nat} {fuel : Nat} {done : Bool}

/-- The write of a buffer goes to the bytes of its own block, all of them and no others. -/
def WritesOwnBlock (fs : FileSystem) (bb : Nat) : Prop :=
  sectorOf fs.blockSize (fs.store.buffers bb).blockNo * sectorSize =
      (fs.store.buffers bb).blockNo * fs.blockSize ∧
    8 * sectorSize = fs.blockSize

/-- The write of a dirty buffer. -/
def flushed (fs : FileSystem) (bb : Nat) : Int × BlockStore :=
  fs.store.flush (sectorOf fs.blockSize (fs.store.buffers bb).blockNo) bb

/-- The dirty list without the buffer, which is on the disk. -/
def unlinked (fs : FileSystem) (bb : Nat) : FileSystem :=
  (fs.setStore (fs.flushed bb).2).listRemove (some bb)

/-- The buffers that the loop of `ext2_sync` writes, in order. -/
def syncWrites : (fuel : Nat) → FileSystem → (bn : Option Nat) → List Nat
  | 0, _, _ => []
  | _ + 1, _, none => []
  | fuel + 1, fs, some bb =>
      if (fs.flushed bb).1 ≤ 0 then []
      else
        bb :: syncWrites fuel (fs.unlinked bb)
          ((fs.unlinked bb).dirty.next (fs.dirty.next (some bb)))

/-- The disk behind the writes of these buffers. -/
def written (fs : FileSystem) (writes : List Nat) : Device :=
  writes.foldl (fun device bb => device.perform
    (.write (sectorOf fs.blockSize (fs.store.buffers bb).blockNo) (fs.store.buffers bb).data))
    fs.store.device

/-- The loop writes every buffer once and to its own block and leaves the list empty; where a
write fails, the list keeps the buffers that are not written. -/
structure SyncDrains (fs : FileSystem) (nodes : List Nat) : Prop where
  drains : fs.store.device.Reliable →
    ∃ fuel after, fs.syncBlocks fuel (fs.dirty.next none) = some (true, after) ∧
      Ring after.dirty none [] ∧ (fs.syncWrites fuel (fs.dirty.next none)).Perm nodes ∧
      after.store.device = fs.written (fs.syncWrites fuel (fs.dirty.next none)) ∧
      ∀ bb, bb ∈ nodes → fs.WritesOwnBlock bb
  fails : ∀ fuel after, fs.syncBlocks fuel (fs.dirty.next none) = some (false, after) →
    ∃ left, Ring after.dirty none (left.map some) ∧
      (fs.syncWrites fuel (fs.dirty.next none) ++ left).Perm nodes

/-! ### One round -/

theorem syncBlocks_failed {bb : Nat} (failed : (fs.flushed bb).1 ≤ 0) :
    fs.syncBlocks (fuel + 1) (some bb) = some (false, fs.setStore (fs.flushed bb).2) := by
  rw [syncBlocks]
  exact if_pos failed

theorem syncBlocks_written {bb : Nat} (served : ¬ (fs.flushed bb).1 ≤ 0) :
    fs.syncBlocks (fuel + 1) (some bb) =
      (fs.unlinked bb).syncBlocks fuel
        ((fs.unlinked bb).dirty.next (fs.dirty.next (some bb))) := by
  rw [syncBlocks]
  exact if_neg served

theorem unlinked_ring {bb : Nat} (ring : Ring fs.dirty none ((kept ++ bb :: rest).map some)) :
    Ring (fs.unlinked bb).dirty none ((kept ++ rest).map some) := by
  rw [List.map_append, List.map_cons] at ring
  rw [List.map_append]
  exact queueRemove_ring ring

/-- From the last node the loop goes on with the first one it has kept. -/
theorem unlinked_last {bb : Nat} (ring : Ring fs.dirty none ((kept ++ [bb]).map some)) :
    (fs.unlinked bb).dirty.next (fs.dirty.next (some bb)) = kept.head? := by
  have without := unlinked_ring ring
  rw [List.map_append, List.map_singleton] at ring
  rw [ring.next_of_split, List.headD_nil, without.next_head, List.append_nil]
  cases kept with
  | nil => rfl
  | cons first others => rfl

/-- From any other node it goes on behind the next one. -/
theorem unlinked_next {bb next : Nat}
    (ring : Ring fs.dirty none ((kept ++ bb :: next :: rest).map some)) :
    (fs.unlinked bb).dirty.next (fs.dirty.next (some bb)) = rest.head? := by
  have without := unlinked_ring ring
  rw [List.map_append, List.map_cons] at ring without
  rw [ring.next_of_split, List.map_cons, List.headD_cons, without.next_of_split]
  cases rest with
  | nil => rfl
  | cons first others => rfl

/-! ### The whole loop -/

/-- What is left of `kept` nodes behind the loop and `rest` nodes before it is nothing. -/
def Vanishes (kept rest : Nat) : Prop := ∃ m, 2 * kept + rest + 1 = 2 ^ m

theorem vanishes_none (kept : Nat) : Vanishes kept 0 ↔ kept = 0 := by
  constructor
  · rintro ⟨m, power⟩
    cases m with
    | zero => omega
    | succ m =>
        rw [Nat.pow_succ] at power
        omega
  · intro none
    exact ⟨0, by rw [none]; rfl⟩

theorem vanishes_one (kept : Nat) : Vanishes kept 1 ↔ Vanishes 0 kept := by
  constructor
  · rintro ⟨m, power⟩
    cases m with
    | zero => omega
    | succ m =>
        rw [Nat.pow_succ] at power
        exact ⟨m, by omega⟩
  · rintro ⟨m, power⟩
    refine ⟨m + 1, ?_⟩
    rw [Nat.pow_succ]
    omega

theorem vanishes_more (kept rest : Nat) : Vanishes kept (rest + 2) ↔ Vanishes (kept + 1) rest := by
  have same : 2 * kept + (rest + 2) + 1 = 2 * (kept + 1) + rest + 1 := by omega
  unfold Vanishes
  rw [same]

/-- What a run of the loop leaves. -/
structure Ran (fs : FileSystem) (kept rest : List Nat) (writes : List Nat) (done : Bool)
    (after : FileSystem) (left : List Nat) : Prop where
  ring : Ring after.dirty none (left.map some)
  perm : (writes ++ left).Perm (kept ++ rest)
  empty : done = true → (left = [] ↔ Vanishes kept.length rest.length)
  device : done = true → after.store.device = fs.written writes

/-- The induction is on the rounds: a round takes the first node in front of the loop, and
moves the one behind it, or the head. -/
theorem syncBlocks_run :
    ∀ fuel fs (kept rest : List Nat), Ring fs.dirty none ((kept ++ rest).map some) →
      syncBlocks fuel fs rest.head? = some (done, after) →
        ∃ left, Ran fs kept rest (fs.syncWrites fuel rest.head?) done after left := by
  intro fuel
  induction fuel with
  | zero =>
      intro fs kept rest _ returns
      cases returns
  | succ fuel ih =>
      intro fs kept rest ring returns
      cases rest with
      | nil =>
          rw [List.head?_nil, syncBlocks, Option.some.injEq, Prod.mk.injEq] at returns
          rw [← returns.2]
          rw [List.append_nil] at ring
          refine ⟨kept, ring, ?_, ?_, fun _ => rfl⟩
          · rw [List.append_nil]
            exact .refl kept
          · intro _
            rw [List.length_nil, vanishes_none, List.length_eq_zero_iff]
      | cons bb rest =>
          rw [List.head?_cons] at returns ⊢
          rw [syncWrites]
          by_cases failed : (fs.flushed bb).1 ≤ 0
          · rw [syncBlocks_failed failed, Option.some.injEq, Prod.mk.injEq] at returns
            rw [if_pos failed, ← returns.1, ← returns.2]
            refine ⟨kept ++ bb :: rest, ring, .refl _, ?_, ?_⟩
            · intro isDone
              cases isDone
            · intro isDone
              cases isDone
          · rw [syncBlocks_written failed] at returns
            rw [if_neg failed]
            have without := unlinked_ring ring
            cases rest with
            | nil =>
                rw [List.append_nil] at without
                rw [unlinked_last ring] at returns ⊢
                obtain ⟨left, ran⟩ := ih (fs.unlinked bb) [] kept without returns
                refine ⟨left, ran.ring, ?_, ?_, ran.device⟩
                · rw [List.cons_append]
                  exact (ran.perm.cons bb).trans (List.perm_append_singleton bb kept).symm
                · intro isDone
                  rw [ran.empty isDone]
                  exact (vanishes_one kept.length).symm
            | cons next rest =>
                rw [unlinked_next ring] at returns ⊢
                rw [List.append_cons] at without
                obtain ⟨left, ran⟩ := ih (fs.unlinked bb) (kept ++ [next]) rest without returns
                refine ⟨left, ran.ring, ?_, ?_, ran.device⟩
                · rw [List.cons_append]
                  have moved : (kept ++ bb :: next :: rest).Perm (bb :: (kept ++ next :: rest)) :=
                    List.perm_middle
                  rw [List.append_cons kept next rest] at moved
                  exact (ran.perm.cons bb).trans moved.symm
                · intro isDone
                  rw [ran.empty isDone, List.length_append]
                  exact (vanishes_more kept.length rest.length).symm

theorem syncBlocks_ends :
    ∀ fuel fs (kept rest : List Nat), Ring fs.dirty none ((kept ++ rest).map some) →
      (kept ++ rest).length < fuel →
        ∃ done after, syncBlocks fuel fs rest.head? = some (done, after) := by
  intro fuel
  induction fuel with
  | zero =>
      intro fs kept rest _ few
      exact absurd few (Nat.not_lt_zero _)
  | succ fuel ih =>
      intro fs kept rest ring few
      cases rest with
      | nil => exact ⟨true, fs, rfl⟩
      | cons bb rest =>
          rw [List.head?_cons]
          by_cases failed : (fs.flushed bb).1 ≤ 0
          · exact ⟨false, _, syncBlocks_failed failed⟩
          · rw [syncBlocks_written failed]
            have without := unlinked_ring ring
            rw [List.length_append, List.length_cons] at few
            cases rest with
            | nil =>
                rw [unlinked_last ring]
                rw [List.append_nil] at without
                rw [List.length_nil] at few
                exact ih _ [] kept without (by rw [List.nil_append]; omega)
            | cons next rest =>
                rw [unlinked_next ring]
                rw [List.append_cons] at without
                rw [List.length_cons] at few
                refine ih _ (kept ++ [next]) rest without ?_
                rw [List.length_append, List.length_append, List.length_singleton]
                omega

theorem syncBlocks_reliable {bn : Option Nat} (reliable : fs.store.device.Reliable)
    (returns : syncBlocks fuel fs bn = some (done, after)) : done = true := by
  induction fuel generalizing fs bn with
  | zero => cases returns
  | succ fuel ih =>
      cases bn with
      | none =>
          rw [syncBlocks, Option.some.injEq, Prod.mk.injEq] at returns
          exact returns.1.symm
      | some bb =>
          have served : (fs.flushed bb).1 = (8 : Nat) :=
            reliable.devWrite_fst (sectorOf fs.blockSize (fs.store.buffers bb).blockNo)
              (fs.store.buffers bb).data (Nat.le_refl 8)
          rw [syncBlocks_written (by rw [served]; decide)] at returns
          exact ih (show (fs.unlinked bb).store.device.Reliable from reliable.devWrite) returns

/-- When the dirty list is drained: it has 2^m - 1 buffers, and each block has 8 sectors and
lies in the first 4 GiB. -/
def Drainable (fs : FileSystem) (nodes : List Nat) : Prop :=
  (∃ m, nodes.length + 1 = 2 ^ m) ∧
    ∀ bb, bb ∈ nodes →
      fs.blockSize = 4096 ∧ (fs.store.buffers bb).blockNo * 4096 < 4294967296

theorem writesOwnBlock_iff {bb : Nat} :
    fs.WritesOwnBlock bb ↔
      fs.blockSize = 4096 ∧ (fs.store.buffers bb).blockNo * 4096 < 4294967296 := by
  unfold WritesOwnBlock sectorOf sectorSize
  constructor
  · rintro ⟨place, size⟩
    rw [← size] at place ⊢
    refine ⟨rfl, ?_⟩
    omega
  · rintro ⟨size, low⟩
    rw [size]
    omega

/-- `ext2_sync` drains a dirty list on a reliable disk if and only if it is drainable. -/
theorem syncBlocks_drains_iff (ring : Ring fs.dirty none (nodes.map some)) :
    SyncDrains fs nodes ↔ (fs.store.device.Reliable → Drainable fs nodes) := by
  have first : fs.dirty.next none = nodes.head? := by
    rw [ring.next_head]
    cases nodes with
    | nil => rfl
    | cons bb others => rfl
  have run : ∀ {fuel done after}, fs.syncBlocks fuel nodes.head? = some (done, after) → _ :=
    fun returns => syncBlocks_run _ fs [] nodes ring returns
  constructor
  · intro drained reliable
    obtain ⟨fuel, after, returns, empty, _, _, own⟩ := drained.drains reliable
    rw [first] at returns
    obtain ⟨left, ran⟩ := run returns
    have none := ran.ring.unique empty
    rw [List.map_eq_nil_iff, ran.empty rfl, List.length_nil] at none
    obtain ⟨m, power⟩ := none
    exact ⟨⟨m, by omega⟩, fun bb member => writesOwnBlock_iff.mp (own bb member)⟩
  · intro condition
    constructor
    · intro reliable
      obtain ⟨⟨m, power⟩, own⟩ := condition reliable
      obtain ⟨done, after, returns⟩ :=
        syncBlocks_ends (nodes.length + 1) fs [] nodes ring (Nat.lt_succ_self _)
      have isDone := syncBlocks_reliable reliable returns
      rw [isDone] at returns
      obtain ⟨left, ran⟩ := run returns
      have none : left = [] := (ran.empty rfl).mpr ⟨m, by rw [List.length_nil]; omega⟩
      have ring := ran.ring
      have perm := ran.perm
      rw [none, List.append_nil] at perm
      rw [none] at ring
      rw [first]
      exact ⟨nodes.length + 1, after, returns, ring, perm, ran.device rfl,
        fun bb member => writesOwnBlock_iff.mpr (own bb member)⟩
    · intro fuel after returns
      rw [first] at returns ⊢
      obtain ⟨left, ran⟩ := run returns
      exact ⟨left, ran.ring, ran.perm⟩

/-- The buffers 0, 1 and so on are dirty, as many as `count`. -/
def dirtySample (count : Nat) : FileSystem :=
  { sample 0 with
    dirty :=
      { next := fun node =>
          match node with
          | none => if count = 0 then none else some 0
          | some bb => if bb + 1 < count then some (bb + 1) else none
        prev := fun node =>
          match node with
          | none => if count = 0 then none else some (count - 1)
          | some bb => if bb = 0 then none else some (bb - 1) } }

/-- Three dirty buffers. -/
theorem syncBlocks_drains_three :
    SyncDrains (dirtySample 3) [0, 1, 2] ↔
      ((dirtySample 3).store.device.Reliable → Drainable (dirtySample 3) [0, 1, 2]) :=
  syncBlocks_drains_iff (by decide)

/-- Two dirty buffers: the second one is passed over. -/
theorem syncBlocks_drains_two :
    Ring (dirtySample 2).dirty none ([0, 1].map some) ∧
      (dirtySample 2).store.device.Reliable ∧ ¬ SyncDrains (dirtySample 2) [0, 1] := by
  have ring : Ring (dirtySample 2).dirty none ([0, 1].map some) := by decide
  refine ⟨ring, BlockStore.zeroed_reliable, ?_⟩
  intro drained
  obtain ⟨fuel, after, returns, empty, _⟩ := drained.drains BlockStore.zeroed_reliable
  obtain ⟨left, ran⟩ := syncBlocks_run fuel (dirtySample 2) [] [0, 1] ring returns
  have none := ran.ring.unique empty
  rw [List.map_eq_nil_iff, ran.empty rfl] at none
  exact absurd ((vanishes_none 1).mp ((vanishes_more 0 0).mp none)) (by decide)

end FileSystem

end MangoOS
