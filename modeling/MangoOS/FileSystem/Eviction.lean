/-
What happens to a buffer that is recycled.

`bget_block` picks the buffer that expires first but marks the last one of the list,
and `read_block` writes a marked buffer to the place of its new block.
-/

import MangoOS.FileSystem.Buffer
import Mathlib.Data.List.MinMax

namespace MangoOS

/-- A transfer of 8 sectors between a buffer and the disk. -/
inductive DiskOp
  | read (sector : Nat)
  | write (sector : Nat) (data : Region)

/-- The device behind a transfer. -/
def Device.perform (device : Device) : DiskOp → Device
  | .read sector => (device.devRead sector (fun _ => 0#8) 8).2.2
  | .write sector data => (device.devWrite sector data 8).2

namespace BlockStore

/-- The transfers `read_block` starts for the buffer it has got. -/
def loadTransfers (store : BlockStore) (blockSize bno bb : Nat) : List DiskOp :=
  let sector := sectorOf blockSize bno
  if (store.buffers bb).bState ≠ 1 then
    if (store.buffers bb).bState = 2 then
      .write sector (store.buffers bb).data ::
        (if (store.flush sector bb).1 ≤ 0 then [] else [.read sector])
    else [.read sector]
  else []

def readTransfers (store : BlockStore) (blockSize bno : Nat) : List DiskOp :=
  let (bb, store) := store.bgetBlock bno
  store.loadTransfers blockSize bno bb

variable {store : BlockStore} {blockSize bno bb : Nat} {modified : Nat → Prop}

theorem fill_device (store : BlockStore) (sector bb : Nat) :
    (store.fill sector bb).2.device = store.device.perform (.read sector) := rfl

theorem flush_device (store : BlockStore) (sector bb : Nat) :
    (store.flush sector bb).2.device =
      store.device.perform (.write sector (store.buffers bb).data) := rfl

/-- The end of `read_block`, which reads the block into the buffer. -/
def refill (store : BlockStore) (sector bb : Nat) : Option Nat × BlockStore :=
  if (store.fill sector bb).1 ≤ 0 then (none, (store.fill sector bb).2)
  else
    (some bb, (store.fill sector bb).2.setBuffer bb
      { (store.fill sector bb).2.buffers bb with bState := 1 })

theorem load_eq (store : BlockStore) (blockSize bno bb : Nat) :
    store.load blockSize bno bb =
      if (store.buffers bb).bState = 1 then (some bb, store)
      else if (store.buffers bb).bState = 2 then
        if (store.flush (sectorOf blockSize bno) bb).1 ≤ 0 then
          (none, (store.flush (sectorOf blockSize bno) bb).2)
        else (store.flush (sectorOf blockSize bno) bb).2.refill (sectorOf blockSize bno) bb
      else store.refill (sectorOf blockSize bno) bb := by
  unfold load
  by_cases valid : (store.buffers bb).bState = 1
  · simp only [valid, ne_eq, not_true_eq_false, if_false, if_true]
  · rw [if_pos valid, if_neg valid]
    by_cases marked : (store.buffers bb).bState = 2
    · rw [if_pos marked, if_pos marked]
      rfl
    · rw [if_neg marked, if_neg marked]
      exact if_neg (by decide)

theorem refill_device (store : BlockStore) (sector bb : Nat) :
    (store.refill sector bb).2.device = store.device.perform (.read sector) := by
  unfold refill
  by_cases failed : (store.fill sector bb).1 ≤ 0
  · rw [if_pos failed]
    exact fill_device store sector bb
  · rw [if_neg failed]
    exact fill_device store sector bb

theorem load_device (store : BlockStore) (blockSize bno bb : Nat) :
    (store.load blockSize bno bb).2.device =
      (store.loadTransfers blockSize bno bb).foldl Device.perform store.device := by
  rw [load_eq, loadTransfers]
  by_cases valid : (store.buffers bb).bState = 1
  · rw [if_pos valid, if_neg (not_not.mpr valid)]
    rfl
  · rw [if_neg valid, if_pos valid]
    by_cases marked : (store.buffers bb).bState = 2
    · rw [if_pos marked, if_pos marked]
      by_cases failed : (store.flush (sectorOf blockSize bno) bb).1 ≤ 0
      · rw [if_pos failed, if_pos failed]
        exact flush_device store _ bb
      · rw [if_neg failed, if_neg failed, refill_device, flush_device]
        rfl
    · rw [if_neg marked, if_neg marked, refill_device]
      rfl

theorem readBlock_transfers (store : BlockStore) (blockSize bno : Nat) :
    (store.readBlock blockSize bno).2.device =
      (store.readTransfers blockSize bno).foldl Device.perform store.device := by
  rw [← bgetBlock_device store bno]
  exact load_device _ blockSize bno _

/-! ### The buffer that is recycled -/

/-- The buffers of a block's bucket, the newest first. -/
def bucket (store : BlockStore) (bno : Nat) : List Nat := (store.heads (hashBh bno)).nodes

/-- The first of the buffers of a bucket that expire first. -/
def oldest (store : BlockStore) (bno : Nat) : Option Nat :=
  (store.bucket bno).argmin fun bb => (store.buffers bb).expTime

theorem bgetSearch_absent {buffers : Nat → Buffer} {nodes : List Nat}
    (absent : ∀ bl, bl ∈ nodes → ¬ ((buffers bl).blockNo = bno ∧ (buffers bl).bState = 1))
    (expBb last : Nat) :
    ∃ bb, nodes.foldl (List.argAux fun b c => (buffers b).expTime < (buffers c).expTime)
        (some expBb) = some bb ∧
      bgetSearch buffers bno nodes expBb last = .inr (bb, nodes.getLastD last) := by
  induction nodes generalizing expBb last with
  | nil => exact ⟨expBb, rfl, rfl⟩
  | cons bl nodes ih =>
      obtain ⟨bb, least, search⟩ := ih (fun other member => absent other (List.mem_cons_of_mem _ member))
        (if (buffers bl).expTime < (buffers expBb).expTime then bl else expBb) bl
      refine ⟨bb, ?_, ?_⟩
      · rw [List.foldl_cons, ← least]
        congr 1
        by_cases sooner : (buffers bl).expTime < (buffers expBb).expTime
        · simp only [List.argAux, if_pos sooner]
        · simp only [List.argAux, if_neg sooner]
      · rw [bgetSearch, if_neg (absent bl (List.mem_cons_self ..)), search, List.getLastD_cons]

/-- A miss finds the oldest buffer of the bucket, and the last one. -/
theorem bgetFound_absent (absent : ∀ bb, bb ∈ store.bucket bno → ¬ store.Valid bno bb)
    (some : store.bucket bno ≠ []) :
    ∃ bb last, store.oldest bno = .some bb ∧ (store.bucket bno).getLast? = .some last ∧
      store.bgetFound bno = .inr (bb, last) := by
  unfold oldest bgetFound
  unfold bucket at absent some ⊢
  generalize (store.heads (hashBh bno)).nodes = nodes at absent some ⊢
  cases nodes with
  | nil => exact False.elim (some rfl)
  | cons first rest =>
      obtain ⟨bb, least, search⟩ := bgetSearch_absent absent first first
      have irrefl : ¬ (store.buffers first).expTime < (store.buffers first).expTime :=
        Nat.lt_irrefl _
      rw [List.foldl_cons] at least
      simp only [List.argAux, if_neg irrefl] at least
      refine ⟨bb, rest.getLastD first, least, ?_, ?_⟩
      · rw [List.getLast?_cons, List.getLastD_eq_getLast?]
      · rw [List.getLastD_cons] at search
        exact search

/-- `victim` is the least recently used buffer of the bucket, goes to disk where it belongs
if it was modified, is the only one that does, and shows the new block.  Each transfer moves 8
sectors: the whole block, and nothing of another one or of memory behind the buffer. -/
structure Evicts (store : BlockStore) (modified : Nat → Prop) (blockSize bno victim : Nat)
    (result : Option Nat × BlockStore) (transfers : List DiskOp) : Prop where
  member : victim ∈ store.bucket bno
  least : ∀ other, other ∈ store.bucket bno →
    (store.buffers victim).expTime ≤ (store.buffers other).expTime
  recycled : (result.2.buffers victim).blockNo = bno ∧
    (result.1 = none ∨ result.1 = some victim)
  whole : transfers ≠ [] → blockSize = 8 * sectorSize
  saved : modified victim →
    .write (sectorOf blockSize (store.buffers victim).blockNo) (store.buffers victim).data ∈
      transfers
  own : ∀ sector data, .write sector data ∈ transfers →
    sector = sectorOf blockSize (store.buffers victim).blockNo ∧
      data = (store.buffers victim).data
  reloaded : result.1 ≠ none →
    .read (sectorOf blockSize bno) ∈ transfers ∧
      (result.2.buffers victim).data.Agree
        (result.2.device.sectors (sectorOf blockSize bno)) 0 4096

/-- Blocks have 8 sectors, and the oldest buffer is neither the last one nor marked nor valid, and
nobody has modified it; or it is marked and its block lies where the new one does. -/
def Evictable (store : BlockStore) (modified : Nat → Prop) (blockSize bno : Nat) : Prop :=
  blockSize = 8 * sectorSize ∧ ∃ bb, store.oldest bno = some bb ∧
    if (store.bucket bno).getLast? = some bb ∨ (store.buffers bb).bState = 2 then
      sectorOf blockSize (store.buffers bb).blockNo = sectorOf blockSize bno
    else (store.buffers bb).bState ≠ 1 ∧ ¬ modified bb

/-- A buffer that was filled shows what the disk holds. -/
theorem refill_shows (store : BlockStore) (sector bb : Nat) :
    ((store.refill sector bb).2.buffers bb).blockNo = (store.buffers bb).blockNo ∧
      ((store.refill sector bb).1 = none ∨ (store.refill sector bb).1 = some bb) ∧
      ((store.refill sector bb).1 ≠ none →
        ((store.refill sector bb).2.buffers bb).data.Agree
          ((store.refill sector bb).2.device.sectors sector) 0 4096) := by
  unfold refill
  by_cases failed : (store.fill sector bb).1 ≤ 0
  · rw [if_pos failed]
    refine ⟨?_, Or.inl rfl, fun done => absurd rfl done⟩
    simp [fill]
  · rw [if_neg failed]
    refine ⟨?_, Or.inr rfl, ?_⟩
    · simp [fill]
    · intro _ x above below
      have whole : min (store.device.served store.device.transfers) 8 = 8 := by
        by_contra short
        apply failed
        change Device.outcome (min (store.device.served store.device.transfers) 8) 8 ≤ 0
        unfold Device.outcome enodisk
        rw [if_pos (by omega)]
        decide
      have copied : ((store.fill sector bb).2.buffers bb).data x =
          store.device.sectors sector (0 + (x - 0)) := by
        simp only [fill, Device.devRead, whole, setBuffer_buffers, if_true]
        exact Region.copy_inside _ _ above below
      rw [setBuffer_buffers, if_pos rfl]
      change ((store.fill sector bb).2.buffers bb).data x = store.device.sectors sector x
      rw [copied]
      congr 1
      omega

theorem load_stale (stale : (store.buffers bb).bState ≠ 1) :
    ((store.load blockSize bno bb).2.buffers bb).blockNo = (store.buffers bb).blockNo ∧
      ((store.load blockSize bno bb).1 = none ∨ (store.load blockSize bno bb).1 = some bb) ∧
      ((store.load blockSize bno bb).1 ≠ none →
        .read (sectorOf blockSize bno) ∈ store.loadTransfers blockSize bno bb ∧
          ((store.load blockSize bno bb).2.buffers bb).data.Agree
            ((store.load blockSize bno bb).2.device.sectors (sectorOf blockSize bno)) 0 4096) := by
  rw [load_eq, loadTransfers, if_neg stale, if_pos stale]
  by_cases marked : (store.buffers bb).bState = 2
  · rw [if_pos marked, if_pos marked]
    by_cases failed : (store.flush (sectorOf blockSize bno) bb).1 ≤ 0
    · rw [if_pos failed]
      exact ⟨rfl, Or.inl rfl, fun done => absurd rfl done⟩
    · rw [if_neg failed, if_neg failed]
      obtain ⟨number, found, shows⟩ :=
        refill_shows (store.flush (sectorOf blockSize bno) bb).2 (sectorOf blockSize bno) bb
      exact ⟨number, found, fun done =>
        ⟨List.mem_cons_of_mem _ (List.mem_singleton_self _), shows done⟩⟩
  · rw [if_neg marked, if_neg marked]
    obtain ⟨number, found, shows⟩ := refill_shows store (sectorOf blockSize bno) bb
    exact ⟨number, found, fun done => ⟨List.mem_singleton_self _, shows done⟩⟩

/-- The writes `read_block` starts are those of the buffer it has got, to the new block. -/
theorem loadTransfers_write {sector : Nat} {data : Region}
    (wrote : .write sector data ∈ store.loadTransfers blockSize bno bb) :
    (store.buffers bb).bState = 2 ∧ sector = sectorOf blockSize bno ∧
      data = (store.buffers bb).data := by
  unfold loadTransfers at wrote
  by_cases valid : (store.buffers bb).bState = 1
  · rw [if_neg (not_not.mpr valid)] at wrote
    cases wrote
  · rw [if_pos valid] at wrote
    by_cases marked : (store.buffers bb).bState = 2
    · rw [if_pos marked] at wrote
      rcases List.mem_cons.mp wrote with isFirst | inRest
      · cases isFirst
        exact ⟨marked, rfl, rfl⟩
      · by_cases failed : (store.flush (sectorOf blockSize bno) bb).1 ≤ 0
        · rw [if_pos failed] at inRest
          cases inRest
        · rw [if_neg failed, List.mem_singleton] at inRest
          cases inRest
    · rw [if_neg marked, List.mem_singleton] at wrote
      cases wrote

theorem loadTransfers_marked (marked : (store.buffers bb).bState = 2) :
    .write (sectorOf blockSize bno) (store.buffers bb).data ∈
      store.loadTransfers blockSize bno bb := by
  unfold loadTransfers
  rw [if_pos (by omega), if_pos marked]
  exact List.mem_cons_self ..

/-- A buffer that is not valid is at least read. -/
theorem loadTransfers_stale (stale : (store.buffers bb).bState ≠ 1) :
    store.loadTransfers blockSize bno bb ≠ [] := by
  unfold loadTransfers
  rw [if_pos stale]
  by_cases marked : (store.buffers bb).bState = 2
  · rw [if_pos marked]
    exact List.cons_ne_nil _ _
  · rw [if_neg marked]
    exact List.cons_ne_nil _ _

section Recycled

variable {middle : BlockStore} {result : Option Nat × BlockStore} {transfers : List DiskOp}

theorem evicts_marked (member : bb ∈ store.bucket bno)
    (least : ∀ other, other ∈ store.bucket bno →
      (store.buffers bb).expTime ≤ (store.buffers other).expTime)
    (data : (middle.buffers bb).data = (store.buffers bb).data)
    (blockNo : (middle.buffers bb).blockNo = bno) (marked : (middle.buffers bb).bState = 2) :
    store.Evicts modified blockSize bno bb (middle.load blockSize bno bb)
        (middle.loadTransfers blockSize bno bb) ↔
      blockSize = 8 * sectorSize ∧
        sectorOf blockSize (store.buffers bb).blockNo = sectorOf blockSize bno := by
  have written : DiskOp.write (sectorOf blockSize bno) (middle.buffers bb).data ∈
      middle.loadTransfers blockSize bno bb := loadTransfers_marked marked
  constructor
  · intro evicts
    exact ⟨evicts.whole (List.ne_nil_of_mem written), (evicts.own _ _ written).1.symm⟩
  · rintro ⟨whole, same⟩
    obtain ⟨number, found, shows⟩ := load_stale (by omega : (middle.buffers bb).bState ≠ 1)
    refine ⟨member, least, ⟨number.trans blockNo, found⟩, fun _ => whole, ?_, ?_, shows⟩
    · intro _
      rw [same, ← data]
      exact written
    · intro sector buf wrote
      obtain ⟨_, isSector, isData⟩ := loadTransfers_write wrote
      rw [same, ← data]
      exact ⟨isSector, isData⟩

theorem evicts_unmarked (member : bb ∈ store.bucket bno)
    (least : ∀ other, other ∈ store.bucket bno →
      (store.buffers bb).expTime ≤ (store.buffers other).expTime)
    (blockNo : (middle.buffers bb).blockNo = bno) (unmarked : (middle.buffers bb).bState ≠ 2) :
    store.Evicts modified blockSize bno bb (middle.load blockSize bno bb)
        (middle.loadTransfers blockSize bno bb) ↔
      blockSize = 8 * sectorSize ∧ (middle.buffers bb).bState ≠ 1 ∧ ¬ modified bb := by
  constructor
  · intro evicts
    have stale : (middle.buffers bb).bState ≠ 1 := by
      intro valid
      have kept := evicts.reloaded
      rw [load_eq, if_pos valid, loadTransfers, if_neg (not_not.mpr valid)] at kept
      obtain ⟨reads, _⟩ := kept (Option.some_ne_none bb)
      cases reads
    refine ⟨evicts.whole (loadTransfers_stale stale), stale, ?_⟩
    intro changed
    exact unmarked (loadTransfers_write (evicts.saved changed)).1
  · rintro ⟨whole, stale, clean⟩
    obtain ⟨number, found, shows⟩ := load_stale stale
    refine ⟨member, least, ⟨number.trans blockNo, found⟩, fun _ => whole,
      fun changed => absurd changed clean, ?_, shows⟩
    intro sector buf wrote
    exact absurd (loadTransfers_write wrote).1 unmarked

end Recycled

/-- A recycled buffer is treated as it should be if and only if it is evictable. -/
theorem recycled_iff (linked : (store.heads (hashBh bno)).size = (store.bucket bno).length)
    (full : 100 ≤ (store.heads (hashBh bno)).size)
    (absent : ∀ bb, bb ∈ store.bucket bno → ¬ store.Valid bno bb) :
    store.Evicts modified blockSize bno (store.bgetBlock bno).1
        (store.readBlock blockSize bno) (store.readTransfers blockSize bno) ↔
      store.Evictable modified blockSize bno := by
  have some : store.bucket bno ≠ [] := by
    intro empty
    rw [empty, List.length_nil] at linked
    omega
  obtain ⟨bb, last, isOldest, isLast, miss⟩ := bgetFound_absent absent some
  obtain ⟨middle, got, keeps, blockNo, bState, device⟩ := bgetBlock_miss full miss
  have member : bb ∈ store.bucket bno := List.argmin_mem isOldest
  have least : ∀ other, other ∈ store.bucket bno →
      (store.buffers bb).expTime ≤ (store.buffers other).expTime := fun other inBucket =>
    List.le_of_mem_argmin (f := fun bb => (store.buffers bb).expTime) inBucket isOldest
  have renumbered : (middle.buffers bb).blockNo = bno := (blockNo bb).trans (if_pos rfl)
  have evictable : store.Evictable modified blockSize bno ↔
      blockSize = 8 * sectorSize ∧
        if last = bb ∨ (store.buffers bb).bState = 2 then
          sectorOf blockSize (store.buffers bb).blockNo = sectorOf blockSize bno
        else (store.buffers bb).bState ≠ 1 ∧ ¬ modified bb := by
    unfold Evictable
    rw [isOldest, isLast]
    constructor
    · rintro ⟨whole, other, isOther, condition⟩
      cases isOther
      exact ⟨whole, by simpa only [Option.some.injEq] using condition⟩
    · rintro ⟨whole, condition⟩
      refine ⟨whole, bb, rfl, ?_⟩
      simpa only [Option.some.injEq] using condition
  unfold readBlock readTransfers
  rw [got, evictable]
  by_cases marked : last = bb ∨ (store.buffers bb).bState = 2
  · have isMarked : (middle.buffers bb).bState = 2 := by
      rcases marked with same | isTwo
      · rw [bState, if_pos same.symm]
      · rw [bState, isTwo, ite_self]
    rw [if_pos marked]
    exact evicts_marked member least (keeps.data bb) renumbered isMarked
  · obtain ⟨notLast, unmarked⟩ := not_or.mp marked
    rw [if_neg (Ne.symm notLast)] at bState
    rw [if_neg marked, ← bState]
    rw [← bState] at unmarked
    exact evicts_unmarked member least renumbered unmarked

/-- The same as one result with the other way to a recycled buffer: a call of `bget_block`
alone never reads the new block. -/
theorem evicts_iff (linked : (store.heads (hashBh bno)).size = (store.bucket bno).length)
    (full : 100 ≤ (store.heads (hashBh bno)).size)
    (absent : ∀ bb, bb ∈ store.bucket bno → ¬ store.Valid bno bb) :
    (store.Evicts modified blockSize bno (store.bgetBlock bno).1
        (store.readBlock blockSize bno) (store.readTransfers blockSize bno) ↔
      store.Evictable modified blockSize bno) ∧
    ¬ store.Evicts modified blockSize bno (store.bgetBlock bno).1
        (some (store.bgetBlock bno).1, (store.bgetBlock bno).2) [] := by
  refine ⟨recycled_iff linked full absent, ?_⟩
  intro evicts
  obtain ⟨reads, _⟩ := evicts.reloaded (Option.some_ne_none _)
  cases reads

/-- A full bucket with the blocks 0, 10 and so on up to 990; buffer `k` has expired at time
`expTime k`. -/
def fullBucket (bState : Nat) (expTime : Nat → Nat) : BlockStore :=
  { zeroed with
    heads := fun hash =>
      if hash = 0 then { size := 100, nodes := List.range 100 } else { size := 0, nodes := [] }
    buffers := fun bb =>
      { blockNo := 10 * bb, data := fun _ => 1#8, bState := bState, expTime := expTime bb }
    made := 100 }

private theorem fullBucket_absent (bState : Nat) (expTime : Nat → Nat) :
    ∀ bb, bb ∈ (fullBucket bState expTime).bucket 5000 →
      ¬ (fullBucket bState expTime).Valid 5000 bb := by
  have isBucket : (fullBucket bState expTime).bucket 5000 = List.range 100 := by
    have isHash : hashBh 5000 = 0 := by decide +kernel
    unfold bucket fullBucket
    rw [isHash]
    rfl
  intro bb member ⟨number, _⟩
  rw [isBucket, List.mem_range] at member
  change 10 * bb = 5000 at number
  omega

/-- The first buffer is the oldest and has not been loaded. -/
theorem evicts_iff_clean :
    ((fullBucket 0 id).Evicts (fun _ => False) 4096 5000 ((fullBucket 0 id).bgetBlock 5000).1
        ((fullBucket 0 id).readBlock 4096 5000) ((fullBucket 0 id).readTransfers 4096 5000) ↔
      (fullBucket 0 id).Evictable (fun _ => False) 4096 5000) ∧
    ¬ (fullBucket 0 id).Evicts (fun _ => False) 4096 5000 ((fullBucket 0 id).bgetBlock 5000).1
        (some ((fullBucket 0 id).bgetBlock 5000).1, ((fullBucket 0 id).bgetBlock 5000).2) [] :=
  evicts_iff (by decide +kernel) (by decide +kernel) (fullBucket_absent 0 id)

/-- The last buffer is the oldest: block 990 goes over block 5000. -/
theorem evicts_overwrites :
    ¬ ∀ (store : BlockStore) (modified : Nat → Prop) (bno : Nat), store.device.Reliable →
      (store.heads (hashBh bno)).size = (store.bucket bno).length →
      100 ≤ (store.heads (hashBh bno)).size →
      (∀ bb, bb ∈ store.bucket bno → ¬ store.Valid bno bb) →
      store.Evicts modified 4096 bno (store.bgetBlock bno).1 (store.readBlock 4096 bno)
        (store.readTransfers 4096 bno) := by
  intro evicts
  have absent := fullBucket_absent 1 fun bb => 99 - bb
  have linked : ((fullBucket 1 fun bb => 99 - bb).heads (hashBh 5000)).size =
      ((fullBucket 1 fun bb => 99 - bb).bucket 5000).length := by decide +kernel
  have full : 100 ≤ ((fullBucket 1 fun bb => 99 - bb).heads (hashBh 5000)).size := by
    decide +kernel
  obtain ⟨_, bb, isOldest, condition⟩ := (recycled_iff linked full absent).mp
    (evicts (fullBucket 1 fun bb => 99 - bb) (fun _ => True) 5000 zeroed_reliable linked full
      absent)
  have last : (fullBucket 1 fun bb => 99 - bb).oldest 5000 = some 99 := by decide +kernel
  have ends : ((fullBucket 1 fun bb => 99 - bb).bucket 5000).getLast? = some 99 := by
    decide +kernel
  rw [last, Option.some.injEq] at isOldest
  rw [← isOldest, if_pos (Or.inl ends)] at condition
  revert condition
  decide +kernel

end BlockStore

end MangoOS
