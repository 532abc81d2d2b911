/-
The block cache: `bget_block` (fs/buffer.c) and `read_block` (fs/ext2.c).

A bucket below 100 buffers is never searched, every call adds a buffer to it.
A full bucket is searched; on a miss its least recently used buffer changes its
block number and keeps its data.
-/

import MangoOS.FileSystem.Device
import MangoOS.Library.Words

namespace MangoOS

/-- `block_buffer_t`; the dirty list links the nodes elsewhere. -/
structure Buffer where
  blockNo : Nat
  data : Region
  bState : Nat
  expTime : Nat

/-- `buffer_head_t`; the buffers of the list by number, first node first. -/
structure BufferHead where
  size : Int
  nodes : List Nat

/-- The cache and the partition under it. -/
structure BlockStore where
  device : Device
  /-- `bh_table`; the entries 0 to 9 are the table, the others lie in front of it. -/
  heads : Int → BufferHead
  buffers : Nat → Buffer
  /-- Buffers made so far; they are numbered in that order and never released. -/
  made : Nat
  /-- What `timestamp` shows at the `k`-th time it is read. -/
  clock : Nat → Nat
  looks : Nat
  /-- How many times the mutex of the cache is held. -/
  held : Nat

def bufferHashSize : Int := 10

@[irreducible] def hashBh (bno : Nat) : Int := (int32 bno).tmod bufferHashSize

namespace BlockStore

def setBuffer (store : BlockStore) (bb : Nat) (buffer : Buffer) : BlockStore :=
  { store with buffers := Function.update store.buffers bb buffer }

def setHead (store : BlockStore) (hash : Int) (head : BufferHead) : BlockStore :=
  { store with heads := Function.update store.heads hash head }

def bbInit (store : BlockStore) : BlockStore :=
  { store with
    heads := fun hash =>
      if 0 ≤ hash ∧ hash < bufferHashSize then { size := 0, nodes := [] } else store.heads hash
    made := 0 }

/-- The search through a full bucket: a valid buffer of the block, or else the buffer that
expires first and the last node. -/
def bgetSearch (buffers : Nat → Buffer) (bno : Nat) :
    (nodes : List Nat) → (expBb bb : Nat) → Nat ⊕ Nat × Nat
  | [], expBb, bb => .inr (expBb, bb)
  | bl :: nodes, expBb, _ =>
      if (buffers bl).blockNo = bno ∧ (buffers bl).bState = 1 then .inl bl
      else
        bgetSearch buffers bno nodes
          (if (buffers bl).expTime < (buffers expBb).expTime then bl else expBb) bl

/-- The search of the block's bucket; it starts with the first buffer as the oldest. -/
def bgetFound (store : BlockStore) (bno : Nat) : Nat ⊕ Nat × Nat :=
  let nodes := (store.heads (hashBh bno)).nodes
  bgetSearch store.buffers bno nodes (nodes.headD 0) (nodes.headD 0)

/-- A buffer gets the current time, which counts as one look at `timestamp`. -/
def stamp (store : BlockStore) (bb : Nat) : BlockStore :=
  let store := store.setBuffer bb
    { store.buffers bb with expTime := store.clock store.looks }
  { store with looks := store.looks + 1 }

/-- `bget_block`.  A hit in a full bucket returns with the mutex held. -/
def bgetBlock (store : BlockStore) (bno : Nat) : Nat × BlockStore :=
  let hash := hashBh bno
  if (store.heads hash).size ≥ 100 then
    match store.bgetFound bno with
    | .inl bb =>
        let store := store.stamp bb
        (bb, { store with held := store.held + 1 })
    | .inr (expBb, bb) =>
        let store := store.setBuffer expBb { store.buffers expBb with blockNo := bno }
        let store := store.stamp expBb
        (expBb, store.setBuffer bb { store.buffers bb with bState := 2 })
  else
    let bb := store.made
    let store := store.setBuffer bb { store.buffers bb with blockNo := bno, bState := 0 }
    let store := { store.stamp bb with made := store.made + 1 }
    let head := store.heads hash
    (bb, store.setHead hash { size := head.size + 1, nodes := bb :: head.nodes })

/-- The first sector of a block, computed in 32 bits. -/
def sectorOf (blockSize bno : Nat) : Nat := bno * blockSize % 4294967296 / sectorSize

/-- 8 sectors from the disk into the buffer. -/
def fill (store : BlockStore) (sector bb : Nat) : Int × BlockStore :=
  let (count, data, device) := store.device.devRead sector (store.buffers bb).data 8
  let store := { store with device := device }
  (count, store.setBuffer bb { store.buffers bb with data := data })

/-- 8 sectors from the buffer to the disk. -/
def flush (store : BlockStore) (sector bb : Nat) : Int × BlockStore :=
  let (count, device) := store.device.devWrite sector (store.buffers bb).data 8
  (count, { store with device := device })

/-- The part of `read_block` behind `bget_block`: a buffer in state 2 is written to the
place of its new block first. -/
def load (store : BlockStore) (blockSize bno bb : Nat) : Option Nat × BlockStore :=
  if (store.buffers bb).bState ≠ 1 then
    let (count, store) :=
      if (store.buffers bb).bState = 2 then store.flush (sectorOf blockSize bno) bb else (1, store)
    if count ≤ 0 then (none, store)
    else
      let (count, store) := store.fill (sectorOf blockSize bno) bb
      if count ≤ 0 then (none, store)
      else (some bb, store.setBuffer bb { store.buffers bb with bState := 1 })
  else (some bb, store)

/-- `read_block`; `none` is NULL. -/
def readBlock (store : BlockStore) (blockSize bno : Nat) : Option Nat × BlockStore :=
  let (bb, store) := store.bgetBlock bno
  store.load blockSize bno bb

/-! ### What the edits leave alone -/

section Edits

variable (store : BlockStore) (bb other : Nat) (buffer : Buffer) (hash : Int) (head : BufferHead)

@[simp] theorem setBuffer_buffers : (store.setBuffer bb buffer).buffers other =
    if other = bb then buffer else store.buffers other :=
  Function.update_apply store.buffers bb buffer other

@[simp] theorem setBuffer_device : (store.setBuffer bb buffer).device = store.device := rfl
@[simp] theorem setBuffer_heads : (store.setBuffer bb buffer).heads = store.heads := rfl
@[simp] theorem setBuffer_made : (store.setBuffer bb buffer).made = store.made := rfl

@[simp] theorem setHead_heads (target : Int) : (store.setHead hash head).heads target =
    if target = hash then head else store.heads target :=
  Function.update_apply store.heads hash head target

@[simp] theorem setHead_device : (store.setHead hash head).device = store.device := rfl
@[simp] theorem setHead_buffers : (store.setHead hash head).buffers = store.buffers := rfl
@[simp] theorem setHead_made : (store.setHead hash head).made = store.made := rfl

@[simp] theorem stamp_device : (store.stamp bb).device = store.device := rfl
@[simp] theorem stamp_heads : (store.stamp bb).heads = store.heads := rfl
@[simp] theorem stamp_made : (store.stamp bb).made = store.made := rfl

@[simp] theorem stamp_blockNo :
    ((store.stamp bb).buffers other).blockNo = (store.buffers other).blockNo := by
  by_cases same : other = bb <;> simp [stamp, same]

@[simp] theorem stamp_data :
    ((store.stamp bb).buffers other).data = (store.buffers other).data := by
  by_cases same : other = bb <;> simp [stamp, same]

@[simp] theorem stamp_bState :
    ((store.stamp bb).buffers other).bState = (store.buffers other).bState := by
  by_cases same : other = bb <;> simp [stamp, same]

theorem stamp_other (different : other ≠ bb) :
    (store.stamp bb).buffers other = store.buffers other := by
  simp [stamp, different]

end Edits

theorem hashBh_range {bno : Nat} (small : bno < 2147483648) :
    0 ≤ hashBh bno ∧ hashBh bno < bufferHashSize := by
  unfold hashBh
  rw [int32_of_range (by omega) (by omega)]
  exact ⟨Int.tmod_nonneg _ (Int.natCast_nonneg bno), Int.tmod_lt_of_pos _ (by decide)⟩

/-! ### The search -/

variable {store after : BlockStore} {blockSize bno bb : Nat}

/-- A valid buffer of the block. -/
def Valid (store : BlockStore) (bno bb : Nat) : Prop :=
  (store.buffers bb).blockNo = bno ∧ (store.buffers bb).bState = 1

theorem bgetSearch_hit {buffers : Nat → Buffer} {nodes : List Nat} {expBb last found : Nat}
    (hit : bgetSearch buffers bno nodes expBb last = .inl found) :
    found ∈ nodes ∧ (buffers found).blockNo = bno ∧ (buffers found).bState = 1 := by
  induction nodes generalizing expBb last with
  | nil => cases hit
  | cons bl nodes ih =>
      rw [bgetSearch] at hit
      by_cases valid : (buffers bl).blockNo = bno ∧ (buffers bl).bState = 1
      · rw [if_pos valid, Sum.inl.injEq] at hit
        subst hit
        exact ⟨List.mem_cons_self .., valid⟩
      · rw [if_neg valid] at hit
        obtain ⟨member, isValid⟩ := ih hit
        exact ⟨List.mem_cons_of_mem _ member, isValid⟩

theorem bgetSearch_miss {buffers : Nat → Buffer} {nodes : List Nat} {expBb last : Nat}
    {found : Nat × Nat} (miss : bgetSearch buffers bno nodes expBb last = .inr found) :
    (found.1 = expBb ∨ found.1 ∈ nodes) ∧ (found.2 = last ∨ found.2 ∈ nodes) ∧
      ∀ bl, bl ∈ nodes → ¬ ((buffers bl).blockNo = bno ∧ (buffers bl).bState = 1) := by
  induction nodes generalizing expBb last with
  | nil =>
      rw [bgetSearch, Sum.inr.injEq] at miss
      subst miss
      exact ⟨Or.inl rfl, Or.inl rfl, fun bl member => by cases member⟩
  | cons bl nodes ih =>
      rw [bgetSearch] at miss
      by_cases valid : (buffers bl).blockNo = bno ∧ (buffers bl).bState = 1
      · rw [if_pos valid] at miss
        cases miss
      · rw [if_neg valid] at miss
        obtain ⟨expires, ends, none⟩ := ih miss
        refine ⟨?_, ?_, ?_⟩
        · rcases expires with same | member
          · by_cases sooner : (buffers bl).expTime < (buffers expBb).expTime
            · rw [if_pos sooner] at same
              exact Or.inr (same ▸ List.mem_cons_self ..)
            · rw [if_neg sooner] at same
              exact Or.inl same
          · exact Or.inr (List.mem_cons_of_mem _ member)
        · rcases ends with same | member
          · exact Or.inr (same ▸ List.mem_cons_self ..)
          · exact Or.inr (List.mem_cons_of_mem _ member)
        · intro other member
          rcases List.mem_cons.mp member with isFirst | inRest
          · exact isFirst ▸ valid
          · exact none other inRest

/-- A machine with an empty cache over a disk of zeros. -/
def zeroed : BlockStore where
  device := { bytes := fun _ => 0#8, served := fun _ => 8, transfers := 0 }
  heads := fun _ => { size := 0, nodes := [] }
  buffers := fun _ => { blockNo := 0, data := fun _ => 0#8, bState := 0, expTime := 0 }
  made := 0
  clock := fun k => k
  looks := 0
  held := 0

theorem zeroed_reliable : zeroed.device.Reliable :=
  fun _ => Nat.le_refl 8

/-! ### What `read_block` does on a reliable disk -/

theorem load_valid (valid : (store.buffers bb).bState = 1) :
    store.load blockSize bno bb = (some bb, store) := by
  simp [load, valid]

theorem load_some (blockSize bno bb : Nat) (reliable : store.device.Reliable) :
    ∃ after, store.load blockSize bno bb = (some bb, after) ∧ after.device.Reliable := by
  have written := reliable.devWrite_fst (sectorOf blockSize bno) (store.buffers bb).data
    (Nat.le_refl 8)
  refine ⟨(store.load blockSize bno bb).2, ?_, ?_⟩
  · by_cases valid : (store.buffers bb).bState = 1
    · simp [load, valid]
    · by_cases marked : (store.buffers bb).bState = 2
      · simp [load, marked, flush, fill, written, reliable.devWrite.devRead_eq]
      · simp [load, valid, marked, fill, reliable.devRead_eq]
  · intro k
    by_cases valid : (store.buffers bb).bState = 1
    · simpa [load, valid] using reliable k
    · by_cases marked : (store.buffers bb).bState = 2
      · simpa [load, marked, flush, fill, written, reliable.devWrite.devRead_eq]
          using reliable k
      · simpa [load, valid, marked, fill, reliable.devRead_eq] using reliable k

theorem bgetBlock_device (store : BlockStore) (bno : Nat) :
    (store.bgetBlock bno).2.device = store.device := by
  by_cases full : (store.heads (hashBh bno)).size ≥ 100
  · cases found : store.bgetFound bno with
    | inl bb => simp [bgetBlock, full, found]
    | inr oldest => simp [bgetBlock, full, found]
  · simp [bgetBlock, full]

theorem readBlock_some (blockSize bno : Nat) (reliable : store.device.Reliable) :
    ∃ bb after, store.readBlock blockSize bno = (some bb, after) ∧ after.device.Reliable := by
  rw [← bgetBlock_device store bno] at reliable
  exact ⟨(store.bgetBlock bno).1, load_some blockSize bno _ reliable⟩

/-- The bucket had room: a new buffer holds what the disk holds. -/
structure Adds (store after : BlockStore) (blockSize bno : Nat) : Prop where
  buffer : (after.buffers store.made).blockNo = bno ∧ (after.buffers store.made).bState = 1
  data : (after.buffers store.made).data.Agree
    (store.device.sectors (sectorOf blockSize bno)) 0 4096
  others : ∀ bb, bb ≠ store.made → after.buffers bb = store.buffers bb
  made : after.made = store.made + 1
  head : after.heads (hashBh bno) =
    { size := (store.heads (hashBh bno)).size + 1
      nodes := store.made :: (store.heads (hashBh bno)).nodes }
  heads : ∀ hash, hash ≠ hashBh bno → after.heads hash = store.heads hash
  bytes : after.device.bytes = store.device.bytes
  reliable : after.device.Reliable

theorem readBlock_adds (blockSize : Nat) (reliable : store.device.Reliable)
    (room : (store.heads (hashBh bno)).size < 100) :
    ∃ after, store.readBlock blockSize bno = (some store.made, after) ∧
      Adds store after blockSize bno := by
  have notFull : ¬ (store.heads (hashBh bno)).size ≥ 100 := by omega
  refine ⟨(store.readBlock blockSize bno).2, ?_, ?_⟩
  · simp [readBlock, load, bgetBlock, notFull, fill, reliable.devRead_eq]
  · constructor
    · simp [readBlock, load, bgetBlock, notFull, fill, reliable.devRead_eq]
    · intro x lower upper
      have inside : x < 8 * sectorSize := by
        change x < 4096
        exact upper
      simp [readBlock, load, bgetBlock, notFull, fill, reliable.devRead_eq, Region.copy, lower,
        inside]
    · intro bb different
      simp [readBlock, load, bgetBlock, notFull, fill, reliable.devRead_eq, different,
        stamp_other]
    · simp [readBlock, load, bgetBlock, notFull, fill, reliable.devRead_eq]
    · simp [readBlock, load, bgetBlock, notFull, fill, reliable.devRead_eq]
    · intro hash different
      simp [readBlock, load, bgetBlock, notFull, fill, reliable.devRead_eq, different]
    · simp [readBlock, load, bgetBlock, notFull, fill, reliable.devRead_eq]
    · simpa [readBlock, load, bgetBlock, notFull, fill, reliable.devRead_eq, Device.Reliable]
        using reliable

/-- The next `k` calls find room in their buckets and the disk reliable. -/
structure Roomy (store : BlockStore) (k : Nat) : Prop where
  reliable : store.device.Reliable
  room : ∀ hash, (store.heads hash).size + k ≤ 100

theorem Roomy.mono {k fewer : Nat} (roomy : store.Roomy k) (le : fewer ≤ k) :
    store.Roomy fewer := by
  refine ⟨roomy.reliable, ?_⟩
  intro hash
  have room := roomy.room hash
  omega

theorem Roomy.read {k : Nat} (roomy : store.Roomy (k + 1)) (bno : Nat) :
    ∃ after, store.readBlock 4096 bno = (some store.made, after) ∧
      (after.buffers store.made).blockNo = bno ∧
      (after.buffers store.made).data.Agree (store.device.sectors (sectorOf 4096 bno)) 0 4096 ∧
      after.device.bytes = store.device.bytes ∧ after.Roomy k := by
  have free := roomy.room (hashBh bno)
  have less : (store.heads (hashBh bno)).size < 100 := by omega
  obtain ⟨after, reads, adds⟩ := readBlock_adds 4096 roomy.reliable less
  refine ⟨after, reads, adds.buffer.1, adds.data, adds.bytes, adds.reliable, ?_⟩
  intro hash
  by_cases same : hash = hashBh bno
  · rw [same, adds.head]
    change (store.heads (hashBh bno)).size + 1 + (k : Int) ≤ 100
    omega
  · rw [adds.heads hash same]
    have other := roomy.room hash
    omega

/-- Some buffers' states, times and block numbers aside, nothing has changed. -/
structure Keeps (store after : BlockStore) : Prop where
  data : ∀ bb, (after.buffers bb).data = (store.buffers bb).data
  bState : ∀ bb, (after.buffers bb).bState = 1 ∨ (after.buffers bb).bState = 2 ∨
    (after.buffers bb).bState = (store.buffers bb).bState
  made : after.made = store.made
  heads : after.heads = store.heads

theorem Keeps.trans {middle : BlockStore} (first : Keeps store middle)
    (second : Keeps middle after) : Keeps store after := by
  constructor
  · intro bb
    rw [second.data, first.data]
  · intro bb
    rcases second.bState bb with valid | marked | same
    · exact Or.inl valid
    · exact Or.inr (Or.inl marked)
    · rw [same]
      exact first.bState bb
  · rw [second.made, first.made]
  · rw [second.heads, first.heads]

/-- Writing a buffer out and reading it back leaves its data. -/
private theorem copy_devWrite (reliable : store.device.Reliable) (sector : Nat)
    (data : Region) :
    data.copy 0 ((store.device.devWrite sector data 8).2.sectors sector) 0
      (8 * sectorSize : Nat) = data := by
  funext x
  by_cases inside : 0 ≤ x ∧ x < 0 + (8 * sectorSize : Nat)
  · obtain ⟨lower, upper⟩ := inside
    rw [Region.copy_inside _ _ lower upper]
    have scaled : (sector + 8) * sectorSize = sector * sectorSize + 8 * sectorSize :=
      Nat.add_mul sector 8 sectorSize
    change (store.device.devWrite sector data 8).2.bytes _ = _
    rw [reliable.devWrite_inside (by decide) (by omega) (by omega)]
    congr 1
    omega
  · exact Region.copy_outside _ _ (by omega)

theorem load_marked (blockSize bno : Nat) (reliable : store.device.Reliable)
    (marked : (store.buffers bb).bState = 2) :
    ∃ after, store.load blockSize bno bb = (some bb, after) ∧ Keeps store after ∧
      (∀ other, (after.buffers other).blockNo = (store.buffers other).blockNo) ∧
      after.device.Reliable := by
  have written := reliable.devWrite_fst (sectorOf blockSize bno) (store.buffers bb).data
    (Nat.le_refl 8)
  have back := copy_devWrite reliable (sectorOf blockSize bno) (store.buffers bb).data
  refine ⟨(store.load blockSize bno bb).2, ?_, ?_, ?_, ?_⟩
  · simp [load, marked, flush, fill, written, reliable.devWrite.devRead_eq]
  · constructor
    · intro other
      by_cases same : other = bb
      · simpa [load, marked, flush, fill, written, reliable.devWrite.devRead_eq, same] using back
      · simp [load, marked, flush, fill, written, reliable.devWrite.devRead_eq, same]
    · intro other
      by_cases same : other = bb
      · simp [load, marked, flush, fill, written, reliable.devWrite.devRead_eq, same]
      · simp [load, marked, flush, fill, written, reliable.devWrite.devRead_eq, same]
    · simp [load, marked, flush, fill, written, reliable.devWrite.devRead_eq]
    · simp [load, marked, flush, fill, written, reliable.devWrite.devRead_eq]
  · intro other
    by_cases same : other = bb
    · simp [load, marked, flush, fill, written, reliable.devWrite.devRead_eq, same]
    · simp [load, marked, flush, fill, written, reliable.devWrite.devRead_eq, same]
  · intro k
    simpa [load, marked, flush, fill, written, reliable.devWrite.devRead_eq] using reliable k

/-- The bucket was full and held a valid buffer of the block. -/
theorem readBlock_finds (blockSize : Nat) (full : 100 ≤ (store.heads (hashBh bno)).size)
    (hit : store.bgetFound bno = .inl bb) :
    ∃ after, store.readBlock blockSize bno = (some bb, after) ∧ Keeps store after ∧
      (∀ other, (after.buffers other).blockNo = (store.buffers other).blockNo ∧
        (after.buffers other).bState = (store.buffers other).bState) ∧
      after.device = store.device := by
  obtain ⟨_, _, valid⟩ := bgetSearch_hit hit
  refine ⟨(store.readBlock blockSize bno).2, ?_, ?_, ?_, ?_⟩
  · simp [readBlock, load, bgetBlock, full, hit, valid]
  · constructor
    · intro other
      simp [readBlock, load, bgetBlock, full, hit, valid]
    · intro other
      simp [readBlock, load, bgetBlock, full, hit, valid]
    · simp [readBlock, load, bgetBlock, full, hit, valid]
    · simp [readBlock, load, bgetBlock, full, hit, valid]
  · intro other
    simp [readBlock, load, bgetBlock, full, hit, valid]
  · simp [readBlock, load, bgetBlock, full, hit, valid]

theorem bgetBlock_miss {last : Nat} (full : 100 ≤ (store.heads (hashBh bno)).size)
    (miss : store.bgetFound bno = .inr (bb, last)) :
    ∃ middle, store.bgetBlock bno = (bb, middle) ∧ Keeps store middle ∧
      (∀ other, (middle.buffers other).blockNo =
        if other = bb then bno else (store.buffers other).blockNo) ∧
      (middle.buffers bb).bState = (if bb = last then 2 else (store.buffers bb).bState) ∧
      middle.device = store.device := by
  refine ⟨(store.bgetBlock bno).2, ?_, ?_, ?_, ?_, ?_⟩
  · simp [bgetBlock, full, miss]
  · constructor
    · intro other
      by_cases isLast : other = last
      · by_cases same : last = bb
        · simp [bgetBlock, full, miss, isLast, same]
        · simp [bgetBlock, full, miss, isLast, same]
      · by_cases same : other = bb
        · subst same
          simp [bgetBlock, full, miss, isLast]
        · simp [bgetBlock, full, miss, isLast, same]
    · intro other
      by_cases isLast : other = last
      · simp [bgetBlock, full, miss, isLast]
      · by_cases same : other = bb
        · subst same
          simp [bgetBlock, full, miss, isLast]
        · simp [bgetBlock, full, miss, isLast, same]
    · simp [bgetBlock, full, miss]
    · simp [bgetBlock, full, miss]
  · intro other
    by_cases isLast : other = last
    · by_cases same : last = bb
      · simp [bgetBlock, full, miss, isLast, same]
      · simp [bgetBlock, full, miss, isLast, same]
    · by_cases same : other = bb
      · subst same
        simp [bgetBlock, full, miss, isLast]
      · simp [bgetBlock, full, miss, isLast, same]
  · by_cases isLast : bb = last
    · simp [bgetBlock, full, miss, isLast]
    · simp [bgetBlock, full, miss, isLast]
  · simp [bgetBlock, full, miss]

/-- The bucket was full and did not hold the block: `bb` gets its number and keeps its
data, which go over the block if `bb` was marked. -/
theorem readBlock_recycles (blockSize : Nat) {last : Nat} (reliable : store.device.Reliable)
    (full : 100 ≤ (store.heads (hashBh bno)).size)
    (miss : store.bgetFound bno = .inr (bb, last))
    (loaded : (store.buffers bb).bState = 1 ∨ (store.buffers bb).bState = 2) :
    ∃ after, store.readBlock blockSize bno = (some bb, after) ∧ Keeps store after ∧
      (∀ other, (after.buffers other).blockNo =
        if other = bb then bno else (store.buffers other).blockNo) ∧
      after.device.Reliable := by
  obtain ⟨middle, got, keeps, blockNo, bState, device⟩ := bgetBlock_miss full miss
  have reads : store.readBlock blockSize bno = middle.load blockSize bno bb := by
    unfold readBlock
    rw [got]
  rw [reads]
  rw [← device] at reliable
  by_cases marked : (middle.buffers bb).bState = 2
  · obtain ⟨after, loads, keepsMore, sameNo, still⟩ :=
      load_marked blockSize bno reliable marked
    refine ⟨after, loads, keeps.trans keepsMore, ?_, still⟩
    intro other
    rw [sameNo, blockNo]
  · have valid : (middle.buffers bb).bState = 1 := by
      by_cases isLast : bb = last
      · rw [if_pos isLast] at bState
        exact False.elim (marked bState)
      · rw [if_neg isLast] at bState
        rw [bState] at marked ⊢
        exact loaded.resolve_right marked
    exact ⟨middle, load_valid valid, keeps, blockNo, reliable⟩

end BlockStore

end MangoOS
