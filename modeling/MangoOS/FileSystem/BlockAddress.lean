/-
Which sectors `read_block` transfers (fs/ext2.c).

The first sector is a product of 32 bits divided by the size of a sector, and every transfer
has 8 sectors, whatever the size of a block.
-/

import MangoOS.FileSystem.Eviction

namespace MangoOS

namespace BlockStore

variable {store after : BlockStore} {blockSize bno bb : Nat}

/-- A buffer that `read_block` has to load: its first bytes are the sectors of the block, and
the bytes behind and in front of it stay. -/
structure Transferred (store : BlockStore) (blockSize bno : Nat) (bb : Nat)
    (after : BlockStore) : Prop where
  inside : (after.buffers bb).data.Agree
    (after.device.sectors (bno * (blockSize / sectorSize))) 0 blockSize
  outside : ∀ x : Int, x < 0 ∨ blockSize ≤ x →
    (after.buffers bb).data x = ((store.bgetBlock bno).2.buffers bb).data x

/-- `read_block` transfers the sectors of this block, for every cache and every disk. -/
structure AddressesBlock (blockSize bno : Nat) : Prop where
  serves : ∀ store : BlockStore, store.device.Reliable → (store.readBlock blockSize bno).1 ≠ none
  transfers : ∀ (store : BlockStore) bb after, store.readBlock blockSize bno = (some bb, after) →
    ((store.bgetBlock bno).2.buffers (store.bgetBlock bno).1).bState ≠ 1 →
      store.Transferred blockSize bno bb after

theorem refill_copies (store : BlockStore) (sector bb : Nat)
    (done : (store.refill sector bb).1 ≠ none) :
    ((store.refill sector bb).2.buffers bb).data =
      (store.buffers bb).data.copy 0 ((store.refill sector bb).2.device.sectors sector) 0 4096 := by
  funext x
  by_cases inside : 0 ≤ x ∧ x < 4096
  · rw [Region.copy_inside _ _ inside.1 (by omega), (refill_shows store sector bb).2.2 done x
      inside.1 inside.2]
    congr 1
    omega
  · rw [Region.copy_outside _ _ (by omega)]
    unfold refill at done ⊢
    by_cases failed : (store.fill sector bb).1 ≤ 0
    · rw [if_pos failed] at done
      exact absurd rfl done
    · have short : min (store.device.served store.device.transfers) 8 * sectorSize ≤ 4096 :=
        Nat.mul_le_mul_right sectorSize (Nat.min_le_right _ _)
      rw [if_neg failed, setBuffer_buffers, if_pos rfl]
      simp only [fill, Device.devRead, setBuffer_buffers, if_true]
      exact Region.copy_outside _ _ (by omega)

/-- What a load does to the data: 8 sectors go to the beginning. -/
theorem load_copies (stale : (store.buffers bb).bState ≠ 1)
    (done : (store.load blockSize bno bb).1 ≠ none) :
    ((store.load blockSize bno bb).2.buffers bb).data =
      (store.buffers bb).data.copy 0
        ((store.load blockSize bno bb).2.device.sectors (sectorOf blockSize bno)) 0 4096 := by
  rw [load_eq, if_neg stale] at done ⊢
  by_cases marked : (store.buffers bb).bState = 2
  · rw [if_pos marked] at done ⊢
    by_cases failed : (store.flush (sectorOf blockSize bno) bb).1 ≤ 0
    · rw [if_pos failed] at done
      exact absurd rfl done
    · rw [if_neg failed] at done ⊢
      exact refill_copies _ _ _ done
  · rw [if_neg marked] at done ⊢
    exact refill_copies _ _ _ done

theorem readBlock_copies (reads : store.readBlock blockSize bno = (some bb, after))
    (stale : ((store.bgetBlock bno).2.buffers (store.bgetBlock bno).1).bState ≠ 1) :
    (after.buffers bb).data = ((store.bgetBlock bno).2.buffers bb).data.copy 0
      (after.device.sectors (sectorOf blockSize bno)) 0 4096 := by
  have loads : (store.bgetBlock bno).2.load blockSize bno (store.bgetBlock bno).1 =
      (some bb, after) := reads
  have isBuffer : bb = (store.bgetBlock bno).1 := by
    rcases (load_stale stale).2.1 with none | isSome
    · rw [loads] at none
      cases none
    · rw [loads] at isSome
      exact Option.some.inj isSome
  have isDone : ((store.bgetBlock bno).2.load blockSize bno (store.bgetBlock bno).1).1 ≠ none := by
    rw [loads]
    exact Option.some_ne_none bb
  have copied := load_copies stale isDone
  rw [loads, ← isBuffer] at copied
  exact copied

/-- A machine with an empty cache over a disk. -/
def onDisk (bytes : ByteMemory) : BlockStore :=
  { zeroed with device := { zeroed.device with bytes := bytes } }

theorem AddressesBlock.onDisk (addresses : AddressesBlock blockSize bno) (bytes : ByteMemory) :
    (0 < blockSize → bytes (sectorOf blockSize bno * sectorSize) =
      bytes (bno * (blockSize / sectorSize) * sectorSize)) ∧
      (blockSize < 4096 → bytes (sectorOf blockSize bno * sectorSize + blockSize) = 0#8) := by
  have reliable : (BlockStore.onDisk bytes).device.Reliable := fun _ => Nat.le_refl 8
  have room : ((BlockStore.onDisk bytes).heads (hashBh bno)).size < 100 := by
    change (0 : Int) < 100
    decide
  have notFull : ¬ ((BlockStore.onDisk bytes).heads (hashBh bno)).size ≥ 100 := by omega
  have made : (BlockStore.onDisk bytes).made = 0 := rfl
  obtain ⟨after, reads, adds⟩ := readBlock_adds blockSize reliable room
  rw [made] at reads
  have shows := adds.data
  rw [made] at shows
  have transferred := addresses.transfers _ _ _ reads (by simp [bgetBlock, notFull])
  constructor
  · intro positive
    have first := transferred.inside 0 (Int.le_refl 0) (by omega)
    rw [shows 0 (Int.le_refl 0) (by decide)] at first
    unfold Device.sectors at first
    rw [adds.bytes, Int.toNat_zero, Nat.add_zero, Nat.add_zero] at first
    exact first
  · intro small
    have behind := transferred.outside blockSize (Or.inr (Int.le_refl _))
    rw [shows blockSize (Int.natCast_nonneg _) (by omega)] at behind
    have before : (((BlockStore.onDisk bytes).bgetBlock bno).2.buffers 0).data = fun _ => 0#8 := by
      simp [bgetBlock, BlockStore.onDisk, zeroed]
    rw [before] at behind
    exact behind

/-- For the sizes of a block that occur and sectors of 32 bits, `read_block` transfers the
block if and only if it has 8 sectors and lies in the first 4 GiB. -/
theorem addressesBlock_iff
    (valid : blockSize = 1024 ∨ blockSize = 2048 ∨ blockSize = 4096)
    (representable : bno * (blockSize / 512) + blockSize / 512 - 1 < 4294967296) :
    AddressesBlock blockSize bno ↔ blockSize = 4096 ∧ bno * 4096 < 4294967296 := by
  constructor
  · intro addresses
    have whole : blockSize = 4096 := by
      by_contra less
      have ones := (addresses.onDisk fun _ => 255#8).2 (by omega)
      revert ones
      decide
    rw [whole] at addresses
    have place := (addresses.onDisk fun a =>
      if a = sectorOf 4096 bno * sectorSize then 255#8 else 0#8).1 (by decide)
    rw [if_pos rfl] at place
    by_cases same : bno * (4096 / sectorSize) * sectorSize = sectorOf 4096 bno * sectorSize
    · unfold sectorOf sectorSize at same
      exact ⟨whole, by omega⟩
    · rw [if_neg same] at place
      exact absurd place (by decide)
  · rintro ⟨whole, low⟩
    subst whole
    have place : sectorOf 4096 bno = bno * (4096 / sectorSize) := by
      unfold sectorOf sectorSize
      omega
    constructor
    · intro store reliable none
      obtain ⟨bb, after, reads, _⟩ := readBlock_some 4096 bno reliable
      rw [reads] at none
      cases none
    · intro store bb after reads stale
      have copied := readBlock_copies reads stale
      rw [place] at copied
      constructor
      · intro x lower upper
        rw [copied, Region.copy_inside _ _ lower (by omega)]
        congr 1
        omega
      · intro x outside
        rw [copied]
        exact Region.copy_outside _ _ (by omega)

/-- Block 5 of 4096 bytes. -/
theorem addressesBlock_iff_low :
    AddressesBlock 4096 5 ↔ (4096 : Nat) = 4096 ∧ 5 * 4096 < 4294967296 :=
  addressesBlock_iff (Or.inr (Or.inr rfl)) (by decide)

/-- Block 1048576 of 4096 bytes begins at 4 GiB: the first block of the disk is read. -/
theorem addressesBlock_wraps : ¬ AddressesBlock 4096 1048576 := by
  intro addresses
  have place := (addresses.onDisk fun a => if a = 0 then 255#8 else 0#8).1 (by decide)
  revert place
  decide +kernel

end BlockStore

end MangoOS
