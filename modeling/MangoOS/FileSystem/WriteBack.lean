/-
A window of inodes is loaded, written back and loaded again: `iget_inode` and `write_inode`
(fs/ext2.c) against the disk.

The cache has room and the disk is reliable, so `read_block` shows what the disk holds.
Every round of `write_inode` stores into one block all inodes that lie in it.
-/

import MangoOS.FileSystem.CachedLookup
import MangoOS.FileSystem.InodeCodec

namespace MangoOS

open BlockStore (sectorOf)

/-- The first `n` slots of a block, stored one after the other. -/
def storeSlots (inodeSize : Nat) (inodeData : Nat → Inode) (data : Region) : Nat → Region
  | 0 => data
  | n + 1 =>
      storeInode (storeSlots inodeSize inodeData data n) (n * inodeSize) (inodeData n)

section Slots

variable {inodeSize n slot : Nat} {inodeData : Nat → Inode} {data other : Region} {x : Int}

/-- The byte that is stored only depends on the byte that was there. -/
theorem storeInode_congr {step : Nat} {inode : Inode} (same : data x = other x) :
    storeInode data step inode x = storeInode other step inode x := by
  have half : ∀ (a b : Region) (offset : Int) (value : Nat), a x = b x →
      a.setHalf offset value x = b.setHalf offset value x := by
    intro a b offset value agree
    unfold Region.setHalf
    rw [agree]
  have word : ∀ (a b : Region) (offset : Int) (value : Nat), a x = b x →
      a.setWord offset value x = b.setWord offset value x :=
    fun a b offset value agree => half _ _ _ _ (half a b offset value agree)
  have head : storeHead data step inode x = storeHead other step inode x :=
    word _ _ _ _ (word _ _ _ _ (word _ _ _ _ (word _ _ _ _ (half _ _ _ _ (half _ _ _ _
      (word _ _ _ _ same))))))
  have blocks : ∀ n, storeBlocks (storeHead data step inode) step inode.iBlock n x =
      storeBlocks (storeHead other step inode) step inode.iBlock n x := by
    intro n
    induction n with
    | zero => exact head
    | succ n ih =>
        rw [storeBlocks_succ, storeBlocks_succ]
        exact word _ _ _ _ ih
  exact blocks 15

theorem storeSlots_congr (same : data x = other x) :
    storeSlots inodeSize inodeData data n x = storeSlots inodeSize inodeData other n x := by
  induction n with
  | zero => exact same
  | succ n ih => exact storeInode_congr ih

theorem storeSlots_outside (large : 100 ≤ inodeSize) (outside : x < 0 ∨ (n * inodeSize : Nat) ≤ x) :
    storeSlots inodeSize inodeData data n x = data x := by
  induction n with
  | zero => rfl
  | succ n ih =>
      rw [Nat.succ_mul] at outside
      rw [storeSlots, storeInode_outside (by omega)]
      exact ih (by omega)

theorem storeSlots_inside (large : 100 ≤ inodeSize) (below : slot < n)
    (lower : (slot * inodeSize : Nat) ≤ x) (upper : x < (slot * inodeSize + inodeSize : Nat)) :
    storeSlots inodeSize inodeData data n x =
      storeInode data (slot * inodeSize) (inodeData slot) x := by
  induction n with
  | zero => exact absurd below (Nat.not_lt_zero slot)
  | succ n ih =>
      rw [storeSlots]
      by_cases last : slot = n
      · subst last
        exact storeInode_congr (storeSlots_outside large (Or.inr lower))
      · have before : slot < n := by omega
        have scaled := Nat.mul_le_mul_right inodeSize (Nat.succ_le_of_lt before)
        rw [Nat.succ_mul] at scaled
        rw [storeInode_outside (by omega)]
        exact ih before

end Slots

namespace InodeShape

/-- What block `j` of the window holds on the disk. -/
def content (shape : InodeShape) (store : BlockStore) (j : Nat) : Region :=
  store.device.sectors (sectorOf shape.blockSize (shape.block j))

/-- The byte of the disk where block `j` of the window starts. -/
def place (shape : InodeShape) (j : Nat) : Nat :=
  sectorOf shape.blockSize (shape.block j) * sectorSize

/-- What block `j` holds once its inodes are stored. -/
def stored (shape : InodeShape) (store : BlockStore) (inodeData : Nat → Inode) (j : Nat) :
    Region :=
  storeSlots shape.inodeSize (fun slot => inodeData (j * shape.num + slot))
    (shape.content store j) shape.num

/-- Inodes fill blocks of 4096 bytes. -/
structure Whole (shape : InodeShape) : Prop where
  blockSize : shape.blockSize = 4096
  divides : shape.inodeSize ∣ 4096
  inodeSize : 100 ≤ shape.inodeSize

variable {shape : InodeShape} {store after : BlockStore} {inodeData : Nat → Inode}
variable {j k q : Nat}

theorem Whole.slots (whole : shape.Whole) : shape.num * shape.inodeSize = 4096 := by
  unfold num
  rw [whole.blockSize]
  exact Nat.div_mul_cancel whole.divides

theorem Whole.num_pos (whole : shape.Whole) : 0 < shape.num := by
  have slots := whole.slots
  rcases Nat.eq_zero_or_pos shape.num with zero | positive
  · rw [zero, Nat.zero_mul] at slots
    cases slots
  · exact positive

theorem Whole.total_eq (whole : shape.Whole) : shape.total = 5 * shape.num := by
  have size := whole.inodeSize
  unfold total
  rw [← whole.slots, Nat.mul_comm, ← Nat.mul_assoc]
  exact Nat.mul_div_cancel _ (by omega)

theorem Whole.place_apart (whole : shape.Whole) {i j : Nat} (first : i < 5) (second : j < 5)
    (different : i ≠ j) :
    shape.place i + 4096 ≤ shape.place j ∨ shape.place j + 4096 ≤ shape.place i := by
  unfold place sectorOf block sectorSize
  rw [whole.blockSize]
  omega

theorem place_add (j x : Nat) :
    shape.content store j x = store.device.bytes (shape.place j + x) := rfl

/-! ### One block -/

/-- Block `j` is the only one that has changed, and it holds the inodes of `inodeData`. -/
structure BlockStored (shape : InodeShape) (store after : BlockStore) (inodeData : Nat → Inode)
    (j k : Nat) : Prop where
  roomy : after.Roomy k
  inside : ∀ x, x < 4096 →
    after.device.bytes (shape.place j + x) = shape.stored store inodeData j x
  outside : ∀ a, a < shape.place j ∨ shape.place j + 4096 ≤ a →
    after.device.bytes a = store.device.bytes a

/-- Block `j` is in the buffer `bb` with its first `q` inodes stored. -/
structure InBlock (shape : InodeShape) (start store : BlockStore) (inodeData : Nat → Inode)
    (j q bb k : Nat) : Prop where
  roomy : store.Roomy k
  bytes : store.device.bytes = start.device.bytes
  blockNo : (store.buffers bb).blockNo = shape.block j
  data : (store.buffers bb).data.Agree
    (storeSlots shape.inodeSize (fun slot => inodeData (j * shape.num + slot))
      (shape.content start j) q) 0 4096

variable {start mid : BlockStore} {bb step left : Nat}

theorem InBlock.put (inBlock : InBlock shape start mid inodeData j q bb k) :
    InBlock shape start
      (mid.setBuffer bb
        { mid.buffers bb with
          data := storeInode (mid.buffers bb).data (q * shape.inodeSize)
            (inodeData (j * shape.num + q)) })
      inodeData j (q + 1) bb k := by
  refine ⟨⟨inBlock.roomy.reliable, inBlock.roomy.room⟩, inBlock.bytes, ?_, ?_⟩
  · rw [BlockStore.setBuffer_buffers, if_pos rfl]
    exact inBlock.blockNo
  · rw [BlockStore.setBuffer_buffers, if_pos rfl]
    intro x lower upper
    exact storeInode_congr (inBlock.data x lower upper)

/-- The buffer with all inodes of the block goes to its place. -/
theorem InBlock.flush
    (inBlock : InBlock shape start mid inodeData j shape.num bb k) :
    BlockStored shape start
      (mid.flush (sectorOf shape.blockSize (mid.buffers bb).blockNo) bb).2 inodeData j k := by
  have reliable := inBlock.roomy.reliable
  have ends : (sectorOf shape.blockSize (shape.block j) + 8) * sectorSize =
      shape.place j + 4096 := by
    unfold place sectorSize
    omega
  rw [inBlock.blockNo]
  refine ⟨⟨reliable.devWrite, inBlock.roomy.room⟩, ?_, ?_⟩
  · intro x below
    change (mid.device.devWrite _ _ 8).2.bytes _ = _
    have lower : sectorOf shape.blockSize (shape.block j) * sectorSize ≤ shape.place j + x :=
      Nat.le_add_right _ x
    rw [reliable.devWrite_inside (Nat.le_refl 8) lower (by omega)]
    have offset : ((shape.place j + x : Nat) : Int) -
        (sectorOf shape.blockSize (shape.block j) * sectorSize : Nat) = x := by
      unfold place
      omega
    rw [offset]
    exact inBlock.data x (by omega) (by omega)
  · intro a outside
    change (mid.device.devWrite _ _ 8).2.bytes a = _
    rw [Device.devWrite_outside (by rw [ends]; exact outside), inBlock.bytes]

/-- From an inode of block `j` on, the rounds up to the end of the block. -/
theorem writeLoop_inBlock (whole : shape.Whole) (d rest : Nat) {bb₀ step₀ : Nat}
    (last : q + d + 1 = shape.num)
    (starts : shape.startRound store (j * shape.num + q) bb₀ step₀ =
      (some (bb, q * shape.inodeSize), mid))
    (inBlock : InBlock shape start mid inodeData j q bb k) :
    ∃ after bb' step', shape.writeLoop inodeData (d + 1 + rest) (j * shape.num + q) store bb₀ step₀ =
        shape.writeLoop inodeData rest ((j + 1) * shape.num) after bb' step' ∧
      BlockStored shape start after inodeData j k := by
  induction d generalizing q store mid bb₀ step₀ with
  | zero =>
      have slot : (j * shape.num + q) % shape.num = shape.num - 1 := by
        rw [Nat.mul_comm, Nat.mul_add_mod, Nat.mod_eq_of_lt (by omega)]
        omega
      have next : j * shape.num + q + 1 = (j + 1) * shape.num := by
        rw [Nat.succ_mul]
        omega
      have filled := inBlock.put
      rw [show q + 1 = shape.num by omega] at filled
      refine ⟨_, bb, q * shape.inodeSize + shape.inodeSize, ?_, filled.flush⟩
      rw [Nat.zero_add, Nat.add_comm 1 rest, writeLoop, starts, next]
      simp only [slot, true_or, if_true]
  | succ d ih =>
      have slot : (j * shape.num + q) % shape.num = q := by
        rw [Nat.mul_comm, Nat.mul_add_mod, Nat.mod_eq_of_lt (by omega)]
      have nextSlot : (j * shape.num + (q + 1)) % shape.num = q + 1 := by
        rw [Nat.mul_comm, Nat.mul_add_mod, Nat.mod_eq_of_lt (by omega)]
      have notLast : ¬ ((j * shape.num + q) % shape.num = shape.num - 1 ∨
          j * shape.num + q = shape.total - 1) := by
        rw [slot, whole.total_eq]
        rintro (isLast | isEnd)
        · omega
        · have residue : (j * shape.num + q + 1) % shape.num = 0 := by
            have positive := whole.num_pos
            rw [isEnd, Nat.sub_add_cancel (by omega)]
            exact Nat.mul_mod_left _ _
          rw [Nat.add_assoc, nextSlot] at residue
          omega
      have filled := inBlock.put
      rw [show d + 1 + 1 + rest = d + 1 + rest + 1 by omega, writeLoop, starts]
      simp only [if_neg notLast]
      generalize mid.setBuffer bb _ = filledStore at filled ⊢
      apply ih (by omega : q + 1 + d + 1 = shape.num) _ filled
      unfold startRound
      rw [if_neg (by omega), Nat.succ_mul]

theorem writeLoop_block (whole : shape.Whole) (roomy : store.Roomy (k + 1))
    (inodeData : Nat → Inode) (j bb step rest : Nat) :
    ∃ after bb' step',
      shape.writeLoop inodeData (shape.num + rest) (j * shape.num) store bb step =
        shape.writeLoop inodeData rest ((j + 1) * shape.num) after bb' step' ∧
      BlockStored shape store after inodeData j k := by
  have positive := whole.num_pos
  obtain ⟨mid, reads, blockNo, data, bytes, still⟩ := roomy.read (shape.block j)
  have first : j * shape.num % shape.num = 0 := Nat.mul_mod_left _ _
  have starts : shape.startRound store (j * shape.num + 0) bb step =
      (some (store.made, 0 * shape.inodeSize), mid) := by
    unfold startRound
    rw [Nat.add_zero, if_pos first, Nat.mul_div_cancel _ positive, whole.blockSize]
    unfold block at reads
    rw [reads, Nat.zero_mul]
  have inBlock : InBlock shape store mid inodeData j 0 store.made k := by
    refine ⟨still, bytes, blockNo, ?_⟩
    unfold content
    rw [whole.blockSize]
    exact data
  have loops := writeLoop_inBlock whole (shape.num - 1) rest (by omega) starts inBlock
  rw [show shape.num - 1 + 1 = shape.num by omega] at loops
  exact loops

/-! ### The window -/

/-- The blocks from `j` on, `n` of them, are the only ones that have changed. -/
structure WindowStored (shape : InodeShape) (store after : BlockStore) (inodeData : Nat → Inode)
    (j n k : Nat) : Prop where
  roomy : after.Roomy k
  inside : ∀ i x, j ≤ i → i < j + n → x < 4096 →
    after.device.bytes (shape.place i + x) = shape.stored store inodeData i x
  outside : ∀ a, (∀ i, j ≤ i → i < j + n → a < shape.place i ∨ shape.place i + 4096 ≤ a) →
    after.device.bytes a = store.device.bytes a

theorem Whole.writeLoop_blocks (whole : shape.Whole) (inodeData : Nat → Inode) (n : Nat)
    (fits : j + n ≤ 5) (roomy : store.Roomy (k + n)) (bb step : Nat) :
    WindowStored shape store
      (shape.writeLoop inodeData (n * shape.num) (j * shape.num) store bb step) inodeData j n
      k := by
  induction n generalizing j store bb step with
  | zero =>
      rw [Nat.zero_mul, writeLoop]
      exact ⟨roomy, fun i x lower upper => by omega, fun _ _ => rfl⟩
  | succ n ih =>
      obtain ⟨mid, bb', step', loops, first⟩ := 
        writeLoop_block whole roomy inodeData j bb step (n * shape.num)
      have rest : WindowStored shape mid
          (shape.writeLoop inodeData (n * shape.num) ((j + 1) * shape.num) mid bb' step')
          inodeData (j + 1) n k := ih (by omega) first.roomy bb' step'
      rw [Nat.succ_mul, Nat.add_comm (n * shape.num), loops]
      -- the later blocks lie elsewhere, so they hold what they held before
      have later : ∀ i (x : Nat), j + 1 ≤ i → i < j + 1 + n → x < 4096 →
          shape.stored mid inodeData i x = shape.stored store inodeData i x := by
        intro i x lower upper below
        have apart := whole.place_apart (by omega : i < 5) (by omega : j < 5) (by omega)
        exact storeSlots_congr (first.outside (shape.place i + x) (by omega))
      refine ⟨rest.roomy, ?_, ?_⟩
      · intro i x lower upper below
        by_cases same : i = j
        · subst same
          rw [rest.outside, first.inside x below]
          intro other otherLower otherUpper
          have apart := whole.place_apart (by omega : i < 5) (by omega : other < 5)
            (by omega)
          omega
        · rw [rest.inside i x (by omega) (by omega) below, later i x (by omega) (by omega) below]
      · intro a outside
        rw [rest.outside a (fun i lower upper => outside i (by omega) (by omega)),
          first.outside a (outside j (Nat.le_refl j) (by omega))]

/-! ### The load -/

theorem Whole.roundStore (whole : shape.Whole) (n : Nat) (roomy : start.Roomy (k + n)) :
    (shape.roundStore start n).Roomy k ∧
      (shape.roundStore start n).device.bytes = start.device.bytes := by
  induction n generalizing k with
  | zero => exact ⟨roomy, rfl⟩
  | succ n ih =>
      rw [show k + (n + 1) = k + 1 + n by omega] at roomy
      obtain ⟨still, bytes⟩ := ih roomy
      obtain ⟨after, reads, _, _, same, rest⟩ := still.read (shape.block n)
      rw [InodeShape.roundStore, whole.blockSize, reads]
      exact ⟨rest, same.trans bytes⟩

theorem Whole.roundData (whole : shape.Whole) (roomy : start.Roomy 5) (below : j < 5) :
    ∃ bb after, (shape.roundStore start j).readBlock shape.blockSize (shape.block j) =
        (some bb, after) ∧
      (after.buffers bb).data.Agree (shape.content start j) 0 4096 := by
  obtain ⟨still, bytes⟩ := whole.roundStore j (roomy.mono (by omega : 1 + j ≤ 5))
  obtain ⟨after, reads, _, data, _⟩ := still.read (shape.block j)
  refine ⟨_, after, by rw [whole.blockSize]; exact reads, ?_⟩
  unfold Device.sectors at data
  rw [bytes] at data
  unfold content Device.sectors
  rw [whole.blockSize]
  exact data

theorem Whole.loadLoop_succeeds (whole : shape.Whole) (roomy : start.Roomy 5)
    (inodeData : Nat → Inode) {i : Nat}
    (state : shape.At start i store bb step) (fits : i + left ≤ 5 * shape.num) :
    ∃ last after bb' step',
      shape.loadLoop left i store inodeData bb step = (true, last, after) ∧
        shape.At start (i + left) last bb' step' := by
  induction left generalizing i store inodeData bb step with
  | zero => exact ⟨store, inodeData, bb, step, rfl, state⟩
  | succ left ih =>
      have positive := whole.num_pos
      have inWindow : i / shape.num < 5 := by
        rw [Nat.div_lt_iff_lt_mul positive]
        omega
      obtain ⟨read, mid, reads, _⟩ := whole.roundData roomy inWindow
      have starts : ∃ next after, shape.startRound store i bb step = (some next, after) := by
        unfold startRound
        by_cases first : i % shape.num = 0
        · unfold At at state
          rw [if_pos first] at state ⊢
          rw [state]
          unfold block at reads
          rw [reads]
          exact ⟨_, _, rfl⟩
        · rw [if_neg first]
          exact ⟨_, _, rfl⟩
      obtain ⟨next, after, isNext⟩ := starts
      obtain ⟨readsNext, isStep⟩ := startRound_some state isNext
      rw [show i + (left + 1) = i + 1 + left by omega, loadLoop, isNext]
      exact ih _ (At.next positive readsNext isStep) (by omega)

theorem Whole.loadLoop (whole : shape.Whole) (roomy : start.Roomy (k + 5))
    (inodeData : Nat → Inode) :
    ∃ last after, shape.loadLoop shape.total 0 start inodeData 0 0 = (true, last, after) ∧
      last.Roomy k ∧ last.device.bytes = start.device.bytes ∧
      ∀ i, i < shape.total → ∀ old, SameStored (after i)
        (loadInode (shape.content start (i / shape.num)) (i % shape.num * shape.inodeSize) old) := by
  have positive := whole.num_pos
  have five : start.Roomy 5 := roomy.mono (by omega)
  have begins := At.zero shape start
  obtain ⟨last, after, bb', step', loads, ends⟩ :=
    whole.loadLoop_succeeds five inodeData begins
      (by rw [whole.total_eq]; omega : 0 + shape.total ≤ _)
  have isLast : last = shape.roundStore start 5 := by
    unfold At at ends
    rw [Nat.zero_add, whole.total_eq, if_pos (Nat.mul_mod_left _ _),
      Nat.mul_div_cancel _ positive] at ends
    exact ends
  obtain ⟨still, bytes⟩ := whole.roundStore 5 roomy
  refine ⟨last, after, loads, isLast ▸ still, isLast ▸ bytes, ?_⟩
  intro i inside old
  have slots := loadLoop_slot positive begins loads i
  rw [if_pos ⟨Nat.zero_le i, by omega⟩] at slots
  obtain ⟨data, isData, isInode⟩ := slots
  have inWindow : i / shape.num < 5 := by
    rw [Nat.div_lt_iff_lt_mul positive, ← whole.total_eq]
    exact inside
  obtain ⟨bb, middle, reads, agree⟩ := whole.roundData five inWindow
  unfold InodeShape.roundData at isData
  rw [reads, Option.some.injEq] at isData
  rw [isInode, ← isData]
  apply loadInode_congr
  have slot := Nat.mod_lt i positive
  have scaled := Nat.mul_le_mul_right shape.inodeSize (Nat.succ_le_of_lt slot)
  have size := whole.inodeSize
  rw [whole.slots, Nat.succ_mul] at scaled
  intro x lower upper
  exact agree x (by omega) (by omega)

end InodeShape

namespace FileSystem

/-- An inode outside the window of its group, in a table of whole blocks; the cache has room
for two loads and a write-back once the old window is written back. -/
structure WindowReady (fs : FileSystem) (ino : Nat) : Prop where
  blockSize : fs.blockSize = 4096
  divides : fs.inodeSize ∣ 4096
  inodeSize : 128 ≤ fs.inodeSize
  valid : fs.ValidIno ino
  missed : ¬ fs.InodeCached ino
  /-- This number stands for no window. -/
  begin : fs.inodeBlock ino ≠ 4294967295
  roomy : (fs.writeInode (fs.groups (fs.inodeGroup ino))).Roomy 15

/-- The slot of the table that place `i` of the window at an inode stands for, as the load
finds it. -/
def windowSlot (fs : FileSystem) (ino i : Nat) : Region × Nat :=
  let shape := fs.windowShape ino
  (shape.content (fs.writeInode (fs.groups (fs.inodeGroup ino))) (i / shape.num),
    i % shape.num * fs.inodeSize)

/-- Loading the window at an inode and writing it back leaves every byte of the disk. -/
def WritesBack (fs : FileSystem) (ino : Nat) : Prop :=
  ∃ ref loaded, fs.igetInode ino = (some ref, loaded) ∧
    (loaded.writeInode (loaded.groups (fs.inodeGroup ino))).device.bytes =
      (fs.writeInode (fs.groups (fs.inodeGroup ino))).device.bytes

/-- The inodes of a window change, the window is written back and loaded again. -/
def KeepsChange (fs : FileSystem) (ino : Nat) (change : Nat → Inode) : Prop :=
  let g := fs.inodeGroup ino
  ∃ ref loaded, fs.igetInode ino = (some ref, loaded) ∧
    let changed := loaded.setGroup g { loaded.groups g with inodeData := change }
    ∃ again reloaded,
      (changed.rewound (changed.writeInode (changed.groups g)) g (-1)).igetInode ino =
        (some again, reloaded) ∧
      ∀ i, i < 4096 * 5 / fs.inodeSize →
        SameWritten ((reloaded.groups g).inodeData i) (change i)

variable {fs : FileSystem} {ino i : Nat}

theorem windowSlot_content (fs : FileSystem) (ino i : Nat) :
    (fs.windowSlot ino i).1 = (fs.windowShape ino).content
      (fs.writeInode (fs.groups (fs.inodeGroup ino))) (i / (fs.windowShape ino).num) := rfl

theorem windowSlot_place (fs : FileSystem) (ino i : Nat) :
    (fs.windowSlot ino i).2 = i % (fs.windowShape ino).num * fs.inodeSize := rfl

theorem WindowReady.whole (ready : fs.WindowReady ino) : (fs.windowShape ino).Whole :=
  ⟨ready.blockSize, ready.divides, Nat.le_trans (by decide) ready.inodeSize⟩

/-- `write_inode` of a window that starts at a block. -/
theorem writeInode_window (fs : FileSystem) (group : Group) {bno : Nat}
    (begins : group.inodeBegin = int32 bno) (small : bno < 4294967296)
    (isWindow : bno ≠ 4294967295) :
    let shape : InodeShape := ⟨fs.blockSize, fs.inodeSize, bno⟩
    fs.writeInode group = shape.writeLoop group.inodeData shape.total 0 fs.store 0 0 := by
  have some : int32 (bno : Int) ≠ -1 := by
    unfold int32
    omega
  unfold writeInode
  rw [begins, if_neg some, uint32_int32 small]

/-- The file system behind a load of the window. -/
def afterLoad (fs : FileSystem) (ino : Nat) (last : BlockStore) (inodeData : Nat → Inode) :
    FileSystem :=
  (fs.setStore last).setGroup (fs.inodeGroup ino)
    { fs.groups (fs.inodeGroup ino) with
      inodeData := inodeData
      inodeBegin := int32 (fs.inodeBlock ino) }

/-- What the load leaves. -/
structure Loaded (fs : FileSystem) (ino : Nat) (last : BlockStore) (inodeData : Nat → Inode) :
    Prop where
  returns : fs.igetInode ino =
    (some ⟨fs.inodeGroup ino, fs.inodeSlot ino⟩, fs.afterLoad ino last inodeData)
  roomy : last.Roomy 10
  bytes : last.device.bytes = (fs.writeInode (fs.groups (fs.inodeGroup ino))).device.bytes
  slots : ∀ i, i < (fs.windowShape ino).total → ∀ old,
    SameStored (inodeData i) (loadInode (fs.windowSlot ino i).1 (fs.windowSlot ino i).2 old)

theorem WindowReady.loaded (ready : fs.WindowReady ino) :
    ∃ last inodeData, fs.Loaded ino last inodeData := by
  obtain ⟨last, inodeData, loads, still, bytes, slots⟩ :=
    ready.whole.loadLoop (k := 10) ready.roomy (fs.groups (fs.inodeGroup ino)).inodeData
  exact ⟨last, inodeData,
    igetInode_loaded ready.valid.1 ready.valid.2 ready.missed loads, still, bytes, slots⟩

/-- What a write-back of the window with some inodes leaves. -/
theorem WindowReady.written (ready : fs.WindowReady ino) {last : BlockStore}
    (roomy : last.Roomy 10) (inodeData : Nat → Inode) :
    (fs.windowShape ino).WindowStored last
      ((fs.windowShape ino).writeLoop inodeData (fs.windowShape ino).total 0 last 0 0)
      inodeData 0 5 5 := by
  have stored := ready.whole.writeLoop_blocks inodeData 5 (by decide : 0 + 5 ≤ 5)
    (show last.Roomy (5 + 5) from roomy) 0 0
  rw [Nat.zero_mul, ← ready.whole.total_eq] at stored
  exact stored

/-! ### The two halves -/

section Halves

variable {last after : BlockStore} {inodeData change : Nat → Inode}

/-- Place `i` of the window is the slot `i % num` of the block `i / num`. -/
theorem WindowReady.slot (ready : fs.WindowReady ino)
    (below : i < (fs.windowShape ino).total) :
    i / (fs.windowShape ino).num < 5 ∧
      i % (fs.windowShape ino).num < (fs.windowShape ino).num ∧
      i / (fs.windowShape ino).num * (fs.windowShape ino).num + i % (fs.windowShape ino).num = i ∧
      i % (fs.windowShape ino).num * fs.inodeSize + fs.inodeSize ≤ 4096 := by
  have positive := ready.whole.num_pos
  have slot := Nat.mod_lt i positive
  have scaled := Nat.mul_le_mul_right fs.inodeSize (Nat.succ_le_of_lt slot)
  have slots : (fs.windowShape ino).num * fs.inodeSize = 4096 := ready.whole.slots
  rw [slots, Nat.succ_mul] at scaled
  refine ⟨?_, slot, Nat.div_add_mod' i _, scaled⟩
  rw [Nat.div_lt_iff_lt_mul positive, ← ready.whole.total_eq]
  exact below

/-- Every byte of the window lies in one of its slots. -/
theorem WindowReady.slot_of (ready : fs.WindowReady ino) {j x : Nat} (inWindow : j < 5)
    (inside : x < 4096) :
    ∃ i, i < (fs.windowShape ino).total ∧ i / (fs.windowShape ino).num = j ∧
      (fs.windowSlot ino i).2 ≤ x ∧ x < (fs.windowSlot ino i).2 + fs.inodeSize := by
  have slots : (fs.windowShape ino).num * fs.inodeSize = 4096 := ready.whole.slots
  have size := ready.inodeSize
  have positive := ready.whole.num_pos
  have inBlock : x / fs.inodeSize < (fs.windowShape ino).num := by
    rw [Nat.div_lt_iff_lt_mul (by omega), slots]
    exact inside
  have block : ((fs.windowShape ino).num * j + x / fs.inodeSize) / (fs.windowShape ino).num = j := by
    rw [Nat.mul_add_div positive, Nat.div_eq_of_lt inBlock, Nat.add_zero]
  have slot : ((fs.windowShape ino).num * j + x / fs.inodeSize) % (fs.windowShape ino).num =
      x / fs.inodeSize := by
    rw [Nat.mul_add_mod, Nat.mod_eq_of_lt inBlock]
  have whole := Nat.div_add_mod' x fs.inodeSize
  have rest := Nat.mod_lt x (by omega : fs.inodeSize > 0)
  refine ⟨(fs.windowShape ino).num * j + x / fs.inodeSize, ?_, block, ?_, ?_⟩
  · have scaled := Nat.mul_le_mul_left (fs.windowShape ino).num (Nat.succ_le_of_lt inWindow)
    rw [ready.whole.total_eq]
    rw [Nat.mul_succ] at scaled
    omega
  · rw [windowSlot_place, slot]
    omega
  · rw [windowSlot_place, slot]
    omega

theorem Loaded.stored_slot (ready : fs.WindowReady ino) (loaded : fs.Loaded ino last inodeData)
    (stored : (fs.windowShape ino).WindowStored last after change 0 5 5)
    (below : i < (fs.windowShape ino).total) {x : Nat} (lower : (fs.windowSlot ino i).2 ≤ x)
    (upper : x < (fs.windowSlot ino i).2 + fs.inodeSize) :
    after.device.bytes ((fs.windowShape ino).place (i / (fs.windowShape ino).num) + x) =
      storeInode (fs.windowSlot ino i).1 (fs.windowSlot ino i).2 (change i) x := by
  obtain ⟨inWindow, inBlock, split, fits⟩ := ready.slot below
  change i % (fs.windowShape ino).num * fs.inodeSize ≤ x at lower
  change x < i % (fs.windowShape ino).num * fs.inodeSize + fs.inodeSize at upper
  have inSlot : ((i % (fs.windowShape ino).num * (fs.windowShape ino).inodeSize : Nat) : Int) ≤ x ∧
      (x : Int) < (i % (fs.windowShape ino).num * (fs.windowShape ino).inodeSize +
        (fs.windowShape ino).inodeSize : Nat) := ⟨Int.ofNat_le.mpr lower, Int.ofNat_lt.mpr upper⟩
  rw [stored.inside _ x (Nat.zero_le _) (by omega) (by omega)]
  unfold InodeShape.stored
  rw [storeSlots_inside ready.whole.inodeSize inBlock inSlot.1 inSlot.2, split]
  apply storeInode_congr
  unfold InodeShape.content Device.sectors
  rw [loaded.bytes]
  rfl

/-- Unmodified inodes go back to the disk as they are if all slots are plain. -/
theorem Loaded.writesBack_iff (ready : fs.WindowReady ino)
    (loaded : fs.Loaded ino last inodeData)
    (stored : (fs.windowShape ino).WindowStored last after inodeData 0 5 5) :
    after.device.bytes = last.device.bytes ↔
      ∀ i, i < (fs.windowShape ino).total →
        PlainSlot (fs.windowSlot ino i).1 (fs.windowSlot ino i).2 := by
  have shape := ready.whole
  have size := ready.inodeSize
  constructor
  · intro same i below
    obtain ⟨_, _, _, fits⟩ := ready.slot below
    have typed : (inodeData i).Typed :=
      (loaded.slots i below (inodeData i)).typed
    -- the slot still holds what is there once the inode is stored
    have agree : (fs.windowSlot ino i).1.Agree
        (storeInode (fs.windowSlot ino i).1 (fs.windowSlot ino i).2 (inodeData i))
        (fs.windowSlot ino i).2 ((fs.windowSlot ino i).2 + 100 : Nat) := by
      intro x lower upper
      have natural : ((x.toNat : Nat) : Int) = x := by omega
      rw [← natural, ← loaded.stored_slot ready stored below (by omega) (by omega), same,
        loaded.bytes]
      rfl
    exact (storeInode_plain typed).congr agree
  · intro plain
    funext a
    by_cases inside : ∃ j, j < 5 ∧ (fs.windowShape ino).place j ≤ a ∧
        a < (fs.windowShape ino).place j + 4096
    · obtain ⟨j, inWindow, lower, upper⟩ := inside
      obtain ⟨i, below, isBlock, lowerSlot, upperSlot⟩ :=
        ready.slot_of inWindow (by omega : a - (fs.windowShape ino).place j < 4096)
      have byte := loaded.stored_slot ready stored below lowerSlot upperSlot
      rw [store_load (plain i below) (loaded.slots i below (inodeData i)), isBlock,
        (by omega : (fs.windowShape ino).place j + (a - (fs.windowShape ino).place j) = a)] at byte
      rw [byte, loaded.bytes]
      rw [windowSlot_content, isBlock, InodeShape.place_add,
        (by omega : (fs.windowShape ino).place j + (a - (fs.windowShape ino).place j) = a)]
    · apply stored.outside
      intro j _ below
      by_contra overlaps
      exact inside ⟨j, by omega, by omega, by omega⟩

theorem afterLoad_group (fs : FileSystem) (ino : Nat) (last : BlockStore)
    (inodeData : Nat → Inode) :
    (fs.afterLoad ino last inodeData).groups (fs.inodeGroup ino) =
      { fs.groups (fs.inodeGroup ino) with
        inodeData := inodeData
        inodeBegin := int32 (fs.inodeBlock ino) } := setGroup_self _ _ _

theorem afterLoad_layout (fs : FileSystem) (ino : Nat) (last : BlockStore)
    (inodeData : Nat → Inode) : SameLayout fs (fs.afterLoad ino last inodeData) :=
  (sameWindows_setStore fs last).toSameLayout.trans
    (sameLayout_setGroup (fs.setStore last) (fs.inodeGroup ino)
      { fs.groups (fs.inodeGroup ino) with
        inodeData := inodeData
        inodeBegin := int32 (fs.inodeBlock ino) } rfl)

/-- The loaded file system with other inodes in the window. -/
def changed (fs : FileSystem) (ino : Nat) (last : BlockStore) (inodeData change : Nat → Inode) :
    FileSystem :=
  let loaded := fs.afterLoad ino last inodeData
  loaded.setGroup (fs.inodeGroup ino)
    { loaded.groups (fs.inodeGroup ino) with inodeData := change }

theorem changed_group (fs : FileSystem) (ino : Nat) (last : BlockStore)
    (inodeData change : Nat → Inode) :
    (fs.changed ino last inodeData change).groups (fs.inodeGroup ino) =
      { fs.groups (fs.inodeGroup ino) with
        inodeData := change
        inodeBegin := int32 (fs.inodeBlock ino) } := by
  unfold changed
  rw [setGroup_self, afterLoad_group]

theorem changed_layout (fs : FileSystem) (ino : Nat) (last : BlockStore)
    (inodeData change : Nat → Inode) : SameLayout fs (fs.changed ino last inodeData change) := by
  have layout := fs.afterLoad_layout ino last inodeData
  unfold changed
  exact layout.trans (sameLayout_setGroup _ _ _ rfl)

/-- The window that was loaded is written back from its start. -/
theorem WindowReady.afterLoad_writeInode (ready : fs.WindowReady ino) (last : BlockStore)
    (inodeData : Nat → Inode) :
    (fs.afterLoad ino last inodeData).writeInode
        ((fs.afterLoad ino last inodeData).groups (fs.inodeGroup ino)) =
      (fs.windowShape ino).writeLoop inodeData (fs.windowShape ino).total 0 last 0 0 := by
  rw [afterLoad_group]
  exact writeInode_window _ _ rfl (inodeBlock_lt fs ino) ready.begin

theorem WindowReady.changed_writeInode (ready : fs.WindowReady ino) (last : BlockStore)
    (inodeData change : Nat → Inode) :
    (fs.changed ino last inodeData change).writeInode
        ((fs.changed ino last inodeData change).groups (fs.inodeGroup ino)) =
      (fs.windowShape ino).writeLoop change (fs.windowShape ino).total 0 last 0 0 := by
  rw [changed_group]
  exact writeInode_window _ _ rfl (inodeBlock_lt fs ino) ready.begin

/-- A window whose start is forgotten is loaded anew. -/
theorem WindowReady.reloads (ready : fs.WindowReady ino) (loaded : fs.Loaded ino last inodeData)
    (typed : ∀ i, (change i).Typed) :
    ∃ again reloaded,
      ((fs.changed ino last inodeData change).rewound
        ((fs.changed ino last inodeData change).writeInode
          ((fs.changed ino last inodeData change).groups (fs.inodeGroup ino)))
        (fs.inodeGroup ino) (-1)).igetInode ino = (some again, reloaded) ∧
      ∀ i, i < (fs.windowShape ino).total →
        SameWritten ((reloaded.groups (fs.inodeGroup ino)).inodeData i)
          { change i with iGid := (change i).iUid } := by
  rw [ready.changed_writeInode]
  have stored := ready.written loaded.roomy change
  generalize (fs.windowShape ino).writeLoop change (fs.windowShape ino).total 0 last 0 0 = after
    at stored ⊢
  have layout : SameLayout fs ((fs.changed ino last inodeData change).rewound after
      (fs.inodeGroup ino) (-1)) :=
    (changed_layout fs ino last inodeData change).trans
      ((sameWindows_setStore _ after).toSameLayout.trans (sameLayout_setGroup _ _ _ rfl))
  have group : (((fs.changed ino last inodeData change).rewound after
      (fs.inodeGroup ino) (-1)).groups (fs.inodeGroup ino)).inodeBegin = -1 := by
    unfold rewound
    rw [setGroup_self]
  have isStore : ((fs.changed ino last inodeData change).rewound after
      (fs.inodeGroup ino) (-1)).store = after := rfl
  generalize (fs.changed ino last inodeData change).rewound after (fs.inodeGroup ino) (-1) = forgotten
    at layout group isStore ⊢
  have missed : ¬ forgotten.InodeCached ino := by
    intro cached
    apply cached.1
    rw [layout.inodeGroup]
    exact group
  obtain ⟨final, data, loads, _, _, slots⟩ := ready.whole.loadLoop
    (show after.Roomy (0 + 5) from stored.roomy)
    (forgotten.groups (fs.inodeGroup ino)).inodeData
  have unwritten : forgotten.writeInode (forgotten.groups (fs.inodeGroup ino)) = after := by
    unfold writeInode
    rw [if_pos group, isStore]
  have window : forgotten.loadWindow ino = (true, final, data) := by
    unfold loadWindow
    dsimp only
    rw [layout.inodeGroup, unwritten, layout.blockSize, layout.inodeSize, layout.inodeBlock]
    exact loads
  have valid := layout.validIno.mpr ready.valid
  refine ⟨_, _, igetInode_loaded valid.1 valid.2 missed window, ?_⟩
  intro i below
  rw [layout.inodeGroup, setGroup_self]
  change SameWritten (data i) _
  obtain ⟨inWindow, _, _, fits⟩ := ready.slot below
  have size := ready.inodeSize
  have agree : ((fs.windowShape ino).content after (i / (fs.windowShape ino).num)).Agree
      (storeInode (fs.windowSlot ino i).1 (fs.windowSlot ino i).2 (change i))
      (fs.windowSlot ino i).2 ((fs.windowSlot ino i).2 + 100 : Nat) := by
    intro x lower upper
    rw [windowSlot_place] at lower upper
    have natural : ((x.toNat : Nat) : Int) = x := by omega
    rw [← natural, InodeShape.place_add]
    exact loaded.stored_slot ready stored below (by rw [windowSlot_place]; omega)
      (by rw [windowSlot_place]; omega)
  have read := (slots i below (change i)).trans (loadInode_congr agree (change i) (change i))
  exact read.written.trans (load_store (typed i) (change i))

end Halves

/-- Loading and writing back are inverse to each other exactly for a window of plain slots
and for changes that leave every inode its user id as group id. -/
theorem writeBack_inverse_iff (ready : fs.WindowReady ino) {change : Nat → Inode}
    (typed : ∀ i, (change i).Typed) :
    fs.WritesBack ino ∧ fs.KeepsChange ino change ↔
      (∀ i, i < 4096 * 5 / fs.inodeSize →
        PlainSlot (fs.windowSlot ino i).1 (fs.windowSlot ino i).2) ∧
      ∀ i, i < 4096 * 5 / fs.inodeSize → (change i).iGid = (change i).iUid := by
  obtain ⟨last, inodeData, loaded⟩ := ready.loaded
  obtain ⟨again, reloaded, reloads, kept⟩ := ready.reloads loaded typed
  have stored := ready.written loaded.roomy inodeData
  rw [← ready.afterLoad_writeInode last inodeData] at stored
  have total : (fs.windowShape ino).total = 4096 * 5 / fs.inodeSize := rfl
  rw [← total]
  apply and_congr
  · rw [← loaded.writesBack_iff ready stored, loaded.bytes]
    constructor
    · rintro ⟨ref, found, returns, same⟩
      rw [loaded.returns] at returns
      cases returns
      exact same
    · intro same
      exact ⟨_, _, loaded.returns, same⟩
  · constructor
    · rintro ⟨ref, found, returns, againRef, found', reloads', keeps⟩ i below
      rw [loaded.returns] at returns
      cases returns
      rw [show (fs.afterLoad ino last inodeData).setGroup _ _ =
        fs.changed ino last inodeData change from rfl, reloads] at reloads'
      cases reloads'
      have kept := kept i below
      have keeps := keeps i below
      exact keeps.iGid.symm.trans kept.iGid
    · intro same
      refine ⟨_, _, loaded.returns, again, reloaded, reloads, ?_⟩
      intro i below
      have kept := kept i below
      rw [← same i below] at kept
      exact kept

/-! ### A file of group 1 -/

/-- A group without a window over a disk of the given bytes. -/
def unloaded (bytes : ByteMemory) : FileSystem :=
  let fs := FileSystem.sample 0
  { fs with store := { fs.store with device := { fs.store.device with bytes := bytes } } }.setGroup
    0 { fs.groups 0 with inodeBegin := -1 }

theorem unloaded_ready (bytes : ByteMemory) : (unloaded bytes).WindowReady 1 := by
  have group : (unloaded bytes).inodeGroup 1 = 0 := Nat.zero_div 160
  have noWindow : ((unloaded bytes).groups 0).inodeBegin = -1 := by
    unfold unloaded
    dsimp only
    rw [setGroup_self]
  have isStore : (unloaded bytes).writeInode ((unloaded bytes).groups 0) =
      (unloaded bytes).store := by
    unfold writeInode
    rw [if_pos noWindow]
  constructor
  · rfl
  · change 128 ∣ 4096
    decide
  · exact Nat.le_refl 128
  · change 1 ≤ 1 ∧ 1 ≤ 160
    decide
  · intro cached
    rw [InodeCached, group] at cached
    exact cached.1 noWindow
  · unfold inodeBlock inodePlace
    rw [group]
    change (4 + (1 - 1) % 160 * 128 % 4294967296 / 4096) % 4294967296 ≠ 4294967295
    decide
  · rw [group, isStore]
    constructor
    · intro _
      exact Nat.le_refl 8
    · intro _
      change (0 : Int) + 15 ≤ 100
      decide

/-- Every inode becomes a file of user 0 and group 0. -/
theorem writeBack_inverse_zeros :
    (unloaded fun _ => 0#8).WritesBack 1 ∧
        (unloaded fun _ => 0#8).KeepsChange 1 (fun _ => (FileSystem.sample 0).inode ⟨0, 0⟩) ↔
      (∀ i, i < 4096 * 5 / 128 → PlainSlot ((unloaded fun _ => 0#8).windowSlot 1 i).1
        ((unloaded fun _ => 0#8).windowSlot 1 i).2) ∧
      ∀ i, i < 4096 * 5 / 128 → ((FileSystem.sample 0).inode ⟨0, 0⟩).iGid =
        ((FileSystem.sample 0).inode ⟨0, 0⟩).iUid := by
  have typed : ((FileSystem.sample 0).inode ⟨0, 0⟩).Typed := by
    refine ⟨by decide, by decide, by decide, by decide, by decide, by decide, by decide, ?_⟩
    intro k inside
    change 100 + k < 4294967296
    omega
  exact writeBack_inverse_iff (unloaded_ready _) fun _ => typed

/-- Inode 1 belongs to user 0 and group 1; loading its window and writing it back makes it
a file of group 0. -/
theorem writeBack_groupLost :
    (unloaded fun a => if a = 16408 then 1#8 else 0#8).WindowReady 1 ∧
      ¬ (unloaded fun a => if a = 16408 then 1#8 else 0#8).WritesBack 1 := by
  have ready := unloaded_ready fun a => if a = 16408 then 1#8 else 0#8
  refine ⟨ready, ?_⟩
  rintro ⟨ref, found, returns, same⟩
  obtain ⟨last, inodeData, loaded⟩ := ready.loaded
  rw [loaded.returns] at returns
  cases returns
  have stored := ready.written loaded.roomy inodeData
  rw [← ready.afterLoad_writeInode last inodeData] at stored
  rw [← loaded.bytes, loaded.writesBack_iff ready stored] at same
  exact absurd (same 0 (by decide)).1 (by decide)

end FileSystem

end MangoOS
