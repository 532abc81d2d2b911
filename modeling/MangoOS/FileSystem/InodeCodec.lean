/-
One inode between its slot on the disk and the memory: what `iget_inode` decodes and what
`write_inode` encodes (fs/ext2.c).

The group id is written with the user's, and the block count, a `ushort` in memory, is
written as the 32 bits it has on the disk.
-/

import MangoOS.FileSystem.Window
import MangoOS.Library.Fields

namespace MangoOS

/-- The fields of an inode in memory keep to their C types. -/
structure Inode.Typed (inode : Inode) : Prop where
  iBlocks : inode.iBlocks < 65536
  iUid : inode.iUid < 65536
  iGid : inode.iGid < 65536
  iSize : inode.iSize < 4294967296
  iAtime : inode.iAtime < 4294967296
  iMtime : inode.iMtime < 4294967296
  iCtime : inode.iCtime < 4294967296
  iBlock : ∀ k, k < 15 → inode.iBlock k < 4294967296

/-- Two inodes agree in the fields that `write_inode` is meant to store. -/
structure SameWritten (a b : Inode) : Prop where
  iBlocks : a.iBlocks = b.iBlocks
  iUid : a.iUid = b.iUid
  iGid : a.iGid = b.iGid
  iSize : a.iSize = b.iSize
  iAtime : a.iAtime = b.iAtime
  iMtime : a.iMtime = b.iMtime
  iCtime : a.iCtime = b.iCtime
  iBlock : ∀ k, k < 15 → a.iBlock k = b.iBlock k

theorem SameStored.written {a b : Inode} (same : SameStored a b) : SameWritten a b :=
  ⟨same.iBlocks, same.iUid, same.iGid, same.iSize, same.iAtime, same.iMtime, same.iCtime,
    same.iBlock⟩

theorem SameWritten.trans {a b c : Inode} (first : SameWritten a b) (second : SameWritten b c) :
    SameWritten a c :=
  ⟨first.iBlocks.trans second.iBlocks, first.iUid.trans second.iUid,
    first.iGid.trans second.iGid, first.iSize.trans second.iSize,
    first.iAtime.trans second.iAtime, first.iMtime.trans second.iMtime,
    first.iCtime.trans second.iCtime,
    fun k inside => (first.iBlock k inside).trans (second.iBlock k inside)⟩

/-- The slot of an inode holds nothing that `write_inode` would replace. -/
def PlainSlot (data : Region) (step : Nat) : Prop :=
  data.half (step + 24 : Nat) = data.half (step + 2 : Nat) ∧ data.word (step + 28 : Nat) < 65536

theorem PlainSlot.congr {left right : Region} {step : Nat} (plain : PlainSlot right step)
    (agree : left.Agree right step (step + 100 : Nat)) : PlainSlot left step := by
  have half : ∀ k : Nat, k + 2 ≤ 100 → left.half (step + k : Nat) = right.half (step + k : Nat) := by
    intro k inside
    unfold Region.half
    rw [agree _ (by omega) (by omega), agree _ (by omega) (by omega)]
  have word : left.word (step + 28 : Nat) = right.word (step + 28 : Nat) := by
    apply Region.word_congr
    intro x lower upper
    exact agree x (by omega) (by omega)
  unfold PlainSlot
  rw [half 24 (by decide), half 2 (by decide), word]
  exact plain

theorem SameStored.typed {inode old : Inode} {data : Region} {step : Nat}
    (same : SameStored inode (MangoOS.loadInode data step old)) : inode.Typed := by
  constructor
  · rw [same.iBlocks]
    exact Nat.mod_lt _ (by decide)
  · rw [same.iUid]
    exact data.half_lt _
  · rw [same.iGid]
    exact data.half_lt _
  · rw [same.iSize]
    exact data.word_lt _
  · rw [same.iAtime]
    exact data.word_lt _
  · rw [same.iMtime]
    exact data.word_lt _
  · rw [same.iCtime]
    exact data.word_lt _
  · intro k inside
    rw [same.iBlock k inside]
    unfold MangoOS.loadInode
    simp only [if_pos inside]
    exact data.word_lt _

/-- The part of `write_inode` in front of the block numbers. -/
def storeHead (data : Region) (step : Nat) (inode : Inode) : Region :=
  let data := data.setWord (step + 28 : Nat) inode.iBlocks
  let data := data.setHalf (step + 2 : Nat) inode.iUid
  let data := data.setHalf (step + 24 : Nat) inode.iUid
  let data := data.setWord (step + 4 : Nat) inode.iSize
  let data := data.setWord (step + 8 : Nat) inode.iAtime
  let data := data.setWord (step + 16 : Nat) inode.iMtime
  data.setWord (step + 12 : Nat) inode.iCtime

/-- The first `n` block numbers. -/
def storeBlocks (data : Region) (step : Nat) (iBlock : Nat → Nat) (n : Nat) : Region :=
  (List.range n).foldl (fun data k => data.setWord (step + 40 + 4 * k : Nat) (iBlock k)) data

theorem storeInode_eq (data : Region) (step : Nat) (inode : Inode) :
    storeInode data step inode = storeBlocks (storeHead data step inode) step inode.iBlock 15 :=
  rfl

theorem storeBlocks_succ (data : Region) (step : Nat) (iBlock : Nat → Nat) (n : Nat) :
    storeBlocks data step iBlock (n + 1) =
      (storeBlocks data step iBlock n).setWord (step + 40 + 4 * n : Nat) (iBlock n) := by
  unfold storeBlocks
  rw [List.range_succ, List.foldl_append]
  rfl

variable {data other : Region} {step n k : Nat} {x : Int} {inode : Inode} {iBlock : Nat → Nat}

/-! ### Where the fields lie -/

theorem storeBlocks_outside (outside : x < step + 40 ∨ step + 40 + 4 * n ≤ x) :
    storeBlocks data step iBlock n x = data x := by
  induction n with
  | zero => rfl
  | succ n ih =>
      rw [storeBlocks_succ, Region.setWord_outside _ _ (by omega)]
      exact ih (by omega)

theorem storeHead_outside (outside : x < step ∨ step + 32 ≤ x) :
    storeHead data step inode x = data x := by
  unfold storeHead
  rw [Region.setWord_outside _ _ (by omega), Region.setWord_outside _ _ (by omega),
    Region.setWord_outside _ _ (by omega), Region.setWord_outside _ _ (by omega),
    Region.setHalf_outside _ _ (by omega), Region.setHalf_outside _ _ (by omega),
    Region.setWord_outside _ _ (by omega)]

theorem storeInode_outside (outside : x < step ∨ step + 100 ≤ x) :
    storeInode data step inode x = data x := by
  rw [storeInode_eq, storeBlocks_outside (by omega), storeHead_outside (by omega)]

theorem storeBlocks_half {place : Nat} (apart : place + 2 ≤ 40) :
    (storeBlocks data step iBlock n).half (step + place : Nat) =
      data.half (step + place : Nat) := by
  unfold Region.half
  rw [storeBlocks_outside (by omega), storeBlocks_outside (by omega)]

theorem storeBlocks_word {place : Nat} (apart : place + 4 ≤ 40) :
    (storeBlocks data step iBlock n).word (step + place : Nat) =
      data.word (step + place : Nat) := by
  apply Region.word_congr
  intro x lower upper
  exact storeBlocks_outside (by omega)

theorem storeBlocks_entry (below : k < n) (value : iBlock k < 4294967296) :
    (storeBlocks data step iBlock n).word (step + 40 + 4 * k : Nat) = iBlock k := by
  induction n with
  | zero => exact absurd below (Nat.not_lt_zero k)
  | succ n ih =>
      rw [storeBlocks_succ]
      by_cases last : k = n
      · rw [← last, Region.word_setWord, Nat.mod_eq_of_lt value]
      · rw [Region.word_setWord_other _ _ (by omega)]
        exact ih (by omega)

/-- Writing back the block numbers that were read changes nothing. -/
theorem storeBlocks_same
    (same : ∀ k, k < n → iBlock k = data.word (step + 40 + 4 * k : Nat)) :
    storeBlocks data step iBlock n = data := by
  induction n with
  | zero => rfl
  | succ n ih =>
      rw [storeBlocks_succ, ih (fun k below => same k (by omega)), same n (by omega),
        Region.setWord_word]

/-! ### Reading back what was written -/

theorem storeHead_fields (data : Region) (step : Nat) (inode : Inode) :
    (storeHead data step inode).word (step + 28 : Nat) = inode.iBlocks % 4294967296 ∧
      (storeHead data step inode).half (step + 2 : Nat) = inode.iUid % 65536 ∧
      (storeHead data step inode).half (step + 24 : Nat) = inode.iUid % 65536 ∧
      (storeHead data step inode).word (step + 4 : Nat) = inode.iSize % 4294967296 ∧
      (storeHead data step inode).word (step + 8 : Nat) = inode.iAtime % 4294967296 ∧
      (storeHead data step inode).word (step + 16 : Nat) = inode.iMtime % 4294967296 ∧
      (storeHead data step inode).word (step + 12 : Nat) = inode.iCtime % 4294967296 := by
  unfold storeHead
  refine ⟨?_, ?_, ?_, ?_, ?_, ?_, ?_⟩ <;>
    simp (disch := omega) only [Region.word_setWord_other, Region.word_setHalf_other,
      Region.half_setWord_other, Region.half_setHalf_other, Region.word_setWord,
      Region.half_setHalf]

/-- Every field comes back but the group id, in whose place the user id does. -/
theorem load_store (typed : inode.Typed) (old : Inode) :
    SameWritten (loadInode (storeInode data step inode) step old)
      { inode with iGid := inode.iUid } := by
  have half : ∀ place, place + 2 ≤ 40 → (storeInode data step inode).half (step + place : Nat) =
      (storeHead data step inode).half (step + place : Nat) := fun _ => storeBlocks_half
  have word : ∀ place, place + 4 ≤ 40 → (storeInode data step inode).word (step + place : Nat) =
      (storeHead data step inode).word (step + place : Nat) := fun _ => storeBlocks_word
  obtain ⟨blocks, uid, gid, size, atime, mtime, ctime⟩ := storeHead_fields data step inode
  constructor
  · change (storeInode data step inode).word (step + 28 : Nat) % 65536 = inode.iBlocks
    rw [word 28 (by decide), blocks]
    have small := typed.iBlocks
    omega
  · change (storeInode data step inode).half (step + 2 : Nat) = inode.iUid
    rw [half 2 (by decide), uid]
    exact Nat.mod_eq_of_lt typed.iUid
  · change (storeInode data step inode).half (step + 24 : Nat) = inode.iUid
    rw [half 24 (by decide), gid]
    exact Nat.mod_eq_of_lt typed.iUid
  · change (storeInode data step inode).word (step + 4 : Nat) = inode.iSize
    rw [word 4 (by decide), size]
    exact Nat.mod_eq_of_lt typed.iSize
  · change (storeInode data step inode).word (step + 8 : Nat) = inode.iAtime
    rw [word 8 (by decide), atime]
    exact Nat.mod_eq_of_lt typed.iAtime
  · change (storeInode data step inode).word (step + 16 : Nat) = inode.iMtime
    rw [word 16 (by decide), mtime]
    exact Nat.mod_eq_of_lt typed.iMtime
  · change (storeInode data step inode).word (step + 12 : Nat) = inode.iCtime
    rw [word 12 (by decide), ctime]
    exact Nat.mod_eq_of_lt typed.iCtime
  · intro k inside
    unfold loadInode
    simp only [if_pos inside]
    rw [storeInode_eq]
    exact storeBlocks_entry inside (typed.iBlock k inside)

/-- The slot afterwards holds the user id twice and a short block count. -/
theorem storeInode_plain (typed : inode.Typed) : PlainSlot (storeInode data step inode) step := by
  obtain ⟨blocks, uid, gid, _⟩ := storeHead_fields data step inode
  constructor
  · rw [storeInode_eq, storeBlocks_half (by decide), storeBlocks_half (by decide), uid, gid]
  · rw [storeInode_eq, storeBlocks_word (by decide), blocks]
    have small := typed.iBlocks
    omega

/-! ### Writing back what was read -/

/-- An inode that was read from a plain slot is written back as it was. -/
theorem store_load (plain : PlainSlot data step)
    (same : SameStored inode (loadInode data step inode)) :
    storeInode data step inode = data := by
  have blocks : inode.iBlocks = data.word (step + 28 : Nat) :=
    same.iBlocks.trans (Nat.mod_eq_of_lt plain.2)
  have uid : inode.iUid = data.half (step + 2 : Nat) := same.iUid
  have gid : inode.iUid = data.half (step + 24 : Nat) := uid.trans plain.1.symm
  have size : inode.iSize = data.word (step + 4 : Nat) := same.iSize
  have atime : inode.iAtime = data.word (step + 8 : Nat) := same.iAtime
  have mtime : inode.iMtime = data.word (step + 16 : Nat) := same.iMtime
  have ctime : inode.iCtime = data.word (step + 12 : Nat) := same.iCtime
  have head : storeHead data step inode = data := by
    unfold storeHead
    rw [blocks, Region.setWord_word]
    dsimp only
    rw [uid, Region.setHalf_half, ← uid, gid, Region.setHalf_half, size, Region.setWord_word, atime,
      Region.setWord_word, mtime, Region.setWord_word, ctime, Region.setWord_word]
  rw [storeInode_eq, head]
  apply storeBlocks_same
  intro k inside
  have entry := same.iBlock k inside
  unfold loadInode at entry
  simp only [if_pos inside] at entry
  exact entry

end MangoOS
