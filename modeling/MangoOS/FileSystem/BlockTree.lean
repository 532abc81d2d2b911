/-
`iget_bno` (fs/ext2.c) against the block tree of ext2.

The tables hold entries of four bytes, but `iget_bno` adds the number of an entry to the
address of the table without scaling it.
-/

import Mathlib.Algebra.Order.Ring.Int
import MangoOS.FileSystem.Ext2
import MangoOS.FileSystem.Tree

namespace MangoOS

/-- The block that the tree of an inode has for an index: a direct block, or an entry below
one, two or three tables. -/
def treeBno (content : Nat → Region) (iBlock : Nat → Nat) (index : Nat) : Nat :=
  if index < 12 then iBlock index
  else if index < 1036 then tableWord content (iBlock 12) (index - 12)
  else if index < 1049612 then
    let rest := index - 1036
    tableWord content (tableWord content (iBlock 13) (rest / 1024)) (rest % 1024)
  else
    let rest := index - 1049612
    tableWord content
      (tableWord content (tableWord content (iBlock 14) (rest / 1048576)) (rest / 1024 % 1024))
      (rest % 1024)

/-- The block that is found when the numbers of the entries are taken for byte offsets. -/
def unscaledBno (content : Nat → Region) (iBlock : Nat → Nat) (index : Nat) : Nat :=
  if index < 12 then iBlock index
  else if index < 1036 then (content (iBlock 12)).word (index - 12 : Nat)
  else if index < 1049612 then
    let rest := index - 1036
    (content ((content (iBlock 13)).word (rest / 1024 : Nat))).word (rest % 1024 : Nat)
  else
    let rest := index - 1049612
    let first := (content (iBlock 14)).word (rest / 1048576 : Nat)
    (content ((content first).word (rest / 1024 % 1024 : Nat))).word (rest % 1024 : Nat)

theorem treePath_last (content : Nat → Region) (iBlock : Nat → Nat) (index : Nat) :
    (treePath content iBlock index).getLast? = some (treeBno content iBlock index) := by
  have digits : (index - 1049612) % 1048576 / 1024 = (index - 1049612) / 1024 % 1024 := by omega
  unfold treePath treeBno
  by_cases direct : index < 12
  · rw [if_pos direct, if_pos direct]
    rfl
  · rw [if_neg direct, if_neg direct]
    by_cases single : index < 1036
    · rw [if_pos single, if_pos single]
      rfl
    · rw [if_neg single, if_neg single]
      by_cases double : index < 1049612
      · rw [if_pos double, if_pos double]
        rfl
      · rw [if_neg double, if_neg double, digits]
        rfl

/-! ### What the code computes -/

namespace BlockStore

/-- The next `k` calls of `read_block` deliver each block's content. -/
def Serves (content : Nat → Region) : (k : Nat) → BlockStore → Prop
  | 0, _ => True
  | k + 1, store =>
      ∀ bno, ∃ bb after, store.readBlock 4096 bno = (some bb, after) ∧
        (after.buffers bb).data.Agree (content bno) 0 4096 ∧ Serves content k after

/-- A reliable disk under buckets with room for the calls serves what it holds. -/
theorem Roomy.serves {k : Nat} {store : BlockStore} (roomy : store.Roomy k) :
    store.Serves (fun bno => store.device.sectors (sectorOf 4096 bno)) k := by
  induction k generalizing store with
  | zero => trivial
  | succ k ih =>
      intro bno
      obtain ⟨after, reads, _, data, bytes, rest⟩ := roomy.read bno
      have served := ih rest
      unfold Device.sectors at served
      rw [bytes] at served
      exact ⟨store.made, after, reads, data, served⟩

theorem Serves.mono {content : Nat → Region} {k fewer : Nat} {store : BlockStore}
    (serves : store.Serves content k) (le : fewer ≤ k) : store.Serves content fewer := by
  induction fewer generalizing k store with
  | zero => trivial
  | succ fewer ih =>
      obtain ⟨more, rfl⟩ : ∃ more, k = more + 1 := ⟨k - 1, by omega⟩
      intro bno
      obtain ⟨bb, after, reads, agree, rest⟩ := serves bno
      exact ⟨bb, after, reads, agree, ih rest (by omega)⟩

end BlockStore

open BlockStore (Serves)

variable {content : Nat → Region} {store : BlockStore} {k : Nat}

theorem readEntry_serves (serves : store.Serves content (k + 1)) (bno : Nat) {offset : Nat}
    (inside : offset + 4 ≤ 4096) :
    ∃ after, readEntry store 4096 bno offset = (some ((content bno).word offset), after) ∧
      after.Serves content k := by
  obtain ⟨bb, after, reads, agree, rest⟩ := serves bno
  refine ⟨after, ?_, rest⟩
  unfold readEntry
  rw [reads]
  have same : (after.buffers bb).data.word offset = (content bno).word offset := by
    apply Region.word_congr
    intro x lower upper
    exact agree x (by omega) (by omega)
  simp only [same]

theorem igetBno_serves (serves : store.Serves content (k + 3)) (inode : Inode) {index : Nat}
    (below : index < 1074791436) :
    ∃ after, igetBno store 4096 inode index = (unscaledBno content inode.iBlock index, after) ∧
      after.Serves content k := by
  have digits : (index - 1049612) % 1048576 / 1024 = (index - 1049612) / 1024 % 1024 := by omega
  have lowest : (index - 1049612) % 1048576 % 1024 = (index - 1049612) % 1024 := by omega
  unfold igetBno unscaledBno
  by_cases direct : index < 12
  · rw [if_pos direct, if_pos direct]
    exact ⟨store, rfl, serves.mono (by omega)⟩
  · rw [if_neg direct, if_neg direct]
    by_cases single : index < 1036
    · obtain ⟨after, reads, rest⟩ :=
        readEntry_serves serves (inode.iBlock 12) (by omega : index - 12 + 4 ≤ 4096)
      rw [if_pos single, if_pos single, reads]
      exact ⟨after, rfl, rest.mono (by omega)⟩
    · rw [if_neg single, if_neg single]
      by_cases double : index < 1049612
      · obtain ⟨first, reads, still⟩ := readEntry_serves serves (inode.iBlock 13)
          (by omega : (index - 1036) / 1024 + 4 ≤ 4096)
        obtain ⟨second, readsMore, rest⟩ := readEntry_serves still
          ((content (inode.iBlock 13)).word ((index - 1036) / 1024 : Nat))
          (by omega : (index - 1036) % 1024 + 4 ≤ 4096)
        simp only [if_pos double, reads, readsMore]
        exact ⟨second, rfl, rest.mono (by omega)⟩
      · obtain ⟨first, reads, still⟩ := readEntry_serves serves (inode.iBlock 14)
          (by omega : (index - 1049612) / 1048576 + 4 ≤ 4096)
        obtain ⟨second, readsMore, stillMore⟩ := readEntry_serves still
          ((content (inode.iBlock 14)).word ((index - 1049612) / 1048576 : Nat))
          (by omega : (index - 1049612) / 1024 % 1024 + 4 ≤ 4096)
        obtain ⟨third, readsLast, rest⟩ := readEntry_serves stillMore
          ((content ((content (inode.iBlock 14)).word ((index - 1049612) / 1048576 : Nat))).word
            ((index - 1049612) / 1024 % 1024 : Nat))
          (by omega : (index - 1049612) % 1024 + 4 ≤ 4096)
        simp only [if_neg double, digits, lowest, reads, readsMore, readsLast]
        exact ⟨third, rfl, rest⟩

/-! ### Three tables with one entry each -/

/-- A disk on which block 3 refers to block 2 from entry `p`, that one to block 1 from entry
`q`, and that one to block 1 from entry `r`. -/
def threeTables (p q r : Nat) : BlockStore :=
  { BlockStore.zeroed with
    device :=
      { BlockStore.zeroed.device with
        bytes := fun a =>
          if a = 4096 + 4 * r then 1#8
          else if a = 8192 + 4 * q then 1#8
          else if a = 12288 + 4 * p then 2#8
          else 0#8 } }

/-- An inode whose tables are the blocks 1, 2 and 3. -/
def threeTablesInode : Inode :=
  { (FileSystem.sample 0).inode ⟨0, 0⟩ with iBlock := fun k => k - 11 }

/-- The content of the blocks of that disk. -/
def threeContent (p q r bno : Nat) : Region :=
  (threeTables p q r).device.sectors (BlockStore.sectorOf 4096 bno)

theorem threeTables_serves (p q r : Nat) :
    (threeTables p q r).Serves (threeContent p q r) 3 := by
  apply BlockStore.Roomy.serves
  constructor
  · intro _
    exact Nat.le_refl 8
  · intro _
    change (0 : Int) + 3 ≤ 100
    decide

section Three

variable (p q r bno offset : Nat)

theorem threeContent_byte (i : Nat) :
    threeContent p q r bno (offset + i) =
      (threeTables p q r).device.bytes (bno % 1048576 * 4096 + offset + i) := by
  have sector : BlockStore.sectorOf 4096 bno * sectorSize = bno % 1048576 * 4096 := by
    unfold BlockStore.sectorOf sectorSize
    omega
  have place : ((offset : Int) + i).toNat = offset + i := by omega
  unfold threeContent Device.sectors
  rw [sector, place, Nat.add_assoc]

theorem threeContent_word :
    (threeContent p q r bno).word offset =
      (threeTables p q r).device.bytes.word (bno % 1048576 * 4096 + offset) := by
  unfold Region.word ByteMemory.word
  simp only [Nat.zero_add, threeContent_byte, Nat.add_zero]

theorem threeTables_byte (a : Nat) :
    ((threeTables p q r).device.bytes a).toNat =
      if a = 4096 + 4 * r then 1 else if a = 8192 + 4 * q then 1
      else if a = 12288 + 4 * p then 2 else 0 := by
  change BitVec.toNat (if _ then _ else if _ then _ else if _ then _ else _) = _
  split_ifs <;> rfl

variable {p q r bno offset}

theorem threeTables_zero {a : Nat} (first : a ≠ 4096 + 4 * r) (second : a ≠ 8192 + 4 * q)
    (third : a ≠ 12288 + 4 * p) : ((threeTables p q r).device.bytes a).toNat = 0 := by
  rw [threeTables_byte, if_neg first, if_neg second, if_neg third]

theorem threeTables_word {a : Nat} (aligned : a % 4 = 0) :
    (threeTables p q r).device.bytes.word a = ((threeTables p q r).device.bytes a).toNat := by
  have second : ((threeTables p q r).device.bytes (a + 1)).toNat = 0 := by
    apply threeTables_zero <;> omega
  have third : ((threeTables p q r).device.bytes (a + 2)).toNat = 0 := by
    apply threeTables_zero <;> omega
  have fourth : ((threeTables p q r).device.bytes (a + 3)).toNat = 0 := by
    apply threeTables_zero <;> omega
  unfold ByteMemory.word
  rw [second, third, fourth]
  rfl

theorem threeTables_entry (first : p < 1024) (second : q < 1024) (third : r < 1024) :
    tableWord (threeContent p q r) 1 r = 1 ∧ tableWord (threeContent p q r) 2 q = 1 ∧
      tableWord (threeContent p q r) 3 p = 2 := by
  have word : ∀ bno k, bno < 1048576 → tableWord (threeContent p q r) bno k =
      ((threeTables p q r).device.bytes (bno * 4096 + 4 * k)).toNat := by
    intro bno k small
    unfold tableWord
    rw [threeContent_word, Nat.mod_eq_of_lt small]
    exact threeTables_word (by omega)
  refine ⟨?_, ?_, ?_⟩
  · rw [word 1 r (by decide), threeTables_byte, if_pos (by omega)]
  · rw [word 2 q (by decide), threeTables_byte, if_neg (by omega), if_pos (by omega)]
  · rw [word 3 p (by decide), threeTables_byte, if_neg (by omega), if_neg (by omega),
      if_pos (by omega)]

theorem word_low (mem : ByteMemory) (a : Nat) : mem.word a % 256 = (mem a).toNat := by
  have small := (mem a).isLt
  unfold ByteMemory.word
  omega

/-- The lowest byte of a word that starts at none of the three entries is zero. -/
theorem threeContent_low (first : bno % 1048576 * 4096 + offset ≠ 4096 + 4 * r)
    (second : bno % 1048576 * 4096 + offset ≠ 8192 + 4 * q)
    (third : bno % 1048576 * 4096 + offset ≠ 12288 + 4 * p) :
    (threeContent p q r bno).word offset % 256 = 0 := by
  rw [threeContent_word, word_low, threeTables_byte, if_neg first, if_neg second, if_neg third]

/-- A block number whose lowest byte is zero leads to a block of zeros. -/
theorem threeContent_away (first : p < 1024) (second : q < 1024) (third : r < 1024)
    (away : bno % 256 = 0) (inside : offset < 1024) :
    (threeContent p q r bno).word offset % 256 = 0 := by
  apply threeContent_low <;> omega

/-- An entry other than the first is looked for before its place. -/
theorem threeContent_unscaled (first : p < 1024) (second : q < 1024) (third : r < 1024) :
    (r ≠ 0 → (threeContent p q r 1).word r % 256 = 0) ∧
      (q ≠ 0 → (threeContent p q r 2).word q % 256 = 0) ∧
      (p ≠ 0 → (threeContent p q r 3).word p % 256 = 0) := by
  refine ⟨?_, ?_, ?_⟩ <;> intro positive <;> apply threeContent_low <;> omega

theorem tableWord_zero (content : Nat → Region) (bno : Nat) :
    tableWord content bno 0 = (content bno).word (0 : Nat) := rfl

theorem threeContent_double (first : p < 1024) (second : q < 1024) (third : r < 1024)
    (nonzero : q ≠ 0 ∨ r ≠ 0) :
    (threeContent p q r ((threeContent p q r 2).word q)).word r % 256 = 0 := by
  obtain ⟨low, lowUp, _⟩ := threeContent_unscaled first second third
  by_cases isFirst : q = 0
  · have entry := (threeTables_entry first second third).2.1
    subst isFirst
    rw [← tableWord_zero, entry]
    exact low (nonzero.resolve_left fun different => different rfl)
  · exact threeContent_away first second third (lowUp isFirst) third

theorem threeContent_triple (first : p < 1024) (second : q < 1024) (third : r < 1024)
    (nonzero : p ≠ 0 ∨ q ≠ 0 ∨ r ≠ 0) :
    (threeContent p q r ((threeContent p q r ((threeContent p q r 3).word p)).word q)).word r %
      256 = 0 := by
  by_cases isFirst : p = 0
  · have entry := (threeTables_entry first second third).2.2
    subst isFirst
    rw [← tableWord_zero, entry]
    exact threeContent_double first second third
      (nonzero.resolve_left fun different => different rfl)
  · have low := (threeContent_unscaled first second third).2.2 isFirst
    have middle := threeContent_away first second third low second
    exact threeContent_away first second third middle third

end Three

/-! ### Which indices are found -/

/-- A direct block, or the first entry of every table on the way. -/
def FirstEntries (index : Nat) : Prop :=
  index < 12 ∨ index = 12 ∨ index = 1036 ∨ index = 1049612

theorem unscaledBno_first {index : Nat} (first : FirstEntries index) (content : Nat → Region)
    (iBlock : Nat → Nat) : unscaledBno content iBlock index = treeBno content iBlock index := by
  unfold unscaledBno treeBno
  rcases first with direct | single | double | triple
  · rw [if_pos direct, if_pos direct]
  · subst single
    rfl
  · subst double
    rfl
  · subst triple
    rfl

/-- At any other index the three tables lead elsewhere. -/
theorem unscaledBno_other {index : Nat} (other : ¬ FirstEntries index)
    (below : index < 1074791436) :
    ∃ p q r, unscaledBno (threeContent p q r) threeTablesInode.iBlock index ≠
      treeBno (threeContent p q r) threeTablesInode.iBlock index := by
  unfold FirstEntries at other
  have indirect : ¬ index < 12 := by omega
  unfold unscaledBno treeBno
  simp only [if_neg indirect]
  by_cases single : index < 1036
  · have third : index - 12 < 1024 := by omega
    have nonzero : index - 12 ≠ 0 := by omega
    refine ⟨0, 0, index - 12, ?_⟩
    simp only [if_pos single]
    generalize index - 12 = r at *
    have entry := (threeTables_entry (by decide : 0 < 1024) (by decide : 0 < 1024) third).1
    have low := (threeContent_unscaled (by decide : 0 < 1024) (by decide : 0 < 1024)
      third).1 nonzero
    change (threeContent 0 0 r 1).word r ≠ tableWord (threeContent 0 0 r) 1 r
    omega
  · by_cases double : index < 1049612
    · have third : (index - 1036) % 1024 < 1024 := Nat.mod_lt _ (by decide)
      have second : (index - 1036) / 1024 < 1024 := by omega
      have nonzero : (index - 1036) / 1024 ≠ 0 ∨ (index - 1036) % 1024 ≠ 0 := by omega
      refine ⟨0, (index - 1036) / 1024, (index - 1036) % 1024, ?_⟩
      simp only [if_neg single, if_pos double]
      generalize (index - 1036) / 1024 = q at *
      generalize (index - 1036) % 1024 = r at *
      obtain ⟨entry, entryUp, _⟩ := threeTables_entry (by decide : 0 < 1024) second third
      have low := threeContent_double (by decide : 0 < 1024) second third nonzero
      change (threeContent 0 q r ((threeContent 0 q r 2).word q)).word r ≠
        tableWord (threeContent 0 q r) (tableWord (threeContent 0 q r) 2 q) r
      rw [entryUp, entry]
      omega
    · have third : (index - 1049612) % 1024 < 1024 := Nat.mod_lt _ (by decide)
      have second : (index - 1049612) / 1024 % 1024 < 1024 := Nat.mod_lt _ (by decide)
      have first : (index - 1049612) / 1048576 < 1024 := by omega
      have nonzero : (index - 1049612) / 1048576 ≠ 0 ∨ (index - 1049612) / 1024 % 1024 ≠ 0 ∨
          (index - 1049612) % 1024 ≠ 0 := by omega
      refine ⟨(index - 1049612) / 1048576, (index - 1049612) / 1024 % 1024,
        (index - 1049612) % 1024, ?_⟩
      simp only [if_neg single, if_neg double]
      generalize (index - 1049612) / 1048576 = p at *
      generalize (index - 1049612) / 1024 % 1024 = q at *
      generalize (index - 1049612) % 1024 = r at *
      obtain ⟨entry, entryUp, entryTop⟩ := threeTables_entry first second third
      have low := threeContent_triple first second third nonzero
      change (threeContent p q r ((threeContent p q r ((threeContent p q r 3).word p)).word q)).word
        r ≠ tableWord (threeContent p q r)
          (tableWord (threeContent p q r) (tableWord (threeContent p q r) 3 p) q) r
      rw [entryTop, entryUp, entry]
      omega

/-- The indices at which every file's block is the one its tree says, whatever the tables
hold. -/
theorem igetBno_follows_iff {index : Nat} (below : index < 1074791436) :
    (∀ (content : Nat → Region) (store : BlockStore) (inode : Inode), store.Serves content 3 →
      (igetBno store 4096 inode index).1 = treeBno content inode.iBlock index) ↔
        FirstEntries index := by
  constructor
  · intro follows
    by_contra other
    obtain ⟨p, q, r, different⟩ := unscaledBno_other other below
    have same := follows _ _ threeTablesInode (threeTables_serves p q r)
    obtain ⟨after, found, _⟩ :=
      igetBno_serves (threeTables_serves p q r) threeTablesInode below
    rw [found] at same
    exact different same
  · intro first content store inode serves
    obtain ⟨after, found, _⟩ := igetBno_serves serves inode below
    rw [found]
    exact unscaledBno_first first content inode.iBlock

theorem igetBno_follows_direct :
    (∀ (content : Nat → Region) (store : BlockStore) (inode : Inode), store.Serves content 3 →
      (igetBno store 4096 inode 12).1 = treeBno content inode.iBlock 12) ↔ FirstEntries 12 :=
  igetBno_follows_iff (by decide)

/-- The second block behind the direct ones is entry 1 of the table, but the code takes the
bytes 1 to 4. -/
theorem igetBno_unscaled :
    ¬ ∀ (content : Nat → Region) (store : BlockStore) (inode : Inode) (index : Nat),
      index < 12 + 1024 + 1024 ^ 2 + 1024 ^ 3 → store.Serves content 3 →
        (igetBno store 4096 inode index).1 = treeBno content inode.iBlock index := by
  intro follows
  have serves := threeTables_serves 0 0 1
  have same := follows (threeContent 0 0 1) (threeTables 0 0 1) threeTablesInode 13 (by decide)
    serves
  obtain ⟨after, found, _⟩ :=
    igetBno_serves serves threeTablesInode (by decide : 13 < 1074791436)
  rw [found] at same
  have entry := (threeTables_entry (by decide : 0 < 1024) (by decide : 0 < 1024)
    (by decide : 1 < 1024)).1
  have low := (threeContent_unscaled (by decide : 0 < 1024) (by decide : 0 < 1024)
    (by decide : 1 < 1024)).1 (by decide)
  change (threeContent 0 0 1 1).word (1 : Nat) = tableWord (threeContent 0 0 1) 1 1 at same
  omega

end MangoOS
