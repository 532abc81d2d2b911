/-
A new entry in a block of a directory (fs/ext2.c).

`find_inode_in_dir` writes it over an unused entry and gives it the length of its name, so the
next entry is looked for right behind the name, wherever the old one ended.
-/

import MangoOS.FileSystem.DirLookup
import MangoOS.Library.Fields

namespace MangoOS

variable {data other : Region} {blockSize e k ino number : Nat} {name m : CString} {x : Int}

/-! ### Entries by their place -/

/-- The place of entry `j`, counted from an entry at byte `start`. -/
def entryFrom (data : Region) (start : Nat) : Nat → Nat
  | 0 => start
  | j + 1 => entryFrom data start j + recLen data (entryFrom data start j)

/-- At byte `p` of a block is an entry in use with this name and inode number. -/
structure EntryOf (data : Region) (blockSize : Nat) (name : CString) (number p : Nat) : Prop where
  inside : p < blockSize
  holds : data.word p = number
  inUse : number ≠ 0
  length : nameLen data p = name.length
  bytes : ∀ i, i < name.length → data (p + 8 + i : Nat) = name.getD i 0#8

/-- One of the entries of a block is. -/
def BlockHas (data : Region) (blockSize : Nat) (name : CString) (number : Nat) : Prop :=
  ∃ k, EntryOf data blockSize name number (entryAt data k)

/-- From byte `start` on the block is a chain of entries. -/
def ChainedFrom (data : Region) (start blockSize : Nat) : Prop :=
  ∃ n, entryFrom data start n = blockSize ∧
    ∀ j, j < n → 8 + nameLen data (entryFrom data start j) ≤
      recLen data (entryFrom data start j)

theorem entryFrom_ge (data : Region) (start j : Nat) : start ≤ entryFrom data start j := by
  induction j with
  | zero => exact Nat.le_refl start
  | succ j ih => exact Nat.le_trans ih (Nat.le_add_right _ _)

theorem EntryOf.transfer {p : Nat} (entry : EntryOf data blockSize m number p)
    (same : ∀ x : Int, p ≤ x → x < p + 8 + m.length → other x = data x) :
    EntryOf other blockSize m number p := by
  refine ⟨entry.inside, ?_, entry.inUse, ?_, ?_⟩
  · rw [← entry.holds]
    exact Region.word_congr fun x lower upper => same x (by omega) (by omega)
  · rw [← entry.length]
    unfold nameLen
    rw [same _ (by omega) (by omega)]
  · intro i less
    rw [← entry.bytes i less]
    exact same _ (by omega) (by omega)

theorem BlockHas.hit (has : BlockHas data blockSize name number) : BlockHit data blockSize name := by
  obtain ⟨k, entry⟩ := has
  have exact : ExactEntry data blockSize name k := by
    refine ⟨entry.inside, ?_, entry.length, entry.bytes⟩
    rw [entry.holds]
    exact entry.inUse
  obtain ⟨inside, isMatch, _⟩ := exactEntry_iff.mp exact
  exact ⟨k, inside, isMatch⟩

/-- An entry of a chained block has room for its name. -/
theorem ChainedBlock.room (chained : ChainedBlock data blockSize)
    (inside : entryAt data k < blockSize) :
    8 + nameLen data (entryAt data k) ≤ recLen data (entryAt data k) := by
  obtain ⟨n, ends, room⟩ := chained
  apply room
  by_contra beyond
  have le : entryAt data n ≤ entryAt data k := entryAt_mono (Nat.not_lt.mp beyond)
  omega

/-! ### What is written -/

theorem writeEntry_outside (data : Region) (ino : Nat)
    (outside : x < e ∨ e + 8 + name.length ≤ x ∨ x = e + 7) :
    writeEntry data e ino name x = data x := by
  unfold writeEntry
  rw [Region.setHalf_outside _ _ (by omega), Function.update_of_ne (by omega),
    Region.copy_outside _ _ (by omega), Region.setWord_outside _ _ (by omega)]

theorem writeEntry_word (data : Region) (e ino : Nat) (name : CString) :
    (writeEntry data e ino name).word e = ino % 4294967296 := by
  rw [← Region.word_setWord]
  apply Region.word_congr
  intro x lower upper
  unfold writeEntry
  rw [Region.setHalf_outside _ _ (by omega), Function.update_of_ne (by omega),
    Region.copy_outside _ _ (by omega)]

theorem writeEntry_recLen (data : Region) (e ino : Nat) (name : CString) :
    recLen (writeEntry data e ino name) e = (8 + name.length) % 65536 :=
  Region.half_setHalf _ _ _

theorem writeEntry_nameLen (data : Region) (e ino : Nat) (name : CString) :
    nameLen (writeEntry data e ino name) e = name.length % 256 := by
  unfold nameLen writeEntry
  rw [Region.setHalf_outside _ _ (by omega), Function.update_self, BitVec.toNat_ofNat]

theorem writeEntry_bytes (data : Region) (e ino : Nat) {i : Nat} (less : i < name.length) :
    writeEntry data e ino name (e + 8 + i : Nat) = name.getD i 0#8 := by
  have place : (0 + (((e + 8 + i : Nat) : Int) - (e + 8 : Nat))).toNat = i := by omega
  unfold writeEntry
  rw [Region.setHalf_outside _ _ (by omega), Function.update_of_ne (by omega),
    Region.copy_inside _ _ (by omega) (by omega), place]

/-- The entry at byte `e` is what would be written for inode 0. -/
structure AlreadyWritten (data : Region) (e : Nat) (name : CString) : Prop where
  unused : data.word e = 0
  length : recLen data e = 8 + name.length
  nameLength : nameLen data e = name.length
  bytes : ∀ i, i < name.length → data (e + 8 + i : Nat) = name.getD i 0#8

theorem AlreadyWritten.writes (written : AlreadyWritten data e name) :
    writeEntry data e 0 name = data := by
  have word : data.setWord (e : Nat) 0 = data := by
    rw [← written.unused]
    exact Region.setWord_word data _
  have copied : data.copy (e + 8 : Nat) (fun k => name.getD k.toNat 0#8) 0 name.length = data := by
    funext x
    by_cases inName : (e + 8 : Nat) ≤ x ∧ x < (e + 8 : Nat) + (name.length : Int)
    · rw [Region.copy_inside _ _ inName.1 inName.2]
      have byte := written.bytes (x - (e + 8 : Nat)).toNat (by omega)
      rw [show ((e + 8 + (x - (e + 8 : Nat)).toNat : Nat) : Int) = x by omega] at byte
      rw [byte, Int.zero_add]
    · rw [Region.copy_outside _ _ (by omega)]
  have length : BitVec.ofNat 8 name.length = data (e + 6 : Nat) := by
    rw [← written.nameLength]
    unfold nameLen
    rw [BitVec.ofNat_toNat, BitVec.setWidth_eq]
  unfold writeEntry
  dsimp only
  rw [word, copied, length, Function.update_eq_self, ← written.length]
  exact Region.setHalf_half data _

/-- Without an inode the block stays as it is if and only if the entry is there already. -/
theorem writeEntry_same_iff (short : name.length < 256) :
    writeEntry data e 0 name = data ↔ AlreadyWritten data e name := by
  constructor
  · intro same
    have word := writeEntry_word data e 0 name
    have length := writeEntry_recLen data e 0 name
    have nameLength := writeEntry_nameLen data e 0 name
    rw [same] at word length nameLength
    rw [Nat.mod_eq_of_lt (by omega)] at length nameLength
    refine ⟨word, length, nameLength, ?_⟩
    intro i less
    have byte := writeEntry_bytes data e 0 less
    rw [same] at byte
    exact byte
  · exact AlreadyWritten.writes

/-! ### A chain with a new entry -/

/-- `other` is the block with the new entry at byte `e`. -/
structure Replaced (data other : Region) (e ino : Nat) (name : CString) : Prop where
  outside : ∀ x : Int, x < e ∨ e + 8 + name.length ≤ x → other x = data x
  holds : other.word e = ino
  length : recLen other e = 8 + name.length
  nameLength : nameLen other e = name.length
  bytes : ∀ i, i < name.length → other (e + 8 + i : Nat) = name.getD i 0#8

theorem writeEntry_replaced (data : Region) (e : Nat) (number : ino < 4294967296)
    (short : name.length < 256) : Replaced data (writeEntry data e ino name) e ino name := by
  constructor
  · intro x outside
    exact writeEntry_outside data ino (by omega)
  · rw [writeEntry_word, Nat.mod_eq_of_lt number]
  · rw [writeEntry_recLen, Nat.mod_eq_of_lt (by omega)]
  · rw [writeEntry_nameLen, Nat.mod_eq_of_lt short]
  · exact fun i less => writeEntry_bytes data e ino less

namespace Replaced

variable {j : Nat}

/-- Headers in front of the new entry and behind it are as they were. -/
theorem header (replaced : Replaced data other e ino name) {p : Nat}
    (apart : p + 8 ≤ e ∨ e + 8 + name.length ≤ p) :
    recLen other p = recLen data p ∧ nameLen other p = nameLen data p := by
  unfold recLen Region.half nameLen
  rw [replaced.outside _ (by omega), replaced.outside _ (by omega),
    replaced.outside _ (by omega)]
  exact ⟨rfl, rfl⟩

theorem fits (chained : ChainedBlock data blockSize) (inside : entryAt data k < blockSize)
    (less : j < k) :
    entryAt data j + (8 + nameLen data (entryAt data j)) ≤ entryAt data k := by
  have before : entryAt data j ≤ entryAt data k := entryAt_mono (Nat.le_of_lt less)
  have room := chained.room (by omega : entryAt data j < blockSize)
  have next : entryAt data (j + 1) ≤ entryAt data k := entryAt_mono less
  rw [entryAt] at next
  omega

variable (replaced : Replaced data other (entryAt data k) ino name)
  (chained : ChainedBlock data blockSize) (inside : entryAt data k < blockSize)
include replaced chained inside

theorem entryAt_before (le : j ≤ k) : entryAt other j = entryAt data j := by
  induction j with
  | zero => rfl
  | succ j ih =>
      have room := fits chained inside (by omega : j < k)
      rw [entryAt, entryAt, ih (by omega), (replaced.header (by omega)).1]

theorem entryAt_behind (j : Nat) :
    entryAt other (k + 1 + j) = entryFrom data (entryAt data k + 8 + name.length) j := by
  induction j with
  | zero =>
      rw [Nat.add_zero, entryAt, replaced.entryAt_before chained inside (Nat.le_refl k),
        replaced.length, entryFrom]
      omega
  | succ j ih =>
      have behind := entryFrom_ge data (entryAt data k + 8 + name.length) j
      rw [← Nat.add_assoc, entryAt, ih, entryFrom, (replaced.header (Or.inr behind)).1]

/-- The block is a chain again if and only if one begins right behind the new name. -/
theorem chained_iff :
    ChainedBlock other blockSize ↔
      ChainedFrom data (entryAt data k + 8 + name.length) blockSize := by
  have place := replaced.entryAt_before chained inside (Nat.le_refl k)
  have behind := replaced.entryAt_behind chained inside
  have header : ∀ j, recLen other (entryAt other (k + 1 + j)) =
      recLen data (entryFrom data (entryAt data k + 8 + name.length) j) ∧
      nameLen other (entryAt other (k + 1 + j)) =
        nameLen data (entryFrom data (entryAt data k + 8 + name.length) j) := by
    intro j
    rw [behind]
    exact replaced.header (Or.inr (entryFrom_ge data _ j))
  constructor
  · rintro ⟨n, ends, room⟩
    have less : k < n := by
      by_contra beyond
      have le : entryAt other n ≤ entryAt other k := entryAt_mono (Nat.not_lt.mp beyond)
      omega
    obtain ⟨rest, isRest⟩ : ∃ rest, n = k + 1 + rest := ⟨n - (k + 1), by omega⟩
    rw [isRest] at ends room
    rw [behind] at ends
    refine ⟨rest, ends, ?_⟩
    intro j before
    have here := room (k + 1 + j) (by omega)
    rw [(header j).1, (header j).2] at here
    exact here
  · rintro ⟨rest, ends, room⟩
    refine ⟨k + 1 + rest, by rw [behind]; exact ends, ?_⟩
    intro j before
    rcases Nat.lt_trichotomy j k with less | same | more
    · have fitting := fits chained inside less
      have isPlace := replaced.entryAt_before chained inside (Nat.le_of_lt less)
      have same := replaced.header (p := entryAt data j) (by omega)
      have here := chained.room (by omega : entryAt data j < blockSize)
      rw [isPlace, same.1, same.2]
      exact here
    · rw [same, place, replaced.length, replaced.nameLength]
    · obtain ⟨i, isBehind⟩ : ∃ i, j = k + 1 + i := ⟨j - (k + 1), by omega⟩
      rw [isBehind, (header i).1, (header i).2]
      exact room i (by omega)

/-- The entries of the block: those in front, the new one, and those behind its name. -/
theorem has_iff :
    BlockHas other blockSize m number ↔
      (∃ j, j < k ∧ EntryOf data blockSize m number (entryAt data j)) ∨
        EntryOf other blockSize m number (entryAt data k) ∨
          ∃ j, EntryOf data blockSize m number
            (entryFrom data (entryAt data k + 8 + name.length) j) := by
  have place := replaced.entryAt_before chained inside (Nat.le_refl k)
  have behind := replaced.entryAt_behind chained inside
  constructor
  · rintro ⟨j, entry⟩
    rcases Nat.lt_trichotomy j k with less | same | more
    · have fitting := fits chained inside less
      rw [replaced.entryAt_before chained inside (Nat.le_of_lt less)] at entry
      have length := entry.length
      rw [(replaced.header (p := entryAt data j) (by omega)).2] at length
      exact Or.inl ⟨j, less, entry.transfer fun x lower upper =>
        (replaced.outside x (Or.inl (by omega))).symm⟩
    · rw [same, place] at entry
      exact Or.inr (Or.inl entry)
    · obtain ⟨i, isBehind⟩ : ∃ i, j = k + 1 + i := ⟨j - (k + 1), by omega⟩
      rw [isBehind, behind] at entry
      have beyond := entryFrom_ge data (entryAt data k + 8 + name.length) i
      exact Or.inr (Or.inr ⟨i, entry.transfer fun x lower upper =>
        (replaced.outside x (Or.inr (by omega))).symm⟩)
  · rintro (⟨j, less, entry⟩ | entry | ⟨j, entry⟩)
    · have fitting := fits chained inside less
      have length := entry.length
      refine ⟨j, ?_⟩
      rw [replaced.entryAt_before chained inside (Nat.le_of_lt less)]
      exact entry.transfer fun x lower upper => replaced.outside x (Or.inl (by omega))
    · exact ⟨k, by rw [place]; exact entry⟩
    · have beyond := entryFrom_ge data (entryAt data k + 8 + name.length) j
      refine ⟨k + 1 + j, ?_⟩
      rw [behind]
      exact entry.transfer fun x lower upper => replaced.outside x (Or.inr (by omega))

theorem has_new (inUse : ino ≠ 0) : BlockHas other blockSize name ino :=
  (replaced.has_iff chained inside).mpr
    (Or.inr (Or.inl ⟨inside, replaced.holds, inUse, replaced.nameLength, replaced.bytes⟩))

end Replaced

/-- Right behind the name begins a chain of entries that ends with the block and has every entry
in use that was behind entry `k`, if no entry in front has it as well. -/
structure Rejoins (data : Region) (blockSize k : Nat) (name : CString) : Prop where
  chain : ChainedFrom data (entryAt data k + 8 + name.length) blockSize
  live : ∀ j m number, k < j → EntryOf data blockSize m number (entryAt data j) →
    (∃ i, i < k ∧ EntryOf data blockSize m number (entryAt data i)) ∨
      ∃ i, EntryOf data blockSize m number (entryFrom data (entryAt data k + 8 + name.length) i)

theorem Replaced.intact_iff (replaced : Replaced data other (entryAt data k) ino name)
    (chained : ChainedBlock data blockSize) (inside : entryAt data k < blockSize)
    (unused : data.word (entryAt data k) = 0)
    (absent : ∀ number, ¬ BlockHas data blockSize name number) :
    (ChainedBlock other blockSize ∧
        ∀ m number, BlockHas data blockSize m number → BlockHas other blockSize m number) ↔
      Rejoins data blockSize k name := by
  rw [replaced.chained_iff chained inside]
  constructor
  · rintro ⟨chain, live⟩
    refine ⟨chain, ?_⟩
    intro j m number behind entry
    rcases (replaced.has_iff chained inside).mp (live m number ⟨j, entry⟩) with
      before | new | rest
    · exact Or.inl before
    · -- the new entry has another name
      have length : m.length = name.length := new.length.symm.trans replaced.nameLength
      have same : m = name := by
        apply List.ext_getElem length
        intro i first second
        have byte := (new.bytes i first).symm.trans (replaced.bytes i second)
        rw [← List.getElem_eq_getD, ← List.getElem_eq_getD] at byte
        exact byte
      exact absurd ⟨j, same ▸ entry⟩ (absent number)
    · exact Or.inr rest
  · intro rejoins
    refine ⟨rejoins.chain, ?_⟩
    rintro m number ⟨j, entry⟩
    apply (replaced.has_iff chained inside).mpr
    rcases Nat.lt_trichotomy j k with less | same | more
    · exact Or.inl ⟨j, less, entry⟩
    · rw [same] at entry
      exact absurd (entry.holds.symm.trans unused) entry.inUse
    · rcases rejoins.live j m number more entry with before | rest
      · exact Or.inl before
      · exact Or.inr (Or.inr rest)

/-- An entry of the right length is replaced without a trace. -/
theorem Rejoins.of_length (chained : ChainedBlock data blockSize)
    (inside : entryAt data k < blockSize)
    (length : recLen data (entryAt data k) = 8 + name.length) :
    Rejoins data blockSize k name := by
  have place : ∀ j, entryFrom data (entryAt data k + 8 + name.length) j =
      entryAt data (k + 1 + j) := by
    intro j
    induction j with
    | zero =>
        rw [entryFrom, Nat.add_zero, entryAt, length]
        omega
    | succ j ih => rw [entryFrom, ih, ← Nat.add_assoc, entryAt]
  constructor
  · obtain ⟨n, ends, room⟩ := chained
    have less : k < n := by
      by_contra beyond
      have le : entryAt data n ≤ entryAt data k := entryAt_mono (Nat.not_lt.mp beyond)
      omega
    obtain ⟨rest, isRest⟩ : ∃ rest, n = k + 1 + rest := ⟨n - (k + 1), by omega⟩
    refine ⟨rest, by rw [place, ← isRest]; exact ends, ?_⟩
    intro j before
    rw [place]
    exact room (k + 1 + j) (by omega)
  · intro j m number behind entry
    obtain ⟨i, isBehind⟩ : ∃ i, j = k + 1 + i := ⟨j - (k + 1), by omega⟩
    exact Or.inr ⟨i, by rw [place, ← isBehind]; exact entry⟩

end MangoOS
