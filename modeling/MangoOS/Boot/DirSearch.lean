/-
What the two boot stages find in a directory.

The first stage adds only the low byte of `rec_len` and gives up at the first name
of the same length; the second adds the upper half of an inode number to the length
of an entry that it skips.
-/

import MangoOS.Boot.FindInode

namespace MangoOS

namespace Boot

/-- An entry of a directory that is in use. -/
structure DirEntry where
  inode : Nat
  recLen : Nat
  name : List (BitVec 8)
  inode_ne : inode ≠ 0
  inode_lt : inode < 4294967296
  recLen_lt : recLen < 65536
  room : 8 + name.length ≤ recLen
  name_ne : name ≠ []
  name_lt : name.length < 256

/-- Entries up to one with inode 0 lie at an address. -/
def HoldsEntries (width : Nat) (mem : ByteMemory) : (a : Nat) → List DirEntry → Prop
  | a, [] => longAt width mem a = 0
  | a, e :: entries =>
      longAt width mem a = e.inode ∧ wordAt width mem (a + 4) = e.recLen ∧
        byteAt width mem (a + 6) = e.name.length ∧ HoldsText width mem (a + 8) e.name ∧
          HoldsEntries width mem (a + e.recLen) entries

instance HoldsEntries.decidable (width : Nat) (mem : ByteMemory) :
    ∀ (a : Nat) (entries : List DirEntry), Decidable (HoldsEntries width mem a entries)
  | a, [] => inferInstanceAs (Decidable (longAt width mem a = 0))
  | a, e :: entries =>
      have := HoldsEntries.decidable width mem (a + e.recLen) entries
      inferInstanceAs (Decidable (longAt width mem a = e.inode ∧
        wordAt width mem (a + 4) = e.recLen ∧ byteAt width mem (a + 6) = e.name.length ∧
          HoldsText width mem (a + 8) e.name ∧ HoldsEntries width mem (a + e.recLen) entries))

/-- The inode number of the first entry with the name, or 0. -/
def lookup (name : List (BitVec 8)) : List DirEntry → Nat
  | [] => 0
  | e :: entries => if e.name = name then e.inode else lookup name entries

/-- Both stages find what a lookup finds, each in its own memory. -/
def SameSearch (mem16 mem32 : ByteMemory) (name : List (BitVec 8)) (at16 at32 : Nat)
    (entries : List DirEntry) : Prop :=
  ∃ fuel, findInode16 fuel mem16 name.length at16 = some (lookup name entries) ∧
    findInode32 fuel mem32 name.length at32 = some (lookup name entries)

/-- Names are compared only if they have the same length, of which one byte is looked at. -/
def Comparable (name : List (BitVec 8)) (e : DirEntry) : Prop :=
  e.name.length = name.length % 256 → e.name.length = name.length

/-- The first stage only passes entries shorter than 256 bytes: up to the first one with a name of
the same length or without a low half of its inode number. -/
def Stays16 (name : List (BitVec 8)) : List DirEntry → Prop
  | [] => True
  | e :: entries =>
      e.inode % 65536 = 0 ∨ Comparable name e ∧
        (e.name.length = name.length ∨ e.recLen < 256 ∧ Stays16 name entries)

/-- Before the name is found the second stage only passes entries with inode numbers of 16 bits, or
with names of the same length. -/
def Stays32 (name : List (BitVec 8)) : List DirEntry → Prop
  | [] => True
  | e :: entries =>
      e.name = name ∨ Comparable name e ∧
        (e.name.length = name.length ∨ e.inode < 65536) ∧ Stays32 name entries

/-- Where the first stage stops, it stops at the name with an inode number of 16 bits, or the name
does not follow. -/
def Ends16 (name : List (BitVec 8)) : List DirEntry → Prop
  | [] => True
  | e :: entries =>
      if e.inode % 65536 = 0 then lookup name (e :: entries) = 0
      else if e.name = name then e.inode < 65536
      else if e.name.length = name.length then lookup name entries = 0
      else Ends16 name entries

/-- What the first stage returns while it stays on the entries. -/
def answer16 (name : List (BitVec 8)) : List DirEntry → Nat
  | [] => 0
  | e :: entries =>
      if e.inode % 65536 = 0 then 0
      else if e.name = name then e.inode % 65536
      else if e.name.length = name.length then 0
      else answer16 name entries

theorem answer16_iff (name : List (BitVec 8)) (entries : List DirEntry) :
    answer16 name entries = lookup name entries ↔ Ends16 name entries := by
  induction entries with
  | nil => exact iff_of_true rfl trivial
  | cons e entries ih =>
      rw [answer16, Ends16, lookup]
      by_cases low : e.inode % 65536 = 0
      · rw [if_pos low, if_pos low]
        exact eq_comm
      · rw [if_neg low, if_neg low]
        by_cases same : e.name = name
        · rw [if_pos same, if_pos same, if_pos same]
          omega
        · rw [if_neg same, if_neg same, if_neg same]
          by_cases length : e.name.length = name.length
          · rw [if_pos length, if_pos length]
            exact eq_comm
          · rw [if_neg length, if_neg length]
            exact ih

/-! ### The two loops on the entries -/

section Loops

variable {width a b place : Nat} {mem : ByteMemory} {name : List (BitVec 8)} {e : DirEntry}
  {entries : List DirEntry}

theorem HoldsEntries.congr (holds : HoldsEntries width mem a entries)
    (same : a % width = b % width) : HoldsEntries width mem b entries := by
  induction entries generalizing a b with
  | nil => exact (longAt_congr same).symm.trans holds
  | cons e entries ih =>
      obtain ⟨inode, recLen, length, text, rest⟩ := holds
      have shifted : ∀ k, (a + k) % width = (b + k) % width := by
        intro k
        rw [Nat.add_mod, same, ← Nat.add_mod]
      exact ⟨(longAt_congr same).symm.trans inode, (wordAt_congr same 4).symm.trans recLen,
        (byteAt_congr same 6).symm.trans length, text.congr (shifted 8), ih rest (shifted e.recLen)⟩

theorem length_ne (other : e.name.length ≠ name.length % 256) : e.name.length ≠ name.length := by
  intro same
  have short := e.name_lt
  omega

theorem compare_entry (text : HoldsText width mem place name)
    (entryText : HoldsText width mem (a + 8) e.name) (sameLength : e.name.length = name.length) :
    compare width mem name.length place (a + 8) = if e.name = name then 0 else 1 := by
  have nonempty : name ≠ [] := by
    intro empty
    rw [empty] at sameLength
    exact e.name_ne (List.length_eq_zero_iff.mp sameLength)
  rw [compare_text text entryText sameLength.symm nonempty]
  simp only [eq_comm]

theorem setLow_zero (size value : Nat) : setLow size 0 value = value := by
  unfold setLow
  omega

theorem setLow_small {register value : Nat} (small : register < 65536) :
    setLow 65536 register value = value := by
  unfold setLow
  omega

/-- The byte that `next_dir` of the first stage adds. -/
theorem byteAt_of_wordAt {value : Nat} (word : wordAt width mem a = value) (small : value < 256) :
    byteAt width mem a = value := by
  unfold wordAt at word
  omega

/-- While it stays on the entries the first stage ends. -/
theorem searchLoop16_eq (text : HoldsText segment16 mem place name)
    (holds : HoldsEntries segment16 mem a entries) (stays : Stays16 name entries) {fuel : Nat}
    (enough : entries.length < fuel) :
    searchLoop16 mem name.length place fuel a = some (answer16 name entries) := by
  obtain ⟨fuel, rfl⟩ := Nat.exists_eq_succ_of_ne_zero (Nat.ne_zero_of_lt enough)
  induction entries generalizing a fuel with
  | nil =>
      have zero : wordAt segment16 mem a = 0 := by
        rw [wordAt_eq_longAt, holds]
      rw [searchLoop16]
      simp only [zero, if_true]
      rfl
  | cons e entries ih =>
      obtain ⟨inode, recLen, length, entryText, rest⟩ := holds
      have low : wordAt segment16 mem a = e.inode % 65536 := by
        rw [wordAt_eq_longAt, inode]
      rw [searchLoop16, answer16]
      simp only [low, length]
      by_cases noLow : e.inode % 65536 = 0
      · rw [if_pos noLow, if_pos noLow]
      · rw [if_neg noLow, if_neg noLow]
        obtain ⟨comparable, passes⟩ := stays.resolve_left noLow
        by_cases sameByte : e.name.length = name.length % 256
        · have sameLength := comparable sameByte
          rw [if_neg (fun different => different sameByte), compare_entry text entryText sameLength,
            if_pos sameLength]
          by_cases same : e.name = name
          · rw [if_pos same, if_pos same]
            rfl
          · rw [if_neg same, if_neg same]
            rfl
        · have otherLength := length_ne sameByte
          have other : e.name ≠ name := fun same => otherLength (by rw [same])
          obtain ⟨short, later⟩ := passes.resolve_left otherLength
          rw [if_pos sameByte, if_neg other, if_neg otherLength, setLow_zero,
            byteAt_of_wordAt recLen short]
          rw [List.length_cons] at enough
          obtain ⟨fuel, rfl⟩ := Nat.exists_eq_succ_of_ne_zero (by omega : fuel ≠ 0)
          exact ih (rest.congr (Nat.mod_mod _ _).symm) later fuel (by omega)

/-- While it stays on the entries the second stage finds what is looked up. -/
theorem searchLoop32_eq (text : HoldsText segment32 mem place name)
    (holds : HoldsEntries segment32 mem a entries) (stays : Stays32 name entries) {fuel : Nat}
    (enough : entries.length < fuel) :
    searchLoop32 mem name.length place fuel a = some (lookup name entries) := by
  obtain ⟨fuel, rfl⟩ := Nat.exists_eq_succ_of_ne_zero (Nat.ne_zero_of_lt enough)
  induction entries generalizing a fuel with
  | nil =>
      have zero : longAt segment32 mem a = 0 := holds
      rw [searchLoop32]
      simp only [zero, if_true]
      rfl
  | cons e entries ih =>
      obtain ⟨inode, recLen, length, entryText, rest⟩ := holds
      -- the next entry, where the upper half of `eax` is clear
      have onward : e.name ≠ name → ∀ {eax : Nat}, eax < 65536 →
          searchLoop32 mem name.length place fuel (nextDir32 mem eax a) =
            some (lookup name entries) := by
        intro other eax small
        rw [List.length_cons] at enough
        obtain ⟨fuel, rfl⟩ := Nat.exists_eq_succ_of_ne_zero (by omega : fuel ≠ 0)
        unfold nextDir32
        rw [recLen, setLow_small small]
        exact ih (rest.congr (Nat.mod_mod _ _).symm) (stays.resolve_left other).2.2 fuel (by omega)
      rw [searchLoop32, lookup]
      simp only [inode, length, if_neg e.inode_ne]
      by_cases same : e.name = name
      · have sameByte : e.name.length = name.length % 256 := by
          rw [← same]
          exact (Nat.mod_eq_of_lt e.name_lt).symm
        rw [if_neg (fun different => different sameByte),
          compare_entry text entryText (by rw [same]), if_pos same, if_pos same,
          if_neg (fun different => different rfl)]
      · obtain ⟨comparable, small, _⟩ := stays.resolve_left same
        rw [if_neg same]
        by_cases sameByte : e.name.length = name.length % 256
        · rw [if_neg (fun different => different sameByte),
            compare_entry text entryText (comparable sameByte), if_neg same, if_pos (by decide)]
          exact onward same (by decide)
        · rw [if_pos sameByte]
          exact onward same (small.resolve_left (length_ne sameByte))

/-- What the first stage returned it returns with more rounds as well. -/
theorem searchLoop16_more {length fuel di found : Nat} (more : Nat)
    (returns : searchLoop16 mem length place fuel di = some found) :
    searchLoop16 mem length place (fuel + more) di = some found := by
  induction fuel generalizing di with
  | zero => cases returns
  | succ fuel ih =>
      rw [Nat.succ_add, searchLoop16]
      rw [searchLoop16] at returns
      by_cases zero : wordAt segment16 mem di = 0
      · simp only [zero, if_true] at returns ⊢
        exact returns
      · simp only [if_neg zero] at returns ⊢
        by_cases other : byteAt segment16 mem (di + 6) ≠ length % 256
        · rw [if_pos other] at returns ⊢
          exact ih returns
        · rw [if_neg other] at returns ⊢
          exact returns

end Loops

/-- Where both stages stay on the entries, they find what a lookup finds if the first one stops in
the right place, and only then. -/
theorem findInode_same {mem16 mem32 : ByteMemory} {name : List (BitVec 8)} {at16 at32 : Nat}
    {entries : List DirEntry}
    (text16 : HoldsText segment16 mem16 at16 name) (text32 : HoldsText segment32 mem32 at32 name)
    (holds16 : HoldsEntries segment16 mem16 0x8000 entries)
    (holds32 : HoldsEntries segment32 mem32 0x20000 entries) :
    (Stays16 name entries ∧ Stays32 name entries ∧ Ends16 name entries →
        SameSearch mem16 mem32 name at16 at32 entries) ∧
      (Stays16 name entries → SameSearch mem16 mem32 name at16 at32 entries →
        Ends16 name entries) := by
  constructor
  · rintro ⟨stays16, stays32, ends⟩
    refine ⟨entries.length + 1, ?_, searchLoop32_eq text32 holds32 stays32 (Nat.lt_succ_self _)⟩
    rw [← (answer16_iff name entries).mpr ends]
    exact searchLoop16_eq text16 holds16 stays16 (Nat.lt_succ_self _)
  · rintro stays16 ⟨fuel, first, _⟩
    have longer := searchLoop16_more (entries.length + 1) first
    rw [searchLoop16_eq text16 holds16 stays16 (by omega), Option.some.injEq] at longer
    exact (answer16_iff name entries).mp longer

/-! ### A directory with two entries -/

/-- `boot`, the name of the first directory that is looked up. -/
def bootName : List (BitVec 8) := [98, 111, 111, 116]

/-- An entry with inode 12 in front of that of `boot`, and the name to look up at 0x7000. -/
def twoEntries (first : List (BitVec 8)) (base : Nat) : ByteMemory := fun a =>
  if base ≤ a then
    ([12, 0, 0, 0, 16, 0, BitVec.ofNat 8 first.length, 1] ++ first ++
      List.replicate (8 - first.length) 0 ++
      [13, 0, 0, 0, 12, 0, 4, 2] ++ bootName).getD (a - base) 0
  else bootName.getD (a - 0x7000) 0

def bootEntry : DirEntry :=
  ⟨13, 12, bootName, by decide, by decide, by decide, by decide, by decide, by decide⟩

/-- `kernel` -/
def kernelEntry : DirEntry :=
  ⟨12, 16, [107, 101, 114, 110, 101, 108], by decide, by decide, by decide, by decide, by decide,
    by decide⟩

/-- `home` -/
def homeEntry : DirEntry :=
  ⟨12, 16, [104, 111, 109, 101], by decide, by decide, by decide, by decide, by decide, by decide⟩

theorem findInode_same_kernel :
    SameSearch (twoEntries kernelEntry.name 0x8000) (twoEntries kernelEntry.name 0x20000) bootName
      0x7000 0x7000 [kernelEntry, bootEntry] := by
  have other : Comparable bootName kernelEntry := fun same => absurd same (by decide)
  have stays16 : Stays16 bootName [kernelEntry, bootEntry] :=
    Or.inr ⟨other, Or.inr ⟨by decide, Or.inr ⟨fun _ => rfl, Or.inl rfl⟩⟩⟩
  have stays32 : Stays32 bootName [kernelEntry, bootEntry] :=
    Or.inr ⟨other, Or.inr (by decide), Or.inl rfl⟩
  have ends16 : Ends16 bootName [kernelEntry, bootEntry] := (by decide : 13 < 65536)
  exact (findInode_same (by decide +kernel) (by decide +kernel) (by decide +kernel)
    (by decide +kernel)).1 ⟨stays16, stays32, ends16⟩

/-- Behind `home` the first stage does not find `boot`, and the second does. -/
theorem findInode_same_not :
    findInode16 1 (twoEntries homeEntry.name 0x8000) 4 0x7000 = some 0 ∧
      findInode32 2 (twoEntries homeEntry.name 0x20000) 4 0x7000 = some 13 ∧
      lookup bootName [homeEntry, bootEntry] = 13 ∧
      ¬ SameSearch (twoEntries homeEntry.name 0x8000) (twoEntries homeEntry.name 0x20000) bootName
        0x7000 0x7000 [homeEntry, bootEntry] := by
  have first : findInode16 1 (twoEntries homeEntry.name 0x8000) 4 0x7000 = some 0 := by
    decide +kernel
  refine ⟨first, by decide +kernel, by decide +kernel, ?_⟩
  rintro ⟨fuel, found, _⟩
  have zero := searchLoop16_more fuel first
  have right := searchLoop16_more 1 found
  rw [Nat.add_comm] at zero
  change searchLoop16 _ 4 0x7000 (fuel + 1) 0x8000 = _ at right
  rw [zero] at right
  exact absurd right (by decide)

end Boot

end MangoOS
