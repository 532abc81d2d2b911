/-
Growing a file by a block: `alloc_block` against `iget_bno` (fs/ext2.c), over a block
cache that always returns the current contents of a block.

The word `*((uint*)bb->data + i)` of the one lies at byte `4 * i`; the other reads at
byte `i` of the same block.
-/

import MangoOS.FileSystem.Bits
import MangoOS.Library.Fields
import MangoOS.Library.Words

namespace MangoOS

/-- What `alloc_block` works on: the `i_block` of the file's inode, the block bitmaps of the
groups, and the blocks `read_block` returns, NULL where the disk fails.  `taken` collects
the blocks it marks used. -/
structure AllocState where
  iBlock : Nat → Nat
  gno : Nat
  bitmaps : Nat → Region
  blocks : Nat → Option Region
  taken : List Nat

/-- The word at a byte offset of a block. -/
def wordAt (blocks : Nat → Option Region) (bno offset : Nat) : Option Nat :=
  (blocks bno).map (fun data => data.word offset)

/-- `iget_bno`; the `-1` of a failed read as `uint`. -/
def lookupBno (blocks : Nat → Option Region) (iBlock : Nat → Nat) (index : Nat) : Nat :=
  if index < 12 then iBlock index
  else if index < 1036 then (wordAt blocks (iBlock 12) (index - 12)).getD 4294967295
  else if index < 1049612 then
    ((wordAt blocks (iBlock 13) ((index - 1036) / 1024)).bind fun curBno =>
      wordAt blocks curBno ((index - 1036) % 1024)).getD 4294967295
  else
    ((wordAt blocks (iBlock 14) ((index - 1049612) / 1048576)).bind fun curBno =>
      (wordAt blocks curBno ((index - 1049612) % 1048576 / 1024)).bind fun curBno =>
        wordAt blocks curBno ((index - 1049612) % 1048576 % 1024)).getD 4294967295

namespace AllocState

def setIBlock (s : AllocState) (i bno : Nat) : AllocState :=
  { s with iBlock := Function.update s.iBlock i bno }

/-- `set_bit(group->p_block_bitmap, bno, 1)`. -/
def mark (s : AllocState) (bno : Nat) : AllocState :=
  { s with
    bitmaps := Function.update s.bitmaps s.gno (setBit (s.bitmaps s.gno) bno 1)
    taken := bno :: s.taken }

/-- `*((uint*)bb->data + i) = value` for the buffer of a block. -/
def setEntry (s : AllocState) (bno i value : Nat) : AllocState :=
  { s with
    blocks := Function.update s.blocks bno
      ((s.blocks bno).map fun data => data.setWord (4 * i : Nat) value) }

/-- `*((uint*)bb->data + i)`. -/
def entry (s : AllocState) (bno i : Nat) : Option Nat := wordAt s.blocks bno (4 * i)

/-- What a call returns: NULL from `read_block` makes it `none`, which is -1. -/
abbrev Result := Option Nat × AllocState

/-- `find_first_zero_bit` on the bitmap of the file's group. -/
def findBlock (fuel size : Nat) (s : AllocState) : Option Nat :=
  findFirstZeroBit fuel (s.bitmaps s.gno) size

/-- Read the new table `bno` and give it a first entry. -/
def firstEntry (fuel size : Nat) (s : AllocState) (bno : Nat) : Option Result :=
  match s.blocks bno with
  | none => some (none, s)
  | some _ =>
      (s.findBlock fuel size).map fun nbno => (some nbno, (s.setEntry bno 0 nbno).mark nbno)

/-- The steps after one that may have failed. -/
def andThen (result : Option Result) (next : Nat → AllocState → Option Result) : Option Result :=
  match result with
  | some (some bno, s) => next bno s
  | other => other

/-- Read the table `table` and enter the new block at `i`. -/
def putEntry (s : AllocState) (table i bno : Nat) : Option Result :=
  match s.blocks table with
  | none => some (none, s)
  | some _ => some (some bno, (s.setEntry table i bno).mark bno)

/-- Follow entry `i` of the table `table`. -/
def follow (s : AllocState) (table i : Nat) (next : Nat → Option Result) : Option Result :=
  match s.entry table i with
  | none => some (none, s)
  | some bno => next bno

/-- The triple indirect part of `alloc_block`. -/
def allocTriple (fuel size : Nat) (s : AllocState) (bindex bno : Nat) : Option Result :=
  let first := fun bno s => firstEntry fuel size s bno
  if bindex = 1049611 then
    andThen (andThen (first bno ((s.setIBlock 14 bno).mark bno)) first) first
  else if (bindex - 1049611) % 1048576 = 0 then
    andThen (andThen (s.putEntry (s.iBlock 14) ((bindex - 1049611) / 1048576) bno) first) first
  else if (bindex - 1049611) % 1048576 % 1024 = 0 then
    s.follow (s.iBlock 14) ((bindex - 1049611) / 1048576) fun anbo =>
      andThen (s.putEntry anbo ((bindex - 1049611) % 1048576 / 1024) bno) first
  else
    s.follow (s.iBlock 14) ((bindex - 1049611) / 1048576) fun anbo =>
      s.follow anbo ((bindex - 1049611) % 1048576 / 1024) fun annbo =>
        s.putEntry annbo ((bindex - 1049611) % 1048576 % 1024) bno

/-- `alloc_block` for block `bindex` of the file; `none` if `ffs` never ends.  `size` is
the `block_bitmap_size` of the group. -/
def allocIndex (fuel size : Nat) (s : AllocState) (bindex : Nat) : Option Result :=
  (s.findBlock fuel size).bind fun bno =>
    let first := fun bno s => firstEntry fuel size s bno
    if bindex < 11 then some (some bno, (s.setIBlock (bindex + 1) bno).mark bno)
    else if bindex < 1035 then
      if bindex = 11 then first bno ((s.setIBlock 12 bno).mark bno)
      else s.putEntry (s.iBlock 12) (bindex - 12) bno
    else if bindex < 1049611 then
      if bindex = 1035 then andThen (first bno ((s.setIBlock 13 bno).mark bno)) first
      else if (bindex - 1035) % 1024 = 0 then
        andThen (s.putEntry (s.iBlock 13) ((bindex - 1035) / 1024) bno) first
      else
        s.follow (s.iBlock 13) ((bindex - 1035) / 1024) fun anbo =>
          s.putEntry anbo ((bindex - 1035) % 1024) bno
    else allocTriple fuel size s bindex bno

/-- `alloc_block(file)`: `bindex` is `file->pos / block_size`. -/
def allocBlock (fuel size : Nat) (s : AllocState) (pos : Int) : Option Result :=
  allocIndex fuel size s (uint32 pos / 4096)

/-- The bitmaps say that block `n` is free. -/
def Free (s : AllocState) (groupBlock n : Nat) : Prop :=
  bitOf (s.bitmaps (n / groupBlock)) (n % groupBlock) = false

/-- The call gave the file the block `b` behind block `bindex`. -/
structure TreeGrown (s after : AllocState) (groupBlock bindex b : Nat) : Prop where
  found : lookupBno after.blocks after.iBlock (bindex + 1) = b
  kept : ∀ k, k ≤ bindex →
    lookupBno after.blocks after.iBlock k = lookupBno s.blocks s.iBlock k
  listed : b ∈ after.taken
  distinct : after.taken.Nodup
  free : ∀ n, n ∈ after.taken → s.Free groupBlock n
  used : ∀ n, n ∈ after.taken → ¬ after.Free groupBlock n

/-- The block behind `bindex` is the first of a table that has to be made. -/
def FirstOfTable (bindex : Nat) : Prop :=
  bindex = 11 ∨ (1035 ≤ bindex ∧ bindex < 1049611 ∧ (bindex - 1035) % 1024 = 0) ∨
    (1049611 ≤ bindex ∧ (bindex - 1049611) % 1024 = 0)

/-- In the single indirect table, from the third entry on: the bytes that `iget_bno` reads for
block `bindex + 1` hold `bno` before the call.  They lie before the entry. -/
def SingleHolds (s : AllocState) (bindex bno : Nat) : Prop :=
  14 ≤ bindex ∧ bindex < 1035 ∧ wordAt s.blocks (s.iBlock 12) (bindex - 11) = some bno

/-- Written to entry `i`, `bno` leaves the bytes of the table up to 1026 as they are: so far the
lookups of 1024 blocks read in it. -/
def EntryHolds (s : AllocState) (table i bno : Nat) : Prop :=
  (i < 256 → s.entry table i = some bno) ∧
    (i = 256 → ∃ old, s.entry table i = some old ∧ old % 16777216 = bno)

/-- The double indirect table gives `table` at its entry and `other` at the byte `iget_bno`
reads, and the bytes read in them hold before the call what is to be found there. -/
structure DoubleHolds (s : AllocState) (bindex bno table other : Nat) : Prop where
  lower : 1035 ≤ bindex
  upper : bindex < 1049611
  middle : (bindex - 1035) % 1024 ≠ 0
  written : s.entry (s.iBlock 13) ((bindex - 1035) / 1024) = some table
  read : wordAt s.blocks (s.iBlock 13) ((bindex - 1035) / 1024) = some other
  apart : table ≠ s.iBlock 12 ∧ table ≠ s.iBlock 13
  found : other ≠ table ∨ (bindex - 1035) % 1024 ≠ 1 →
    wordAt s.blocks other ((bindex - 1035) % 1024) = some bno
  -- Bytes 1 to 4 of the table, of which the entry is 4 to 7.
  beside : other = table → (bindex - 1035) % 1024 = 1 →
    bno % 256 = 0 ∧ ∃ old, wordAt s.blocks table 1 = some old ∧ old % 16777216 = bno
  kept : ∀ q, q < (bindex - 1035) / 1024 → wordAt s.blocks (s.iBlock 13) q = some table →
    s.EntryHolds table ((bindex - 1035) % 1024) bno

/-- The table that gets an entry in the double indirect part is neither of the tables of the
inode. -/
def TablesApart (s : AllocState) (bindex : Nat) : Prop :=
  1035 ≤ bindex → ∀ table, s.entry (s.iBlock 13) ((bindex - 1035) / 1024) = some table →
    table ≠ s.iBlock 12 ∧ table ≠ s.iBlock 13

/-- The file is in group 0, the bit that is found is clear, and the block is one of the first
twelve or sits in the middle of a table whose bytes were right before. -/
def Agrees (fuel size : Nat) (s : AllocState) (bindex : Nat) : Prop :=
  s.gno = 0 ∧ ∃ bno, s.findBlock fuel size = some bno ∧ bitOf (s.bitmaps 0) bno = false ∧
    (bindex < 11 ∨ s.SingleHolds bindex bno ∨ ∃ table other, s.DoubleHolds bindex bno table other)

variable {fuel size bindex bno b : Nat} {s after : AllocState}

/-! ### Tables are made of one block -/

theorem findBlock_mark (found : s.findBlock fuel size = some bno) :
    (s.mark bno).findBlock fuel size = some bno := by
  unfold findBlock at found ⊢
  change findFirstZeroBit fuel (Function.update s.bitmaps s.gno _ s.gno) size = some bno
  rw [Function.update_self]
  exact findFirstZeroBit_again found

/-- The block found next is one that the call has taken already. -/
structure Repeats (fuel size : Nat) (s : AllocState) (bno : Nat) : Prop where
  found : s.findBlock fuel size = some bno
  listed : bno ∈ s.taken

theorem Repeats.marked (found : s.findBlock fuel size = some bno) :
    Repeats fuel size (s.mark bno) bno :=
  ⟨findBlock_mark found, List.mem_cons_self ..⟩

theorem Repeats.firstEntry (repeats : Repeats fuel size s bno) {table : Nat}
    (returned : firstEntry fuel size s table = some (some b, after)) :
    b = bno ∧ after.taken = bno :: s.taken ∧ Repeats fuel size after bno := by
  unfold AllocState.firstEntry at returned
  cases data : s.blocks table with
  | none =>
      simp only [data, Option.some.injEq, Prod.mk.injEq, reduceCtorEq, false_and] at returned
  | some region =>
      simp only [data, repeats.found, Option.map_some, Option.some.injEq, Prod.mk.injEq] at returned
      obtain ⟨isBno, isAfter⟩ := returned
      subst isBno isAfter
      exact ⟨rfl, rfl, Repeats.marked repeats.found⟩

theorem andThen_some {result : Option Result} {next : Nat → AllocState → Option Result}
    (returned : andThen result next = some (some b, after)) :
    ∃ bno middle, result = some (some bno, middle) ∧ next bno middle = some (some b, after) := by
  unfold andThen at returned
  split at returned
  case h_1 bno middle => exact ⟨bno, middle, rfl, returned⟩
  case h_2 other => exact False.elim (other b after returned)

theorem putEntry_some {table i : Nat}
    (returned : s.putEntry table i bno = some (some b, after)) :
    ∃ data, s.blocks table = some data ∧ b = bno ∧
      after = (s.setEntry table i bno).mark bno := by
  unfold putEntry at returned
  cases data : s.blocks table with
  | none =>
      simp only [data, Option.some.injEq, Prod.mk.injEq, reduceCtorEq, false_and] at returned
  | some region =>
      simp only [data, Option.some.injEq, Prod.mk.injEq] at returned
      exact ⟨region, rfl, returned.1.symm, returned.2.symm⟩

theorem follow_some {table i : Nat} {next : Nat → Option Result}
    (returned : s.follow table i next = some (some b, after)) :
    ∃ anbo, s.entry table i = some anbo ∧ next anbo = some (some b, after) := by
  unfold follow at returned
  cases value : s.entry table i with
  | none =>
      simp only [value, Option.some.injEq, Prod.mk.injEq, reduceCtorEq, false_and] at returned
  | some anbo =>
      simp only [value] at returned
      exact ⟨anbo, rfl, returned⟩

/-- A first entry after the block of the table itself: one block twice. -/
theorem Repeats.twice {result : Option Result}
    (repeats : ∀ nbno middle, result = some (some nbno, middle) →
      Repeats fuel size middle bno)
    (returned : andThen result (fun bno s => AllocState.firstEntry fuel size s bno) =
      some (some b, after)) :
    ¬ after.taken.Nodup ∧ Repeats fuel size after bno := by
  obtain ⟨nbno, middle, first, second⟩ := andThen_some returned
  have before := repeats nbno middle first
  obtain ⟨_, taken, still⟩ := before.firstEntry second
  constructor
  · rw [taken, List.nodup_cons]
    exact fun both => both.1 before.listed
  · exact still

theorem Repeats.put {table i : Nat} (found : s.findBlock fuel size = some bno) :
    ∀ nbno middle, s.putEntry table i bno = some (some nbno, middle) →
      Repeats fuel size middle bno := by
  intro nbno middle put
  obtain ⟨_, _, _, isMiddle⟩ := putEntry_some put
  rw [isMiddle]
  exact Repeats.marked found

theorem Repeats.enter {i : Nat} (found : s.findBlock fuel size = some bno) :
    ∀ nbno middle, some (some bno, (s.setIBlock i bno).mark bno) = some (some nbno, middle) →
      Repeats fuel size middle bno := by
  intro nbno middle entered
  rw [Option.some.injEq, Prod.mk.injEq] at entered
  rw [← entered.2]
  exact Repeats.marked found

theorem allocTriple_first (found : s.findBlock fuel size = some bno)
    (first : (bindex - 1049611) % 1024 = 0)
    (returned : allocTriple fuel size s bindex bno = some (some b, after)) :
    ¬ after.taken.Nodup := by
  unfold allocTriple at returned
  by_cases start : bindex = 1049611
  · rw [if_pos start] at returned
    have entered := Repeats.enter (i := 14) found
    exact (Repeats.twice (fun _ _ made => (Repeats.twice (fun _ _ made =>
      (Repeats.twice entered made).2) made).2) returned).1
  · rw [if_neg start] at returned
    by_cases level : (bindex - 1049611) % 1048576 = 0
    · rw [if_pos level] at returned
      exact (Repeats.twice (fun _ _ made => (Repeats.twice (Repeats.put found) made).2)
        returned).1
    · rw [if_neg level, if_pos (by omega)] at returned
      obtain ⟨anbo, _, followed⟩ := follow_some returned
      exact (Repeats.twice (Repeats.put found) followed).1

/-- Where a table has to be made, the call takes one block for the table and for what the
table points to. -/
theorem allocIndex_first (found : s.findBlock fuel size = some bno) (first : FirstOfTable bindex)
    (returned : allocIndex fuel size s bindex = some (some b, after)) :
    ¬ after.taken.Nodup := by
  unfold allocIndex at returned
  rw [found, Option.bind_some] at returned
  rcases first with isEleven | ⟨_, upper, start⟩ | ⟨_, start⟩
  · rw [if_neg (by omega), if_pos (by omega), if_pos isEleven] at returned
    exact (Repeats.twice (Repeats.enter found) returned).1
  · rw [if_neg (by omega), if_neg (by omega), if_pos upper] at returned
    by_cases level : bindex = 1035
    · rw [if_pos level] at returned
      exact (Repeats.twice (fun _ _ made => (Repeats.twice (Repeats.enter found) made).2)
        returned).1
    · rw [if_neg level, if_pos start] at returned
      exact (Repeats.twice (Repeats.put found) returned).1
  · rw [if_neg (by omega), if_neg (by omega), if_neg (by omega)] at returned
    exact allocTriple_first found start returned

/-! ### The other blocks -/

theorem allocIndex_direct (found : s.findBlock fuel size = some bno) (direct : bindex < 11)
    (returned : allocIndex fuel size s bindex = some (some b, after)) :
    b = bno ∧ after = (s.setIBlock (bindex + 1) bno).mark bno := by
  unfold allocIndex at returned
  rw [found, Option.bind_some, if_pos direct, Option.some.injEq, Prod.mk.injEq,
    Option.some.injEq] at returned
  exact ⟨returned.1.symm, returned.2.symm⟩

theorem allocIndex_single (found : s.findBlock fuel size = some bno) (lower : 12 ≤ bindex)
    (upper : bindex < 1035)
    (returned : allocIndex fuel size s bindex = some (some b, after)) :
    ∃ data, s.blocks (s.iBlock 12) = some data ∧ b = bno ∧
      after = (s.setEntry (s.iBlock 12) (bindex - 12) bno).mark bno := by
  unfold allocIndex at returned
  rw [found, Option.bind_some, if_neg (by omega), if_pos upper, if_neg (by omega)] at returned
  exact putEntry_some returned

theorem allocIndex_double (found : s.findBlock fuel size = some bno) (lower : 1035 ≤ bindex)
    (upper : bindex < 1049611) (middle : (bindex - 1035) % 1024 ≠ 0)
    (returned : allocIndex fuel size s bindex = some (some b, after)) :
    ∃ table data, s.entry (s.iBlock 13) ((bindex - 1035) / 1024) = some table ∧
      s.blocks table = some data ∧ b = bno ∧
      after = (s.setEntry table ((bindex - 1035) % 1024) bno).mark bno := by
  unfold allocIndex at returned
  rw [found, Option.bind_some, if_neg (by omega), if_neg (by omega), if_pos upper,
    if_neg (by omega), if_neg middle] at returned
  obtain ⟨table, entry, put⟩ := follow_some returned
  obtain ⟨data, isData, isBno, isAfter⟩ := putEntry_some put
  exact ⟨table, data, entry, isData, isBno, isAfter⟩

/-! ### Agreement -/

theorem findBlock_lt {groupBlock : Nat} (many : 2 ≤ groupBlock)
    (found : s.findBlock fuel ((groupBlock + 7) / 8) = some bno) : bno < groupBlock := by
  rcases findFirstZeroBit_some found with isSize | ⟨k, inside, isBit, _⟩
  · omega
  · omega

theorem free_of_lt {groupBlock : Nat} (inGroup : bno < groupBlock) :
    s.Free groupBlock bno ↔ bitOf (s.bitmaps 0) bno = false := by
  unfold Free
  rw [Nat.div_eq_of_lt inGroup, Nat.mod_eq_of_lt inGroup]

/-- The bitmap of the file's group is the one that counts for group 0 only. -/
theorem marked_iff {groupBlock : Nat} (inGroup : bno < groupBlock)
    (marked : after.bitmaps = (s.mark bno).bitmaps) :
    (s.Free groupBlock bno ∧ ¬ after.Free groupBlock bno) ↔
      s.gno = 0 ∧ bitOf (s.bitmaps 0) bno = false := by
  rw [free_of_lt inGroup, free_of_lt inGroup, marked]
  unfold mark
  simp only [Function.update_apply]
  cases decEq s.gno 0 with
  | isTrue zero => simp [zero, bitOf_setBit]
  | isFalse other =>
      have apart : ¬ 0 = s.gno := fun same => other same.symm
      simp [other, apart]

theorem treeGrown_iff {groupBlock : Nat} (inGroup : b < groupBlock)
    (marked : after.bitmaps = (s.mark b).bitmaps) (taken : after.taken = [b]) :
    TreeGrown s after groupBlock bindex b ↔
      (s.gno = 0 ∧ bitOf (s.bitmaps 0) b = false) ∧
      lookupBno after.blocks after.iBlock (bindex + 1) = b ∧
      ∀ k, k ≤ bindex → lookupBno after.blocks after.iBlock k = lookupBno s.blocks s.iBlock k := by
  rw [← marked_iff inGroup marked]
  have single : ∀ n, n ∈ after.taken → n = b := by
    intro n listed
    rw [taken] at listed
    exact List.mem_singleton.mp listed
  have listed : b ∈ after.taken := by
    rw [taken]
    exact List.mem_singleton_self b
  constructor
  · intro grown
    exact ⟨⟨grown.free b listed, grown.used b listed⟩, grown.found, grown.kept⟩
  · intro holds
    obtain ⟨⟨free, used⟩, found, kept⟩ := holds
    exact {
      found := found
      kept := kept
      listed := listed
      distinct := by
        rw [taken]
        exact List.nodup_cons.mpr ⟨List.not_mem_nil, List.nodup_nil⟩
      free := fun n isListed => by rw [single n isListed]; exact free
      used := fun n isListed => by rw [single n isListed]; exact used }

theorem lookupBno_direct (blocks : Nat → Option Region) (iBlock : Nat → Nat) {index : Nat}
    (direct : index < 12) : lookupBno blocks iBlock index = iBlock index := by
  unfold lookupBno
  rw [if_pos direct]

theorem direct_found (direct : bindex < 11) :
    lookupBno ((s.setIBlock (bindex + 1) b).mark b).blocks
      ((s.setIBlock (bindex + 1) b).mark b).iBlock (bindex + 1) = b := by
  rw [lookupBno_direct _ _ (by omega)]
  exact Function.update_self ..

theorem direct_kept (direct : bindex < 11) (k : Nat) (upper : k ≤ bindex) :
    lookupBno ((s.setIBlock (bindex + 1) b).mark b).blocks
      ((s.setIBlock (bindex + 1) b).mark b).iBlock k = lookupBno s.blocks s.iBlock k := by
  rw [lookupBno_direct _ _ (by omega), lookupBno_direct _ _ (by omega)]
  exact Function.update_of_ne (by omega) ..

theorem agrees_found (search : s.findBlock fuel size = some b) :
    Agrees fuel size s bindex ↔ (s.gno = 0 ∧ bitOf (s.bitmaps 0) b = false) ∧
      (bindex < 11 ∨ s.SingleHolds bindex b ∨ ∃ table other, s.DoubleHolds bindex b table other) := by
  constructor
  · intro agrees
    obtain ⟨groupZero, bno, found, clear, place⟩ := agrees
    rw [search, Option.some.injEq] at found
    rw [found]
    exact ⟨⟨groupZero, clear⟩, place⟩
  · intro holds
    exact ⟨holds.1.1, b, search, holds.1.2, holds.2⟩

theorem agrees_direct {groupBlock : Nat} (nothing : s.taken = []) (inGroup : b < groupBlock)
    (search : s.findBlock fuel size = some b) (direct : bindex < 11) :
    TreeGrown s ((s.setIBlock (bindex + 1) b).mark b) groupBlock bindex b ↔
      Agrees fuel size s bindex := by
  rw [treeGrown_iff inGroup
    (show ((s.setIBlock (bindex + 1) b).mark b).bitmaps = (s.mark b).bitmaps from rfl)
    (congrArg (List.cons b) nothing), agrees_found search]
  constructor
  · intro grown
    exact ⟨grown.1, Or.inl direct⟩
  · intro agrees
    exact ⟨agrees.1, direct_found direct, direct_kept direct⟩

/-! ### What the lookups read of an entry -/

theorem lookupBno_single (blocks : Nat → Option Region) (iBlock : Nat → Nat) {index : Nat}
    (lower : 12 ≤ index) (upper : index < 1036) :
    lookupBno blocks iBlock index =
      (wordAt blocks (iBlock 12) (index - 12)).getD 4294967295 := by
  unfold lookupBno
  rw [if_neg (by omega), if_pos upper]

theorem lookupBno_double (blocks : Nat → Option Region) (iBlock : Nat → Nat) {index : Nat}
    (lower : 1036 ≤ index) (upper : index < 1049612) :
    lookupBno blocks iBlock index =
      ((wordAt blocks (iBlock 13) ((index - 1036) / 1024)).bind fun curBno =>
        wordAt blocks curBno ((index - 1036) % 1024)).getD 4294967295 := by
  unfold lookupBno
  rw [if_neg (by omega), if_neg (by omega), if_pos upper]

theorem wordAt_data {blocks : Nat → Option Region} {block : Nat} {data : Region}
    (isData : blocks block = some data) (offset : Nat) :
    wordAt blocks block offset = some (data.word offset) := by
  unfold wordAt
  rw [isData, Option.map_some]

theorem wordAt_setEntry {table : Nat} {data : Region} (isData : s.blocks table = some data)
    (i value offset : Nat) :
    wordAt (s.setEntry table i value).blocks table offset =
      some ((data.setWord (4 * i : Nat) value).word offset) := by
  apply wordAt_data
  change Function.update s.blocks table _ table = _
  rw [Function.update_self, isData, Option.map_some]

theorem wordAt_setEntry_other {block table : Nat} (other : block ≠ table) (i value offset : Nat) :
    wordAt (s.setEntry table i value).blocks block offset = wordAt s.blocks block offset := by
  unfold wordAt
  change (Function.update s.blocks table _ block).map _ = _
  rw [Function.update_of_ne other]

/-- With the entry written, the lookups find the block behind `bindex` and, up to there, what
they found before. -/
structure Looks (s : AllocState) (table i bindex b : Nat) : Prop where
  found : lookupBno (s.setEntry table i b).blocks s.iBlock (bindex + 1) = b
  kept : ∀ k, k ≤ bindex →
    lookupBno (s.setEntry table i b).blocks s.iBlock k = lookupBno s.blocks s.iBlock k

theorem grown_entry_iff {groupBlock table i : Nat} (nothing : s.taken = [])
    (inGroup : b < groupBlock) :
    TreeGrown s ((s.setEntry table i b).mark b) groupBlock bindex b ↔
      (s.gno = 0 ∧ bitOf (s.bitmaps 0) b = false) ∧ s.Looks table i bindex b := by
  rw [treeGrown_iff inGroup
    (show ((s.setEntry table i b).mark b).bitmaps = (s.mark b).bitmaps from rfl)
    (congrArg (List.cons b) nothing)]
  constructor
  · intro grown
    exact ⟨grown.1, grown.2.1, grown.2.2⟩
  · intro looks
    exact ⟨looks.1, looks.2.found, looks.2.kept⟩

/-! ### The single indirect table -/

variable {table other : Nat} {data : Region}

theorem SingleHolds.looks (holds : s.SingleHolds bindex b)
    (isData : s.blocks (s.iBlock 12) = some data) :
    s.Looks (s.iBlock 12) (bindex - 12) bindex b := by
  obtain ⟨lower, upper, read⟩ := holds
  have before : ∀ offset : Nat, offset ≤ bindex - 11 →
      wordAt (s.setEntry (s.iBlock 12) (bindex - 12) b).blocks (s.iBlock 12) offset =
        wordAt s.blocks (s.iBlock 12) offset := by
    intro offset low
    rw [wordAt_setEntry isData, wordAt_data isData,
      Region.word_setWord_other data b (Or.inl (by omega))]
  refine ⟨?_, ?_⟩
  · rw [lookupBno_single _ _ (by omega) (by omega), show bindex + 1 - 12 = bindex - 11 by omega,
      before _ (Nat.le_refl _), read, Option.getD_some]
  · intro k upto
    by_cases direct : k < 12
    · rw [lookupBno_direct _ _ direct, lookupBno_direct _ _ direct]
    · rw [lookupBno_single _ _ (by omega) (by omega), lookupBno_single _ _ (by omega) (by omega),
        before _ (by omega)]

/-- A lookup that does not fail found the word. -/
theorem getD_eq_some {read : Option Nat} (small : b < 4294967295)
    (isBno : read.getD 4294967295 = b) : read = some b := by
  cases read with
  | none =>
      rw [Option.getD_none] at isBno
      omega
  | some value => exact congrArg some isBno

/-- The first two entries overlap the bytes read: there no block number is right. -/
theorem Looks.single (looks : s.Looks (s.iBlock 12) (bindex - 12) bindex b)
    (lower : 12 ≤ bindex) (upper : bindex < 1035) (nonzero : 1 ≤ b) (small : b < 32768)
    (isData : s.blocks (s.iBlock 12) = some data) : s.SingleHolds bindex b := by
  have found := looks.found
  rw [lookupBno_single _ _ (by omega) (by omega), show bindex + 1 - 12 = bindex - 11 by omega]
    at found
  have read := getD_eq_some (by omega) found
  rw [wordAt_setEntry isData, Option.some.injEq] at read
  have written := data.word_setWord (4 * (bindex - 12) : Nat) b
  rw [Nat.mod_eq_of_lt (by omega)] at written
  by_cases first : bindex = 12
  · subst first
    have overlap := (data.setWord (4 * (12 - 12) : Nat) b).word_succ 0
    rw [show ((4 * (12 - 12) : Nat) : Int) = 0 from rfl] at overlap written read
    rw [show ((12 - 11 : Nat) : Int) = 0 + 1 from rfl] at read
    rw [read, written, Nat.mod_eq_of_lt (by omega)] at overlap
    omega
  · by_cases second : bindex = 13
    · subst second
      have overlap := (data.setWord (4 * (13 - 12) : Nat) b).word_add_two 2
      rw [show ((4 * (13 - 12) : Nat) : Int) = 2 + 2 from rfl] at overlap written read
      rw [show ((13 - 11 : Nat) : Int) = 2 from rfl] at read
      rw [read, written, Nat.mod_eq_of_lt (by omega)] at overlap
      omega
    · refine ⟨by omega, upper, ?_⟩
      rw [Region.word_setWord_other data b (Or.inl (by omega))] at read
      rw [wordAt_data isData, read]

/-! ### The double indirect part -/

/-- An earlier lookup in the table reads what it read before. -/
theorem DoubleHolds.word_kept (holds : s.DoubleHolds bindex b table other)
    (isData : s.blocks table = some data) {q r : Nat} (inTable : r < 1024)
    (earlier : 1024 * q + r < bindex - 1035)
    (listed : wordAt s.blocks (s.iBlock 13) q = some table) :
    wordAt (s.setEntry table ((bindex - 1035) % 1024) b).blocks table r =
      wordAt s.blocks table r := by
  have middle := holds.middle
  rw [wordAt_setEntry isData, wordAt_data isData]
  generalize isEntry : (bindex - 1035) % 1024 = i at middle ⊢
  by_cases before : q < (bindex - 1035) / 1024
  · obtain ⟨all, three⟩ := holds.kept q before listed
    rw [isEntry] at all three
    rcases Nat.lt_trichotomy i 256 with low | edge | high
    · have same := all low
      rw [entry, wordAt_data isData, Option.some.injEq] at same
      rw [← same, Region.setWord_word]
    · obtain ⟨old, isOld, low⟩ := three edge
      rw [entry, wordAt_data isData, Option.some.injEq, edge] at isOld
      have kept : (data.setWord (1020 + 4) b).word r = data.word r :=
        data.word_setWord_before (by omega)
          (by rw [show (1020 : Int) + 4 = ((4 * 256 : Nat) : Int) from rfl]; omega)
      rw [edge]
      exact congrArg some kept
    · rw [Region.word_setWord_other data b (Or.inl (by omega))]
  · rw [Region.word_setWord_other data b (Or.inl (by omega))]

theorem DoubleHolds.looks (holds : s.DoubleHolds bindex b table other)
    (isData : s.blocks table = some data) :
    s.Looks table ((bindex - 1035) % 1024) bindex b := by
  have lower := holds.lower
  have upper := holds.upper
  have middle := holds.middle
  refine ⟨?_, ?_⟩
  · rw [lookupBno_double _ _ (by omega) (by omega), show bindex + 1 - 1036 = bindex - 1035 by omega,
      wordAt_setEntry_other holds.apart.2.symm, holds.read, Option.bind_some]
    by_cases same : other = table
    · subst same
      rw [wordAt_setEntry isData, Option.getD_some]
      by_cases one : (bindex - 1035) % 1024 = 1
      · obtain ⟨low, old, isOld, isBno⟩ := holds.beside rfl one
        rw [wordAt_data isData, Option.some.injEq] at isOld
        have overlap := data.word_setWord_last 1 b
        rw [one]
        change (data.setWord (1 + 3) b).word 1 = b
        change data.word 1 = old at isOld
        omega
      · have found := holds.found (Or.inr one)
        rw [wordAt_data isData, Option.some.injEq] at found
        rw [Region.word_setWord_other data b (Or.inl (by omega)), found]
    · rw [wordAt_setEntry_other same, holds.found (Or.inl same), Option.getD_some]
  · intro k upto
    by_cases direct : k < 12
    · rw [lookupBno_direct _ _ direct, lookupBno_direct _ _ direct]
    · by_cases single : k < 1036
      · rw [lookupBno_single _ _ (by omega) single, lookupBno_single _ _ (by omega) single,
          wordAt_setEntry_other holds.apart.1.symm]
      · rw [lookupBno_double _ _ (by omega) (by omega), lookupBno_double _ _ (by omega) (by omega),
          wordAt_setEntry_other holds.apart.2.symm]
        cases listed : wordAt s.blocks (s.iBlock 13) ((k - 1036) / 1024) with
        | none => rfl
        | some cur =>
            rw [Option.bind_some, Option.bind_some]
            by_cases same : cur = table
            · subst same
              rw [holds.word_kept isData (Nat.mod_lt _ (by decide)) (by omega) listed]
            · rw [wordAt_setEntry_other same]

/-- A table whose words up to byte 1023 read as before holds them in the entry. -/
theorem EntryHolds.of_reads {i : Nat} (isData : s.blocks table = some data) (small : b < 32768)
    (same : ∀ r : Nat, r < 1024 → (data.setWord (4 * i : Nat) b).word r = data.word r) :
    s.EntryHolds table i b := by
  have written := data.word_setWord (4 * i : Nat) b
  rw [Nat.mod_eq_of_lt (by omega)] at written
  refine ⟨?_, ?_⟩
  · intro low
    rw [entry, wordAt_data isData, ← same _ (by omega), written]
  · intro edge
    subst edge
    refine ⟨_, wordAt_data isData _, ?_⟩
    have last := same 1023 (by omega)
    have was := data.word_succ 1023
    have is := (data.setWord (4 * 256 : Nat) b).word_succ 1023
    change data.word (1023 + 1) % 16777216 = b
    change (data.setWord (4 * 256 : Nat) b).word (1023 + 1) = b at written
    change (data.setWord (4 * 256 : Nat) b).word 1023 = data.word 1023 at last
    omega

theorem Looks.double (looks : s.Looks table ((bindex - 1035) % 1024) bindex b)
    (lower : 1035 ≤ bindex) (upper : bindex < 1049611) (middle : (bindex - 1035) % 1024 ≠ 0)
    (small : b < 32768)
    (isTable : s.entry (s.iBlock 13) ((bindex - 1035) / 1024) = some table)
    (isData : s.blocks table = some data)
    (apart : table ≠ s.iBlock 12 ∧ table ≠ s.iBlock 13) :
    ∃ other, s.DoubleHolds bindex b table other := by
  obtain ⟨top, isTop, _⟩ := Option.map_eq_some_iff.mp isTable
  have read := wordAt_data isTop ((bindex - 1035) / 1024)
  have found := looks.found
  rw [lookupBno_double _ _ (by omega) (by omega), show bindex + 1 - 1036 = bindex - 1035 by omega,
    wordAt_setEntry_other apart.2.symm, read, Option.bind_some] at found
  have isBno := getD_eq_some (by omega) found
  refine ⟨_, lower, upper, middle, isTable, read, apart, ?_, ?_, ?_⟩
  · intro clear
    by_cases same : top.word ((bindex - 1035) / 1024 : Nat) = table
    · rw [same, wordAt_setEntry isData, Region.word_setWord_other data b (Or.inl (by omega))]
        at isBno
      rw [same, wordAt_data isData, isBno]
    · rw [wordAt_setEntry_other same] at isBno
      exact isBno
  · intro same one
    rw [same, wordAt_setEntry isData, Option.some.injEq, one] at isBno
    change (data.setWord (1 + 3) b).word 1 = b at isBno
    rw [data.word_setWord_last 1 b] at isBno
    have low : b % 256 = 0 := by omega
    exact ⟨low, _, wordAt_data isData 1, by
      change data.word 1 % 16777216 = b
      omega⟩
  · intro q before listed
    apply EntryHolds.of_reads isData small
    intro r inTable
    have kept := looks.kept (1036 + 1024 * q + r) (by omega)
    rw [lookupBno_double _ _ (by omega) (by omega), lookupBno_double _ _ (by omega) (by omega),
      show (1036 + 1024 * q + r - 1036) / 1024 = q by omega,
      show (1036 + 1024 * q + r - 1036) % 1024 = r by omega,
      wordAt_setEntry_other apart.2.symm, listed, Option.bind_some, Option.bind_some,
      wordAt_setEntry isData, wordAt_data isData, Option.getD_some, Option.getD_some] at kept
    exact kept

/-! ### Agreement in a table -/

variable {groupBlock : Nat}

theorem findBlock_pos (many : 2 ≤ groupBlock)
    (search : s.findBlock fuel ((groupBlock + 7) / 8) = some b) : 1 ≤ b := by
  rcases findFirstZeroBit_some search with isSize | ⟨k, _, isBit, _⟩
  · omega
  · omega

theorem agrees_single (nothing : s.taken = []) (inGroup : b < groupBlock)
    (search : s.findBlock fuel size = some b) (isData : s.blocks (s.iBlock 12) = some data)
    (lower : 12 ≤ bindex) (upper : bindex < 1035) (agrees : Agrees fuel size s bindex) :
    TreeGrown s ((s.setEntry (s.iBlock 12) (bindex - 12) b).mark b) groupBlock bindex b := by
  obtain ⟨marked, direct | single | ⟨_, _, double⟩⟩ := (agrees_found search).mp agrees
  · omega
  · exact (grown_entry_iff nothing inGroup).mpr ⟨marked, single.looks isData⟩
  · have above := double.lower
    omega

theorem single_agrees (nothing : s.taken = []) (many : 2 ≤ groupBlock) (bitmap : groupBlock ≤ 32768)
    (search : s.findBlock fuel ((groupBlock + 7) / 8) = some b)
    (isData : s.blocks (s.iBlock 12) = some data) (lower : 12 ≤ bindex) (upper : bindex < 1035)
    (grown : TreeGrown s ((s.setEntry (s.iBlock 12) (bindex - 12) b).mark b) groupBlock bindex b) :
    Agrees fuel ((groupBlock + 7) / 8) s bindex := by
  have inGroup := findBlock_lt many search
  obtain ⟨marked, looks⟩ := (grown_entry_iff nothing inGroup).mp grown
  have single := looks.single lower upper (findBlock_pos many search) (by omega) isData
  exact (agrees_found search).mpr ⟨marked, Or.inr (Or.inl single)⟩

theorem agrees_double (nothing : s.taken = []) (inGroup : b < groupBlock)
    (search : s.findBlock fuel size = some b) (isData : s.blocks table = some data)
    (isTable : s.entry (s.iBlock 13) ((bindex - 1035) / 1024) = some table)
    (lower : 1035 ≤ bindex) (agrees : Agrees fuel size s bindex) :
    TreeGrown s ((s.setEntry table ((bindex - 1035) % 1024) b).mark b) groupBlock bindex b := by
  obtain ⟨marked, direct | single | ⟨listed, other, double⟩⟩ := (agrees_found search).mp agrees
  · omega
  · have below := single.2.1
    omega
  · have written := double.written
    rw [isTable, Option.some.injEq] at written
    subst written
    exact (grown_entry_iff nothing inGroup).mpr ⟨marked, double.looks isData⟩

theorem double_agrees (nothing : s.taken = []) (inGroup : b < groupBlock)
    (bitmap : groupBlock ≤ 32768) (search : s.findBlock fuel size = some b)
    (isData : s.blocks table = some data)
    (isTable : s.entry (s.iBlock 13) ((bindex - 1035) / 1024) = some table)
    (apart : table ≠ s.iBlock 12 ∧ table ≠ s.iBlock 13) (lower : 1035 ≤ bindex)
    (upper : bindex < 1049611) (middle : (bindex - 1035) % 1024 ≠ 0)
    (grown : TreeGrown s ((s.setEntry table ((bindex - 1035) % 1024) b).mark b)
      groupBlock bindex b) : Agrees fuel size s bindex := by
  obtain ⟨marked, looks⟩ := (grown_entry_iff nothing inGroup).mp grown
  obtain ⟨other, double⟩ := looks.double lower upper middle (by omega) isTable isData apart
  exact (agrees_found search).mpr ⟨marked, Or.inr (Or.inr ⟨table, other, double⟩)⟩

end AllocState

open AllocState

/-- A file of twelve blocks in a group whose first 32 blocks are used. -/
def allocSample : AllocState where
  iBlock k := if k < 12 then 12 + k else 0
  gno := 0
  bitmaps _ i := if 0 ≤ i ∧ i < 4 then 255#8 else 0#8
  blocks _ := some fun _ => 0#8
  taken := []

theorem allocSample_found : allocSample.findBlock 1 ((32768 + 7) / 8) = some 33 := by
  decide +kernel

end MangoOS
