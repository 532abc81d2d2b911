/-
Looking up a name in a directory (fs/ext2.c).

`find_inode_in_dir` compares as many bytes as the name has, and never the length of the name
in an entry; behind block 11 it takes the pointers of `i_block` for blocks of the directory.
-/

import MangoOS.FileSystem.UnusedEntry

namespace MangoOS

variable {data : Region} {blockSize : Nat} {name : CString} {inode : Inode}
  {store searched : BlockStore}

/-! ### What an entry says -/

/-- `name_len` of the entry at byte `entry`. -/
def nameLen (data : Region) (entry : Nat) : Nat := (data (entry + 6 : Nat)).toNat

/-- Entry `k` of a block is in use and has this name. -/
structure ExactEntry (data : Region) (blockSize : Nat) (name : CString) (k : Nat) : Prop where
  inside : entryAt data k < blockSize
  inUse : data.word (entryAt data k) ≠ 0
  length : nameLen data (entryAt data k) = name.length
  bytes : ∀ i, i < name.length → data (entryAt data k + 8 + i : Nat) = name.getD i 0#8

/-- The entries of a block have room for their names and end with the block. -/
def ChainedBlock (data : Region) (blockSize : Nat) : Prop :=
  ∃ n, entryAt data n = blockSize ∧
    ∀ k, k < n → 8 + nameLen data (entryAt data k) ≤ recLen data (entryAt data k)

/-- An exact entry is one that matches and has a name of that length. -/
theorem exactEntry_iff {k : Nat} :
    ExactEntry data blockSize name k ↔
      entryAt data k < blockSize ∧ entryMatches data (entryAt data k) name = true ∧
        nameLen data (entryAt data k) = name.length := by
  unfold entryMatches
  rw [Bool.and_eq_true, decide_eq_true_iff, List.all_eq_true]
  constructor
  · intro exact
    refine ⟨exact.inside, ⟨exact.inUse, ?_⟩, exact.length⟩
    intro i member
    rw [beq_iff_eq]
    exact exact.bytes i (List.mem_range.mp member)
  · rintro ⟨inside, ⟨inUse, same⟩, length⟩
    refine ⟨inside, inUse, length, ?_⟩
    intro i less
    exact beq_iff_eq.mp (same i (List.mem_range.mpr less))

theorem ChainedBlock.free (chained : ChainedBlock data blockSize) :
    ¬ BlockStuck data blockSize name := by
  rintro ⟨k, inside, stuck, _⟩
  obtain ⟨n, ends, room⟩ := chained
  by_cases before : k < n
  · have long := room k before
    omega
  · have beyond : entryAt data n ≤ entryAt data k := entryAt_mono (Nat.not_lt.mp before)
    omega

/-! ### What the search comes to -/

/-- The search stops at entry `k` of the block of round `r`. -/
structure FirstMatch (inode : Inode) (blockSize : Nat) (name : CString) (store : BlockStore)
    (r : Nat) (data : Region) (k : Nat) : Prop where
  passes : ∀ j, j < r → SearchPasses inode blockSize name store j
  more : dirPos blockSize r < inode.iSize
  block : dirBlock inode blockSize store r = some data
  before : ∀ j, j < k → EntryPasses data blockSize name j
  inside : entryAt data k < blockSize
  isMatch : entryMatches data (entryAt data k) name = true

/-- It ends behind `n` blocks that it passes. -/
def SearchMisses (inode : Inode) (blockSize : Nat) (name : CString) (store : BlockStore) : Prop :=
  ∃ n, (inode.iSize ≤ dirPos blockSize n ∨ dirBlock inode blockSize store n = none) ∧
    ∀ j, j < n → SearchPasses inode blockSize name store j

/-- It ends behind `n` blocks with `outcome`, which is no match. -/
structure EndsWithout (inode : Inode) (blockSize : Nat) (name : CString)
    (store searched : BlockStore) (n : Nat) (outcome : DirScan) : Prop where
  passes : ∀ j, j < n → SearchPasses inode blockSize name store j
  ends :
    (inode.iSize ≤ dirPos blockSize n ∧ searched = dirStore inode blockSize store n ∧
      ∃ last seen, outcome = .missing last seen ∧
        Remembers inode blockSize store n last seen) ∨
    (dirPos blockSize n < inode.iSize ∧ dirBlock inode blockSize store n = none ∧
      outcome = .failed)

theorem EndsWithout.misses {n : Nat} {outcome : DirScan}
    (without : EndsWithout inode blockSize name store searched n outcome) :
    SearchMisses inode blockSize name store := by
  rcases without.ends with ⟨ends, _⟩ | ⟨_, none, _⟩
  · exact ⟨n, Or.inl ends, without.passes⟩
  · exact ⟨n, Or.inr none, without.passes⟩

theorem EndsWithout.notFound {n bb entry : Nat} {outcome : DirScan}
    (without : EndsWithout inode blockSize name store searched n outcome) :
    outcome ≠ .found bb entry := by
  intro found
  rcases without.ends with ⟨_, _, last, seen, missing, _⟩ | ⟨_, _, failed⟩
  · rw [missing] at found
    cases found
  · rw [failed] at found
    cases found

theorem FirstMatch.hit {r k : Nat} (first : FirstMatch inode blockSize name store r data k) :
    BlockHit data blockSize name := ⟨k, first.inside, first.isMatch⟩

theorem scanFrom_stops {outcome : DirScan} {rounds : Nat} :
    ∀ fuel r last seen, (∀ j, j < r → SearchPasses inode blockSize name store j) →
      Remembers inode blockSize store r last seen →
      scanFrom inode blockSize name store rounds fuel r last seen = some (outcome, searched) →
        (∃ n, EndsWithout inode blockSize name store searched n outcome) ∨
          ∃ n bb data k, FirstMatch inode blockSize name store n data k ∧
            dirRead inode blockSize store n = (some bb, searched) ∧
            (searched.buffers bb).data = data ∧ outcome = .found bb (entryAt data k) := by
  intro fuel
  induction fuel with
  | zero =>
      intro r last seen _ _ returns
      cases returns
  | succ fuel ih =>
      intro r last seen passes remembers returns
      by_cases ends : inode.iSize ≤ dirPos blockSize r
      · rw [scanFrom_end ends, Option.some.injEq, Prod.mk.injEq] at returns
        exact Or.inl ⟨r, passes,
          Or.inl ⟨ends, returns.2.symm, last, seen, returns.1.symm, remembers⟩⟩
      · have more := Nat.not_le.mp ends
        cases block : dirBlock inode blockSize store r with
        | none =>
            obtain ⟨after, failed⟩ := dirBlock_eq_none block
            rw [scanFrom_failed more failed, Option.some.injEq, Prod.mk.injEq] at returns
            exact Or.inl ⟨r, passes, Or.inr ⟨more, block, returns.1.symm⟩⟩
        | some data =>
            obtain ⟨bb, after, read, isData⟩ := dirBlock_eq_some block
            cases scan : scanBlock (after.buffers bb).data blockSize name rounds 0 none with
            | none =>
                rw [scanFrom_stuck more read scan] at returns
                cases returns
            | some result =>
                obtain ⟨free, cases⟩ := scanBlock_outcome scan
                rcases cases with ⟨⟨entry, found⟩, _⟩ | ⟨⟨unused, missing⟩, noHit⟩
                · obtain ⟨k, _, before, stop⟩ := scanBlock_stops rounds 0 none scan
                  rw [found] at scan stop
                  rw [scanFrom_found more read scan, Option.some.injEq, Prod.mk.injEq] at returns
                  rw [returns.2] at read
                  rw [isData] at before stop
                  rcases stop with ⟨inside, isMatch, isEntry⟩ | ⟨_, _, isMissing⟩
                  · right
                    refine ⟨r, bb, data, k, ⟨passes, more, block, fun j => before j (Nat.zero_le j),
                      inside, isMatch⟩, read, ?_, ?_⟩
                    · rw [← returns.2]
                      exact isData
                    · rw [← returns.1, BlockScan.found.inj isEntry]
                  · cases isMissing
                · rw [missing] at scan
                  rw [scanFrom_next more read scan] at returns
                  rw [isData] at free noHit
                  have through : ∀ j, j < r + 1 → SearchPasses inode blockSize name store j := by
                    intro j less
                    by_cases same : j = r
                    · rw [same]
                      exact ⟨more, data, block, noHit, free⟩
                    · exact passes j (by omega)
                  exact ih (r + 1) _ _ through
                    (remembers.next (fun j le => (through j (by omega)).1) read scan) returns

/-- A block that the search passes is not where it stops. -/
theorem FirstMatch.not_passes {r k : Nat} (first : FirstMatch inode blockSize name store r data k) :
    ¬ SearchPasses inode blockSize name store r := by
  rintro ⟨_, other, block, noHit, _⟩
  rw [first.block, Option.some.injEq] at block
  exact noHit (block ▸ first.hit)

theorem FirstMatch.unique {r n k l : Nat} {other : Region}
    (first : FirstMatch inode blockSize name store r data k)
    (again : FirstMatch inode blockSize name store n other l) : r = n ∧ data = other ∧ k = l := by
  have same : r = n := by
    rcases Nat.lt_trichotomy r n with less | same | more
    · exact absurd (again.passes r less) first.not_passes
    · exact same
    · exact absurd (first.passes n more) again.not_passes
  subst same
  have block := first.block
  rw [again.block, Option.some.injEq] at block
  subst block
  refine ⟨rfl, rfl, ?_⟩
  rcases Nat.lt_trichotomy k l with less | same | more
  · have passed := (again.before k less).2
    rw [first.isMatch] at passed
    cases passed
  · exact same
  · have passed := (first.before l more).2
    rw [again.isMatch] at passed
    cases passed

theorem FirstMatch.not_misses {r k : Nat}
    (first : FirstMatch inode blockSize name store r data k) :
    ¬ SearchMisses inode blockSize name store := by
  rintro ⟨n, stops, passes⟩
  rcases Nat.lt_trichotomy r n with less | same | more
  · exact first.not_passes (passes r less)
  · subst same
    rcases stops with ends | none
    · exact absurd first.more (Nat.not_lt.mpr ends)
    · rw [first.block] at none
      cases none
  · obtain ⟨inside, other, block, _⟩ := first.passes n more
    rcases stops with ends | none
    · exact absurd inside (Nat.not_lt.mpr ends)
    · rw [block] at none
      cases none

/-- Up to the entry where it stops nothing keeps the search. -/
theorem FirstMatch.stops {r k : Nat} (first : FirstMatch inode blockSize name store r data k) :
    SearchStops inode blockSize name store r := by
  refine Or.inr (Or.inr ⟨data, first.block, first.hit, ?_⟩)
  exact scanStops_iff.mp ⟨k, Or.inr first.isMatch, first.before⟩

theorem SearchMisses.stops (misses : SearchMisses inode blockSize name store) :
    ∃ n, SearchStops inode blockSize name store n ∧
      ∀ j, j < n → SearchPasses inode blockSize name store j := by
  obtain ⟨n, ends | none, passes⟩ := misses
  · exact ⟨n, Or.inl ends, passes⟩
  · exact ⟨n, Or.inr (Or.inl none), passes⟩

theorem scanDir_returns {n : Nat} (stops : SearchStops inode blockSize name store n)
    (passes : ∀ j, j < n → SearchPasses inode blockSize name store j) :
    ∃ fuel outcome searched,
      scanDir inode blockSize name fuel fuel 0 store none none = some (outcome, searched) := by
  obtain ⟨fuel, returns⟩ :=
    (search_rounds inode blockSize name store).returns_iff.mpr ⟨n, stops, passes⟩
  obtain ⟨⟨outcome, searched⟩, isResult⟩ := returns none none
  rw [scanFrom_zero] at isResult
  exact ⟨fuel, outcome, searched, isResult⟩

theorem scanDir_stops {outcome : DirScan} {fuel : Nat}
    (returns : scanDir inode blockSize name fuel fuel 0 store none none =
      some (outcome, searched)) :
    (∃ n, EndsWithout inode blockSize name store searched n outcome) ∨
      ∃ n bb data k, FirstMatch inode blockSize name store n data k ∧
        dirRead inode blockSize store n = (some bb, searched) ∧
        (searched.buffers bb).data = data ∧ outcome = .found bb (entryAt data k) := by
  rw [← scanFrom_zero] at returns
  exact scanFrom_stops fuel 0 none none (fun j less => absurd less (Nat.not_lt_zero j))
    (.start inode blockSize store) returns

/-! ### What a lookup is for -/

namespace FileSystem

variable {fs after : FileSystem} {file fileAfter : File} {dir : InodeRef} {isEnd : Bool}
  {far : Nat → Region} {fuel : Nat}

/-- Block `i` of a directory: the first 12 as `read_block` serves them, the others `far` away,
where the code does not look. -/
def dirContent (fs : FileSystem) (dir : InodeRef) (far : Nat → Region) (i : Nat) :
    Option Region :=
  if i < 12 then dirBlock (fs.inode dir) fs.blockSize fs.store i else some (far i)

/-- The blocks of the directory are chains of entries. -/
def WellFormedDir (fs : FileSystem) (dir : InodeRef) (far : Nat → Region) : Prop :=
  ∀ i, i * fs.blockSize < (fs.inode dir).iSize →
    ∃ data, fs.dirContent dir far i = some data ∧ ChainedBlock data fs.blockSize

/-- An entry in use has the name. -/
def HasEntry (fs : FileSystem) (dir : InodeRef) (far : Nat → Region) (name : CString) : Prop :=
  ∃ i data k, i * fs.blockSize < (fs.inode dir).iSize ∧
    fs.dirContent dir far i = some data ∧ ExactEntry data fs.blockSize name k

/-- `find_inode_in_dir` returns the inode of an entry with the name, or NULL if there is none,
and takes no other entry for it. -/
structure DirLooksUp (fs : FileSystem) (file : File) (dir : InodeRef) (name : CString)
    (isEnd : Bool) (far : Nat → Region) : Prop where
  finds : fs.HasEntry dir far name →
    ∃ i data k, i * fs.blockSize < (fs.inode dir).iSize ∧
      dirBlock (fs.inode dir) fs.blockSize fs.store i = some data ∧ i < 12 ∧
      ExactEntry data fs.blockSize name k ∧
      ∃ fuel after fileAfter, fs.findInodeInDir fuel file dir name isEnd =
        some (((fs.setStore (dirRead (fs.inode dir) fs.blockSize fs.store i).2).igetInode
          (data.word (entryAt data k))).1, after, fileAfter)
  misses : ¬ fs.HasEntry dir far name →
    ∃ fuel after fileAfter,
      fs.findInodeInDir fuel file dir name isEnd = some (none, after, fileAfter)
  noOther : ∀ r data k, FirstMatch (fs.inode dir) fs.blockSize name fs.store r data k →
    r < 12 ∧ nameLen data (entryAt data k) = name.length

/-- The first entry whose bytes begin with the name has a name of that length; or there is none
where the search looks, and none has the name. -/
def PrefixFree (fs : FileSystem) (dir : InodeRef) (name : CString) (far : Nat → Region) : Prop :=
  (∃ r data k, FirstMatch (fs.inode dir) fs.blockSize name fs.store r data k ∧ r < 12 ∧
      nameLen data (entryAt data k) = name.length) ∨
    SearchMisses (fs.inode dir) fs.blockSize name fs.store ∧ ¬ fs.HasEntry dir far name

theorem findInodeInDir_misses {outcome : DirScan} {searched : BlockStore}
    (isDir : sIsDir (fs.inode dir).iMode = true)
    (noCreate : ¬ (file.mode &&& oCreat = oCreat ∧ isEnd = true))
    (scan : scanDir (fs.inode dir) fs.blockSize name fuel fuel 0 fs.store none none =
      some (outcome, searched)) (notFound : ∀ bb entry, outcome ≠ .found bb entry) :
    fs.findInodeInDir fuel file dir name isEnd = some (none, fs.setStore searched, file) := by
  apply findInodeInDir_iff.mpr
  cases outcome with
  | failed => exact .failed isDir scan
  | found bb entry => exact absurd rfl (notFound bb entry)
  | missing last empty => exact .missing isDir scan noCreate

theorem findInodeInDir_scans {found : Option InodeRef}
    (isDir : sIsDir (fs.inode dir).iMode = true)
    (returns : fs.findInodeInDir fuel file dir name isEnd = some (found, after, fileAfter)) :
    ∃ outcome searched, scanDir (fs.inode dir) fs.blockSize name fuel fuel 0 fs.store none none =
      some (outcome, searched) := by
  cases findInodeInDir_iff.mp returns with
  | notDir other =>
      rw [isDir] at other
      cases other
  | failed _ scan => exact ⟨_, _, scan⟩
  | found _ scan => exact ⟨_, _, scan⟩
  | missing _ scan _ => exact ⟨_, _, scan⟩
  | created _ scan _ _ => exact ⟨_, _, scan⟩

theorem dirPos_small {r : Nat} (small : fs.blockSize < 65536) (few : r < 12) :
    dirPos fs.blockSize r = r * fs.blockSize := by
  have product : r * fs.blockSize ≤ 12 * 65536 := Nat.mul_le_mul (by omega) (by omega)
  unfold dirPos
  exact Nat.mod_eq_of_lt (by omega)

/-- A search that ends without a match has seen the first 12 blocks. -/
theorem misses_first (wellFormed : fs.WellFormedDir dir far) (small : fs.blockSize < 65536)
    (misses : SearchMisses (fs.inode dir) fs.blockSize name fs.store) {i k : Nat} {data : Region}
    (inDir : i * fs.blockSize < (fs.inode dir).iSize) (few : i < 12)
    (block : dirBlock (fs.inode dir) fs.blockSize fs.store i = some data) :
    ¬ ExactEntry data fs.blockSize name k := by
  intro exact
  obtain ⟨inside, isMatch, _⟩ := exactEntry_iff.mp exact
  obtain ⟨n, stops, passes⟩ := misses
  by_cases seen : i < n
  · obtain ⟨_, other, isOther, noHit, _⟩ := passes i seen
    rw [block, Option.some.injEq] at isOther
    exact noHit (isOther ▸ ⟨k, inside, isMatch⟩)
  · have before : n * fs.blockSize ≤ i * fs.blockSize :=
      Nat.mul_le_mul_right fs.blockSize (Nat.not_lt.mp seen)
    rcases stops with ends | none
    · rw [dirPos_small small (by omega)] at ends
      omega
    · obtain ⟨other, isOther, _⟩ := wellFormed n (by omega)
      unfold dirContent at isOther
      rw [if_pos (by omega), none] at isOther
      cases isOther

/-- In blocks that `read_block` reads whole a lookup does what it is for if and only if no entry
stands in its way whose bytes only begin with the name. -/
theorem findInodeInDir_looksUp_iff (wellFormed : fs.WellFormedDir dir far)
    (isDir : sIsDir (fs.inode dir).iMode = true) (whole : fs.blockSize = 8 * sectorSize)
    (noCreate : ¬ (file.mode &&& oCreat = oCreat ∧ isEnd = true)) :
    DirLooksUp fs file dir name isEnd far ↔ PrefixFree fs dir name far := by
  have small : fs.blockSize < 65536 := by
    rw [whole]
    decide
  -- what the match of the search says of the directory
  have entry : ∀ {r data k}, FirstMatch (fs.inode dir) fs.blockSize name fs.store r data k →
      r < 12 → nameLen data (entryAt data k) = name.length →
        (ExactEntry data fs.blockSize name k ∧ r * fs.blockSize < (fs.inode dir).iSize) ∧
          fs.HasEntry dir far name := by
    intro r data k first few length
    have exact := exactEntry_iff.mpr ⟨first.inside, first.isMatch, length⟩
    have inDir := first.more
    have block : fs.dirContent dir far r = some data := by
      unfold dirContent
      rw [if_pos few]
      exact first.block
    rw [dirPos_small small few] at inDir
    exact ⟨⟨exact, inDir⟩, r, data, k, inDir, block, exact⟩
  constructor
  · intro looksUp
    by_cases has : fs.HasEntry dir far name
    · obtain ⟨i, data, k, inDir, block, few, exact, fuel, after, fileAfter, returns⟩ :=
        looksUp.finds has
      left
      obtain ⟨outcome, searched, scan⟩ := findInodeInDir_scans isDir returns
      rcases scanDir_stops scan with ⟨n, without⟩ | ⟨n, bb, data, l, first, _⟩
      · exact absurd exact (misses_first wellFormed small without.misses inDir few block)
      · exact ⟨n, data, l, first, looksUp.noOther n data l first⟩
    · obtain ⟨fuel, after, fileAfter, returns⟩ := looksUp.misses has
      right
      refine ⟨?_, has⟩
      obtain ⟨outcome, searched, scan⟩ := findInodeInDir_scans isDir returns
      rcases scanDir_stops scan with ⟨n, without⟩ | ⟨n, bb, data, l, first, _⟩
      · exact without.misses
      · obtain ⟨few, length⟩ := looksUp.noOther n data l first
        exact absurd (entry first few length).2 has
  · rintro (⟨r, data, k, first, few, length⟩ | ⟨misses, hasNot⟩)
    · obtain ⟨⟨exact, inDir⟩, has⟩ := entry first few length
      obtain ⟨fuel, outcome, searched, returns⟩ := scanDir_returns first.stops first.passes
      rcases scanDir_stops returns with ⟨n, without⟩ | ⟨n, bb, other, l, again, read, isData, found⟩
      · exact absurd without.misses first.not_misses
      · obtain ⟨sameRound, sameData, sameEntry⟩ := first.unique again
        subst sameRound sameData sameEntry
        rw [found] at returns
        refine ⟨fun _ => ⟨r, data, k, inDir, first.block, few, exact, fuel, ?_⟩, ?_, ?_⟩
        · rw [read, ← isData]
          rw [← isData] at returns
          exact ⟨_, _, findInodeInDir_iff.mpr (.found isDir returns)⟩
        · intro hasNot
          exact absurd has hasNot
        · intro n other l another
          obtain ⟨sameRound, sameData, sameEntry⟩ := first.unique another
          subst sameRound sameData sameEntry
          exact ⟨few, length⟩
    · obtain ⟨n, stops, passes⟩ := misses.stops
      obtain ⟨fuel, outcome, searched, returns⟩ := scanDir_returns stops passes
      rcases scanDir_stops returns with ⟨n, without⟩ | ⟨n, bb, data, k, first, _⟩
      · refine ⟨fun has => absurd has hasNot, fun _ => ⟨fuel, ?_⟩, ?_⟩
        · exact ⟨_, _, findInodeInDir_misses isDir noCreate returns
            fun _ _ => without.notFound⟩
        · intro r data k first
          exact absurd misses first.not_misses
      · exact absurd misses first.not_misses

/-- A block with the entries "ab" of inode 12 and "a" of inode 13. -/
def entriesSample : Region := fun x =>
  if x = 0 then 12#8 else if x = 4 then 12#8 else if x = 6 then 2#8 else if x = 8 then 97#8
  else if x = 9 then 98#8 else if x = 12 then 13#8 else if x = 16 then 244#8
  else if x = 17 then 15#8 else if x = 18 then 1#8 else if x = 20 then 97#8 else 0#8

/-- A directory with this block, which is block 100. -/
def lookupSample : FileSystem :=
  { sample 4096 with
    store :=
      { BlockStore.zeroed with
        device :=
          { BlockStore.zeroed.device with
            bytes := fun a => entriesSample ((a : Int) - 409600) } }
    groups := fun group =>
      { (sample 4096).groups group with
        inodeData := fun slot =>
          { (sample 4096).inode ⟨group, slot⟩ with iMode := 0o040755 } } }

/-- A file that is opened for reading. -/
def lookupFile : File where
  pos := 0
  mode := 1
  startBlock := 0
  curBlock := 0
  ino := 0
  inode := ⟨0, 0⟩
  ref := 1

theorem lookupSample_block :
    ∃ data, dirBlock (lookupSample.inode ⟨0, 0⟩) 4096 lookupSample.store 0 = some data ∧
      entryAt data 1 = 12 ∧ entryAt data 2 = 4096 ∧ nameLen data 0 = 2 ∧ nameLen data 12 = 1 ∧
      recLen data 0 = 12 ∧ recLen data 12 = 4084 ∧ data.word (12 : Nat) = 13 ∧
      data (20 : Nat) = 97#8 ∧ entryMatches data 0 [97#8] = true := by
  have block : (dirBlock (lookupSample.inode ⟨0, 0⟩) 4096 lookupSample.store 0).map (fun data =>
      ([entryAt data 1, entryAt data 2, nameLen data 0, nameLen data 12, recLen data 0,
        recLen data 12, data.word (12 : Nat)], data (20 : Nat), entryMatches data 0 [97#8])) =
      some ([12, 4096, 2, 1, 12, 4084, 13], 97#8, true) := by decide +kernel
  obtain ⟨data, isBlock, facts⟩ := Option.map_eq_some_iff.mp block
  simp only [Prod.mk.injEq, List.cons.injEq, and_true, and_assoc] at facts
  exact ⟨data, isBlock, facts⟩

theorem lookupSample_wellFormed (far : Nat → Region) : lookupSample.WellFormedDir ⟨0, 0⟩ far := by
  obtain ⟨data, block, second, third, firstName, secondName, firstLen, secondLen, _⟩ :=
    lookupSample_block
  intro i inDir
  have isFirst : i = 0 := by
    change i * 4096 < 4096 at inDir
    omega
  subst isFirst
  refine ⟨data, block, 2, third, ?_⟩
  intro k less
  match k, less with
  | 0, _ =>
      change 8 + nameLen data 0 ≤ recLen data 0
      omega
  | 1, _ =>
      rw [second]
      omega

/-- "c" in this directory. -/
theorem findInodeInDir_looksUp_missing :
    DirLooksUp lookupSample lookupFile ⟨0, 0⟩ [99#8] true (fun _ _ => 0#8) ↔
      PrefixFree lookupSample ⟨0, 0⟩ [99#8] (fun _ _ => 0#8) :=
  findInodeInDir_looksUp_iff (lookupSample_wellFormed _) (by decide) (by decide) (by decide)

/-- "a" is in the directory, and "ab" is taken for it. -/
theorem findInodeInDir_looksUp_prefix :
    lookupSample.WellFormedDir ⟨0, 0⟩ (fun _ _ => 0#8) ∧
      lookupSample.HasEntry ⟨0, 0⟩ (fun _ _ => 0#8) [97#8] ∧
      ¬ DirLooksUp lookupSample lookupFile ⟨0, 0⟩ [97#8] true (fun _ _ => 0#8) := by
  obtain ⟨data, block, second, _, firstName, secondName, _, _, number, letter, isMatch⟩ :=
    lookupSample_block
  refine ⟨lookupSample_wellFormed _, ⟨0, data, 1, by decide, block, ?_⟩, ?_⟩
  · refine ⟨?_, ?_, ?_, ?_⟩
    · rw [second]
      decide
    · rw [second, number]
      decide
    · rw [second]
      exact secondName
    · intro i less
      rw [second, Nat.lt_one_iff.mp less]
      exact letter
  · intro looksUp
    have first : FirstMatch (lookupSample.inode ⟨0, 0⟩) 4096 [97#8] lookupSample.store 0 data 0 :=
      ⟨fun j less => absurd less (Nat.not_lt_zero j), by decide, block,
        fun j less => absurd less (Nat.not_lt_zero j), show 0 < 4096 by decide, isMatch⟩
    have length := (looksUp.noOther 0 data 0 first).2
    rw [entryAt, firstName] at length
    exact absurd length (by decide)

end FileSystem

end MangoOS
