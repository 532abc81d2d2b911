/-
The unused entry that the search of a directory remembers (fs/ext2.c).

It is the first one of all blocks, by the buffer it was read in; the buffer of the block read
last is remembered as well.
-/

import MangoOS.FileSystem.ScanEnds

namespace MangoOS

variable {data : Region} {blockSize : Nat} {name : CString} {inode : Inode} {store : BlockStore}

/-! ### In a block -/

/-- Entry `k` is the first unused one of a block from entry `r` on. -/
structure UnusedFrom (data : Region) (blockSize r k : Nat) : Prop where
  behind : r ≤ k
  inside : entryAt data k < blockSize
  unused : data.word (entryAt data k) = 0
  before : ∀ j, r ≤ j → j < k → data.word (entryAt data j) ≠ 0

/-- From entry `r` on all entries of a block are in use. -/
def UsedFrom (data : Region) (blockSize r : Nat) : Prop :=
  ∀ j, r ≤ j → entryAt data j < blockSize → data.word (entryAt data j) ≠ 0

theorem scanBlock_keeps {unused : Nat} {first : Option Nat} :
    ∀ fuel entry, scanBlock data blockSize name fuel entry (some unused) = some (.missing first) →
      first = some unused := by
  intro fuel
  induction fuel with
  | zero =>
      intro entry returns
      cases returns
  | succ fuel ih =>
      intro entry returns
      rw [scanBlock] at returns
      by_cases inside : entry < blockSize
      · rw [if_pos inside] at returns
        by_cases isMatch : entryMatches data entry name = true
        · rw [if_pos isMatch] at returns
          cases returns
        · rw [if_neg isMatch] at returns
          have seen : ¬ (data.word entry = 0 ∧ some unused = none) := fun both => by cases both.2
          rw [if_neg seen] at returns
          exact ih _ returns
      · rw [if_neg inside, Option.some.injEq, BlockScan.missing.injEq] at returns
        exact returns.symm

/-- A scan without a match has come to the first unused entry, or there is none. -/
theorem scanBlock_unused {first : Option Nat} :
    ∀ fuel r, scanBlock data blockSize name fuel (entryAt data r) none = some (.missing first) →
      first = none ∧ UsedFrom data blockSize r ∨
        ∃ k, UnusedFrom data blockSize r k ∧ first = some (entryAt data k) := by
  intro fuel
  induction fuel with
  | zero =>
      intro r returns
      cases returns
  | succ fuel ih =>
      intro r returns
      by_cases inside : entryAt data r < blockSize
      · cases isMatch : entryMatches data (entryAt data r) name with
        | true =>
            rw [scanBlock_hit inside isMatch] at returns
            cases returns
        | false =>
            rw [scanBlock_pass ⟨inside, isMatch⟩] at returns
            by_cases unused : data.word (entryAt data r) = 0
            · rw [if_pos ⟨unused, rfl⟩] at returns
              exact Or.inr ⟨r, ⟨Nat.le_refl r, inside, unused,
                fun j lower upper => absurd upper (Nat.not_lt.mpr lower)⟩,
                scanBlock_keeps _ _ returns⟩
            · rw [if_neg (fun both => unused both.1)] at returns
              rcases ih (r + 1) returns with ⟨none, used⟩ | ⟨k, found, isFirst⟩
              · refine Or.inl ⟨none, ?_⟩
                intro j behind inBlock
                by_cases same : j = r
                · rw [same]
                  exact unused
                · exact used j (by omega) inBlock
              · have behind := found.behind
                refine Or.inr ⟨k, ⟨by omega, found.inside, found.unused, ?_⟩, isFirst⟩
                intro j lower upper
                by_cases same : j = r
                · rw [same]
                  exact unused
                · exact found.before j (by omega) upper
      · rw [scanBlock_end (Nat.not_lt.mp inside), Option.some.injEq, BlockScan.missing.injEq]
          at returns
        refine Or.inl ⟨returns.symm, ?_⟩
        intro j behind inBlock
        have le : entryAt data r ≤ entryAt data j := entryAt_mono behind
        omega

/-! ### In a directory -/

/-- Block `r` is one of the directory. -/
def InDir (inode : Inode) (blockSize r : Nat) : Prop :=
  ∀ j, j ≤ r → dirPos blockSize j < inode.iSize

theorem InDir.of_passes {r : Nat} (passes : ∀ j, j < r → SearchPasses inode blockSize name store j)
    (more : dirPos blockSize r < inode.iSize) : InDir inode blockSize r := by
  intro j le
  rcases Nat.lt_or_eq_of_le le with less | same
  · exact (passes j less).1
  · rw [same]
    exact more

/-- Entry `k` of block `r`, which is served in buffer `bb`, is the first unused one. -/
structure FirstUnused (inode : Inode) (blockSize : Nat) (store : BlockStore) (r bb : Nat)
    (data : Region) (k : Nat) : Prop where
  inDir : InDir inode blockSize r
  buffer : (dirRead inode blockSize store r).1 = some bb
  block : dirBlock inode blockSize store r = some data
  entry : UnusedFrom data blockSize 0 k
  earlier : ∀ j other, j < r → dirBlock inode blockSize store j = some other →
    UsedFrom other blockSize 0

/-- What the search remembers in front of round `r`. -/
structure Remembers (inode : Inode) (blockSize : Nat) (store : BlockStore) (r : Nat)
    (last : Option Nat) (seen : Option (Nat × Nat)) : Prop where
  last : ∀ q, r = q + 1 → last = (dirRead inode blockSize store q).1
  seen :
    (seen = none ∧ ∀ j other, j < r → dirBlock inode blockSize store j = some other →
      UsedFrom other blockSize 0) ∨
    ∃ q bb data k, q < r ∧ FirstUnused inode blockSize store q bb data k ∧
      seen = some (bb, entryAt data k)

theorem Remembers.start (inode : Inode) (blockSize : Nat) (store : BlockStore) :
    Remembers inode blockSize store 0 none none :=
  ⟨fun q isNext => absurd isNext (by omega),
    Or.inl ⟨rfl, fun j other less => absurd less (Nat.not_lt_zero j)⟩⟩

theorem Remembers.next {after : BlockStore} {r bb rounds : Nat} {last unused : Option Nat}
    {seen : Option (Nat × Nat)} (remembers : Remembers inode blockSize store r last seen)
    (inDir : InDir inode blockSize r)
    (read : dirRead inode blockSize store r = (some bb, after))
    (missing : scanBlock (after.buffers bb).data blockSize name rounds 0 none =
      some (.missing unused)) :
    Remembers inode blockSize store (r + 1) (some bb)
      (seen.or (unused.map fun entry => (bb, entry))) := by
  have block := dirBlock_some read
  constructor
  · intro q isNext
    rw [← Nat.succ.inj isNext, read]
  · rcases remembers.seen with ⟨none, used⟩ | ⟨q, cc, data, k, before, first, isSeen⟩
    · rw [none, Option.none_or]
      rcases scanBlock_unused rounds 0 missing with ⟨isNone, usedHere⟩ | ⟨k, found, isFirst⟩
      · refine Or.inl ⟨by rw [isNone]; rfl, ?_⟩
        intro j other less isOther
        by_cases same : j = r
        · rw [same, block, Option.some.injEq] at isOther
          exact isOther ▸ usedHere
        · exact used j other (by omega) isOther
      · refine Or.inr ⟨r, bb, _, k, Nat.lt_succ_self r,
          ⟨inDir, by rw [read], block, found, used⟩, ?_⟩
        rw [isFirst]
        rfl
    · rw [isSeen]
      exact Or.inr ⟨q, cc, data, k, by omega, first, rfl⟩

variable {r n bb cc k l : Nat} {other : Region}

theorem UnusedFrom.unique (found : UnusedFrom data blockSize 0 k)
    (again : UnusedFrom data blockSize 0 l) : k = l := by
  rcases Nat.lt_trichotomy k l with less | same | more
  · exact absurd found.unused (again.before k (Nat.zero_le k) less)
  · exact same
  · exact absurd again.unused (found.before l (Nat.zero_le l) more)

theorem FirstUnused.unique (first : FirstUnused inode blockSize store r bb data k)
    (again : FirstUnused inode blockSize store n cc other l) :
    r = n ∧ bb = cc ∧ data = other ∧ k = l := by
  have same : r = n := by
    rcases Nat.lt_trichotomy r n with less | same | more
    · exact absurd first.entry.unused
        (again.earlier r data less first.block k (Nat.zero_le k) first.entry.inside)
    · exact same
    · exact absurd again.entry.unused
        (first.earlier n other more again.block l (Nat.zero_le l) again.entry.inside)
  subst same
  have buffer := first.buffer
  have block := first.block
  rw [again.buffer, Option.some.injEq] at buffer
  rw [again.block, Option.some.injEq] at block
  subst buffer block
  exact ⟨rfl, rfl, rfl, first.entry.unique again.entry⟩

/-- The entry that a search remembers is the first unused one. -/
theorem FirstUnused.seen {last : Option Nat} {seen : Option (Nat × Nat)}
    (first : FirstUnused inode blockSize store r bb data k)
    (remembers : Remembers inode blockSize store n last seen) (before : r < n) :
    seen = some (bb, entryAt data k) := by
  rcases remembers.seen with ⟨_, used⟩ | ⟨q, dd, other, l, _, again, isSeen⟩
  · exact absurd first.entry.unused
      (used r data before first.block k (Nat.zero_le k) first.entry.inside)
  · obtain ⟨_, sameBuffer, sameData, sameEntry⟩ := first.unique again
    rw [sameBuffer, sameData, sameEntry]
    exact isSeen

end MangoOS
