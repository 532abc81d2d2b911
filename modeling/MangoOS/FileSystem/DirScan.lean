/-
The entries of a directory, as `find_inode_in_dir` walks over them (fs/ext2.c).

An entry leads to the next one by its length, and the scan of a block goes from entry to entry
until one of them matches or the block ends.
-/

import MangoOS.FileSystem.Directory

namespace MangoOS

variable {data : Region} {blockSize : Nat} {name : CString} {empty : Option Nat}

/-! ### The entries of a block -/

/-- `rec_len` of the entry at byte `entry`. -/
def recLen (data : Region) (entry : Nat) : Nat := data.half (entry + 4 : Nat)

/-- Where entry `k` of a block begins. -/
def entryAt (data : Region) : Nat → Nat
  | 0 => 0
  | k + 1 => entryAt data k + recLen data (entryAt data k)

/-- Entry `k` is in the block and does not match. -/
def EntryPasses (data : Region) (blockSize : Nat) (name : CString) (k : Nat) : Prop :=
  entryAt data k < blockSize ∧ entryMatches data (entryAt data k) name = false

/-- An entry in the block matches. -/
def BlockHit (data : Region) (blockSize : Nat) (name : CString) : Prop :=
  ∃ k, entryAt data k < blockSize ∧ entryMatches data (entryAt data k) name = true

/-- In front of every match there is an entry of length 0. -/
def BlockStuck (data : Region) (blockSize : Nat) (name : CString) : Prop :=
  ∃ k, entryAt data k < blockSize ∧ recLen data (entryAt data k) = 0 ∧
    ∀ j, j ≤ k → entryMatches data (entryAt data j) name = false

theorem entryMatches_inUse {entry : Nat} (isMatch : entryMatches data entry name = true) :
    data.word entry ≠ 0 := by
  unfold entryMatches at isMatch
  rw [Bool.and_eq_true, decide_eq_true_iff] at isMatch
  exact isMatch.1

theorem entryAt_mono {j k : Nat} (le : j ≤ k) : entryAt data j ≤ entryAt data k := by
  induction le with
  | refl => exact Nat.le_refl _
  | step _ ih => exact Nat.le_trans ih (Nat.le_add_right _ _)

theorem entryAt_stuck {k n : Nat} (stuck : recLen data (entryAt data k) = 0) (le : k ≤ n) :
    entryAt data n = entryAt data k := by
  induction le with
  | refl => rfl
  | step _ ih => rw [entryAt, ih, stuck, Nat.add_zero]

/-- What the scan of a block comes to, by the entry where it stops. -/
def ScanStops (data : Region) (blockSize : Nat) (name : CString) (n : Nat) : Prop :=
  blockSize ≤ entryAt data n ∨ entryMatches data (entryAt data n) name = true

/-- The scan stops at some entry if and only if it is not stuck. -/
theorem scanStops_iff :
    (∃ n, ScanStops data blockSize name n ∧ ∀ j, j < n → EntryPasses data blockSize name j) ↔
      ¬ BlockStuck data blockSize name := by
  constructor
  · rintro ⟨n, stops, before⟩ ⟨k, inside, stuck, noMatch⟩
    have same : ∀ {j}, k ≤ j → entryAt data j = entryAt data k := fun le => entryAt_stuck stuck le
    rcases Nat.le_total n k with le | le
    · rcases stops with ends | isMatch
      · have below : entryAt data n ≤ entryAt data k := entryAt_mono le
        omega
      · rw [noMatch n le] at isMatch
        cases isMatch
    · unfold ScanStops at stops
      rw [same le, noMatch k (Nat.le_refl k)] at stops
      rcases stops with ends | isMatch
      · omega
      · cases isMatch
  · intro free
    by_contra never
    have passes : ∀ n, EntryPasses data blockSize name n := by
      intro n
      induction n using Nat.strong_induction_on with
      | _ n before =>
          by_contra blocked
          apply never
          refine ⟨n, ?_, before⟩
          unfold EntryPasses at blocked
          unfold ScanStops
          by_cases inside : entryAt data n < blockSize
          · right
            rw [not_and, Bool.not_eq_false] at blocked
            exact blocked inside
          · exact Or.inl (Nat.not_lt.mp inside)
    -- every entry that passes has a length
    have grows : ∀ n, n ≤ entryAt data n := by
      intro n
      induction n with
      | zero => exact Nat.zero_le _
      | succ n ih =>
          have long : recLen data (entryAt data n) ≠ 0 := by
            intro none
            exact free ⟨n, (passes n).1, none, fun j _ => (passes j).2⟩
          rw [entryAt]
          omega
    exact absurd (grows blockSize) (Nat.not_le.mpr (passes blockSize).1)

/-! ### The scan of a block -/

theorem scanBlock_pass {k fuel : Nat} (pass : EntryPasses data blockSize name k) :
    scanBlock data blockSize name (fuel + 1) (entryAt data k) empty =
      scanBlock data blockSize name fuel (entryAt data (k + 1))
        (if data.word (entryAt data k) = 0 ∧ empty = none then some (entryAt data k) else empty) := by
  rw [scanBlock, if_pos pass.1, pass.2]
  rfl

theorem scanBlock_hit {k fuel : Nat} (inside : entryAt data k < blockSize)
    (isMatch : entryMatches data (entryAt data k) name = true) :
    scanBlock data blockSize name (fuel + 1) (entryAt data k) empty =
      some (.found (entryAt data k)) := by
  rw [scanBlock, if_pos inside, if_pos isMatch]

theorem scanBlock_end {k fuel : Nat} (ends : blockSize ≤ entryAt data k) :
    scanBlock data blockSize name (fuel + 1) (entryAt data k) empty = some (.missing empty) := by
  rw [scanBlock, if_neg (Nat.not_lt.mpr ends)]

theorem scanBlock_stops {result : BlockScan} :
    ∀ fuel r empty, scanBlock data blockSize name fuel (entryAt data r) empty = some result →
      ∃ n, r ≤ n ∧ (∀ j, r ≤ j → j < n → EntryPasses data blockSize name j) ∧
        (entryAt data n < blockSize ∧ entryMatches data (entryAt data n) name = true ∧
            result = .found (entryAt data n) ∨
          blockSize ≤ entryAt data n ∧ ∃ first, result = .missing first) := by
  intro fuel
  induction fuel with
  | zero =>
      intro r empty returns
      cases returns
  | succ fuel ih =>
      intro r empty returns
      have here : ∀ j, r ≤ j → j < r → EntryPasses data blockSize name j :=
        fun j lower upper => absurd upper (Nat.not_lt.mpr lower)
      by_cases inside : entryAt data r < blockSize
      · cases isMatch : entryMatches data (entryAt data r) name with
        | true =>
            rw [scanBlock_hit inside isMatch, Option.some.injEq] at returns
            exact ⟨r, Nat.le_refl r, here, Or.inl ⟨inside, isMatch, returns.symm⟩⟩
        | false =>
            rw [scanBlock_pass ⟨inside, isMatch⟩] at returns
            obtain ⟨n, later, passes, outcome⟩ := ih (r + 1) _ returns
            refine ⟨n, by omega, ?_, outcome⟩
            intro j lower upper
            by_cases same : j = r
            · rw [same]
              exact ⟨inside, isMatch⟩
            · exact passes j (by omega) upper
      · rw [scanBlock_end (Nat.not_lt.mp inside), Option.some.injEq] at returns
        exact ⟨r, Nat.le_refl r, here, Or.inr ⟨Nat.not_lt.mp inside, empty, returns.symm⟩⟩

theorem scanBlock_reaches {n : Nat} :
    ∀ left r empty fuel, r + left = n →
      (∀ j, r ≤ j → j < n → EntryPasses data blockSize name j) →
        ∃ after, scanBlock data blockSize name (fuel + left) (entryAt data r) empty =
          scanBlock data blockSize name fuel (entryAt data n) after := by
  intro left
  induction left with
  | zero =>
      intro r empty fuel ends _
      exact ⟨empty, by rw [← ends]; rfl⟩
  | succ left ih =>
      intro r empty fuel ends passes
      rw [← Nat.add_assoc, scanBlock_pass (passes r (Nat.le_refl r) (by omega))]
      exact ih (r + 1) _ fuel (by omega) fun j lower => passes j (by omega)

theorem scanBlock_returns_iff :
    (∃ fuel result, scanBlock data blockSize name fuel 0 empty = some result) ↔
      ¬ BlockStuck data blockSize name := by
  rw [← scanStops_iff]
  constructor
  · rintro ⟨fuel, result, returns⟩
    obtain ⟨n, _, passes, outcome⟩ := scanBlock_stops fuel 0 empty returns
    refine ⟨n, ?_, fun j => passes j (Nat.zero_le j)⟩
    rcases outcome with ⟨_, isMatch, _⟩ | ⟨ends, _⟩
    · exact Or.inr isMatch
    · exact Or.inl ends
  · rintro ⟨n, stops, passes⟩
    obtain ⟨after, reaches⟩ :=
      scanBlock_reaches n 0 empty 1 (Nat.zero_add n) fun j _ => passes j
    have start : entryAt data 0 = 0 := rfl
    rw [start] at reaches
    by_cases ends : blockSize ≤ entryAt data n
    · exact ⟨1 + n, _, reaches.trans (scanBlock_end ends)⟩
    · exact ⟨1 + n, _, reaches.trans
        (scanBlock_hit (Nat.not_le.mp ends) (stops.resolve_left ends))⟩

/-- More fuel makes no difference to a scan that returns. -/
theorem scanBlock_enough {result : BlockScan} {fuel more entry : Nat}
    (returns : scanBlock data blockSize name fuel entry empty = some result) (le : fuel ≤ more) :
    scanBlock data blockSize name more entry empty = some result := by
  induction fuel generalizing more entry empty with
  | zero => cases returns
  | succ fuel ih =>
      obtain ⟨more, rfl⟩ : ∃ fewer, more = fewer + 1 := ⟨more - 1, by omega⟩
      rw [scanBlock] at returns ⊢
      by_cases inside : entry < blockSize
      · rw [if_pos inside] at returns ⊢
        by_cases isMatch : entryMatches data entry name
        · rw [if_pos isMatch] at returns ⊢
          exact returns
        · rw [if_neg isMatch] at returns ⊢
          exact ih returns (by omega)
      · rw [if_neg inside] at returns ⊢
        exact returns

/-! ### The blocks of a directory -/

variable {inode : Inode} {store after : BlockStore} {rounds : Nat}

/-- `pos` at round `r`. -/
def dirPos (blockSize r : Nat) : Nat := r * blockSize % 4294967296

/-- The store before round `r`, behind the blocks of the rounds before. -/
def dirStore (inode : Inode) (blockSize : Nat) (store : BlockStore) : Nat → BlockStore
  | 0 => store
  | r + 1 =>
      ((dirStore inode blockSize store r).readBlock blockSize
        (inode.iBlock (blockIndex (dirPos blockSize r) blockSize))).2

/-- The `read_block` of round `r`. -/
def dirRead (inode : Inode) (blockSize : Nat) (store : BlockStore) (r : Nat) :
    Option Nat × BlockStore :=
  (dirStore inode blockSize store r).readBlock blockSize
    (inode.iBlock (blockIndex (dirPos blockSize r) blockSize))

/-- The data that round `r` scans; `none` if its block is not served. -/
def dirBlock (inode : Inode) (blockSize : Nat) (store : BlockStore) (r : Nat) : Option Region :=
  let read := dirRead inode blockSize store r
  read.1.map fun bb => (read.2.buffers bb).data

theorem dirPos_succ (blockSize r : Nat) :
    dirPos blockSize (r + 1) = (dirPos blockSize r + blockSize) % 4294967296 := by
  unfold dirPos
  rw [Nat.mod_add_mod, Nat.succ_mul]

/-! ### One round of the search -/

section Round

variable {fuel r : Nat} {last : Option Nat} {first : Option (Nat × Nat)}

/-- The search of a directory from round `r` on. -/
def scanFrom (inode : Inode) (blockSize : Nat) (name : CString) (store : BlockStore)
    (rounds fuel r : Nat) (last : Option Nat) (first : Option (Nat × Nat)) :
    Option (DirScan × BlockStore) :=
  scanDir inode blockSize name rounds fuel (dirPos blockSize r) (dirStore inode blockSize store r)
    last first

theorem scanFrom_zero (inode : Inode) (blockSize : Nat) (name : CString) (store : BlockStore)
    (rounds fuel : Nat) :
    scanFrom inode blockSize name store rounds fuel 0 last first =
      scanDir inode blockSize name rounds fuel 0 store last first := by
  unfold scanFrom dirPos
  rw [Nat.zero_mul]
  rfl

theorem scanFrom_end (ends : inode.iSize ≤ dirPos blockSize r) :
    scanFrom inode blockSize name store rounds (fuel + 1) r last first =
      some (.missing last first, dirStore inode blockSize store r) := by
  rw [scanFrom, scanDir, if_neg (Nat.not_lt.mpr ends)]

variable {bb : Nat}

theorem scanFrom_failed (more : dirPos blockSize r < inode.iSize)
    (failed : dirRead inode blockSize store r = (none, after)) :
    scanFrom inode blockSize name store rounds (fuel + 1) r last first = some (.failed, after) := by
  unfold dirRead at failed
  rw [scanFrom, scanDir, if_pos more, failed]

theorem scanFrom_stuck (more : dirPos blockSize r < inode.iSize)
    (read : dirRead inode blockSize store r = (some bb, after))
    (stuck : scanBlock (after.buffers bb).data blockSize name rounds 0 none = none) :
    scanFrom inode blockSize name store rounds (fuel + 1) r last first = none := by
  unfold dirRead at read
  rw [scanFrom, scanDir, if_pos more, read]
  dsimp only
  rw [stuck]

theorem scanFrom_found {entry : Nat} (more : dirPos blockSize r < inode.iSize)
    (read : dirRead inode blockSize store r = (some bb, after))
    (found : scanBlock (after.buffers bb).data blockSize name rounds 0 none =
      some (.found entry)) :
    scanFrom inode blockSize name store rounds (fuel + 1) r last first =
      some (.found bb entry, after) := by
  unfold dirRead at read
  rw [scanFrom, scanDir, if_pos more, read]
  dsimp only
  rw [found]

theorem scanFrom_next {unused : Option Nat} (more : dirPos blockSize r < inode.iSize)
    (read : dirRead inode blockSize store r = (some bb, after))
    (missing : scanBlock (after.buffers bb).data blockSize name rounds 0 none =
      some (.missing unused)) :
    scanFrom inode blockSize name store rounds (fuel + 1) r last first =
      scanFrom inode blockSize name store rounds fuel (r + 1) (some bb)
        (first.or (unused.map fun entry => (bb, entry))) := by
  have next : dirStore inode blockSize store (r + 1) = after := congrArg Prod.snd read
  unfold dirRead at read
  rw [scanFrom, scanFrom, scanDir, if_pos more, read, dirPos_succ, next]
  dsimp only
  rw [missing]

end Round

end MangoOS
