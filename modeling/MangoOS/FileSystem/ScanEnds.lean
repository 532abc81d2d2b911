/-
Whether the scans of a directory end (fs/ext2.c).

Both loops move on by a length from the disk, which can be 0.  The one of `ulink_inode` goes up
to the length of the file behind the beginning of the block, and from a match to address 0.
-/

import MangoOS.FileSystem.DirScan
import MangoOS.FileSystem.Unlink
import MangoOS.Library.Rounds

namespace MangoOS

variable {data : Region} {blockSize : Nat} {name : CString} {inode parent : Inode}
  {store after : BlockStore}

/-! ### The headers that are read -/

/-- Where the scan of a block reads headers. -/
def scanHeaders (data : Region) (blockSize : Nat) (name : CString) :
    (fuel entry : Nat) → List Nat
  | 0, _ => []
  | fuel + 1, entry =>
      if entry < blockSize then
        entry ::
          (if entryMatches data entry name then []
          else scanHeaders data blockSize name fuel (entry + data.half (entry + 4 : Nat)))
      else []

/-- The headers that the search of a directory reads, by buffer and byte. -/
def dirHeaders (inode : Inode) (blockSize : Nat) (name : CString) (rounds : Nat) :
    (fuel pos : Nat) → BlockStore → List (Nat × Nat)
  | 0, _, _ => []
  | fuel + 1, pos, store =>
      if pos < inode.iSize then
        match store.readBlock blockSize (inode.iBlock (blockIndex pos blockSize)) with
        | (none, _) => []
        | (some bb, store) =>
            (scanHeaders (store.buffers bb).data blockSize name rounds 0).map (fun entry =>
                (bb, entry)) ++
              match scanBlock (store.buffers bb).data blockSize name rounds 0 none with
              | some (.missing _) =>
                  dirHeaders inode blockSize name rounds fuel ((pos + blockSize) % 4294967296)
                    store
              | _ => []
      else []

/-- The entry at an address is in use and its name begins with `name`. -/
def walkMatches (mem : Nat → BitVec 8) (entry : Nat) (name : CString) : Bool :=
  entryMatches (fun x => mem ((entry + x.toNat) % 4294967296)) 0 name

/-- `rec_len` of the entry at an address. -/
def walkLen (mem : Nat → BitVec 8) (entry : Nat) : Nat :=
  (mem (entry + 4)).toNat + 256 * (mem (entry + 5)).toNat

/-- Where the walk of `ulink_inode` reads headers; behind a match it reads one at address 0. -/
def walkHeaders (mem : Nat → BitVec 8) (stop : Nat) (name : CString) :
    (fuel entry : Nat) → List Nat
  | 0, _ => []
  | fuel + 1, entry =>
      if entry < stop then
        let next := if walkMatches mem entry name then 0 else entry
        entry :: next :: walkHeaders mem stop name fuel ((next + walkLen mem next) % 4294967296)
      else []

/-- The headers that `ulink_inode` reads, by buffer and address. -/
def ulinkHeaders (ram : Ram) (name : CString) (inode parent : Inode) (rounds : Nat) :
    (fuel pos : Nat) → FileSystem → List (Nat × Nat)
  | 0, _, _ => []
  | fuel + 1, pos, fs =>
      if pos < inode.iSize then
        match fs.store.readBlock fs.blockSize (parent.iBlock (blockIndex pos fs.blockSize)) with
        | (none, _) => []
        | (some bb, store) =>
            let mem := ram.read store fs.blockSize
            let stop := (ram.base bb + inode.iSize) % 4294967296
            (walkHeaders mem stop name rounds (ram.base bb)).map (fun a => (bb, a)) ++
              match ulinkWalk mem stop name rounds (ram.base bb) with
              | none => []
              | some () =>
                  ulinkHeaders ram name inode parent rounds fuel
                    ((pos + fs.blockSize) % 4294967296) (fs.setStore store)
      else []

/-! ### The search of `find_inode_in_dir` -/

/-- The search returns and reads no header outside a block. -/
structure SearchEnds (inode : Inode) (blockSize : Nat) (name : CString) (store : BlockStore) :
    Prop where
  returns : ∃ fuel result, scanDir inode blockSize name fuel fuel 0 store none none = some result
  headers : ∀ fuel header, header ∈ dirHeaders inode blockSize name fuel fuel 0 store →
    header.2 < blockSize

/-- The search comes to round `r`. -/
def SearchReaches (inode : Inode) (blockSize : Nat) (name : CString) (store : BlockStore)
    (r : Nat) : Prop :=
  ∀ j, j < r → dirPos blockSize j < inode.iSize ∧
    ∃ data, dirBlock inode blockSize store j = some data ∧ ¬ BlockHit data blockSize name

/-- Round `r` ends the search: `pos` has passed the directory, or the block is not served, or it
has a match. -/
def RoundEnds (inode : Inode) (blockSize : Nat) (name : CString) (store : BlockStore)
    (r : Nat) : Prop :=
  inode.iSize ≤ dirPos blockSize r ∨ dirBlock inode blockSize store r = none ∨
    ∃ data, dirBlock inode blockSize store r = some data ∧ BlockHit data blockSize name

/-- No block that the search comes to has an entry of length 0 in front of its first match, and
some round ends the search. -/
structure SearchFree (inode : Inode) (blockSize : Nat) (name : CString) (store : BlockStore) :
    Prop where
  moves : ∀ r data, SearchReaches inode blockSize name store r →
    dirPos blockSize r < inode.iSize → dirBlock inode blockSize store r = some data →
      ¬ BlockStuck data blockSize name
  ends : ∃ r, RoundEnds inode blockSize name store r

theorem scanHeaders_inside :
    ∀ fuel entry a, a ∈ scanHeaders data blockSize name fuel entry → a < blockSize := by
  intro fuel
  induction fuel with
  | zero =>
      intro entry a member
      cases member
  | succ fuel ih =>
      intro entry a member
      rw [scanHeaders] at member
      by_cases inside : entry < blockSize
      · rw [if_pos inside, List.mem_cons] at member
        rcases member with same | later
        · exact same ▸ inside
        · split at later
          · cases later
          · exact ih _ a later
      · rw [if_neg inside] at member
        cases member

theorem dirHeaders_inside {rounds : Nat} :
    ∀ fuel pos (store : BlockStore) header,
      header ∈ dirHeaders inode blockSize name rounds fuel pos store → header.2 < blockSize := by
  intro fuel
  induction fuel with
  | zero =>
      intro pos store header member
      cases member
  | succ fuel ih =>
      intro pos store header member
      rw [dirHeaders] at member
      split at member
      · split at member
        · cases member
        · rw [List.mem_append, List.mem_map] at member
          rcases member with ⟨entry, read, isHeader⟩ | later
          · rw [← isHeader]
            exact scanHeaders_inside _ _ entry read
          · split at later
            · exact ih _ _ header later
            · cases later
      · cases member

theorem scanBlock_outcome {fuel : Nat} {result : BlockScan}
    (returns : scanBlock data blockSize name fuel 0 none = some result) :
    ¬ BlockStuck data blockSize name ∧
      ((∃ entry, result = .found entry) ∧ BlockHit data blockSize name ∨
        (∃ unused, result = .missing unused) ∧ ¬ BlockHit data blockSize name) := by
  refine ⟨scanBlock_returns_iff.mp ⟨fuel, result, returns⟩, ?_⟩
  obtain ⟨n, _, passes, outcome⟩ := scanBlock_stops fuel 0 none returns
  rcases outcome with ⟨inside, isMatch, found⟩ | ⟨ends, missing⟩
  · exact Or.inl ⟨⟨_, found⟩, n, inside, isMatch⟩
  · refine Or.inr ⟨missing, ?_⟩
    rintro ⟨k, inside, isMatch⟩
    by_cases before : k < n
    · rw [(passes k (Nat.zero_le k) before).2] at isMatch
      cases isMatch
    · have beyond : entryAt data n ≤ entryAt data k := entryAt_mono (Nat.not_lt.mp before)
      omega

/-- A block that is not stuck is scanned with enough fuel. -/
theorem scanBlock_free (free : ¬ BlockStuck data blockSize name) :
    ∃ enough result, ∀ rounds, enough ≤ rounds →
      scanBlock data blockSize name rounds 0 none = some result := by
  obtain ⟨enough, result, returns⟩ := scanBlock_returns_iff.mpr free
  exact ⟨enough, result, fun rounds le => scanBlock_enough returns le⟩

/-- Whether the search returns does not depend on what it has seen. -/
theorem scanDir_seen {rounds : Nat} :
    ∀ fuel pos (store : BlockStore) last first result,
      scanDir inode blockSize name rounds fuel pos store last first = some result →
        ∀ last' first', ∃ result',
          scanDir inode blockSize name rounds fuel pos store last' first' = some result' := by
  intro fuel
  induction fuel with
  | zero =>
      intro pos store last first result returns
      cases returns
  | succ fuel ih =>
      intro pos store last first result returns last' first'
      rw [scanDir] at returns ⊢
      split at returns
      case isTrue more =>
        rw [if_pos more]
        split at returns
        · exact ⟨_, rfl⟩
        · dsimp only
          split at returns
          · cases returns
          · exact ⟨_, rfl⟩
          · exact ih _ _ _ _ _ returns _ _
      case isFalse ends =>
        rw [if_neg ends]
        exact ⟨_, rfl⟩

section Search

/-- The search passes the block of round `r`. -/
def SearchPasses (inode : Inode) (blockSize : Nat) (name : CString) (store : BlockStore)
    (r : Nat) : Prop :=
  dirPos blockSize r < inode.iSize ∧ ∃ data, dirBlock inode blockSize store r = some data ∧
    ¬ BlockHit data blockSize name ∧ ¬ BlockStuck data blockSize name

/-- The search stops at round `r`. -/
def SearchStops (inode : Inode) (blockSize : Nat) (name : CString) (store : BlockStore)
    (r : Nat) : Prop :=
  inode.iSize ≤ dirPos blockSize r ∨ dirBlock inode blockSize store r = none ∨
    ∃ data, dirBlock inode blockSize store r = some data ∧
      BlockHit data blockSize name ∧ ¬ BlockStuck data blockSize name

theorem dirBlock_some {bb r : Nat} (read : dirRead inode blockSize store r = (some bb, after)) :
    dirBlock inode blockSize store r = some (after.buffers bb).data := by
  unfold dirBlock
  rw [read]
  rfl

theorem dirBlock_eq_none {r : Nat} (none : dirBlock inode blockSize store r = none) :
    ∃ after, dirRead inode blockSize store r = (Option.none, after) := by
  unfold dirBlock at none
  rw [Option.map_eq_none_iff] at none
  exact ⟨(dirRead inode blockSize store r).2, Prod.ext none rfl⟩

theorem dirBlock_eq_some {r : Nat} (block : dirBlock inode blockSize store r = some data) :
    ∃ bb after, dirRead inode blockSize store r = (some bb, after) ∧
      (after.buffers bb).data = data := by
  unfold dirBlock at block
  obtain ⟨bb, isBuffer, isData⟩ := Option.map_eq_some_iff.mp block
  exact ⟨bb, (dirRead inode blockSize store r).2, Prod.ext isBuffer rfl, isData⟩

theorem search_rounds (inode : Inode) (blockSize : Nat) (name : CString) (store : BlockStore) :
    Rounds (fun rounds fuel r => ∀ last first, ∃ result,
        scanFrom inode blockSize name store rounds fuel r last first = some result)
      (SearchStops inode blockSize name store) (SearchPasses inode blockSize name store) where
  zero := by
    intro rounds r isBack
    obtain ⟨result, returns⟩ := isBack none none
    cases returns
  stops := by
    intro r stops
    by_cases ends : inode.iSize ≤ dirPos blockSize r
    · exact ⟨0, fun rounds fuel _ last first => ⟨_, scanFrom_end ends⟩⟩
    · have more := Nat.not_le.mp ends
      rcases stops.resolve_left ends with none | ⟨data, block, hit, free⟩
      · obtain ⟨after, failed⟩ := dirBlock_eq_none none
        exact ⟨0, fun rounds fuel _ last first => ⟨_, scanFrom_failed more failed⟩⟩
      · obtain ⟨bb, after, read, isData⟩ := dirBlock_eq_some block
        obtain ⟨enough, result, returns⟩ := scanBlock_free free
        refine ⟨enough, ?_⟩
        intro rounds fuel le last first
        have scan := returns rounds le
        rcases (scanBlock_outcome scan).2 with ⟨⟨entry, found⟩, _⟩ | ⟨_, noHit⟩
        · rw [found, ← isData] at scan
          exact ⟨_, scanFrom_found more read scan⟩
        · exact absurd hit noHit
  passes := by
    rintro r ⟨more, data, block, noHit, free⟩
    obtain ⟨bb, after, read, isData⟩ := dirBlock_eq_some block
    obtain ⟨enough, result, returns⟩ := scanBlock_free free
    refine ⟨enough, ?_⟩
    intro rounds fuel le isBack last first
    have scan := returns rounds le
    rcases (scanBlock_outcome scan).2 with ⟨_, hit⟩ | ⟨⟨unused, missing⟩, _⟩
    · exact absurd hit noHit
    · rw [missing, ← isData] at scan
      rw [scanFrom_next more read scan]
      exact isBack _ _
  cases := by
    intro rounds fuel r isBack
    obtain ⟨result, returns⟩ := isBack none none
    by_cases ends : inode.iSize ≤ dirPos blockSize r
    · exact Or.inl (Or.inl ends)
    · have more := Nat.not_le.mp ends
      cases block : dirBlock inode blockSize store r with
      | none => exact Or.inl (Or.inr (Or.inl block))
      | some data =>
          obtain ⟨bb, after, read, isData⟩ := dirBlock_eq_some block
          cases scan : scanBlock (after.buffers bb).data blockSize name rounds 0 none with
          | none =>
              rw [scanFrom_stuck more read scan] at returns
              cases returns
          | some outcome =>
              obtain ⟨free, cases⟩ := scanBlock_outcome scan
              rw [isData] at free cases
              rcases cases with ⟨_, hit⟩ | ⟨⟨unused, missing⟩, noHit⟩
              · exact Or.inl (Or.inr (Or.inr ⟨data, block, hit, free⟩))
              · right
                refine ⟨⟨more, data, block, noHit, free⟩, ?_⟩
                rw [missing] at scan
                rw [scanFrom_next more read scan] at returns
                exact scanDir_seen _ _ _ _ _ _ returns

theorem SearchFree.passes_iff :
    SearchFree inode blockSize name store ↔
      ∃ n, SearchStops inode blockSize name store n ∧
        ∀ j, j < n → SearchPasses inode blockSize name store j := by
  have first : (∃ n, SearchStops inode blockSize name store n ∧
      ∀ j, j < n → SearchPasses inode blockSize name store j) ↔
        (∀ r, (∀ j, j < r → SearchPasses inode blockSize name store j) →
          SearchStops inode blockSize name store r ∨ SearchPasses inode blockSize name store r) ∧
        ∃ r, RoundEnds inode blockSize name store r := by
    apply Rounds.first_iff
    · rintro r (ends | none | ⟨data, block, hit, _⟩)
      · exact Or.inl ends
      · exact Or.inr (Or.inl none)
      · exact Or.inr (Or.inr ⟨data, block, hit⟩)
    · rintro r ⟨more, data, block, noHit, _⟩ (ends | none | ⟨other, isOther, hit⟩)
      · exact absurd more (Nat.not_lt.mpr ends)
      · rw [block] at none
        cases none
      · rw [block, Option.some.injEq] at isOther
        exact noHit (isOther ▸ hit)
  rw [first]
  constructor
  · intro free
    refine ⟨?_, free.ends⟩
    intro r passes
    have reaches : SearchReaches inode blockSize name store r := by
      intro j before
      obtain ⟨more, data, block, noHit, _⟩ := passes j before
      exact ⟨more, data, block, noHit⟩
    by_cases ends : inode.iSize ≤ dirPos blockSize r
    · exact Or.inl (Or.inl ends)
    · have more := Nat.not_le.mp ends
      cases block : dirBlock inode blockSize store r with
      | none => exact Or.inl (Or.inr (Or.inl block))
      | some data =>
          have moves := free.moves r data reaches more block
          by_cases hit : BlockHit data blockSize name
          · exact Or.inl (Or.inr (Or.inr ⟨data, block, hit, moves⟩))
          · exact Or.inr ⟨more, data, block, hit, moves⟩
  · rintro ⟨advances, ends⟩
    -- a round that the search comes to is not stuck
    have moves : ∀ r data, (∀ j, j < r → SearchPasses inode blockSize name store j) →
        dirPos blockSize r < inode.iSize → dirBlock inode blockSize store r = some data →
          ¬ BlockStuck data blockSize name := by
      intro r data passes more block
      rcases advances r passes with (past | none | ⟨other, isOther, _, free⟩) |
        ⟨_, other, isOther, _, free⟩
      · exact absurd more (Nat.not_lt.mpr past)
      · rw [block] at none
        cases none
      · rw [block, Option.some.injEq] at isOther
        exact isOther ▸ free
      · rw [block, Option.some.injEq] at isOther
        exact isOther ▸ free
    refine ⟨?_, ends⟩
    intro r data reaches
    have passes : ∀ j, j < r → SearchPasses inode blockSize name store j := by
      intro j
      induction j using Nat.strong_induction_on with
      | _ j earlier =>
          intro before
          obtain ⟨more, data, block, noHit⟩ := reaches j before
          have passed : ∀ i, i < j → SearchPasses inode blockSize name store i :=
            fun i less => earlier i less (Nat.lt_trans less before)
          exact ⟨more, data, block, noHit, moves j data passed more block⟩
    exact moves r data passes

/-- For sizes of a block that divide 2^32, `pos` passes a directory of up to 2^32 less a block
and no larger one. -/
theorem dirPos_passes_iff (positive : 0 < blockSize) (divides : blockSize ∣ 4294967296) :
    (∃ r, inode.iSize ≤ dirPos blockSize r) ↔ inode.iSize + blockSize ≤ 4294967296 := by
  obtain ⟨count, whole⟩ := divides
  unfold dirPos
  constructor
  · rintro ⟨r, past⟩
    have multiple : r * blockSize % 4294967296 = r % count * blockSize := by
      rw [whole, Nat.mul_comm blockSize count, Nat.mul_mod_mul_right]
    have some : 0 < count := Nat.pos_of_ne_zero fun none => by rw [none] at whole; omega
    have less := Nat.mod_lt r some
    have scaled := Nat.mul_le_mul_right blockSize (show r % count + 1 ≤ count from less)
    rw [Nat.succ_mul, Nat.mul_comm count, ← whole] at scaled
    omega
  · intro fits
    refine ⟨count - 1, ?_⟩
    have last : (count - 1) * blockSize = 4294967296 - blockSize := by
      rw [Nat.sub_mul, Nat.one_mul, Nat.mul_comm count, ← whole]
    rw [last, Nat.mod_eq_of_lt (by omega)]
    omega

/-- The search of a directory ends if and only if nothing that it comes to keeps it. -/
theorem searchEnds_iff :
    SearchEnds inode blockSize name store ↔ SearchFree inode blockSize name store := by
  rw [SearchFree.passes_iff, ← (search_rounds inode blockSize name store).returns_iff]
  constructor
  · intro search
    obtain ⟨fuel, result, returns⟩ := search.returns
    refine ⟨fuel, ?_⟩
    rw [← scanFrom_zero] at returns
    exact scanDir_seen _ _ _ _ _ _ returns
  · rintro ⟨fuel, returns⟩
    obtain ⟨result, isResult⟩ := returns none none
    rw [scanFrom_zero] at isResult
    exact ⟨⟨fuel, result, isResult⟩, fun fuel => dirHeaders_inside fuel 0 store⟩

end Search

/-! ### The walk of `ulink_inode` over a block -/

section Walk

variable {mem : Nat → BitVec 8} {base stop : Nat}

/-- The addresses the walk comes to while nothing matches. -/
def walkAt (mem : Nat → BitVec 8) (base : Nat) : Nat → Nat
  | 0 => base
  | k + 1 => (walkAt mem base k + walkLen mem (walkAt mem base k)) % 4294967296

/-- All headers up to `stop` lie in the block, have a length and do not match. -/
def WalkStays (mem : Nat → BitVec 8) (base blockSize stop : Nat) (name : CString) : Prop :=
  ∀ k, (∀ j, j ≤ k → walkAt mem base j < stop) →
    base ≤ walkAt mem base k ∧ walkAt mem base k < base + blockSize ∧
      walkMatches mem (walkAt mem base k) name = false ∧ walkLen mem (walkAt mem base k) ≠ 0

/-- The walk goes on from entry `k`. -/
def WalkPasses (mem : Nat → BitVec 8) (base stop : Nat) (name : CString) (k : Nat) : Prop :=
  walkAt mem base k < stop ∧ walkMatches mem (walkAt mem base k) name = false

theorem ulinkWalk_end {fuel k : Nat} (ends : stop ≤ walkAt mem base k) :
    ulinkWalk mem stop name (fuel + 1) (walkAt mem base k) = some () := by
  rw [ulinkWalk, if_neg (Nat.not_lt.mpr ends)]

theorem ulinkWalk_pass {fuel k : Nat} (pass : WalkPasses mem base stop name k) :
    ulinkWalk mem stop name (fuel + 1) (walkAt mem base k) =
      ulinkWalk mem stop name fuel (walkAt mem base (k + 1)) := by
  have noMatch : entryMatches (fun x : Int => mem ((walkAt mem base k + x.toNat) % 4294967296)) 0
      name = false := pass.2
  rw [ulinkWalk, if_pos pass.1]
  dsimp only
  rw [noMatch]
  rfl

theorem walkHeaders_pass {fuel k : Nat} (pass : WalkPasses mem base stop name k) :
    walkHeaders mem stop name (fuel + 1) (walkAt mem base k) =
      walkAt mem base k :: walkAt mem base k ::
        walkHeaders mem stop name fuel (walkAt mem base (k + 1)) := by
  rw [walkHeaders, if_pos pass.1, pass.2]
  rfl

theorem ulinkWalk_reaches :
    ∀ left r fuel, (∀ j, r ≤ j → j < r + left → WalkPasses mem base stop name j) →
      ulinkWalk mem stop name (fuel + left) (walkAt mem base r) =
          ulinkWalk mem stop name fuel (walkAt mem base (r + left)) ∧
        ∀ a, a ∈ walkHeaders mem stop name fuel (walkAt mem base (r + left)) →
          a ∈ walkHeaders mem stop name (fuel + left) (walkAt mem base r) := by
  intro left
  induction left with
  | zero =>
      intro r fuel _
      exact ⟨rfl, fun a member => member⟩
  | succ left ih =>
      intro r fuel passes
      obtain ⟨walks, reads⟩ := ih (r + 1) fuel fun j lower upper => passes j (by omega) (by omega)
      have pass := passes r (Nat.le_refl r) (by omega)
      rw [show r + (left + 1) = r + 1 + left by omega, ← Nat.add_assoc, ulinkWalk_pass pass,
        walkHeaders_pass pass]
      refine ⟨walks, ?_⟩
      intro a member
      exact List.mem_cons_of_mem _ (List.mem_cons_of_mem _ (reads a member))

theorem ulinkWalk_endless {r : Nat} (passes : ∀ k, r ≤ k → WalkPasses mem base stop name k) :
    ∀ fuel, ulinkWalk mem stop name fuel (walkAt mem base r) = none := by
  intro fuel
  induction fuel generalizing r with
  | zero => rfl
  | succ fuel ih =>
      rw [ulinkWalk_pass (passes r (Nat.le_refl r))]
      exact ih fun k later => passes k (by omega)

/-- More fuel makes no difference to a walk that returns, and reads no header less. -/
theorem ulinkWalk_enough {fuel more : Nat} (le : fuel ≤ more) :
    ∀ entry, (ulinkWalk mem stop name fuel entry = some () →
        ulinkWalk mem stop name more entry = some ()) ∧
      ∀ a, a ∈ walkHeaders mem stop name fuel entry → a ∈ walkHeaders mem stop name more entry := by
  induction fuel generalizing more with
  | zero =>
      intro entry
      constructor
      · intro returns
        cases returns
      · intro a member
        cases member
  | succ fuel ih =>
      intro entry
      obtain ⟨more, rfl⟩ : ∃ fewer, more = fewer + 1 := ⟨more - 1, by omega⟩
      have rest := ih (by omega : fuel ≤ more)
      rw [ulinkWalk, ulinkWalk, walkHeaders, walkHeaders]
      by_cases inside : entry < stop
      · rw [if_pos inside, if_pos inside, if_pos inside, if_pos inside]
        refine ⟨(rest _).1, ?_⟩
        intro a member
        rw [List.mem_cons, List.mem_cons] at member ⊢
        rcases member with same | same | later
        · exact Or.inl same
        · exact Or.inr (Or.inl same)
        · exact Or.inr (Or.inr ((rest _).2 a later))
      · rw [if_neg inside, if_neg inside, if_neg inside, if_neg inside]
        exact ⟨fun _ => rfl, fun a member => member⟩

theorem WalkStays.stops (stays : WalkStays mem base blockSize stop name)
    (small : blockSize < 65536) :
    ∃ n, stop ≤ walkAt mem base n ∧ ∀ j, j < n → WalkPasses mem base stop name j := by
  by_contra never
  have inside : ∀ k, walkAt mem base k < stop := by
    intro k
    induction k using Nat.strong_induction_on with
    | _ k before =>
        by_contra ends
        apply never
        refine ⟨k, Nat.not_lt.mp ends, ?_⟩
        intro j less
        refine ⟨before j less, (stays j ?_).2.2.1⟩
        intro i le
        exact before i (Nat.lt_of_le_of_lt le less)
  have here := fun k => stays k fun j _ => inside j
  -- the lengths have 16 bits, so the addresses do not wrap back into the block
  have grows : ∀ k, base + k ≤ walkAt mem base k := by
    intro k
    induction k with
    | zero => exact Nat.le_refl base
    | succ k ih =>
        have now := here k
        have next := here (k + 1)
        have low := (mem (walkAt mem base k + 4)).isLt
        have high := (mem (walkAt mem base k + 5)).isLt
        rw [walkAt] at next ⊢
        unfold walkLen at now next ⊢
        omega
  have last := grows blockSize
  have inBlock := (here blockSize).2.1
  omega

theorem WalkStays.headers (stays : WalkStays mem base blockSize stop name) :
    ∀ fuel r a, (∀ j, j < r → walkAt mem base j < stop) →
      a ∈ walkHeaders mem stop name fuel (walkAt mem base r) → base ≤ a ∧ a < base + blockSize := by
  intro fuel
  induction fuel with
  | zero =>
      intro r a _ member
      cases member
  | succ fuel ih =>
      intro r a before member
      by_cases inside : walkAt mem base r < stop
      · have upTo : ∀ j, j ≤ r → walkAt mem base j < stop := by
          intro j le
          rcases Nat.lt_or_eq_of_le le with less | same
          · exact before j less
          · exact same ▸ inside
        obtain ⟨lower, upper, noMatch, _⟩ := stays r upTo
        rw [walkHeaders_pass ⟨inside, noMatch⟩, List.mem_cons, List.mem_cons] at member
        rcases member with same | same | later
        · exact same ▸ ⟨lower, upper⟩
        · exact same ▸ ⟨lower, upper⟩
        · exact ih (r + 1) a (fun j less => upTo j (by omega)) later
      · rw [walkHeaders, if_neg inside] at member
        cases member

/-- The walk over a block returns and reads its headers in the block if and only if it stays
there. -/
theorem walkStays_iff (allocated : 0 < base) (small : blockSize < 65536)
    (bounded : stop ≤ 4294967296) :
    ((∃ fuel, ulinkWalk mem stop name fuel base = some ()) ∧
        ∀ fuel a, a ∈ walkHeaders mem stop name fuel base → base ≤ a ∧ a < base + blockSize) ↔
      WalkStays mem base blockSize stop name := by
  constructor
  · rintro ⟨⟨enough, returns⟩, reads⟩ k
    induction k using Nat.strong_induction_on with
    | _ k earlier =>
        intro inside
        have passes : ∀ j, 0 ≤ j → j < 0 + k → WalkPasses mem base stop name j := by
          intro j _ less
          exact ⟨inside j (by omega), (earlier j (by omega) fun i le => inside i (by omega)).2.2.1⟩
        obtain ⟨_, reaches⟩ := ulinkWalk_reaches k 0 1 passes
        rw [Nat.zero_add] at reaches
        have here := inside k (Nat.le_refl k)
        have first := reads _ _ (reaches (walkAt mem base k) (by
          rw [walkHeaders, if_pos here]
          exact List.mem_cons_self ..))
        have noMatch : walkMatches mem (walkAt mem base k) name = false := by
          cases isMatch : walkMatches mem (walkAt mem base k) name with
          | false => rfl
          | true =>
              -- behind a match the header at address 0 is read
              have null := reads _ _ (reaches 0 (by
                rw [walkHeaders, if_pos here, isMatch]
                exact List.mem_cons_of_mem _ (List.mem_cons_self ..)))
              omega
        refine ⟨first.1, first.2, noMatch, ?_⟩
        intro none
        have same : ∀ m, k ≤ m → walkAt mem base m = walkAt mem base k := by
          intro m le
          induction le with
          | refl => rfl
          | step _ ih => rw [walkAt, ih, none, Nat.add_zero, Nat.mod_eq_of_lt (by omega)]
        have endless : ∀ fuel, ulinkWalk mem stop name fuel (walkAt mem base 0) = Option.none := by
          apply ulinkWalk_endless
          intro m _
          by_cases before : m < k
          · exact passes m (Nat.zero_le m) (by omega)
          · unfold WalkPasses
            rw [same m (by omega)]
            exact ⟨here, noMatch⟩
        rw [show walkAt mem base 0 = base from rfl] at endless
        rw [endless enough] at returns
        cases returns
  · intro stays
    obtain ⟨n, ends, passes⟩ := stays.stops small
    constructor
    · obtain ⟨walks, _⟩ := ulinkWalk_reaches n 0 1 fun j _ less => passes j (by omega)
      rw [Nat.zero_add, ulinkWalk_end ends] at walks
      exact ⟨_, walks⟩
    · intro fuel a member
      exact stays.headers fuel 0 a (fun j less => absurd less (Nat.not_lt_zero j)) member

end Walk

/-! ### The loop of `ulink_inode` over the blocks -/

namespace FileSystem

variable {fs : FileSystem} {ram : Ram} {rounds fuel r bb : Nat}

/-- `ulink_inode` returns and reads no header outside the block at hand. -/
structure UlinkEnds (fs : FileSystem) (ram : Ram) (name : CString) (inode parent : Inode) :
    Prop where
  returns : ∃ fuel after, ulinkLoop ram name inode parent fuel fuel 0 fs = some after
  headers : ∀ fuel header, header ∈ ulinkHeaders ram name inode parent fuel fuel 0 fs →
    ram.base header.1 ≤ header.2 ∧ header.2 < ram.base header.1 + fs.blockSize

/-- The loop comes to round `r`. -/
def UlinkReaches (fs : FileSystem) (inode parent : Inode) (r : Nat) : Prop :=
  ∀ j, j < r → dirPos fs.blockSize j < inode.iSize ∧
    (dirRead parent fs.blockSize fs.store j).1 ≠ none

/-- Every walk that the loop comes to stays in its block, and some round ends the loop. -/
structure UlinkFree (fs : FileSystem) (ram : Ram) (name : CString) (inode parent : Inode) :
    Prop where
  moves : ∀ r bb after, fs.UlinkReaches inode parent r → dirPos fs.blockSize r < inode.iSize →
    dirRead parent fs.blockSize fs.store r = (some bb, after) →
      WalkStays (ram.read after fs.blockSize) (ram.base bb) fs.blockSize
        ((ram.base bb + inode.iSize) % 4294967296) name
  ends : ∃ r, inode.iSize ≤ dirPos fs.blockSize r ∨
    (dirRead parent fs.blockSize fs.store r).1 = none

/-- The loop from round `r` on. -/
def ulinkFrom (fs : FileSystem) (ram : Ram) (name : CString) (inode parent : Inode)
    (rounds fuel r : Nat) : Option FileSystem :=
  ulinkLoop ram name inode parent rounds fuel (dirPos fs.blockSize r)
    (fs.setStore (dirStore parent fs.blockSize fs.store r))

def headersFrom (fs : FileSystem) (ram : Ram) (name : CString) (inode parent : Inode)
    (rounds fuel r : Nat) : List (Nat × Nat) :=
  ulinkHeaders ram name inode parent rounds fuel (dirPos fs.blockSize r)
    (fs.setStore (dirStore parent fs.blockSize fs.store r))

/-- The walk of round `r` returns with this fuel. -/
def WalkBack (fs : FileSystem) (ram : Ram) (name : CString) (inode : Inode) (fuel bb : Nat)
    (after : BlockStore) : Prop :=
  ulinkWalk (ram.read after fs.blockSize) ((ram.base bb + inode.iSize) % 4294967296) name fuel
    (ram.base bb) = some ()

/-- The headers of the walk of round `r`. -/
def roundHeaders (fs : FileSystem) (ram : Ram) (name : CString) (inode : Inode) (fuel bb : Nat)
    (after : BlockStore) : List Nat :=
  walkHeaders (ram.read after fs.blockSize) ((ram.base bb + inode.iSize) % 4294967296) name fuel
    (ram.base bb)

theorem ulinkFrom_end (ends : inode.iSize ≤ dirPos fs.blockSize r) :
    (∃ after, fs.ulinkFrom ram name inode parent rounds (fuel + 1) r = some after) ∧
      fs.headersFrom ram name inode parent rounds (fuel + 1) r = [] := by
  rw [ulinkFrom, headersFrom, ulinkLoop, ulinkHeaders, if_neg (Nat.not_lt.mpr ends),
    if_neg (Nat.not_lt.mpr ends)]
  exact ⟨⟨_, rfl⟩, rfl⟩

theorem ulink_read (fs : FileSystem) (parent : Inode) (r : Nat) :
    (fs.setStore (dirStore parent fs.blockSize fs.store r)).store.readBlock
        (fs.setStore (dirStore parent fs.blockSize fs.store r)).blockSize
        (parent.iBlock (blockIndex (dirPos fs.blockSize r)
          (fs.setStore (dirStore parent fs.blockSize fs.store r)).blockSize)) =
      dirRead parent fs.blockSize fs.store r := rfl

theorem ulinkFrom_failed (more : dirPos fs.blockSize r < inode.iSize)
    (failed : dirRead parent fs.blockSize fs.store r = (none, after)) :
    (∃ last, fs.ulinkFrom ram name inode parent rounds (fuel + 1) r = some last) ∧
      fs.headersFrom ram name inode parent rounds (fuel + 1) r = [] := by
  rw [ulinkFrom, headersFrom, ulinkLoop, ulinkHeaders, if_pos more, if_pos more, ulink_read,
    failed]
  exact ⟨⟨_, rfl⟩, rfl⟩

theorem ulinkFrom_stuck (more : dirPos fs.blockSize r < inode.iSize)
    (read : dirRead parent fs.blockSize fs.store r = (some bb, after))
    (stuck : ¬ fs.WalkBack ram name inode rounds bb after) :
    fs.ulinkFrom ram name inode parent rounds (fuel + 1) r = none ∧
      fs.headersFrom ram name inode parent rounds (fuel + 1) r =
        (fs.roundHeaders ram name inode rounds bb after).map fun a => (bb, a) := by
  have endless : ulinkWalk (ram.read after
      (fs.setStore (dirStore parent fs.blockSize fs.store r)).blockSize)
        ((ram.base bb + inode.iSize) % 4294967296) name rounds (ram.base bb) = none := by
    apply Option.eq_none_iff_forall_ne_some.mpr
    intro _ returns
    exact stuck returns
  rw [ulinkFrom, headersFrom, ulinkLoop, ulinkHeaders, if_pos more, if_pos more, ulink_read, read]
  dsimp only
  rw [endless]
  exact ⟨rfl, List.append_nil _⟩

theorem ulinkFrom_next (more : dirPos fs.blockSize r < inode.iSize)
    (read : dirRead parent fs.blockSize fs.store r = (some bb, after))
    (back : fs.WalkBack ram name inode rounds bb after) :
    fs.ulinkFrom ram name inode parent rounds (fuel + 1) r =
        fs.ulinkFrom ram name inode parent rounds fuel (r + 1) ∧
      fs.headersFrom ram name inode parent rounds (fuel + 1) r =
        ((fs.roundHeaders ram name inode rounds bb after).map fun a => (bb, a)) ++
          fs.headersFrom ram name inode parent rounds fuel (r + 1) := by
  have next : dirStore parent fs.blockSize fs.store (r + 1) = after := congrArg Prod.snd read
  have returns : ulinkWalk (ram.read after
      (fs.setStore (dirStore parent fs.blockSize fs.store r)).blockSize)
        ((ram.base bb + inode.iSize) % 4294967296) name rounds (ram.base bb) = some () := back
  rw [ulinkFrom, headersFrom, ulinkFrom, headersFrom, ulinkLoop, ulinkHeaders, if_pos more,
    if_pos more, ulink_read, read, dirPos_succ, next]
  dsimp only
  rw [returns]
  exact ⟨rfl, rfl⟩

/-- The loop passes round `r`. -/
def UlinkPasses (fs : FileSystem) (ram : Ram) (name : CString) (inode parent : Inode)
    (r : Nat) : Prop :=
  dirPos fs.blockSize r < inode.iSize ∧
    ∃ bb after, dirRead parent fs.blockSize fs.store r = (some bb, after) ∧
      ∃ fuel, fs.WalkBack ram name inode fuel bb after

/-- It stops at round `r`. -/
def UlinkStops (fs : FileSystem) (inode parent : Inode) (r : Nat) : Prop :=
  inode.iSize ≤ dirPos fs.blockSize r ∨ (dirRead parent fs.blockSize fs.store r).1 = none

theorem dirRead_eq_none {inode : Inode} {blockSize : Nat} {store : BlockStore}
    (none : (dirRead inode blockSize store r).1 = none) :
    ∃ after, dirRead inode blockSize store r = (Option.none, after) :=
  ⟨(dirRead inode blockSize store r).2, Prod.ext none rfl⟩

theorem WalkBack.enough {after : BlockStore} (back : fs.WalkBack ram name inode fuel bb after)
    (le : fuel ≤ rounds) : fs.WalkBack ram name inode rounds bb after :=
  (ulinkWalk_enough le _).1 back

theorem ulink_rounds (fs : FileSystem) (ram : Ram) (name : CString) (inode parent : Inode) :
    Rounds (fun rounds fuel r => ∃ after,
        fs.ulinkFrom ram name inode parent rounds fuel r = some after)
      (fs.UlinkStops inode parent) (fs.UlinkPasses ram name inode parent) where
  zero := by
    rintro rounds r ⟨after, returns⟩
    cases returns
  stops := by
    intro r stops
    by_cases ends : inode.iSize ≤ dirPos fs.blockSize r
    · exact ⟨0, fun rounds fuel _ => (ulinkFrom_end ends).1⟩
    · obtain ⟨after, failed⟩ := dirRead_eq_none (stops.resolve_left ends)
      exact ⟨0, fun rounds fuel _ => (ulinkFrom_failed (Nat.not_le.mp ends) failed).1⟩
  passes := by
    rintro r ⟨more, bb, after, read, enough, back⟩
    refine ⟨enough, ?_⟩
    intro rounds fuel le isBack
    rw [(ulinkFrom_next more read (back.enough le)).1]
    exact isBack
  cases := by
    rintro rounds fuel r ⟨last, returns⟩
    by_cases ends : inode.iSize ≤ dirPos fs.blockSize r
    · exact Or.inl (Or.inl ends)
    · have more := Nat.not_le.mp ends
      cases found : (dirRead parent fs.blockSize fs.store r).1 with
      | none => exact Or.inl (Or.inr found)
      | some bb =>
          have read : dirRead parent fs.blockSize fs.store r =
              (some bb, (dirRead parent fs.blockSize fs.store r).2) := Prod.ext found rfl
          by_cases back : fs.WalkBack ram name inode rounds bb
            (dirRead parent fs.blockSize fs.store r).2
          · rw [(ulinkFrom_next more read back).1] at returns
            exact Or.inr ⟨⟨more, bb, _, read, rounds, back⟩, last, returns⟩
          · rw [(ulinkFrom_stuck more read back).1] at returns
            cases returns

/-- Where the headers of the loop come from: the walk of a round that it comes to. -/
theorem headersFrom_round {header : Nat × Nat} :
    ∀ fuel r, (∀ j, j < r → fs.UlinkPasses ram name inode parent j) →
      header ∈ fs.headersFrom ram name inode parent rounds fuel r →
        ∃ n after, (∀ j, j < n → fs.UlinkPasses ram name inode parent j) ∧
          dirPos fs.blockSize n < inode.iSize ∧
          dirRead parent fs.blockSize fs.store n = (some header.1, after) ∧
          header.2 ∈ fs.roundHeaders ram name inode rounds header.1 after := by
  intro fuel
  induction fuel with
  | zero =>
      intro r _ member
      cases member
  | succ fuel ih =>
      intro r before member
      by_cases ends : inode.iSize ≤ dirPos fs.blockSize r
      · rw [(ulinkFrom_end ends).2] at member
        cases member
      · have more := Nat.not_le.mp ends
        cases found : (dirRead parent fs.blockSize fs.store r).1 with
        | none =>
            obtain ⟨after, failed⟩ := dirRead_eq_none found
            rw [(ulinkFrom_failed more failed).2] at member
            cases member
        | some bb =>
            have read : dirRead parent fs.blockSize fs.store r =
                (some bb, (dirRead parent fs.blockSize fs.store r).2) := Prod.ext found rfl
            have here : header ∈ ((fs.roundHeaders ram name inode rounds bb
                (dirRead parent fs.blockSize fs.store r).2).map fun a => (bb, a)) →
                ∃ n after, (∀ j, j < n → fs.UlinkPasses ram name inode parent j) ∧
                  dirPos fs.blockSize n < inode.iSize ∧
                  dirRead parent fs.blockSize fs.store n = (some header.1, after) ∧
                  header.2 ∈ fs.roundHeaders ram name inode rounds header.1 after := by
              intro isHere
              obtain ⟨a, isHeader, same⟩ := List.mem_map.mp isHere
              rw [← same]
              exact ⟨r, _, before, more, read, isHeader⟩
            by_cases back : fs.WalkBack ram name inode rounds bb
              (dirRead parent fs.blockSize fs.store r).2
            · rw [(ulinkFrom_next more read back).2, List.mem_append] at member
              rcases member with isHere | later
              · exact here isHere
              · refine ih (r + 1) ?_ later
                intro j less
                by_cases same : j = r
                · rw [same]
                  exact ⟨more, bb, _, read, rounds, back⟩
                · exact before j (by omega)
            · rw [(ulinkFrom_stuck more read back).2] at member
              exact here member

/-- With enough fuel the loop reads the headers of every round that it comes to. -/
theorem headersFrom_reaches {header : Nat × Nat} :
    ∀ r, (∀ j, j < r → fs.UlinkPasses ram name inode parent j) →
      ∃ enough, ∀ rounds fuel, enough ≤ rounds →
        header ∈ fs.headersFrom ram name inode parent rounds fuel r →
          header ∈ fs.headersFrom ram name inode parent rounds (fuel + r) 0 := by
  intro r
  induction r with
  | zero =>
      intro _
      exact ⟨0, fun rounds fuel _ member => member⟩
  | succ r ih =>
      intro before
      obtain ⟨more, bb, after, read, needed, back⟩ := before r (Nat.lt_succ_self r)
      obtain ⟨enough, reaches⟩ := ih fun j less => before j (Nat.lt_succ_of_lt less)
      refine ⟨enough + needed, ?_⟩
      intro rounds fuel le member
      have next : fs.headersFrom ram name inode parent rounds (fuel + 1) r = _ :=
        (ulinkFrom_next more read (back.enough (by omega : needed ≤ rounds))).2
      rw [show fuel + (r + 1) = fuel + 1 + r by omega]
      apply reaches rounds (fuel + 1) (by omega)
      rw [next]
      exact List.mem_append_right _ member

theorem ulinkEnds_iff (allocated : ∀ bb, 0 < ram.base bb) (small : fs.blockSize < 65536) :
    UlinkEnds fs ram name inode parent ↔ UlinkFree fs ram name inode parent := by
  have loop := (ulink_rounds fs ram name inode parent).returns_iff
  have start : ∀ rounds fuel, fs.ulinkFrom ram name inode parent rounds fuel 0 =
      ulinkLoop ram name inode parent rounds fuel 0 fs := by
    intro rounds fuel
    unfold ulinkFrom dirPos
    rw [Nat.zero_mul]
    rfl
  have startHeaders : ∀ rounds fuel, fs.headersFrom ram name inode parent rounds fuel 0 =
      ulinkHeaders ram name inode parent rounds fuel 0 fs := by
    intro rounds fuel
    unfold headersFrom dirPos
    rw [Nat.zero_mul]
    rfl
  have walk : ∀ bb after, _ ↔ WalkStays (ram.read after fs.blockSize) (ram.base bb) fs.blockSize
      ((ram.base bb + inode.iSize) % 4294967296) name :=
    fun bb after => walkStays_iff (allocated bb) small (Nat.le_of_lt (Nat.mod_lt _ (by decide)))
  constructor
  · intro ends
    obtain ⟨fuel, after, returns⟩ := ends.returns
    obtain ⟨n, stops, before⟩ := loop.mp ⟨fuel, after, by rw [start]; exact returns⟩
    refine ⟨?_, n, stops⟩
    intro r bb after reaches more read
    have upTo : r ≤ n := by
      by_contra beyond
      have here := reaches n (by omega)
      rcases stops with past | none
      · omega
      · exact here.2 none
    have passed : ∀ j, j < r → fs.UlinkPasses ram name inode parent j :=
      fun j less => before j (by omega)
    rw [← walk]
    constructor
    · rcases Nat.lt_or_eq_of_le upTo with less | same
      · obtain ⟨_, bb', after', read', fuel, back⟩ := before r less
        rw [read, Prod.mk.injEq, Option.some.injEq] at read'
        rw [← read'.1, ← read'.2] at back
        exact ⟨fuel, back⟩
      · rw [← same] at stops
        rcases stops with past | none
        · omega
        · rw [read] at none
          cases none
    · intro fuel a member
      obtain ⟨enough, reach⟩ := headersFrom_reaches r passed
      have rounds : a ∈ fs.roundHeaders ram name inode (enough + fuel + r + 1) bb after :=
        (ulinkWalk_enough (by omega) _).2 a member
      have here : (bb, a) ∈ fs.headersFrom ram name inode parent (enough + fuel + r + 1)
          (enough + fuel + 1) r := by
        have isHere : (bb, a) ∈ (fs.roundHeaders ram name inode (enough + fuel + r + 1) bb
            after).map fun a => (bb, a) := List.mem_map.mpr ⟨a, rounds, rfl⟩
        by_cases back : fs.WalkBack ram name inode (enough + fuel + r + 1) bb after
        · rw [(ulinkFrom_next more read back).2]
          exact List.mem_append_left _ isHere
        · rw [(ulinkFrom_stuck more read back).2]
          exact isHere
      have inAll := reach _ _ (by omega) here
      rw [startHeaders, show enough + fuel + 1 + r = enough + fuel + r + 1 by omega] at inAll
      exact ends.headers _ _ inAll
  · intro free
    -- the rounds that the loop passes are those it comes to
    have passes : ∀ r, fs.UlinkReaches inode parent r →
        ∀ j, j < r → fs.UlinkPasses ram name inode parent j := by
      intro r reaches j less
      obtain ⟨more, served⟩ := reaches j less
      obtain ⟨bb, found⟩ := Option.ne_none_iff_exists'.mp served
      have read : dirRead parent fs.blockSize fs.store j =
          (some bb, (dirRead parent fs.blockSize fs.store j).2) := Prod.ext found rfl
      have stays := free.moves j bb _ (fun i before => reaches i (by omega)) more read
      exact ⟨more, bb, _, read, ((walk bb _).mpr stays).1⟩
    have reached : ∀ r, (∀ j, j < r → fs.UlinkPasses ram name inode parent j) →
        fs.UlinkReaches inode parent r := by
      intro r passed j less
      obtain ⟨more, bb, after, read, _⟩ := passed j less
      refine ⟨more, ?_⟩
      rw [read]
      exact Option.some_ne_none bb
    constructor
    · have first : ∃ n, fs.UlinkStops inode parent n ∧
          ∀ j, j < n → fs.UlinkPasses ram name inode parent j := by
        refine (Rounds.first_iff (fun r stops => stops) ?_).mpr ⟨?_, free.ends⟩
        · rintro r ⟨more, bb, after, read, _⟩ (past | none)
          · omega
          · rw [read] at none
            cases none
        · intro r passed
          by_cases stops : fs.UlinkStops inode parent r
          · exact Or.inl stops
          · right
            unfold UlinkStops at stops
            refine passes (r + 1) ?_ r (Nat.lt_succ_self r)
            intro j less
            by_cases same : j = r
            · rw [same]
              exact ⟨Nat.not_le.mp (not_or.mp stops).1, (not_or.mp stops).2⟩
            · exact reached r passed j (by omega)
      obtain ⟨fuel, after, returns⟩ := loop.mpr first
      rw [start] at returns
      exact ⟨fuel, after, returns⟩
    · intro fuel header member
      rw [← startHeaders] at member
      obtain ⟨n, after, passed, more, read, isHeader⟩ :=
        headersFrom_round fuel 0 (fun j less => absurd less (Nat.not_lt_zero j)) member
      have stays := free.moves n header.1 after (reached n passed) more read
      exact ((walk header.1 after).mpr stays).2 fuel header.2 isHeader

/-- Both scans end and stay in their blocks, which `read_block` reads whole, if and only if nothing
that they come to keeps them or leads them out. -/
theorem directoryScans_end_iff (fs : FileSystem) (ram : Ram) (name : CString)
    (dir inode parent : Inode) (allocated : ∀ bb, 0 < ram.base bb)
    (whole : fs.blockSize = 8 * sectorSize) :
    (SearchEnds dir fs.blockSize name fs.store ↔ SearchFree dir fs.blockSize name fs.store) ∧
      (UlinkEnds fs ram name inode parent ↔ UlinkFree fs ram name inode parent) := by
  have small : fs.blockSize < 65536 := by
    rw [whole]
    decide
  exact ⟨searchEnds_iff, ulinkEnds_iff allocated small⟩

/-- Buffers one behind the other. -/
def ramSample : Ram where
  base := fun bb => 1048576 + 4096 * bb
  byte := fun _ => 0#8

/-- An empty directory. -/
theorem directoryScans_end_empty :
    (SearchEnds ((sample 0).inode ⟨0, 0⟩) 4096 [97#8] (sample 0).store ↔
        SearchFree ((sample 0).inode ⟨0, 0⟩) 4096 [97#8] (sample 0).store) ∧
      (UlinkEnds (sample 0) ramSample [97#8] ((sample 0).inode ⟨0, 0⟩)
          ((sample 0).inode ⟨0, 0⟩) ↔
        UlinkFree (sample 0) ramSample [97#8] ((sample 0).inode ⟨0, 0⟩)
          ((sample 0).inode ⟨0, 0⟩)) :=
  directoryScans_end_iff (sample 0) ramSample [97#8] ((sample 0).inode ⟨0, 0⟩)
    ((sample 0).inode ⟨0, 0⟩) ((sample 0).inode ⟨0, 0⟩)
    (fun bb => Nat.lt_of_lt_of_le (by decide) (Nat.le_add_right 1048576 (4096 * bb)))
    rfl

/-- A directory with one block. -/
def blockDir : Inode := { (sample 4096).inode ⟨0, 0⟩ with iMode := 0o040755 }

/-- Its block holds zeros, so the first entry has length 0. -/
theorem directoryScans_endless :
    sIsDir blockDir.iMode = true ∧ ¬ SearchEnds blockDir 4096 [97#8] BlockStore.zeroed := by
  refine ⟨by decide, ?_⟩
  intro ends
  obtain ⟨after, reads, adds⟩ :=
    BlockStore.readBlock_adds 4096 BlockStore.zeroed_reliable
      (by decide : (BlockStore.zeroed.heads (hashBh (blockDir.iBlock 0))).size < 100)
  have read : dirRead blockDir 4096 BlockStore.zeroed 0 = (some 0, after) := reads
  have word : (after.buffers 0).data.word (0 : Nat) = 0 :=
    Region.word_congr fun x lower upper => adds.data x (by omega) (by omega)
  have half : (after.buffers 0).data.half (0 + 4 : Nat) = 0 := by
    have low : (after.buffers 0).data (4 : Int) = 0#8 := adds.data 4 (by decide) (by decide)
    have high : (after.buffers 0).data (4 + 1 : Int) = 0#8 := adds.data 5 (by decide) (by decide)
    change ((after.buffers 0).data (4 : Int)).toNat + 256 * ((after.buffers 0).data (4 + 1)).toNat = 0
    rw [low, high]
    rfl
  refine (searchEnds_iff.mp ends).moves 0 _ ?_ (by decide) (dirBlock_some read) ?_
  · intro j less
    exact absurd less (Nat.not_lt_zero j)
  · refine ⟨0, show 0 < 4096 by decide, half, ?_⟩
    intro j le
    rw [Nat.le_zero.mp le]
    unfold entryMatches
    rw [entryAt, word]
    rfl

end FileSystem

end MangoOS
