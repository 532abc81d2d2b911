/-
Coherence of the block cache over runs of `read_block`.

`current` remembers for every block what the last modification through one of
its buffers left, and what the disk held before there was one.
-/

import MangoOS.FileSystem.Buffer

namespace MangoOS

open BlockStore

structure CacheState where
  store : BlockStore
  current : Nat → Region
  /-- The block of the last `read_block` and the buffer it returned. -/
  answer : Option (Nat × Option Nat)

inductive CacheOp
  | readBlock (bno : Nat)
  | modify (bb : Nat) (data : Region)

namespace CacheState

/-- After `bb_init` the disk alone says what the blocks hold. -/
def start (store : BlockStore) (blockSize : Nat) : CacheState where
  store := store.bbInit
  current := fun bno x => store.device.bytes (bno * blockSize + x.toNat)
  answer := none

/-- A block number is a non-negative `int`; a returned buffer changes inside its block. -/
def Legal (s : CacheState) (blockSize : Nat) : CacheOp → Prop
  | .readBlock bno => bno < 2147483648
  | .modify bb data => bb < s.store.made ∧
      ∀ x : Int, x < 0 ∨ (blockSize : Int) ≤ x → data x = (s.store.buffers bb).data x

def step (s : CacheState) (blockSize : Nat) : CacheOp → CacheState
  | .readBlock bno =>
      let (bb, store) := s.store.readBlock blockSize bno
      { s with store := store, answer := some (bno, bb) }
  | .modify bb data =>
      { store := s.store.setBuffer bb { s.store.buffers bb with data := data }
        current := Function.update s.current (s.store.buffers bb).blockNo data
        answer := none }

/-- The calls that stay clear of the defects.  A bucket with room is never searched, so the
disk must be up to date; in a full one the block is found, or the oldest buffer happens to
hold the right bytes.  A modification reaches every buffer of the block only if there is no
other one. -/
def Meets (s : CacheState) (blockSize : Nat) : CacheOp → Prop
  | .readBlock bno => blockSize = 4096 ∧
      ((s.store.heads (hashBh bno)).size < 100 ∧
          (s.store.device.sectors (sectorOf blockSize bno)).Agree (s.current bno) 0 blockSize ∨
        100 ≤ (s.store.heads (hashBh bno)).size ∧
          ((∃ bb, s.store.bgetFound bno = .inl bb) ∨
            ∃ bb last, s.store.bgetFound bno = .inr (bb, last) ∧
              (s.store.buffers bb).data.Agree (s.current bno) 0 blockSize))
  | .modify bb data =>
      ∀ other, other < s.store.made → other ≠ bb →
        (s.store.buffers other).blockNo = (s.store.buffers bb).blockNo →
          (s.store.buffers other).data.Agree data 0 blockSize

/-- The last call returned a buffer of its block with the current content, and no two
buffers stand for one block with different contents. -/
structure Coherent (s : CacheState) (blockSize : Nat) : Prop where
  answered : ∀ bno found, s.answer = some (bno, found) →
    ∃ bb, found = some bb ∧ (s.store.buffers bb).blockNo = bno ∧
      (s.store.buffers bb).data.Agree (s.current bno) 0 blockSize
  agree : ∀ left right, left < s.store.made → right < s.store.made →
    (s.store.buffers left).blockNo = (s.store.buffers right).blockNo →
      (s.store.buffers left).data.Agree (s.store.buffers right).data 0 blockSize

end CacheState

/-- Runs from `bb_init` whose calls are legal and allowed. -/
inductive CacheRun (blockSize : Nat) (allowed : CacheState → CacheOp → Prop) :
    CacheState → Prop
  | start (store : BlockStore) (reliable : store.device.Reliable) :
      CacheRun blockSize allowed (CacheState.start store blockSize)
  | call {s : CacheState} (run : CacheRun blockSize allowed s) (op : CacheOp)
      (legal : s.Legal blockSize op) (permitted : allowed s op) :
      CacheRun blockSize allowed (s.step blockSize op)

/-! ### The shape of the table -/

variable {store : BlockStore} {blockSize bno : Nat}

/-- Every buffer made is listed, in the bucket of its block, and loaded. -/
structure BlockStore.Shaped (store : BlockStore) : Prop where
  reliable : store.device.Reliable
  sized : ∀ hash, 0 ≤ hash → hash < bufferHashSize →
    (store.heads hash).size = (store.heads hash).nodes.length
  listed : ∀ hash, 0 ≤ hash → hash < bufferHashSize → ∀ bb,
    bb ∈ (store.heads hash).nodes ↔ bb < store.made ∧ hashBh (store.buffers bb).blockNo = hash
  loaded : ∀ bb, bb < store.made →
    (store.buffers bb).bState = 1 ∨ (store.buffers bb).bState = 2

/-- What `read_block` delivers. -/
def BlockStore.delivered (store : BlockStore) (blockSize bno : Nat) : Region :=
  if (store.heads (hashBh bno)).size < 100 then
    store.device.sectors (sectorOf blockSize bno)
  else
    match store.bgetFound bno with
    | .inl bb => (store.buffers bb).data
    | .inr (bb, _) => (store.buffers bb).data

/-- What a call of `read_block` leaves: buffer `bb` stands for the block, all others are as
they were. -/
structure BlockStore.Reads (store after : BlockStore) (blockSize bno bb : Nat) : Prop where
  shaped : after.Shaped
  made : bb < after.made
  blockNo : (after.buffers bb).blockNo = bno
  data : (after.buffers bb).data.Agree (store.delivered blockSize bno) 0 4096
  others : ∀ other, other < after.made → other ≠ bb → other < store.made ∧
    (after.buffers other).blockNo = (store.buffers other).blockNo ∧
    (after.buffers other).data = (store.buffers other).data

private theorem BlockStore.Shaped.adds {after : BlockStore} (shaped : store.Shaped)
    (room : (store.heads (hashBh bno)).size < 100)
    (adds : Adds store after blockSize bno) :
    store.Reads after blockSize bno store.made := by
  constructor
  · constructor
    · exact adds.reliable
    · intro hash lower upper
      by_cases same : hash = hashBh bno
      · subst same
        have sized := shaped.sized _ lower upper
        rw [adds.head]
        simp [sized]
      · rw [adds.heads hash same]
        exact shaped.sized hash lower upper
    · intro hash lower upper bb
      have listed := shaped.listed hash lower upper bb
      rw [adds.made]
      by_cases isNew : bb = store.made
      · subst isNew
        have notListed : store.made ∉ (store.heads hash).nodes := by
          intro member
          exact Nat.lt_irrefl _ (listed.mp member).1
        rw [adds.buffer.1]
        by_cases same : hash = hashBh bno
        · subst same
          simp [adds.head]
        · rw [adds.heads hash same]
          constructor
          · intro member
            exact False.elim (notListed member)
          · intro both
            exact False.elim (same both.2.symm)
      · rw [adds.others bb isNew]
        by_cases same : hash = hashBh bno
        · subst same
          rw [adds.head, List.mem_cons, listed]
          omega
        · rw [adds.heads hash same, listed]
          omega
    · intro bb below
      rw [adds.made] at below
      by_cases isNew : bb = store.made
      · subst isNew
        exact Or.inl adds.buffer.2
      · rw [adds.others bb isNew]
        exact shaped.loaded bb (by omega)
  · rw [adds.made]
    exact Nat.lt_succ_self _
  · exact adds.buffer.1
  · unfold BlockStore.delivered
    rw [if_pos room]
    exact adds.data
  · intro other below different
    rw [adds.made] at below
    rw [adds.others other different]
    exact ⟨by omega, rfl, rfl⟩

private theorem BlockStore.Keeps.loaded {after : BlockStore} (keeps : Keeps store after)
    (shaped : store.Shaped) : ∀ bb, bb < after.made →
      (after.buffers bb).bState = 1 ∨ (after.buffers bb).bState = 2 := by
  intro bb below
  rw [keeps.made] at below
  rcases keeps.bState bb with valid | marked | same
  · exact Or.inl valid
  · exact Or.inr marked
  · rw [same]
    exact shaped.loaded bb below

private theorem BlockStore.Shaped.finds {bb : Nat} (shaped : store.Shaped)
    (small : bno < 2147483648) (full : 100 ≤ (store.heads (hashBh bno)).size)
    (hit : store.bgetFound bno = .inl bb) :
    ∃ after, store.readBlock blockSize bno = (some bb, after) ∧
      store.Reads after blockSize bno bb := by
  obtain ⟨lower, upper⟩ := hashBh_range small
  obtain ⟨member, sameBlock, _⟩ := bgetSearch_hit hit
  obtain ⟨after, reads, keeps, kept, device⟩ :=
    readBlock_finds blockSize full hit
  have notRoom : ¬ (store.heads (hashBh bno)).size < 100 := by omega
  refine ⟨after, reads, ?_, ?_, ?_, ?_, ?_⟩
  · constructor
    · rw [device]
      exact shaped.reliable
    · rw [keeps.heads]
      exact shaped.sized
    · intro hash above below other
      rw [keeps.heads, keeps.made, (kept other).1]
      exact shaped.listed hash above below other
    · exact keeps.loaded shaped
  · rw [keeps.made]
    exact ((shaped.listed _ lower upper bb).mp member).1
  · rw [(kept bb).1]
    exact sameBlock
  · rw [keeps.data]
    unfold BlockStore.delivered
    rw [if_neg notRoom, hit]
    exact Region.Agree.refl _ _ _
  · intro other below _
    rw [keeps.made] at below
    exact ⟨below, (kept other).1, keeps.data other⟩

private theorem BlockStore.Shaped.oldest {bb last : Nat} (shaped : store.Shaped)
    (small : bno < 2147483648) (full : 100 ≤ (store.heads (hashBh bno)).size)
    (miss : store.bgetFound bno = .inr (bb, last)) :
    bb ∈ (store.heads (hashBh bno)).nodes := by
  obtain ⟨lower, upper⟩ := hashBh_range small
  have sized := shaped.sized _ lower upper
  rcases (bgetSearch_miss miss).1 with isFirst | member
  · change bb = _ at isFirst
    rw [isFirst]
    cases nodes : (store.heads (hashBh bno)).nodes with
    | nil =>
        rw [nodes, List.length_nil] at sized
        omega
    | cons node rest => exact List.mem_cons_self ..
  · exact member

private theorem BlockStore.Shaped.recycles {bb last : Nat} (shaped : store.Shaped)
    (small : bno < 2147483648) (full : 100 ≤ (store.heads (hashBh bno)).size)
    (miss : store.bgetFound bno = .inr (bb, last)) :
    ∃ after, store.readBlock blockSize bno = (some bb, after) ∧
      store.Reads after blockSize bno bb := by
  obtain ⟨lower, upper⟩ := hashBh_range small
  have member := shaped.oldest small full miss
  obtain ⟨below, inBucket⟩ := (shaped.listed _ lower upper bb).mp member
  obtain ⟨after, reads, keeps, blockNo, reliable⟩ :=
    readBlock_recycles blockSize shaped.reliable full miss (shaped.loaded bb below)
  have notRoom : ¬ (store.heads (hashBh bno)).size < 100 := by omega
  refine ⟨after, reads, ?_, ?_, ?_, ?_, ?_⟩
  · constructor
    · exact reliable
    · rw [keeps.heads]
      exact shaped.sized
    · intro hash above beneath other
      rw [keeps.heads, keeps.made, shaped.listed hash above beneath other, blockNo]
      by_cases same : other = bb
      · rw [if_pos same, same, inBucket]
      · rw [if_neg same]
    · exact keeps.loaded shaped
  · rw [keeps.made]
    exact below
  · rw [blockNo, if_pos rfl]
  · rw [keeps.data]
    unfold BlockStore.delivered
    rw [if_neg notRoom, miss]
    exact Region.Agree.refl _ _ _
  · intro other beneath different
    rw [keeps.made] at beneath
    refine ⟨beneath, ?_, keeps.data other⟩
    rw [blockNo, if_neg different]

theorem BlockStore.Shaped.reads (shaped : store.Shaped) (blockSize : Nat) (small : bno < 2147483648) :
    ∃ bb after, store.readBlock blockSize bno = (some bb, after) ∧
      store.Reads after blockSize bno bb := by
  by_cases room : (store.heads (hashBh bno)).size < 100
  · obtain ⟨after, reads, adds⟩ :=
      readBlock_adds blockSize shaped.reliable room
    exact ⟨store.made, after, reads, shaped.adds room adds⟩
  · have full : 100 ≤ (store.heads (hashBh bno)).size := by omega
    cases found : store.bgetFound bno with
    | inl bb => exact ⟨bb, shaped.finds small full found⟩
    | inr oldest => exact ⟨oldest.1, shaped.recycles small full found⟩

/-! ### Steps and runs -/

variable {s : CacheState}

/-- The invariant of the permitted runs: every buffer holds the current content. -/
structure CacheState.Tracked (s : CacheState) (blockSize : Nat) : Prop where
  shaped : s.store.Shaped
  current : ∀ bb, bb < s.store.made → (s.store.buffers bb).data.Agree
    (s.current (s.store.buffers bb).blockNo) 0 blockSize
  answered : ∀ bno found, s.answer = some (bno, found) →
    ∃ bb, found = some bb ∧ bb < s.store.made ∧ (s.store.buffers bb).blockNo = bno

theorem CacheState.Tracked.coherent (tracked : s.Tracked blockSize) : s.Coherent blockSize := by
  constructor
  · intro bno found answer
    obtain ⟨bb, isFound, made, sameBlock⟩ := tracked.answered bno found answer
    exact ⟨bb, isFound, sameBlock, sameBlock ▸ tracked.current bb made⟩
  · intro left right madeLeft madeRight sameBlock
    have first := tracked.current left madeLeft
    have second := tracked.current right madeRight
    rw [sameBlock] at first
    exact first.trans second.symm

/-- On a tracked cache the condition says that the delivered bytes are the current ones. -/
private theorem CacheState.Tracked.meets_iff (tracked : s.Tracked 4096)
    (small : bno < 2147483648) :
    s.Meets 4096 (.readBlock bno) ↔
      (s.store.delivered 4096 bno).Agree (s.current bno) 0 4096 := by
  obtain ⟨lower, upper⟩ := hashBh_range small
  unfold BlockStore.delivered
  by_cases room : (s.store.heads (hashBh bno)).size < 100
  · have notFull : ¬ 100 ≤ (s.store.heads (hashBh bno)).size := by omega
    rw [if_pos room]
    simp [CacheState.Meets, room, notFull]
  · have full : 100 ≤ (s.store.heads (hashBh bno)).size := by omega
    rw [if_neg room]
    cases found : s.store.bgetFound bno with
    | inl bb =>
        obtain ⟨member, sameBlock, _⟩ := bgetSearch_hit found
        have current := tracked.current bb ((tracked.shaped.listed _ lower upper bb).mp member).1
        rw [sameBlock] at current
        simpa [CacheState.Meets, room, full, found] using current
    | inr oldest =>
        obtain ⟨bb, last⟩ := oldest
        simp [CacheState.Meets, room, full, found]

private theorem CacheState.Tracked.read_step (tracked : s.Tracked 4096)
    (small : bno < 2147483648) :
    ((s.step 4096 (.readBlock bno)).Coherent 4096 → s.Meets 4096 (.readBlock bno)) ∧
      (s.Meets 4096 (.readBlock bno) → (s.step 4096 (.readBlock bno)).Tracked 4096) := by
  obtain ⟨bb, after, called, reads⟩ := tracked.shaped.reads 4096 small
  have stepped : s.step 4096 (.readBlock bno) =
      { store := after, current := s.current, answer := some (bno, some bb) } := by
    simp only [CacheState.step, called]
  rw [stepped, tracked.meets_iff small]
  constructor
  · intro coherent
    obtain ⟨found, isFound, _, current⟩ := coherent.answered bno (some bb) rfl
    cases isFound
    exact reads.data.symm.trans current
  · intro meets
    constructor
    · exact reads.shaped
    · intro other made
      by_cases same : other = bb
      · subst same
        rw [reads.blockNo]
        exact reads.data.trans meets
      · obtain ⟨old, sameBlock, sameData⟩ := reads.others other made same
        rw [sameBlock, sameData]
        exact tracked.current other old
    · intro asked found answer
      cases answer
      exact ⟨bb, rfl, reads.made, reads.blockNo⟩

private theorem BlockStore.Shaped.setData {bb : Nat} (shaped : store.Shaped) (data : Region) :
    (store.setBuffer bb { store.buffers bb with data := data }).Shaped := by
  have same : ∀ other,
      ((store.setBuffer bb { store.buffers bb with data := data }).buffers other).blockNo =
        (store.buffers other).blockNo ∧
      ((store.setBuffer bb { store.buffers bb with data := data }).buffers other).bState =
        (store.buffers other).bState := by
    intro other
    by_cases isBuffer : other = bb
    · simp [isBuffer]
    · simp [isBuffer]
  constructor
  · exact shaped.reliable
  · exact shaped.sized
  · intro hash lower upper other
    rw [(same other).1]
    exact shaped.listed hash lower upper other
  · intro other below
    rw [(same other).2]
    exact shaped.loaded other below

private theorem CacheState.Tracked.modify_step (tracked : s.Tracked blockSize) {bb : Nat}
    (data : Region) (made : bb < s.store.made) :
    ((s.step blockSize (.modify bb data)).Coherent blockSize →
        s.Meets blockSize (.modify bb data)) ∧
      (s.Meets blockSize (.modify bb data) →
        (s.step blockSize (.modify bb data)).Tracked blockSize) := by
  constructor
  · intro coherent other madeOther different sameBlock
    have agree := coherent.agree other bb madeOther made (by simpa [step, different] using sameBlock)
    simpa [step, different] using agree
  · intro meets
    constructor
    · exact tracked.shaped.setData data
    · intro other madeOther
      by_cases isBuffer : other = bb
      · subst isBuffer
        simpa [step] using Region.Agree.refl data 0 blockSize
      · have held := tracked.current other madeOther
        by_cases sameBlock : (s.store.buffers other).blockNo = (s.store.buffers bb).blockNo
        · simpa [step, isBuffer, sameBlock] using meets other madeOther isBuffer sameBlock
        · simpa [step, isBuffer, sameBlock] using held
    · intro bno found answer
      cases answer

theorem CacheState.Tracked.step_iff (tracked : s.Tracked 4096) {op : CacheOp}
    (legal : s.Legal 4096 op) :
    (s.step 4096 op).Coherent 4096 ↔ s.Meets 4096 op := by
  cases op with
  | readBlock bno =>
      obtain ⟨needed, enough⟩ := tracked.read_step legal
      exact ⟨needed, fun meets => (enough meets).coherent⟩
  | modify bb data =>
      obtain ⟨needed, enough⟩ := tracked.modify_step data legal.1
      exact ⟨needed, fun meets => (enough meets).coherent⟩

theorem CacheRun.tracked
    (run : CacheRun blockSize (fun s op => s.Meets blockSize op) s) : s.Tracked blockSize := by
  induction run with
  | start store reliable =>
      constructor
      · constructor
        · exact reliable
        · intro hash lower upper
          simp [CacheState.start, bbInit, lower, upper]
        · intro hash lower upper bb
          simp [CacheState.start, bbInit, lower, upper]
        · intro bb below
          cases below
      · intro bb below
        cases below
      · intro bno found answer
        cases answer
  | call run op legal permitted ih =>
      cases op with
      | readBlock bno =>
          have size := permitted.1
          subst size
          exact (ih.read_step legal).2 permitted
      | modify bb data => exact (ih.modify_step data legal.1).2 permitted

/-- The cache is coherent in every state of every run whose calls meet the condition, and
the next call leaves it coherent exactly if it meets it too. -/
theorem run_coherent (run : CacheRun blockSize (fun s op => s.Meets blockSize op) s) :
    s.Coherent blockSize ∧ (blockSize = 4096 → ∀ op, s.Legal blockSize op →
      ((s.step blockSize op).Coherent blockSize ↔ s.Meets blockSize op)) := by
  have tracked := run.tracked
  refine ⟨tracked.coherent, ?_⟩
  intro size op legal
  subst size
  exact tracked.step_iff legal

/-- Block 5 in the first buffer. -/
def CacheState.loaded : CacheState :=
  (CacheState.start BlockStore.zeroed 4096).step 4096 (.readBlock 5)

/-- Its first byte becomes 1. -/
def CacheState.changed : CacheState :=
  CacheState.loaded.step 4096
    (.modify 0 fun x => if x = 0 then 1#8 else (CacheState.loaded.store.buffers 0).data x)

private theorem changed_run {allowed : CacheState → CacheOp → Prop}
    (first : allowed (CacheState.start BlockStore.zeroed 4096) (.readBlock 5))
    (second : ∀ data, allowed CacheState.loaded (.modify 0 data)) :
    CacheRun 4096 allowed CacheState.changed := by
  have start : CacheRun 4096 allowed (CacheState.start BlockStore.zeroed 4096) :=
    CacheRun.start _ zeroed_reliable
  have loaded := start.call (.readBlock 5) (by decide : 5 < 2147483648) first
  apply CacheRun.call loaded _ _ (second _)
  refine ⟨by decide +kernel, ?_⟩
  intro x outside
  exact if_neg (by omega)

/-- The changed block is coherent, and so is the next one read. -/
theorem run_coherent_changed :
    CacheState.changed.Coherent 4096 ∧ (4096 = 4096 → ∀ op, CacheState.changed.Legal 4096 op →
      ((CacheState.changed.step 4096 op).Coherent 4096 ↔
        CacheState.changed.Meets 4096 op)) := by
  apply run_coherent
  apply changed_run
  · refine ⟨rfl, Or.inl ⟨by decide +kernel, ?_⟩⟩
    exact Region.Agree.refl _ _ _
  · intro data other made different
    have only : CacheState.loaded.store.made = 1 := by decide +kernel
    omega

/-- A block is read, changed and read again: the second buffer has lost the change. -/
theorem coherent_lostChange :
    CacheRun 4096 (fun _ _ => True) (CacheState.changed.step 4096 (.readBlock 5)) ∧
      (CacheState.changed.step 4096 (.readBlock 5)).answer = some (5, some 1) ∧
      ¬ (CacheState.changed.step 4096 (.readBlock 5)).Coherent 4096 := by
  have answer : (CacheState.changed.step 4096 (.readBlock 5)).answer = some (5, some 1) := by
    decide +kernel
  have run : CacheRun 4096 (fun _ _ => True) CacheState.changed :=
    changed_run trivial (fun _ => trivial)
  refine ⟨run.call (.readBlock 5) (by decide : 5 < 2147483648) trivial, answer, ?_⟩
  intro coherent
  obtain ⟨bb, isFound, _, current⟩ := coherent.answered 5 (some 1) answer
  cases isFound
  have lost := current 0 (by decide) (by decide)
  have bytes : ¬ ((CacheState.changed.step 4096 (.readBlock 5)).store.buffers 1).data 0 =
      (CacheState.changed.step 4096 (.readBlock 5)).current 5 0 := by decide +kernel
  exact bytes lost

end MangoOS
