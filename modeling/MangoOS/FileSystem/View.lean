/-
What `read_block` shows of a set of blocks while none of their buckets fills up
or recycles a buffer.

A block is steady if its bucket has room for the calls to come, and then the disk
shows through, or if its bucket is full and holds the block, and then the buffer
found there does.
-/

import MangoOS.FileSystem.Coherence

namespace MangoOS

namespace BlockStore

/-- The block keeps its view through `k` calls. -/
def Steady (store : BlockStore) (k bno : Nat) : Prop :=
  bno < 2147483648 ∧
    ((store.heads (hashBh bno)).size + k < 100 ∨
      100 ≤ (store.heads (hashBh bno)).size ∧ ∃ bb, store.bgetFound bno = .inl bb)

structure Calm (store : BlockStore) (k : Nat) (blocks : Set Nat) : Prop where
  reliable : store.device.Reliable
  linked : ∀ hash, 0 ≤ hash → hash < bufferHashSize →
    ∀ bb, bb ∈ (store.heads hash).nodes → bb < store.made
  steady : ∀ bno, bno ∈ blocks → store.Steady k bno

variable {store after : BlockStore} {blocks : Set Nat} {k bno bb : Nat}

theorem Calm.mono {fewer : Nat} (calm : store.Calm k blocks) (le : fewer ≤ k) :
    store.Calm fewer blocks := by
  refine ⟨calm.reliable, calm.linked, ?_⟩
  intro bno member
  obtain ⟨small, room | full⟩ := calm.steady bno member
  · exact ⟨small, Or.inl (by omega)⟩
  · exact ⟨small, Or.inr full⟩

/-- A hit only depends on the block numbers and the states of the bucket. -/
theorem bgetSearch_congr {before after : Nat → Buffer} {nodes : List Nat} {expBb last : Nat}
    (same : ∀ x, x ∈ nodes → (after x).blockNo = (before x).blockNo ∧
      (after x).bState = (before x).bState)
    (hit : bgetSearch before bno nodes expBb last = .inl bb) (expBb' last' : Nat) :
    bgetSearch after bno nodes expBb' last' = .inl bb := by
  induction nodes generalizing expBb last expBb' last' with
  | nil => cases hit
  | cons bl nodes ih =>
      have first := same bl (List.mem_cons_self ..)
      rw [bgetSearch] at hit ⊢
      rw [first.1, first.2]
      by_cases valid : (before bl).blockNo = bno ∧ (before bl).bState = 1
      · rw [if_pos valid] at hit ⊢
        exact hit
      · rw [if_neg valid] at hit ⊢
        exact ih (fun x member => same x (List.mem_cons_of_mem _ member)) hit _ _

theorem bgetFound_congr (heads : after.heads (hashBh bno) = store.heads (hashBh bno))
    (same : ∀ x, x ∈ (store.heads (hashBh bno)).nodes →
      (after.buffers x).blockNo = (store.buffers x).blockNo ∧
      (after.buffers x).bState = (store.buffers x).bState)
    (hit : store.bgetFound bno = .inl bb) : after.bgetFound bno = .inl bb := by
  unfold bgetFound
  rw [heads]
  exact bgetSearch_congr same hit _ _

theorem delivered_room (room : (store.heads (hashBh bno)).size < 100) (blockSize : Nat) :
    store.delivered blockSize bno = store.device.sectors (sectorOf blockSize bno) := by
  unfold delivered
  rw [if_pos room]

theorem delivered_hit (full : 100 ≤ (store.heads (hashBh bno)).size)
    (hit : store.bgetFound bno = .inl bb) (blockSize : Nat) :
    store.delivered blockSize bno = (store.buffers bb).data := by
  unfold delivered
  rw [if_neg (by omega), hit]

/-- The views stay, and which buckets are full. -/
structure Unmoved (store after : BlockStore) (k : Nat) (blocks : Set Nat) : Prop where
  calm : after.Calm k blocks
  same : ∀ other, other ∈ blocks → after.delivered 4096 other = store.delivered 4096 other
  full : ∀ other, other ∈ blocks →
    (100 ≤ (after.heads (hashBh other)).size ↔ 100 ≤ (store.heads (hashBh other)).size)

theorem Calm.unmoved (calm : store.Calm k blocks) : Unmoved store store k blocks :=
  ⟨calm, fun _ _ => rfl, fun _ _ => Iff.rfl⟩

theorem Unmoved.trans {middle : BlockStore} {fewer : Nat}
    (first : Unmoved store middle k blocks) (second : Unmoved middle after fewer blocks) :
    Unmoved store after fewer blocks := by
  refine ⟨second.calm, ?_, ?_⟩
  · intro other inBlocks
    exact (second.same other inBlocks).trans (first.same other inBlocks)
  · intro other inBlocks
    exact (second.full other inBlocks).trans (first.full other inBlocks)

theorem Unmoved.mono {fewer : Nat} (unmoved : Unmoved store after k blocks)
    (le : fewer ≤ k) : Unmoved store after fewer blocks :=
  ⟨unmoved.calm.mono le, unmoved.same, unmoved.full⟩

/-- A call for one of the blocks: the buffer shows its view. -/
structure Shows (store after : BlockStore) (k : Nat) (blocks : Set Nat) (bno bb : Nat) : Prop
    extends Unmoved store after k blocks where
  data : (after.buffers bb).data.Agree (store.delivered 4096 bno) 0 4096
  found : 100 ≤ (store.heads (hashBh bno)).size → after.bgetFound bno = .inl bb
  apart : ∀ other, other ∈ blocks → 100 ≤ (store.heads (hashBh other)).size →
    (store.heads (hashBh bno)).size < 100 ∨ other ≠ bno → after.bgetFound other ≠ .inl bb

private theorem Calm.adds (calm : store.Calm (k + 1) blocks)
    (room : (store.heads (hashBh bno)).size < 100) :
    ∃ after, store.readBlock 4096 bno = (some store.made, after) ∧
      Shows store after k blocks bno store.made := by
  obtain ⟨after, reads, adds⟩ := readBlock_adds 4096 calm.reliable room
  -- the buckets that are full are other ones, and their buffers are older
  have others : ∀ other, other ∈ blocks → 100 ≤ (store.heads (hashBh other)).size →
      after.heads (hashBh other) = store.heads (hashBh other) ∧
        ∀ x, x ∈ (store.heads (hashBh other)).nodes → after.buffers x = store.buffers x := by
    intro other inBlocks full
    obtain ⟨lower, upper⟩ := hashBh_range (calm.steady other inBlocks).1
    have different : hashBh other ≠ hashBh bno := by
      intro same
      rw [same] at full
      omega
    refine ⟨adds.heads _ different, ?_⟩
    intro x inNodes
    exact adds.others x (Nat.ne_of_lt (calm.linked _ lower upper x inNodes))
  have found : ∀ other, other ∈ blocks → 100 ≤ (store.heads (hashBh other)).size →
      ∀ x, store.bgetFound other = .inl x → after.bgetFound other = .inl x := by
    intro other inBlocks full x hit
    obtain ⟨heads, buffers⟩ := others other inBlocks full
    apply bgetFound_congr heads _ hit
    intro y inNodes
    rw [buffers y inNodes]
    exact ⟨rfl, rfl⟩
  have size : ∀ other, other ∈ blocks → (store.heads (hashBh other)).size + (k + 1 : Nat) < 100 →
      (after.heads (hashBh other)).size + k < 100 := by
    intro other inBlocks free
    by_cases same : hashBh other = hashBh bno
    · rw [same, adds.head]
      rw [same] at free
      change (store.heads (hashBh bno)).size + 1 + k < 100
      omega
    · rw [adds.heads _ same]
      omega
  refine ⟨after, reads, ⟨?_, ?_, ?_⟩, adds.data.trans ?_, ?_, ?_⟩
  · refine ⟨adds.reliable, ?_, ?_⟩
    · intro hash lower upper x inNodes
      rw [adds.made]
      by_cases same : hash = hashBh bno
      · rw [same, adds.head, List.mem_cons] at inNodes
        rcases inNodes with isNew | old
        · omega
        · have below := calm.linked hash lower upper x (same ▸ old)
          omega
      · rw [adds.heads hash same] at inNodes
        have below := calm.linked hash lower upper x inNodes
        omega
    · intro other inBlocks
      obtain ⟨small, free | ⟨full, x, hit⟩⟩ := calm.steady other inBlocks
      · exact ⟨small, Or.inl (size other inBlocks free)⟩
      · refine ⟨small, Or.inr ⟨?_, x, found other inBlocks full x hit⟩⟩
        rw [(others other inBlocks full).1]
        exact full
  · intro other inBlocks
    obtain ⟨_, free | ⟨full, x, hit⟩⟩ := calm.steady other inBlocks
    · have still := size other inBlocks free
      rw [delivered_room (by omega), delivered_room (by omega)]
      unfold Device.sectors
      rw [adds.bytes]
    · obtain ⟨heads, buffers⟩ := others other inBlocks full
      rw [delivered_hit full hit,
        delivered_hit (by rw [heads]; exact full) (found other inBlocks full x hit),
        buffers x (bgetSearch_hit hit).1]
  · intro other inBlocks
    obtain ⟨_, free | ⟨full, _⟩⟩ := calm.steady other inBlocks
    · have still := size other inBlocks free
      omega
    · rw [(others other inBlocks full).1]
  · rw [delivered_room room]
    exact Region.Agree.refl _ _ _
  · intro full
    omega
  · intro other inBlocks full _ isNew
    obtain ⟨heads, _⟩ := others other inBlocks full
    obtain ⟨lower, upper⟩ := hashBh_range (calm.steady other inBlocks).1
    have inNodes := (bgetSearch_hit isNew).1
    rw [heads] at inNodes
    exact Nat.lt_irrefl _ (calm.linked _ lower upper _ inNodes)

private theorem Calm.finds (calm : store.Calm (k + 1) blocks)
    (full : 100 ≤ (store.heads (hashBh bno)).size) (hit : store.bgetFound bno = .inl bb) :
    ∃ after, store.readBlock 4096 bno = (some bb, after) ∧
      Shows store after k blocks bno bb := by
  obtain ⟨after, reads, keeps, states, device⟩ := readBlock_finds 4096 full hit
  have found : ∀ other x, store.bgetFound other = .inl x ↔ after.bgetFound other = .inl x := by
    intro other x
    constructor
    · exact bgetFound_congr (by rw [keeps.heads]) (fun y _ => states y)
    · exact bgetFound_congr (by rw [keeps.heads])
        (fun y _ => ⟨(states y).1.symm, (states y).2.symm⟩)
  have same : ∀ other, other ∈ blocks →
      after.delivered 4096 other = store.delivered 4096 other := by
    intro other inBlocks
    obtain ⟨_, free | ⟨isFull, x, isHit⟩⟩ := calm.steady other inBlocks
    · rw [delivered_room (by rw [keeps.heads]; omega), delivered_room (by omega), device]
    · rw [delivered_hit isFull isHit,
        delivered_hit (by rw [keeps.heads]; exact isFull) ((found other x).mp isHit),
        keeps.data]
  refine ⟨after, reads, ⟨?_, same, ?_⟩, ?_, ?_, ?_⟩
  · refine ⟨?_, ?_, ?_⟩
    · rw [device]
      exact calm.reliable
    · intro hash lower upper x inNodes
      rw [keeps.heads] at inNodes
      rw [keeps.made]
      exact calm.linked hash lower upper x inNodes
    · intro other inBlocks
      obtain ⟨small, free | ⟨isFull, x, isHit⟩⟩ := calm.steady other inBlocks
      · exact ⟨small, Or.inl (by rw [keeps.heads]; omega)⟩
      · exact ⟨small, Or.inr ⟨by rw [keeps.heads]; exact isFull, x, (found other x).mp isHit⟩⟩
  · intro other _
    rw [keeps.heads]
  · rw [keeps.data, delivered_hit full hit]
    exact Region.Agree.refl _ _ _
  · intro _
    exact (found bno bb).mp hit
  · intro other _ _ cold isFound
    have isOther := (bgetSearch_hit ((found other bb).mpr isFound)).2.1
    have isBno := (bgetSearch_hit hit).2.1
    rcases cold with room | different
    · omega
    · exact different (isOther.symm.trans isBno)

theorem Calm.read (calm : store.Calm (k + 1) blocks) (member : bno ∈ blocks) :
    ∃ bb after, store.readBlock 4096 bno = (some bb, after) ∧
      Shows store after k blocks bno bb := by
  obtain ⟨_, room | ⟨full, bb, hit⟩⟩ := calm.steady bno member
  · exact ⟨store.made, calm.adds (by omega)⟩
  · exact ⟨bb, calm.finds full hit⟩

/-- Changing the data of the buffer that was shown changes the view of its block, and only
if its bucket is full. -/
theorem Shows.change (shows : Shows store after k blocks bno bb) (data : Region) :
    (after.setBuffer bb { after.buffers bb with data := data }).Calm k blocks ∧
    (∀ other, other ∈ blocks → (store.heads (hashBh bno)).size < 100 ∨ other ≠ bno →
      (after.setBuffer bb { after.buffers bb with data := data }).delivered 4096 other =
        store.delivered 4096 other) ∧
    (100 ≤ (store.heads (hashBh bno)).size → bno ∈ blocks →
      (after.setBuffer bb { after.buffers bb with data := data }).delivered 4096 bno =
        data) := by
  have found : ∀ other x, after.bgetFound other = .inl x →
      (after.setBuffer bb { after.buffers bb with data := data }).bgetFound other = .inl x := by
    intro other x
    refine bgetFound_congr (by rw [setBuffer_heads]) ?_
    intro y _
    rw [setBuffer_buffers]
    by_cases same : y = bb
    · rw [if_pos same, same]
      exact ⟨rfl, rfl⟩
    · rw [if_neg same]
      exact ⟨rfl, rfl⟩
  refine ⟨⟨shows.calm.reliable, shows.calm.linked, ?_⟩, ?_, ?_⟩
  · intro other inBlocks
    obtain ⟨small, free | ⟨full, x, hit⟩⟩ := shows.calm.steady other inBlocks
    · exact ⟨small, Or.inl free⟩
    · exact ⟨small, Or.inr ⟨full, x, found other x hit⟩⟩
  · intro other inBlocks cold
    rw [← shows.same other inBlocks]
    obtain ⟨_, free | ⟨full, x, hit⟩⟩ := shows.calm.steady other inBlocks
    · rw [delivered_room (by rw [setBuffer_heads]; omega), delivered_room (by omega)]
      rfl
    · have different : x ≠ bb := by
        intro same
        exact shows.apart other inBlocks ((shows.full other inBlocks).mp full) cold (same ▸ hit)
      rw [delivered_hit (by rw [setBuffer_heads]; exact full) (found other x hit),
        delivered_hit full hit, setBuffer_buffers, if_neg different]
  · intro full inBlocks
    have still := (shows.full bno inBlocks).mpr full
    rw [delivered_hit (by rw [setBuffer_heads]; exact still) (found bno bb (shows.found full)),
      setBuffer_buffers, if_pos rfl]

end BlockStore

end MangoOS
