/-
Request sizes of `kmalloc`: the header is added in `uint` before the size is checked.

`kmallocCreated` and `kmallocLinked` list the block headers a call writes, those of
the blocks it makes and those it links them to.
-/

import MangoOS.Memory.Growth

namespace MangoOS

open Intrusive

namespace Heap

variable {heap after : Heap} {chunks free left right : List Nat} {blocks : Set Nat}
variable {a page size : Nat}

/-- The blocks that a call makes out of free memory. -/
def kmallocCreated (fuel : Nat) (heap : Heap) (size page : Nat) : List Nat :=
  let size := wrap (size + memHsize)
  if size < 8 ∨ size > chunkSize then []
  else
    match heap.kmallocSearch size fuel heap.freeList heap.freeList with
    | none => []
    | some (current, _) =>
        if current ≠ 0 then
          if (heap.header current).size > size + memHsize then [wrap (current + size)] else []
        else if page = 0 then []
        else [page, wrap (page + size)]

/-- The other headers that a call writes. -/
def kmallocLinked (fuel : Nat) (heap : Heap) (size page : Nat) : List Nat :=
  let size := wrap (size + memHsize)
  if size < 8 ∨ size > chunkSize then []
  else
    match heap.kmallocSearch size fuel heap.freeList heap.freeList with
    | none => []
    | some (current, prev) =>
        if current ≠ 0 then
          current :: [(heap.header current).prev, (heap.header current).next].filter (· ≠ 0)
        else if page = 0 then []
        else [prev, heap.growLink page prev size]

/-- A call respects the size it was asked for and the headers of the other blocks. -/
structure RequestExact (heap : Heap) (blocks : Set Nat) (size page fuel : Nat)
    (out : Kmalloc) : Prop where
  refused : chunkSize < size + memHsize → out.payload = 0 ∧ out.heap = heap
  granted : out.payload ≠ 0 → ∃ a, out.payload = a + memHsize ∧
    (out.heap.header a).used = usedMark ∧ size + memHsize ≤ out.heap.sizes a
  created : ∀ h, h ∈ heap.kmallocCreated fuel size page → ∀ x, x ∈ blocks → Apart h x
  distinct : (heap.kmallocCreated fuel size page).Pairwise Apart
  linked : ∀ h, h ∈ heap.kmallocLinked fuel size page →
    ∀ x, x ∈ blocks ∨ x ∈ heap.kmallocCreated fuel size page → h = x ∨ Apart h x

def RequestRight (heap : Heap) (blocks : Set Nat) (size page fuel : Nat) : Prop :=
  ∃ out, heap.kmalloc fuel size page = some out ∧ heap.RequestExact blocks size page fuel out

/-- The rest of a new chunk gets a header that touches no other block, and with an empty
list the word at NULL->next does not lead into one either. -/
structure RoomBehind (heap : Heap) (blocks : Set Nat) (free : List Nat) (page size : Nat) :
    Prop where
  rest : ∀ x, x ∈ blocks → Apart (wrap (page + size)) x
  stray : free = [] → ∀ x, x ∈ blocks ∨ x ∈ [page, wrap (page + size)] →
    (heap.header 0).next = x ∨ Apart (heap.header 0).next x

/-- The requests that `kmalloc` answers as it should. -/
structure RequestMeets (heap : Heap) (blocks : Set Nat) (free : List Nat) (size page : Nat) :
    Prop where
  noWrap : 4294967296 + 8 ≤ size + memHsize → free = [] ∧ page = 0
  growth : size + memHsize ≤ chunkSize → (∀ x, x ∈ free → heap.sizes x < size + memHsize) →
    page ≠ 0 → heap.RoomBehind blocks free page (size + memHsize)

theorem kmalloc_refused (heap : Heap) (fuel page : Nat)
    (refused : wrap (size + memHsize) < 8 ∨ wrap (size + memHsize) > chunkSize) :
    heap.kmalloc fuel size page = some { heap := heap, payload := 0, asked := false } ∧
      heap.kmallocCreated fuel size page = [] ∧ heap.kmallocLinked fuel size page = [] := by
  refine ⟨?_, ?_, ?_⟩
  · simp only [kmalloc]
    rw [if_pos refused]
  · simp only [kmallocCreated]
    rw [if_pos refused]
  · simp only [kmallocLinked]
    rw [if_pos refused]

/-- A search that ends without a block, and no pages. -/
theorem kmalloc_noPages {fuel prev : Nat}
    (accepted : ¬ (wrap (size + memHsize) < 8 ∨ wrap (size + memHsize) > chunkSize))
    (missed : heap.kmallocSearch (wrap (size + memHsize)) fuel heap.freeList heap.freeList =
      some (0, prev)) :
    heap.kmalloc fuel size 0 = some { heap := heap, payload := 0, asked := true } ∧
      heap.kmallocCreated fuel size 0 = [] ∧ heap.kmallocLinked fuel size 0 = [] := by
  refine ⟨?_, ?_, ?_⟩
  · simp only [kmalloc]
    rw [if_neg accepted, missed]
    rfl
  · simp only [kmallocCreated]
    rw [if_neg accepted, missed]
    rfl
  · simp only [kmallocLinked]
    rw [if_neg accepted, missed]
    rfl

/-- A call that returns NULL, leaves the heap and writes no header. -/
theorem RequestExact.of_null {fuel : Nat} {out : Kmalloc} (null : out.payload = 0)
    (same : out.heap = heap) (created : heap.kmallocCreated fuel size page = [])
    (linked : heap.kmallocLinked fuel size page = []) :
    heap.RequestExact blocks size page fuel out where
  refused := fun _ => ⟨null, same⟩
  granted := fun nonNull => False.elim (nonNull null)
  created := by simp [created]
  distinct := by simp [created]
  linked := by simp [linked]

/-! ### From the free list -/

/-- The headers a call writes that takes the block at `a`. -/
theorem kmalloc_fit (page : Nat) {fuel before : Nat}
    (accepted : ¬ (wrap (size + memHsize) < 8 ∨ wrap (size + memHsize) > chunkSize))
    (found : heap.kmallocSearch (wrap (size + memHsize)) fuel heap.freeList heap.freeList =
      some (a, before)) (positive : a ≠ 0) :
    heap.kmallocCreated fuel size page =
        (if (heap.header a).size > wrap (size + memHsize) + memHsize then
          [wrap (a + wrap (size + memHsize))]
        else []) ∧
      heap.kmallocLinked fuel size page =
        a :: [(heap.header a).prev, (heap.header a).next].filter (· ≠ 0) := by
  constructor
  · simp only [kmallocCreated]
    rw [if_neg accepted, found]
    simp only [if_pos positive]
  · simp only [kmallocLinked]
    rw [if_neg accepted, found]
    simp only [if_pos positive]

private theorem linked_blocks (formed : heap.Formed chunks blocks (left ++ a :: right))
    (h : Nat) (member : h ∈ a :: [(heap.header a).prev, (heap.header a).next].filter (· ≠ 0)) :
    h ∈ blocks := by
  rcases List.mem_cons.mp member with isA | neighbour
  · rw [isA]
    exact (formed.freed a (by simp)).1
  · obtain ⟨isLink, nonzero⟩ := List.mem_filter.mp neighbour
    have notNull : h ≠ 0 := by simpa using nonzero
    simp only [List.mem_cons, List.not_mem_nil, or_false] at isLink
    rcases isLink with isPrev | isNext
    · rw [isPrev] at notNull ⊢
      exact (formed.prev_mem notNull).2.1
    · rw [isNext] at notNull ⊢
      exact (formed.next_mem notNull).2.1

theorem requestExact_served (formed : heap.Formed chunks blocks free)
    (limit : size + memHsize ≤ chunkSize)
    (fits : ∃ a, a ∈ free ∧ size + memHsize ≤ heap.sizes a) (page : Nat) {fuel : Nat}
    (enough : free.length < fuel) : heap.RequestRight blocks size page fuel := by
  have small : chunkSize < 4294967296 := by decide
  have exactSize : wrap (size + memHsize) = size + memHsize := wrap_small (by omega)
  have least : 8 ≤ memHsize := by decide
  have accepted : ¬ (wrap (size + memHsize) < 8 ∨ wrap (size + memHsize) > chunkSize) := by
    rw [exactSize]
    omega
  obtain ⟨left, a, right, before, split, _, large, found⟩ :=
    kmallocSearch_fit formed fits enough
  subst split
  obtain ⟨after, called, served⟩ := kmalloc_found formed limit large page found
  have member := (formed.freed a (by simp)).1
  have positive := formed.pos member
  have bounds := formed.bounds member
  rw [← exactSize] at found
  obtain ⟨created, linked⟩ := kmalloc_fit page accepted found positive
  rw [exactSize] at created
  -- a header split off lies inside the block
  have inside : ∀ h, h ∈ heap.kmallocCreated fuel size page →
      h = a + (size + memHsize) ∧ h + memHsize < a + heap.sizes a := by
    intro h isNew
    rw [created] at isNew
    by_cases room : (heap.header a).size > size + memHsize + memHsize
    · have isSize : (heap.header a).size = heap.sizes a := rfl
      have start : wrap (a + (size + memHsize)) = a + (size + memHsize) := wrap_small (by omega)
      rw [if_pos room, start, List.mem_singleton] at isNew
      omega
    · rw [if_neg room] at isNew
      cases isNew
  have apart : ∀ h, h ∈ heap.kmallocCreated fuel size page → ∀ x, x ∈ blocks → Apart h x := by
    intro h isNew x inX
    obtain ⟨start, room⟩ := inside h isNew
    by_cases isA : x = a
    · right
      omega
    · exact formed.inside_apart member inX isA (by omega) (by omega)
  refine ⟨_, called, ?_, ?_, apart, ?_, ?_⟩
  · intro tooLarge
    omega
  · intro _
    exact ⟨a, rfl, served.marked, served.large⟩
  · rw [created]
    split
    · exact List.pairwise_singleton _ _
    · exact List.Pairwise.nil
  · intro h isLinked x inX
    rw [linked] at isLinked
    have inH := linked_blocks formed h isLinked
    rcases inX with old | isNew
    · by_cases same : h = x
      · exact Or.inl same
      · exact Or.inr (formed.headers_apart inH old same)
    · exact Or.inr (apart x isNew h inH).symm

/-! ### From a new chunk -/

/-- The headers a call writes that links the chunk at `page` behind `prev`. -/
theorem kmalloc_grown {fuel prev : Nat}
    (accepted : ¬ (wrap (size + memHsize) < 8 ∨ wrap (size + memHsize) > chunkSize))
    (missed : heap.kmallocSearch (wrap (size + memHsize)) fuel heap.freeList heap.freeList =
      some (0, prev)) (positive : page ≠ 0) :
    heap.kmalloc fuel size page = some
        { heap := heap.kmallocGrow page prev (wrap (size + memHsize))
          payload := page + memHsize, asked := true } ∧
      heap.kmallocCreated fuel size page = [page, wrap (page + wrap (size + memHsize))] ∧
      heap.kmallocLinked fuel size page =
        [prev, heap.growLink page prev (wrap (size + memHsize))] := by
  have ended : ¬ (0 : Nat) ≠ 0 := fun different => different rfl
  refine ⟨?_, ?_, ?_⟩
  · simp only [kmalloc, missed, Option.bind_some]
    rw [if_neg accepted, if_neg ended, if_neg positive]
  · simp only [kmallocCreated]
    rw [if_neg accepted, missed]
    simp only [if_neg ended, if_neg positive]
  · simp only [kmallocLinked]
    rw [if_neg accepted, missed]
    simp only [if_neg ended, if_neg positive]

/-- The header of the new block stays as it was written. -/
theorem kmallocGrow_created {f p link : Nat} (start : f = wrap (page + size))
    (follows : link = heap.growLink page p size) (small : wrap size = size)
    (restApart : Apart page f) (prevApart : Apart page p)
    (linkApart : link = page ∨ Apart link page) :
    ((heap.kmallocGrow page p size).header page).used = usedMark ∧
      (heap.kmallocGrow page p size).sizes page = size := by
  have split : heap.kmallocGrow page p size =
      ((((((((heap.growStart page size).follow p).setNext f
        ((heap.growStart page size).header p).next).follow link).setPrev link f).setPrev f
        p).setNext p f).setUsed f freeMark).setIsHead f 0 := by
    rw [start, follows]
    rfl
  have first : ((heap.growStart page size).header page).used = usedMark ∧
      ((heap.growStart page size).header page).size = size := by
    rw [start] at restApart
    simp [growStart, restApart.symm, small]
  unfold sizes
  rw [split]
  rcases linkApart with isPage | apart
  · simp [restApart.symm, prevApart.symm, isPage, first]
  · simp [restApart.symm, prevApart.symm, apart, first]

/-- NULL is away from every header, the one at the end of memory excepted that wraps. -/
private theorem zero_linked (formed : heap.Formed chunks blocks free)
    (fresh : Fresh chunks page) (room : size ≤ chunkSize) (x : Nat)
    (known : x ∈ blocks ∨ x ∈ [page, wrap (page + size)]) : 0 = x ∨ Apart 0 x := by
  have aligned := Nat.le_of_dvd fresh.chunk.positive fresh.chunk.aligned
  have below := fresh.chunk.below
  have firstPage : memHsize ≤ pageSize := by decide
  rcases known with inX | isNew
  · exact Or.inr (formed.zero_apart inX)
  · simp only [List.mem_cons, List.not_mem_nil, or_false] at isNew
    unfold Apart
    unfold wrap at isNew
    omega

private theorem page_outside (formed : heap.Formed chunks blocks free)
    (fresh : Fresh chunks page) (x : Nat) (inX : x ∈ blocks) : Apart page x := by
  have bigX := formed.tiling.big x inX
  have whole : memHsize ≤ chunkSize := by decide
  unfold Apart
  rcases formed.fresh_outside fresh inX with before | behind
  · right
    omega
  · left
    omega

theorem requestRight_grown_iff (formed : heap.Formed chunks blocks free)
    (limit : size + memHsize ≤ chunkSize)
    (none : ∀ x, x ∈ free → heap.sizes x < size + memHsize) (fresh : Fresh chunks page)
    {fuel : Nat} (enough : free.length < fuel) :
    heap.RequestRight blocks size page fuel ↔
      heap.RoomBehind blocks free page (size + memHsize) := by
  have small : chunkSize < 4294967296 := by decide
  have exactSize : wrap (size + memHsize) = size + memHsize := wrap_small (by omega)
  have least : 8 ≤ memHsize := by decide
  have accepted : ¬ (wrap (size + memHsize) < 8 ∨ wrap (size + memHsize) > chunkSize) := by
    rw [exactSize]
    omega
  have positive := fresh.chunk.positive
  have aligned := Nat.le_of_dvd fresh.chunk.positive fresh.chunk.aligned
  have below := fresh.chunk.below
  have firstPage : memHsize ≤ pageSize := by decide
  have missed : heap.kmallocSearch (wrap (size + memHsize)) fuel heap.freeList heap.freeList =
      some (0, free.getLastD heap.freeList) := by
    rw [exactSize]
    exact kmallocSearch_miss formed none enough
  obtain ⟨called, created, linked⟩ := kmalloc_grown accepted missed (by omega : page ≠ 0)
  rw [exactSize] at called created linked
  have restApart : Apart page (wrap (page + (size + memHsize))) := by
    unfold Apart wrap
    omega
  have nullApart := zero_linked formed fresh limit
  have outside := page_outside formed fresh
  have ends := formed.searchEnd
  generalize free.getLastD heap.freeList = prev at called linked ends
  constructor
  · rintro ⟨out, _, exact⟩
    constructor
    · intro x inX
      exact exact.created _ (by simp [created]) x inX
    · intro isNil x known
      rcases ends with ⟨_, isNull⟩ | ⟨left, p, split, _⟩
      · subst isNull
        rw [growLink_null fresh limit] at linked
        exact exact.linked _ (by simp [linked]) x (by rwa [created])
      · simp [isNil] at split
  · intro room
    have prevKnown : prev = 0 ∨ prev ∈ blocks := by
      rcases ends with ⟨_, isNull⟩ | ⟨left, p, split, isLast⟩
      · exact Or.inl isNull
      · right
        rw [isLast]
        exact (formed.freed p (by simp [split])).1
    have prevApart : Apart page prev := by
      rcases prevKnown with isNull | inPrev
      · rw [isNull]
        right
        omega
      · exact outside prev inPrev
    have linkRight : ∀ x, x ∈ blocks ∨ x ∈ [page, wrap (page + (size + memHsize))] →
        heap.growLink page prev (size + memHsize) = x ∨
          Apart (heap.growLink page prev (size + memHsize)) x := by
      intro x known
      rcases ends with ⟨isNil, isNull⟩ | ⟨left, p, split, isLast⟩
      · rw [isNull, growLink_null fresh limit]
        exact room.stray isNil x known
      · subst split
        rw [isLast, growLink_listed formed fresh (Nat.le_add_left _ _) limit]
        exact nullApart x known
    obtain ⟨marked, sized⟩ := kmallocGrow_created rfl rfl exactSize restApart prevApart
      (linkRight page (by simp))
    refine ⟨_, called, ?_, ?_, ?_, ?_, ?_⟩
    · intro tooLarge
      omega
    · intro _
      exact ⟨page, rfl, marked, Nat.le_of_eq sized.symm⟩
    · intro h isNew x inX
      rw [created] at isNew
      simp only [List.mem_cons, List.not_mem_nil, or_false] at isNew
      rcases isNew with isPage | isRest
      · exact isPage ▸ outside x inX
      · exact isRest ▸ room.rest x inX
    · rw [created]
      simp [restApart]
    · intro h isLinked x known
      rw [created] at known
      rw [linked] at isLinked
      simp only [List.mem_cons, List.not_mem_nil, or_false] at isLinked
      rcases isLinked with isPrev | isLink
      · rw [isPrev]
        rcases prevKnown with isNull | inPrev
        · exact isNull ▸ nullApart x known
        · rcases known with inX | isNew
          · by_cases same : prev = x
            · exact Or.inl same
            · exact Or.inr (formed.headers_apart inPrev inX same)
          · simp only [List.mem_cons, List.not_mem_nil, or_false] at isNew
            rcases isNew with isPage | isRest
            · exact Or.inr (isPage ▸ prevApart.symm)
            · exact Or.inr (isRest ▸ (room.rest prev inPrev).symm)
      · exact isLink ▸ linkRight x known

/-! ### Every request -/

/-- A request whose size wraps to something that is accepted. -/
theorem requestRight_wrapped_iff (formed : heap.Formed chunks blocks free)
    (inUint : size < 4294967296) (wraps : 4294967296 + 8 ≤ size + memHsize)
    {fuel : Nat} (enough : free.length < fuel) :
    heap.RequestRight blocks size page fuel ↔ free = [] ∧ page = 0 := by
  have header : memHsize = 17 := rfl
  have whole : memHsize ≤ chunkSize ∧ chunkSize < 4294967296 := by decide
  have tiny : 8 ≤ wrap (size + memHsize) ∧ wrap (size + memHsize) < memHsize := by
    unfold wrap
    omega
  have accepted : ¬ (wrap (size + memHsize) < 8 ∨ wrap (size + memHsize) > chunkSize) := by
    omega
  have tooLarge : chunkSize < size + memHsize := by omega
  constructor
  · rintro ⟨out, called, exact⟩
    have null := (exact.refused tooLarge).1
    have isNil : free = [] := by
      cases free with
      | nil => rfl
      | cons first rest =>
          -- every block can hold that little, so the first one is handed out
          have inFirst := (formed.freed first (List.mem_cons_self ..)).1
          have big := formed.tiling.big first inFirst
          obtain ⟨left, a, right, before, split, _, _, found⟩ := kmallocSearch_fit formed
            ⟨first, List.mem_cons_self .., show wrap (size + memHsize) ≤ _ by omega⟩ enough
          have positive := formed.pos (formed.freed a (by simp [split])).1
          simp only [kmalloc, found, Option.bind_some] at called
          rw [if_neg accepted, if_pos positive, Option.some.injEq] at called
          rw [← called] at null
          change a + memHsize = 0 at null
          omega
    refine ⟨isNil, ?_⟩
    by_contra nonzero
    have missed : heap.kmallocSearch (wrap (size + memHsize)) fuel heap.freeList heap.freeList =
        some (0, free.getLastD heap.freeList) :=
      kmallocSearch_miss formed (by simp [isNil]) enough
    have granted := (kmalloc_grown accepted missed nonzero).1
    rw [granted, Option.some.injEq] at called
    rw [← called] at null
    exact nonzero (Nat.eq_zero_of_add_eq_zero null).1
  · rintro ⟨isNil, isZero⟩
    subst isZero
    have ends : free.getLastD heap.freeList = 0 := by
      rw [formed.freeList_eq, isNil]
      rfl
    have missed : heap.kmallocSearch (wrap (size + memHsize)) fuel heap.freeList heap.freeList =
        some (0, 0) := by
      rw [kmallocSearch_miss formed (by simp [isNil]) enough, ends]
    obtain ⟨called, created, linked⟩ := kmalloc_noPages accepted missed
    exact ⟨_, called, RequestExact.of_null rfl rfl created linked⟩

/-- `kmalloc` answers a request as it should exactly where the size does not wrap and a new
chunk has room behind the block, or there is nothing to hand out. -/
theorem kmalloc_requestRight_iff (formed : heap.Formed chunks blocks free)
    (inUint : size < 4294967296) (fresh : page = 0 ∨ Fresh chunks page) {fuel : Nat}
    (enough : free.length < fuel) :
    heap.RequestRight blocks size page fuel ↔ heap.RequestMeets blocks free size page := by
  have header : memHsize = 17 := rfl
  have whole : memHsize ≤ chunkSize ∧ chunkSize < 4294967296 := by decide
  by_cases wraps : 4294967296 + 8 ≤ size + memHsize
  · rw [requestRight_wrapped_iff formed inUint wraps enough]
    constructor
    · intro nothing
      exact ⟨fun _ => nothing, fun limit => by omega⟩
    · intro meets
      exact meets.noWrap wraps
  by_cases limit : size + memHsize ≤ chunkSize
  · by_cases fits : ∃ a, a ∈ free ∧ size + memHsize ≤ heap.sizes a
    · obtain ⟨a, listed, large⟩ := fits
      have right := requestExact_served formed limit ⟨a, listed, large⟩ page enough
      refine iff_of_true right ⟨fun tooLarge => False.elim (wraps tooLarge), ?_⟩
      intro _ none
      have tooSmall := none a listed
      omega
    · have none : ∀ x, x ∈ free → heap.sizes x < size + memHsize := by
        intro x listed
        by_contra large
        exact fits ⟨x, listed, Nat.le_of_not_lt large⟩
      by_cases isZero : page = 0
      · have exactSize : wrap (size + memHsize) = size + memHsize := wrap_small (by omega)
        have accepted : ¬ (wrap (size + memHsize) < 8 ∨ wrap (size + memHsize) > chunkSize) := by
          omega
        have missed := kmallocSearch_miss formed none enough
        rw [← exactSize] at missed
        obtain ⟨called, created, linked⟩ := kmalloc_noPages accepted missed
        subst isZero
        exact iff_of_true ⟨_, called, RequestExact.of_null rfl rfl created linked⟩
          ⟨fun tooLarge => False.elim (wraps tooLarge), fun _ _ nonzero => absurd rfl nonzero⟩
      · rw [requestRight_grown_iff formed limit none (fresh.resolve_left isZero) enough]
        constructor
        · intro room
          exact ⟨fun tooLarge => False.elim (wraps tooLarge), fun _ _ _ => room⟩
        · intro meets
          exact meets.growth limit none isZero
  · -- the sum is refused, with or without wrapping
    have refused : wrap (size + memHsize) < 8 ∨ wrap (size + memHsize) > chunkSize := by
      unfold wrap
      omega
    obtain ⟨called, created, linked⟩ := kmalloc_refused heap fuel page refused
    exact iff_of_true ⟨_, called, RequestExact.of_null rfl rfl created linked⟩
      ⟨fun tooLarge => False.elim (wraps tooLarge), fun small => absurd small limit⟩

/-- A request of 100 bytes after `mem_init`. -/
theorem kmalloc_requestRight_boot :
    (zeroed.memInit 6295552).RequestRight {6295552} 100 0 2 ↔
      (zeroed.memInit 6295552).RequestMeets {6295552} [6295552] 100 0 := by
  have chunk : Chunk 6295552 := ⟨by decide, by decide, by decide⟩
  exact kmalloc_requestRight_iff (memInit_well zeroed chunk).formed (by decide) (Or.inl rfl)
    (by decide)

/-- A request of 2^32 - 9 bytes gets a block of 8 bytes. -/
theorem requestRight_tiny :
    (zeroed.memInit 6295552).Formed [6295552] {6295552} [6295552] ∧
      ((zeroed.memInit 6295552).kmalloc 2 4294967287 0).map
        (fun out => (out.payload, out.heap.sizes 6295552)) = some (6295569, 8) ∧
      ¬ (zeroed.memInit 6295552).RequestRight {6295552} 4294967287 0 2 := by
  have chunk : Chunk 6295552 := ⟨by decide, by decide, by decide⟩
  have formed := (memInit_well zeroed chunk).formed
  refine ⟨formed, by decide +kernel, ?_⟩
  rw [requestRight_wrapped_iff formed (by decide) (by decide) (by decide)]
  rintro ⟨isNil, _⟩
  cases isNil

end Heap

end MangoOS
