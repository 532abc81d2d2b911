/-
What load_phead leaves of a segment.

alloc_vpages maps whole pages counted from the size alone; the loop reads whole pages from a
start that need not be aligned, so a read may leave its frame.  Nothing clears the memory
behind the file bytes.
-/

import MangoOS.Kernel.LoadElf
import MangoOS.Memory.VpagesFrame

namespace MangoOS

open PhysicalMemory

variable {file : ElfFile} {pHead : ElfPhead} {s now after : PhysicalMemory} {mem : ByteMemory}
  {pde addr size pos T : Nat} {frames : List Nat}

/-- Where the byte `k` of the range is mapped, if its page is one of the run. -/
def bytePlace (s : PhysicalMemory) (pde addr k : Nat) : Nat :=
  runPage s pde addr ((addr % pageSize + k) / pageSize) + (addr % pageSize + k) % pageSize

/-- Where the loop reads it: its chunk goes to one place without a break. -/
def readPlace (s : PhysicalMemory) (pde addr k : Nat) : Nat :=
  runPage s pde addr (k / pageSize) + addr % pageSize + k % pageSize

/-- The address `x` lies in the directory or in the table for `addr`. -/
def InTables (s : PhysicalMemory) (pde addr x : Nat) : Prop :=
  x / pageSize = pde / pageSize ∨ x / pageSize = tableBefore s pde (pdeIndex addr) / pageSize

/-- The segment is in place: the file bytes, zeros behind them, and no other byte changed than
those of the frames that the range is mapped to and of the tables that map it. -/
structure SegmentImage (file : ElfFile) (pHead : ElfPhead) (pde : Nat)
    (s after : PhysicalMemory) : Prop where
  content : ∀ k, k < pHead.pFilesz → ∃ p, translate after.mem pde (pHead.pVaddr + k) = some p ∧
    after.mem p = file.content (pHead.pOffset + k)
  zero : ∀ k, pHead.pFilesz ≤ k → k < pHead.pMemsz →
    ∃ p, translate after.mem pde (pHead.pVaddr + k) = some p ∧ after.mem p = 0
  elsewhere : ∀ x, after.mem x ≠ s.mem x →
    (∃ k p, k < pHead.pMemsz ∧ translate after.mem pde (pHead.pVaddr + k) = some p ∧
        x / pageSize = p / pageSize) ∨
      x / pageSize = pde / pageSize ∨
      ∃ k, k < pHead.pMemsz ∧
        x / pageSize = pdeValue after.mem pde (pdeIndex (pHead.pVaddr + k)) / pageSize

/-- The range lies in one region, its first page counts as unmapped and its pages are as many
as its size fills; each file byte is read where it is mapped, or both places hold it already;
the places behind the file bytes are clear. -/
structure ImageReady (file : ElfFile) (pHead : ElfPhead) (pde : Nat) (s : PhysicalMemory) :
    Prop where
  region : InOneRegion pHead.pVaddr pHead.pMemsz
  first : ¬ FirstMapped s pde pHead.pVaddr
  counted : pHead.pVaddr % pageSize + pHead.pMemsz ≤ pageSize * vpagesCount pHead.pMemsz
  placed : ∀ k, k < pHead.pFilesz →
    readPlace s pde pHead.pVaddr k = bytePlace s pde pHead.pVaddr k ∨
      ¬ InTables s pde pHead.pVaddr (readPlace s pde pHead.pVaddr k) ∧
        s.mem (readPlace s pde pHead.pVaddr k) = file.content (pHead.pOffset + k) ∧
        s.mem (bytePlace s pde pHead.pVaddr k) = file.content (pHead.pOffset + k)
  clear : ∀ k, pHead.pFilesz ≤ k → k < pHead.pMemsz → s.mem (bytePlace s pde pHead.pVaddr k) = 0

/-- The tables that the call uses stay out of its way: the range has one table, no old entry of
which maps it, and no read meets that table or the directory. -/
structure TablesApart (pHead : ElfPhead) (pde : Nat) (s : PhysicalMemory) : Prop where
  region : InOneRegion pHead.pVaddr pHead.pMemsz
  made : pdeValue s.mem pde (pdeIndex pHead.pVaddr) = 0 → ∀ k, k < pHead.pMemsz →
    present (slotBefore s pde (pdeIndex pHead.pVaddr) (pteIndex (pHead.pVaddr + k))) = false
  reads : ∀ k, k < pHead.pFilesz →
    ¬ InTables s pde pHead.pVaddr (readPlace s pde pHead.pVaddr k)

/-! ### The reads -/

/-- Wherever the bytes `fixed` are those of `mem`, the address of the chunk `i` goes to
`place i`; the chunks lie apart from these bytes and from each other. -/
structure ChunkPlaces (mem : ByteMemory) (pde addr size : Nat) (fixed : Nat → Prop)
    (place : Nat → Nat) : Prop where
  walk : ∀ i, pageSize * i < size → ∀ other : ByteMemory, (∀ x, fixed x → other x = mem x) →
    transVtop other pde (addr + pageSize * i) = place i
  nonzero : ∀ i, pageSize * i < size → place i ≠ 0
  apart : ∀ i y, y < pageSize → pageSize * i + y < size → ¬ fixed (place i + y)
  distinct : ∀ i j y z, y < pageSize → z < pageSize → pageSize * i + y < size →
    pageSize * j + z < size → place i + y = place j + z → i = j

/-- The bytes `[start, size)` of the file at `pos` are read to their places, and no others. -/
structure ReadIn (file : ElfFile) (pos size start : Nat) (place : Nat → Nat)
    (before after : ByteMemory) : Prop where
  inside : ∀ k, start ≤ k → k < size →
    after (place (k / pageSize) + k % pageSize) = file.content (pos + k)
  outside : ∀ x, (∀ k, start ≤ k → k < size → x ≠ place (k / pageSize) + k % pageSize) →
    after x = before x

theorem loadPheadLoop_done (file : ElfFile) (pHead : ElfPhead) (pde : Nat) (s : PhysicalMemory)
    (addr pos : Nat) : loadPheadLoop file pHead pde s addr pos 0 = (0, s) := by
  rw [loadPheadLoop]
  rfl

/-- One round, at an address that the directory has a table for. -/
theorem loadPheadLoop_round (reliable : Reliable file) {count : Nat}
    (more : size ≠ 0) (isCount : count = if size > pageSize then pageSize else size)
    (found : transVtop s.mem pde addr ≠ 0) :
    loadPheadLoop file pHead pde s addr pos size =
      loadPheadLoop file pHead pde
        (s.setMem (readInto s.mem (transVtop s.mem pde addr) file pos count))
        ((addr + pageSize) % 4294967296) (pos + count) (size - pageSize) := by
  have positive : 0 < count := by
    rw [isCount]
    split
    · decide
    · exact Nat.pos_of_ne_zero more
  have whole := reliable.read pos count positive
  rw [loadPheadLoop]
  simp only [dif_pos more, if_neg found, ← isCount, whole, Int.toNat_natCast]
  rw [if_neg (by omega)]

theorem readInto_inside {dest count x : Nat} (lower : dest ≤ x) (upper : x < dest + count) :
    readInto mem dest file pos count x = file.content (pos + (x - dest)) :=
  if_pos ⟨lower, upper⟩

theorem readInto_outside {dest count x : Nat} (away : ¬ (dest ≤ x ∧ x < dest + count)) :
    readInto mem dest file pos count x = mem x :=
  if_neg away

theorem chunk_split {k i : Nat} (lower : pageSize * i ≤ k) (upper : k < pageSize * (i + 1)) :
    k / pageSize = i ∧ k % pageSize = k - pageSize * i := by
  have isChunk : k / pageSize = i := by
    apply Nat.div_eq_of_lt_le
    · rw [Nat.mul_comm]
      exact lower
    · rw [Nat.mul_comm]
      exact upper
  have split := Nat.div_add_mod k pageSize
  rw [isChunk] at split
  exact ⟨isChunk, by omega⟩

/-- The loop from the chunk `i` on reads the rest of the file bytes to their places. -/
theorem loadPheadLoop_reads (pHead : ElfPhead) (pos : Nat) (reliable : Reliable file)
    {fixed : Nat → Prop} {place : Nat → Nat}
    (places : ChunkPlaces mem pde addr size fixed place) (range : addr + size ≤ 4294967296) :
    ∀ rest i s vaddr start, rest = size - pageSize * i →
      (rest ≠ 0 → vaddr = addr + pageSize * i ∧ start = pos + pageSize * i) →
      (∀ x, fixed x → s.mem x = mem x) →
      ∃ done, loadPheadLoop file pHead pde s vaddr start rest = (0, s.setMem done) ∧
        ReadIn file pos size (pageSize * i) place s.mem done := by
  intro rest
  induction rest using Nat.strongRecOn with
  | ind rest ih =>
      intro i s vaddr start isRest position same
      by_cases more : rest ≠ 0
      · obtain ⟨isAddr, isStart⟩ := position more
        have inside : pageSize * i < size := by omega
        have target := places.walk i inside s.mem same
        rw [← isAddr] at target
        obtain ⟨count, isCount⟩ : ∃ count, count = if rest > pageSize then pageSize else rest :=
          ⟨_, rfl⟩
        have short : count ≤ pageSize ∧ count ≤ rest := by
          rw [isCount]
          split
          all_goals omega
        have wide : rest > pageSize → count = pageSize := by
          intro long
          rw [isCount, if_pos long]
        have last : ¬ rest > pageSize → count = rest := by
          intro isLast
          rw [isCount, if_neg isLast]
        have found : transVtop s.mem pde vaddr ≠ 0 := by
          rw [target]
          exact places.nonzero i inside
        rw [loadPheadLoop_round reliable more isCount found, target]
        have inChunk : ∀ k, pageSize * i ≤ k → k < pageSize * (i + 1) → k < size →
            k - pageSize * i < count := by
          intro k lower upper inFile
          by_cases long : rest > pageSize
          · rw [wide long]
            rw [Nat.mul_add] at upper
            omega
          · rw [last long]
            omega
        obtain ⟨done, ran, read⟩ := ih (rest - pageSize) (by unfold pageSize at *; omega) (i + 1)
          (s.setMem (readInto s.mem (place i) file start count)) ((vaddr + pageSize) % 4294967296)
          (start + count) (by rw [Nat.mul_add]; omega)
          (by
            intro later
            have long : rest > pageSize := by omega
            rw [wide long, isAddr, isStart, Nat.mul_add]
            omega)
          (by
            intro x isFixed
            refine (readInto_outside ?_).trans (same x isFixed)
            rintro ⟨lower, upper⟩
            apply places.apart i (x - place i) (by omega) (by omega)
            rwa [Nat.add_sub_cancel' lower])
        refine ⟨done, ran, ?_, ?_⟩
        · intro k lower inFile
          by_cases here : k < pageSize * (i + 1)
          · obtain ⟨isChunk, isOffset⟩ := chunk_split lower here
            have inRead := inChunk k lower here inFile
            rw [isChunk, isOffset]
            refine (read.outside _ ?_).trans ?_
            · intro other later otherInFile sameByte
              have equal := places.distinct i (other / pageSize) (k - pageSize * i)
                (other % pageSize) (by omega) (Nat.mod_lt _ (by decide)) (by omega)
                (by rw [Nat.div_add_mod]; exact otherInFile) sameByte
              have split := Nat.div_add_mod other pageSize
              have small := Nat.mod_lt other (by decide : 0 < pageSize)
              rw [← equal] at split
              rw [Nat.mul_add] at later
              omega
            · rw [setMem_mem, readInto_inside (by omega) (by omega), isStart]
              congr 1
              omega
          · exact read.inside k (by omega) inFile
        · intro x away
          refine (read.outside x ?_).trans ?_
          · intro k lower inFile
            rw [Nat.mul_add] at lower
            exact away k (by omega) inFile
          · refine readInto_outside ?_
            rintro ⟨lower, upper⟩
            have inPage : x - place i < pageSize := by omega
            apply away (pageSize * i + (x - place i)) (by omega) (by omega)
            obtain ⟨isChunk, isOffset⟩ := chunk_split
              (Nat.le_add_right (pageSize * i) (x - place i)) (by rw [Nat.mul_add]; omega)
            rw [isChunk, isOffset]
            omega
      · have zero : rest = 0 := not_not.mp more
        rw [zero, loadPheadLoop_done]
        refine ⟨s.mem, rfl, ?_, fun x _ => rfl⟩
        intro k lower inFile
        omega

/-! ### The pages -/

/-- alloc_vpages entered the whole run in the table in page `T`: the page `j` of the range is
the frame `frame j`. -/
structure RunMade (s : PhysicalMemory) (mem : ByteMemory) (pde addr count T : Nat)
    (frame : Nat → Nat) : Prop where
  isTable : tableBefore s pde (pdeIndex addr) = T * pageSize
  page : ∀ j, j < count → runPage s pde addr j = frame j * pageSize
  fresh : ∀ j, j < count → 0 < frame j ∧ frame j ≠ T ∧ frame j ≠ pde / pageSize
  ascending : ∀ i j, i < j → j < count → frame i < frame j
  bytes : ∀ x, x / pageSize ≠ T → x / pageSize ≠ pde / pageSize → mem x = s.mem x
  table : ∀ v, pdeIndex v = pdeIndex addr → pdeValue mem pde (pdeIndex v) / pageSize = T
  supports : ∀ v, pdeIndex v = pdeIndex addr → ∀ x, Supports mem pde v x →
    x / pageSize = T ∨ x / pageSize = pde / pageSize
  mapped : ∀ v j, pdeIndex v = pdeIndex addr → j < count → pteIndex v = pteIndex addr + j →
    translate mem pde v = some (runPage s pde addr j + v % pageSize)
  behind : ∀ v, pdeIndex v = pdeIndex addr → (∀ j, j < count → pteIndex v ≠ pteIndex addr + j) →
    translate mem pde v = entryTarget (slotBefore s pde (pdeIndex addr) (pteIndex v)) v

theorem WentOn.table_used {out table : Vpages} (went : WentOn s now pde addr T out table)
    (own : OwnTable s pde (pdeIndex addr)) : now.Used T := by
  by_cases absent : pdeValue s.mem pde (pdeIndex addr) = 0
  · obtain ⟨took, pages, _⟩ := went.made absent
    unfold Used
    rw [pages]
    exact took.took
  · have isPage := went.opened.page
    rw [went.found absent] at isPage ⊢
    rw [← isPage]
    exact (own.tables _ own.index (own.entry.resolve_left absent)).1

theorem WentOn.runMade {out table : Vpages} (went : WentOn s now pde addr T out table)
    (own : OwnTable s pde (pdeIndex addr))
    (takes : Takes now (T * pageSize + 4 * pteIndex addr) frames after)
    (fits : pteIndex addr + frames.length ≤ 1024) :
    RunMade s after.mem pde addr frames.length T (fun j => frames.getD j 0) := by
  have same := went.opened.takes_outside takes fits
  have here : ∀ {v}, pdeIndex v = pdeIndex addr →
      pdeValue after.mem pde (pdeIndex v) / pageSize = T := by
    intro v isHere
    rw [isHere, went.opened.directory_congr same own.index]
    exact went.opened.page
  have frameAt : ∀ j (inside : j < frames.length), frames.getD j 0 = frames[j] :=
    fun j inside => (List.getElem_eq_getD 0).symm
  refine ⟨went.isTable, ?_, ?_, ?_, ?_, fun v isHere => here isHere, ?_, ?_, ?_⟩
  · intro j inside
    rw [frameAt j inside, ← went.pages]
    exact takes.frame_at inside
  · intro j inside
    rw [frameAt j inside]
    obtain ⟨unused, _, nonzero⟩ := takes.fresh _ (List.getElem_mem inside)
    refine ⟨nonzero, ?_, ?_⟩
    · intro isTable
      exact unused (isTable ▸ went.table_used own)
    · intro isDirectory
      exact unused (isDirectory ▸ went.opened.kept _ own.directory)
  · intro i j before inside
    rw [frameAt i (by omega), frameAt j inside]
    exact List.pairwise_iff_getElem.mp takes.ascending i j (by omega) inside before
  · intro x notTable notDirectory
    rw [same x notTable]
    apply went.opened.bytes
    obtain ⟨n, isPage⟩ := own.aligned
    have index := own.index
    unfold pageSize at *
    omega
  · intro v isHere x supports
    obtain ⟨n, isPage⟩ := own.aligned
    have inTable := pteIndex_lt v
    have index := own.index
    unfold Supports at supports
    rw [alignDown_eq, here isHere, isHere] at supports
    unfold pageSize at *
    omega
  · intro v j isHere inside isSlot
    have inTable := pteIndex_lt v
    rw [went.translate_after same isHere, entryTarget]
    rcases went.run_slot takes fits inTable with ⟨k, _, isRun, word, f, isPage⟩ | ⟨apart, _⟩
    · have equal : k = j := by omega
      rw [word, equal.symm, isPage, if_pos (present_entry f), alignDown_eq, entry_page]
    · exact absurd isSlot (apart j inside)
  · intro v isHere notRun
    rw [went.translate_after same isHere]
    rcases went.run_slot takes fits (pteIndex_lt v) with ⟨k, inside, isRun, _⟩ | ⟨_, word⟩
    · exact absurd isRun (notRun k inside)
    · rw [word]

namespace RunMade

variable {count : Nat} {frame : Nat → Nat}

theorem next (made : RunMade s mem pde addr count T frame) {i j : Nat} (iInside : i < count)
    (jInside : j < count) (isNext : frame i + 1 = frame j) : j = i + 1 := by
  rcases Nat.lt_trichotomy i j with lower | same | higher
  · by_contra notNext
    have first := made.ascending i (i + 1) (Nat.lt_succ_self i) (by omega)
    have second := made.ascending (i + 1) j (by omega) jInside
    omega
  · rw [same] at isNext
    omega
  · have order := made.ascending j i higher iInside
    omega

theorem frame_inj (made : RunMade s mem pde addr count T frame) {i j : Nat} (iInside : i < count)
    (jInside : j < count) (same : frame i = frame j) : i = j := by
  rcases Nat.lt_trichotomy i j with lower | equal | higher
  · have order := made.ascending i j lower jInside
    omega
  · exact equal
  · have order := made.ascending j i higher iInside
    omega

theorem bytePlace_eq (made : RunMade s mem pde addr count T frame) {k : Nat}
    (inRun : (addr % pageSize + k) / pageSize < count) :
    bytePlace s pde addr k =
      frame ((addr % pageSize + k) / pageSize) * pageSize + (addr % pageSize + k) % pageSize := by
  unfold bytePlace
  rw [made.page _ inRun]

theorem readPlace_eq (made : RunMade s mem pde addr count T frame) {k : Nat}
    (inRun : k / pageSize < count) :
    readPlace s pde addr k =
      frame (k / pageSize) * pageSize + addr % pageSize + k % pageSize := by
  unfold readPlace
  rw [made.page _ inRun]

/-- What is read to the place of the byte `k` is the byte `k`. -/
theorem same_byte (made : RunMade s mem pde addr count T frame) {k l : Nat}
    (kInside : (addr % pageSize + k) / pageSize < count) (lInside : l / pageSize < count)
    (same : readPlace s pde addr l = bytePlace s pde addr k) : k = l := by
  rw [made.readPlace_eq lInside, made.bytePlace_eq kInside] at same
  have kSplit := Nat.div_add_mod (addr % pageSize + k) pageSize
  have lSplit := Nat.div_add_mod l pageSize
  have kSmall := Nat.mod_lt (addr % pageSize + k) (by decide : 0 < pageSize)
  have lSmall := Nat.mod_lt l (by decide : 0 < pageSize)
  have offset := Nat.mod_lt addr (by decide : 0 < pageSize)
  by_cases inFrame : addr % pageSize + l % pageSize < pageSize
  · have sameFrame : frame (l / pageSize) = frame ((addr % pageSize + k) / pageSize) := by
      unfold pageSize at *
      omega
    have samePage := made.frame_inj lInside kInside sameFrame
    rw [← samePage] at kSplit same
    omega
  · have isNext : frame (l / pageSize) + 1 = frame ((addr % pageSize + k) / pageSize) := by
      unfold pageSize at *
      omega
    have nextPage := made.next lInside kInside isNext
    rw [← isNext] at same
    rw [nextPage] at kSplit
    unfold pageSize at *
    omega

/-- A chunk that runs on into a frame of the run runs on into its own next one. -/
theorem same_page (made : RunMade s mem pde addr count T frame) {k l : Nat}
    (kInside : (addr % pageSize + k) / pageSize < count)
    (lInside : (addr % pageSize + l) / pageSize < count)
    (same : readPlace s pde addr k / pageSize = bytePlace s pde addr l / pageSize) :
    readPlace s pde addr k = bytePlace s pde addr k := by
  have chunkInside : k / pageSize < count := by
    unfold pageSize at *
    omega
  have lSmall := Nat.mod_lt (addr % pageSize + l) (by decide : 0 < pageSize)
  rw [made.bytePlace_eq lInside, byte_inPage _ lSmall, made.readPlace_eq chunkInside] at same
  rw [made.bytePlace_eq kInside, made.readPlace_eq chunkInside]
  have kSplit := Nat.div_add_mod (addr % pageSize + k) pageSize
  have chunkSplit := Nat.div_add_mod k pageSize
  have kSmall := Nat.mod_lt k (by decide : 0 < pageSize)
  have offset := Nat.mod_lt addr (by decide : 0 < pageSize)
  by_cases inFrame : addr % pageSize + k % pageSize < pageSize
  · have samePage : (addr % pageSize + k) / pageSize = k / pageSize := by
      unfold pageSize at *
      omega
    rw [samePage] at kSplit ⊢
    omega
  · have isNext : frame (k / pageSize) + 1 =
        frame ((addr % pageSize + l) / pageSize) := by
      unfold pageSize at *
      omega
    have nextPage := made.next chunkInside lInside isNext
    have samePage : (addr % pageSize + k) / pageSize = k / pageSize + 1 := by
      unfold pageSize at *
      omega
    rw [nextPage] at isNext
    rw [samePage] at kSplit ⊢
    rw [← isNext]
    unfold pageSize at *
    omega

theorem same_chunk (made : RunMade s mem pde addr count T frame) {i j y z : Nat}
    (iInside : i < count) (jInside : j < count) (yInside : y < pageSize) (zInside : z < pageSize)
    (same : runPage s pde addr i + addr % pageSize + y =
      runPage s pde addr j + addr % pageSize + z) : i = j := by
  rw [made.page i iInside, made.page j jInside] at same
  apply made.frame_inj iInside jInside
  unfold pageSize at *
  omega

theorem frame_apart (made : RunMade s mem pde addr count T frame) {k : Nat}
    (inRun : (addr % pageSize + k) / pageSize < count) :
    ¬ InTables s pde addr (bytePlace s pde addr k) := by
  obtain ⟨_, notTable, notDirectory⟩ := made.fresh _ inRun
  have small := Nat.mod_lt (addr % pageSize + k) (by decide : 0 < pageSize)
  unfold InTables
  rw [made.bytePlace_eq inRun, byte_inPage _ small, made.isTable,
    Nat.mul_div_cancel _ (by decide : 0 < pageSize)]
  exact not_or.mpr ⟨notDirectory, notTable⟩

theorem inTables_iff (made : RunMade s mem pde addr count T frame) {x : Nat} :
    InTables s pde addr x ↔ x / pageSize = pde / pageSize ∨ x / pageSize = T := by
  unfold InTables
  rw [made.isTable, Nat.mul_div_cancel _ (by decide : 0 < pageSize)]

theorem unchanged (made : RunMade s mem pde addr count T frame) {x : Nat}
    (outside : ¬ InTables s pde addr x) : mem x = s.mem x := by
  rw [made.inTables_iff, not_or] at outside
  exact made.bytes x outside.2 outside.1

/-- With the tables as the call left them, addresses go where they went. -/
theorem translate_eq (made : RunMade s mem pde addr count T frame) {other : ByteMemory}
    (same : ∀ x, InTables s pde addr x → other x = mem x) {v : Nat}
    (here : pdeIndex v = pdeIndex addr) : translate other pde v = translate mem pde v := by
  apply translate_congr
  intro x supports
  apply same
  rw [made.inTables_iff]
  exact (made.supports v here x supports).symm

theorem translate_run (made : RunMade s mem pde addr count T frame) {other : ByteMemory}
    (same : ∀ x, InTables s pde addr x → other x = mem x) {k : Nat}
    (here : pdeIndex (addr + k) = pdeIndex addr)
    (inRun : (addr % pageSize + k) / pageSize < count) :
    translate other pde (addr + k) = some (bytePlace s pde addr k) := by
  rw [made.translate_eq same here, made.mapped _ _ here inRun (pteIndex_add here)]
  unfold bytePlace
  rw [Nat.mod_add_mod]

theorem translate_behind (made : RunMade s mem pde addr count T frame) {other : ByteMemory}
    (same : ∀ x, InTables s pde addr x → other x = mem x) {k : Nat}
    (here : pdeIndex (addr + k) = pdeIndex addr)
    (notRun : ¬ (addr % pageSize + k) / pageSize < count) :
    translate other pde (addr + k) =
      entryTarget (slotBefore s pde (pdeIndex addr) (pteIndex (addr + k))) (addr + k) := by
  rw [made.translate_eq same here]
  apply made.behind _ here
  intro j inside isSlot
  rw [pteIndex_add here] at isSlot
  omega

/-- The chunks of a segment that meets neither the table nor the directory. -/
theorem chunkPlaces (made : RunMade s mem pde addr count T frame) (one : InOneRegion addr size)
    (counted : size ≤ pageSize * count)
    (apart : ∀ k, k < size → ¬ InTables s pde addr (readPlace s pde addr k)) :
    ChunkPlaces mem pde addr size (InTables s pde addr)
      (fun i => runPage s pde addr i + addr % pageSize) := by
  have inRun : ∀ {i y}, pageSize * i + y < size → i < count := by
    intro i y inside
    unfold pageSize at *
    omega
  refine ⟨?_, ?_, ?_, ?_⟩
  · intro i inside other same
    have here := one.pdeIndex_eq inside
    have page : (addr % pageSize + pageSize * i) / pageSize = i := by
      unfold pageSize
      omega
    have run := made.translate_run same here (by rw [page]; exact inRun (y := 0) inside)
    rw [transVtop_of_translate run]
    unfold bytePlace
    rw [page]
    unfold pageSize
    omega
  · intro i inside
    have nonzero := (made.fresh i (inRun (y := 0) inside)).1
    rw [made.page i (inRun (y := 0) inside)]
    unfold pageSize
    omega
  · intro i y inPage inside
    have away := apart _ inside
    unfold readPlace at away
    rw [Nat.mul_add_div (by decide : 0 < pageSize), Nat.div_eq_of_lt inPage, Nat.add_zero,
      Nat.mul_add_mod, Nat.mod_eq_of_lt inPage] at away
    exact away
  · intro i j y z yInPage zInPage iInside jInside same
    exact made.same_chunk (inRun iInside) (inRun jInside) yInPage zInPage same

end RunMade

/-- In one region, with the first page unmapped, a call that does not fail makes its run. -/
theorem allocVpages_runMade (own : OwnTable s pde (pdeIndex addr)) (booted : s.pages.Booted)
    (one : InOneRegion addr size) (positive : 1 ≤ size) (first : ¬ FirstMapped s pde addr)
    (answered : ¬ (allocVpages s pde addr size).answer < 0) :
    ∃ T frame, RunMade s (allocVpages s pde addr size).state.mem pde addr (vpagesCount size) T
      frame := by
  obtain ⟨fits, _, rounds⟩ := one.fits positive
  have failed : (-enomem : Int) < 0 := by decide
  rcases allocVpages_cases own booted with ⟨_, _, result⟩ | ⟨now, T, went⟩
  · rw [result] at answered
    exact absurd failed answered
  · rcases went.table_cases with ⟨mapped, _⟩ | ⟨_, frames, after, takes, ran⟩
    · exact absurd mapped first
    · rw [rounds] at ran
      rcases ran with ⟨length, ran⟩ | ⟨_, _, ran⟩
      · refine ⟨T, fun j => frames.getD j 0, ?_⟩
        rw [went.state, ran, ← length]
        exact went.runMade own takes (by omega)
      · rw [went.answer, ran] at answered
        exact absurd failed answered

/-! ### The segment -/

/-- What an answer of 0 tells: alloc_vpages did not fail, and the loop ran. -/
theorem loadPhead_answered (reliable : Reliable file)
    (answered : (loadPhead file pHead pde s).1 = 0) :
    ¬ (allocVpages s pde pHead.pVaddr pHead.pMemsz).answer < 0 ∧
      loadPhead file pHead pde s = loadPheadLoop file pHead pde
        (allocVpages s pde pHead.pVaddr pHead.pMemsz).state pHead.pVaddr pHead.pOffset
        (int32 pHead.pFilesz).toNat := by
  have found : ¬ file.seek pHead.pOffset < 0 := Int.not_lt.mpr (reliable.seek _)
  unfold loadPhead at answered ⊢
  by_cases failed : (allocVpages s pde pHead.pVaddr pHead.pMemsz).answer < 0
  · simp only [if_pos failed] at answered
    rw [answered] at failed
    exact absurd failed (Int.lt_irrefl 0)
  · simp only [if_neg failed, if_neg found]
    exact ⟨failed, trivial⟩

/-- The run is made and the file bytes are read to their places. -/
structure SegmentRead (file : ElfFile) (pHead : ElfPhead) (pde : Nat) (s : PhysicalMemory)
    (mem after : ByteMemory) (T : Nat) (frame : Nat → Nat) : Prop where
  made : RunMade s mem pde pHead.pVaddr (vpagesCount pHead.pMemsz) T frame
  inside : ∀ k, k < pHead.pFilesz →
    after (readPlace s pde pHead.pVaddr k) = file.content (pHead.pOffset + k)
  outside : ∀ x, (∀ k, k < pHead.pFilesz → x ≠ readPlace s pde pHead.pVaddr k) → after x = mem x
  tables : ∀ x, InTables s pde pHead.pVaddr x → after x = mem x

theorem InOneRegion.covers (one : InOneRegion addr size) : size ≤ pageSize * vpagesCount size := by
  unfold InOneRegion pdeIndex at one
  unfold vpagesCount pageSize
  omega

theorem InOneRegion.chunk_inRun (one : InOneRegion addr size) {k : Nat} (inside : k < size) :
    k / pageSize < vpagesCount size := by
  have covers := one.covers
  unfold pageSize at *
  omega

theorem loadPhead_reads (own : OwnTable s pde (pdeIndex pHead.pVaddr)) (booted : s.pages.Booted)
    (reliable : Reliable file) (one : InOneRegion pHead.pVaddr pHead.pMemsz)
    (positive : 1 ≤ pHead.pMemsz) (stored : pHead.pFilesz ≤ pHead.pMemsz)
    (range : pHead.pVaddr + pHead.pMemsz ≤ 4294967296) (first : ¬ FirstMapped s pde pHead.pVaddr)
    (apart : ∀ k, k < pHead.pFilesz →
      ¬ InTables s pde pHead.pVaddr (readPlace s pde pHead.pVaddr k))
    (answered : (loadPhead file pHead pde s).1 = 0) :
    ∃ T frame, SegmentRead file pHead pde s
      (allocVpages s pde pHead.pVaddr pHead.pMemsz).state.mem (loadPhead file pHead pde s).2.mem
      T frame := by
  obtain ⟨succeeded, ran⟩ := loadPhead_answered reliable answered
  obtain ⟨T, frame, made⟩ := allocVpages_runMade own booted one positive first succeeded
  have covers := one.covers
  have oneFile : InOneRegion pHead.pVaddr pHead.pFilesz :=
    Nat.le_trans (Nat.add_le_add_left stored _) one
  have places := made.chunkPlaces oneFile (Nat.le_trans stored covers) apart
  have small : pHead.pFilesz < 2147483648 := by
    unfold InOneRegion pdeIndex at oneFile
    omega
  have size : (int32 pHead.pFilesz).toNat = pHead.pFilesz := by
    rw [int32_of_range (by omega) (by omega)]
    exact Int.toNat_natCast _
  obtain ⟨done, loop, read⟩ := loadPheadLoop_reads pHead pHead.pOffset reliable places
    (by omega) pHead.pFilesz 0 (allocVpages s pde pHead.pVaddr pHead.pMemsz).state
    pHead.pVaddr pHead.pOffset (Nat.sub_zero _).symm (fun _ => ⟨rfl, rfl⟩) (fun _ _ => rfl)
  refine ⟨T, frame, ?_⟩
  rw [ran, size, loop]
  have outside : ∀ x, (∀ k, k < pHead.pFilesz → x ≠ readPlace s pde pHead.pVaddr k) →
      done x = (allocVpages s pde pHead.pVaddr pHead.pMemsz).state.mem x := by
    intro x away
    exact read.outside x (fun k _ inFile => away k inFile)
  refine ⟨made, ?_, outside, ?_⟩
  · intro k inFile
    exact read.inside k (Nat.zero_le k) inFile
  · intro x inTables
    apply outside
    intro k inFile isRead
    exact apart k inFile (isRead ▸ inTables)

namespace SegmentRead

variable {memAfter : ByteMemory} {frame : Nat → Nat}

/-- The byte `k` of the range is mapped if its page is one of the run. -/
theorem mapped (read : SegmentRead file pHead pde s mem memAfter T frame)
    (one : InOneRegion pHead.pVaddr pHead.pMemsz) {k : Nat} (inside : k < pHead.pMemsz)
    (inRun : (pHead.pVaddr % pageSize + k) / pageSize < vpagesCount pHead.pMemsz) :
    translate memAfter pde (pHead.pVaddr + k) = some (bytePlace s pde pHead.pVaddr k) :=
  read.made.translate_run read.tables (one.pdeIndex_eq inside) inRun

/-- A place that nothing is read to holds what it held before the call. -/
theorem untouched (read : SegmentRead file pHead pde s mem memAfter T frame)
    (one : InOneRegion pHead.pVaddr pHead.pMemsz) (stored : pHead.pFilesz ≤ pHead.pMemsz) {k : Nat}
    (inRun : (pHead.pVaddr % pageSize + k) / pageSize < vpagesCount pHead.pMemsz)
    (notRead : k < pHead.pFilesz →
      readPlace s pde pHead.pVaddr k ≠ bytePlace s pde pHead.pVaddr k) :
    memAfter (bytePlace s pde pHead.pVaddr k) = s.mem (bytePlace s pde pHead.pVaddr k) := by
  rw [read.outside _ ?_]
  · exact read.made.unchanged (read.made.frame_apart inRun)
  · intro l inFile isRead
    have same := read.made.same_byte inRun (one.chunk_inRun (by omega)) isRead.symm
    rw [← same] at inFile isRead
    exact notRead inFile isRead.symm

theorem table_page (read : SegmentRead file pHead pde s mem memAfter T frame)
    (own : OwnTable s pde (pdeIndex pHead.pVaddr)) :
    pdeValue memAfter pde (pdeIndex pHead.pVaddr) / pageSize = T := by
  rw [← read.made.table pHead.pVaddr rfl]
  congr 1
  apply ByteMemory.word_congr
  intro x lower upper
  apply read.tables
  left
  obtain ⟨n, isPage⟩ := own.aligned
  have index := own.index
  unfold pageSize at *
  omega

theorem image (read : SegmentRead file pHead pde s mem after.mem T frame)
    (own : OwnTable s pde (pdeIndex pHead.pVaddr)) (positive : 1 ≤ pHead.pMemsz)
    (ready : ImageReady file pHead pde s) (stored : pHead.pFilesz ≤ pHead.pMemsz) :
    SegmentImage file pHead pde s after := by
  have one := ready.region
  have inRun : ∀ {k}, k < pHead.pMemsz →
      (pHead.pVaddr % pageSize + k) / pageSize < vpagesCount pHead.pMemsz := by
    intro k inside
    have counted := ready.counted
    exact Nat.div_lt_of_lt_mul (by omega)
  refine ⟨?_, ?_, ?_⟩
  · intro k inFile
    have inside : k < pHead.pMemsz := Nat.lt_of_lt_of_le inFile stored
    refine ⟨_, read.mapped one inside (inRun inside), ?_⟩
    by_cases same : readPlace s pde pHead.pVaddr k = bytePlace s pde pHead.pVaddr k
    · rw [← same]
      exact read.inside k inFile
    · rw [read.untouched one stored (inRun inside) (fun _ => same)]
      exact ((ready.placed k inFile).resolve_left same).2.2
  · intro k behind inside
    refine ⟨_, read.mapped one inside (inRun inside), ?_⟩
    rw [read.untouched one stored (inRun inside) (fun inFile => absurd inFile (by omega))]
    exact ready.clear k behind inside
  · intro x changed
    by_cases isRead : ∃ k, k < pHead.pFilesz ∧ x = readPlace s pde pHead.pVaddr k
    · obtain ⟨k, inFile, isPlace⟩ := isRead
      have inside : k < pHead.pMemsz := Nat.lt_of_lt_of_le inFile stored
      rcases ready.placed k inFile with same | ⟨_, holds, _⟩
      · left
        exact ⟨k, _, inside, read.mapped one inside (inRun inside), by rw [isPlace, same]⟩
      · rw [isPlace, read.inside k inFile] at changed
        exact absurd holds.symm changed
    · right
      have away : ∀ k, k < pHead.pFilesz → x ≠ readPlace s pde pHead.pVaddr k :=
        fun k inFile isPlace => isRead ⟨k, inFile, isPlace⟩
      rw [read.outside x away] at changed
      have inTables : InTables s pde pHead.pVaddr x := by
        by_contra outside
        exact changed (read.made.unchanged outside)
      rcases read.made.inTables_iff.mp inTables with isDirectory | isTable
      · exact Or.inl isDirectory
      · right
        refine ⟨0, positive, ?_⟩
        rw [Nat.add_zero, read.table_page own, isTable]

theorem ready (read : SegmentRead file pHead pde s mem after.mem T frame)
    (apart : TablesApart pHead pde s) (first : ¬ FirstMapped s pde pHead.pVaddr)
    (absent : ∀ k, k < pHead.pMemsz →
      present (slotBefore s pde (pdeIndex pHead.pVaddr) (pteIndex (pHead.pVaddr + k))) = false)
    (own : OwnTable s pde (pdeIndex pHead.pVaddr)) (positive : 1 ≤ pHead.pMemsz)
    (stored : pHead.pFilesz ≤ pHead.pMemsz)
    (image : SegmentImage file pHead pde s after) : ImageReady file pHead pde s := by
  have one := apart.region
  have isMapped : ∀ k, k < pHead.pMemsz →
      ∃ p, translate after.mem pde (pHead.pVaddr + k) = some p := by
    intro k inside
    by_cases inFile : k < pHead.pFilesz
    · obtain ⟨p, mapped, _⟩ := image.content k inFile
      exact ⟨p, mapped⟩
    · obtain ⟨p, mapped, _⟩ := image.zero k (Nat.le_of_not_lt inFile) inside
      exact ⟨p, mapped⟩
  have inRun : ∀ k, k < pHead.pMemsz →
      (pHead.pVaddr % pageSize + k) / pageSize < vpagesCount pHead.pMemsz := by
    intro k inside
    by_contra behind
    obtain ⟨p, mapped⟩ := isMapped k inside
    rw [read.made.translate_behind read.tables (one.pdeIndex_eq inside) behind] at mapped
    unfold entryTarget at mapped
    rw [absent k inside] at mapped
    cases mapped
  have mappedAt : ∀ {k p}, k < pHead.pMemsz →
      translate after.mem pde (pHead.pVaddr + k) = some p →
        p = bytePlace s pde pHead.pVaddr k := by
    intro k p inside mapped
    rw [read.mapped one inside (inRun k inside)] at mapped
    exact (Option.some.inj mapped).symm
  refine ⟨one, first, ?_, ?_, ?_⟩
  · have last := inRun (pHead.pMemsz - 1) (by omega)
    unfold pageSize at *
    omega
  · intro k inFile
    have inside : k < pHead.pMemsz := Nat.lt_of_lt_of_le inFile stored
    by_cases same : readPlace s pde pHead.pVaddr k = bytePlace s pde pHead.pVaddr k
    · exact Or.inl same
    · right
      refine ⟨apart.reads k inFile, ?_, ?_⟩
      · by_contra different
        rw [← read.inside k inFile] at different
        rcases image.elsewhere _ (fun equal => different equal.symm) with
          ⟨l, p, lInside, mapped, samePage⟩ | isDirectory | ⟨l, lInside, isTable⟩
        · rw [mappedAt lInside mapped] at samePage
          exact same (read.made.same_page (inRun k inside) (inRun l lInside) samePage)
        · exact apart.reads k inFile (Or.inl isDirectory)
        · rw [one.pdeIndex_eq lInside, read.table_page own] at isTable
          exact apart.reads k inFile (read.made.inTables_iff.mpr (Or.inr isTable))
      · obtain ⟨p, mapped, holds⟩ := image.content k inFile
        rw [mappedAt inside mapped, read.untouched one stored (inRun k inside) (fun _ => same)]
          at holds
        exact holds
  · intro k behind inside
    obtain ⟨p, mapped, holds⟩ := image.zero k behind inside
    rw [mappedAt inside mapped, read.untouched one stored (inRun k inside)
      (fun inFile => absurd inFile (by omega))] at holds
    exact holds

end SegmentRead

/-- No entry maps the range: the table had none, or is new and had none in its page. -/
theorem TablesApart.absent (apart : TablesApart pHead pde s)
    (own : OwnTable s pde (pdeIndex pHead.pVaddr))
    (unmapped : ∀ k, k < pHead.pMemsz → translate s.mem pde (pHead.pVaddr + k) = none) {k : Nat}
    (inside : k < pHead.pMemsz) :
    present (slotBefore s pde (pdeIndex pHead.pVaddr) (pteIndex (pHead.pVaddr + k))) = false := by
  by_cases isNew : pdeValue s.mem pde (pdeIndex pHead.pVaddr) = 0
  · exact apart.made isNew k inside
  · have none := unmapped k inside
    have isPresent := own.entry.resolve_left isNew
    unfold translate pteValue at none
    rw [apart.region.pdeIndex_eq inside] at none
    unfold slotBefore tableBefore
    rw [if_neg isNew]
    by_contra both
    rw [Bool.not_eq_false] at both
    rw [if_pos ⟨isPresent, both⟩] at none
    cases none

theorem TablesApart.first (apart : TablesApart pHead pde s)
    (own : OwnTable s pde (pdeIndex pHead.pVaddr)) (positive : 1 ≤ pHead.pMemsz)
    (unmapped : ∀ k, k < pHead.pMemsz → translate s.mem pde (pHead.pVaddr + k) = none) :
    ¬ FirstMapped s pde pHead.pVaddr := by
  intro mapped
  have none := apart.absent own unmapped positive
  rw [Nat.add_zero, mapped.1] at none
  cases none

/-- The reads of a ready segment meet no table: where they go astray the bytes are apart, and
elsewhere they go to fresh frames. -/
theorem ImageReady.apart (ready : ImageReady file pHead pde s)
    (own : OwnTable s pde (pdeIndex pHead.pVaddr)) (booted : s.pages.Booted)
    (reliable : Reliable file) (positive : 1 ≤ pHead.pMemsz)
    (stored : pHead.pFilesz ≤ pHead.pMemsz) (answered : (loadPhead file pHead pde s).1 = 0)
    {k : Nat} (inFile : k < pHead.pFilesz) :
    ¬ InTables s pde pHead.pVaddr (readPlace s pde pHead.pVaddr k) := by
  rcases ready.placed k inFile with same | ⟨away, _⟩
  · obtain ⟨T, frame, made⟩ := allocVpages_runMade own booted ready.region positive ready.first
      (loadPhead_answered reliable answered).1
    have counted := ready.counted
    rw [same]
    exact made.frame_apart (Nat.div_lt_of_lt_mul (by omega))
  · exact away

/-- A segment that load_phead loads is in place if it was ready; unless the tables are in its
way, only then. -/
theorem loadPhead_image_iff (own : OwnTable s pde (pdeIndex pHead.pVaddr))
    (booted : s.pages.Booted) (reliable : Reliable file) (positive : 1 ≤ pHead.pMemsz)
    (stored : pHead.pFilesz ≤ pHead.pMemsz) (range : pHead.pVaddr + pHead.pMemsz ≤ 4294967296)
    (unmapped : ∀ k, k < pHead.pMemsz → translate s.mem pde (pHead.pVaddr + k) = none)
    (answered : (loadPhead file pHead pde s).1 = 0) :
    (ImageReady file pHead pde s →
        SegmentImage file pHead pde s (loadPhead file pHead pde s).2) ∧
      (TablesApart pHead pde s → SegmentImage file pHead pde s (loadPhead file pHead pde s).2 →
        ImageReady file pHead pde s) := by
  constructor
  · intro ready
    obtain ⟨T, frame, read⟩ := loadPhead_reads own booted reliable ready.region positive stored
      range ready.first
      (fun k inFile => ready.apart own booted reliable positive stored answered inFile) answered
    exact read.image own positive ready stored
  · intro apart image
    have first := apart.first own positive unmapped
    obtain ⟨T, frame, read⟩ := loadPhead_reads own booted reliable apart.region positive stored
      range first apart.reads answered
    exact read.ready apart first (fun k inside => apart.absent own unmapped inside) own positive
      stored image

/-- A segment of `size` bytes at `addr`, all of them in the file. -/
def wholeSegment (addr size : Nat) : ElfPhead := ⟨1, 0, addr, addr, size, size, 5, 4096⟩

/-- A page-aligned segment is read where it is mapped. -/
theorem readPlace_aligned (aligned : addr % pageSize = 0) (k : Nat) :
    readPlace s pde addr k = bytePlace s pde addr k := by
  unfold readPlace bytePlace
  rw [aligned, Nat.add_zero, Nat.zero_add]

example : ImageReady twoHeaders (wholeSegment 1073745920 4096) 4096 onePage := by
  refine ⟨?_, ?_, by decide, fun k _ => Or.inl (readPlace_aligned rfl k), ?_⟩
  · unfold InOneRegion
    decide
  · rintro ⟨isPresent, _⟩
    revert isPresent
    decide +kernel
  · intro k behind inside
    exact absurd inside (Nat.not_lt.mpr behind)

/-- The second user page. -/
theorem loadPhead_image_secondPage :
    (ImageReady twoHeaders (wholeSegment 1073745920 4096) 4096 onePage →
        SegmentImage twoHeaders (wholeSegment 1073745920 4096) 4096 onePage
          (loadPhead twoHeaders (wholeSegment 1073745920 4096) 4096 onePage).2) ∧
      (TablesApart (wholeSegment 1073745920 4096) 4096 onePage →
        SegmentImage twoHeaders (wholeSegment 1073745920 4096) 4096 onePage
          (loadPhead twoHeaders (wholeSegment 1073745920 4096) 4096 onePage).2 →
        ImageReady twoHeaders (wholeSegment 1073745920 4096) 4096 onePage) :=
  loadPhead_image_iff (onePage_tables.own (pdeIndex_user (by decide) (by decide)))
    onePage_booted twoHeaders_reliable (by decide) (by decide) (by decide)
    (fun k inside => onePage_behind (Nat.le_add_right _ k)
      (Nat.lt_trans (Nat.add_lt_add_left inside 1073745920) (by decide)))
    (by decide +kernel)

/-- A page that starts in the middle of a page: the answer is 0, its second half is unmapped. -/
theorem loadPhead_straddles :
    UserTables onePage 4096 ∧ onePage.pages.Booted ∧ Reliable twoHeaders ∧
      (∀ k, k < 4096 → translate onePage.mem 4096 (1073747968 + k) = none) ∧
      (loadPhead twoHeaders (wholeSegment 1073747968 4096) 4096 onePage).1 = 0 ∧
      ¬ SegmentImage twoHeaders (wholeSegment 1073747968 4096) 4096 onePage
        (loadPhead twoHeaders (wholeSegment 1073747968 4096) 4096 onePage).2 := by
  refine ⟨onePage_tables, onePage_booted, twoHeaders_reliable, ?_, by decide +kernel, ?_⟩
  · intro k inside
    exact onePage_behind (by omega) (by omega)
  · intro image
    obtain ⟨p, mapped, _⟩ := image.content 2048 (by decide)
    have missing : translate
        (loadPhead twoHeaders (wholeSegment 1073747968 4096) 4096 onePage).2.mem 4096
        ((wholeSegment 1073747968 4096).pVaddr + 2048) = none := by decide +kernel
    rw [missing] at mapped
    cases mapped

end MangoOS
