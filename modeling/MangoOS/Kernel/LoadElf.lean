/-
load_elf_file and load_phead (kernel/task.c).

An open file is its bytes with the answers of sys_open, sys_seek and sys_read; the two head
structures on the stack are buffers that a read fills.
-/

import MangoOS.Memory.VirtualPages
import MangoOS.Library.Words

namespace MangoOS

/-- A file under its name: what sys_open answers, its bytes, and what sys_seek and sys_read
answer at an offset. -/
structure ElfFile where
  fd : Int
  content : ByteMemory
  seek : (offset : Nat) → Int
  read : (offset size : Nat) → Int

/-- `sys_read` of `count` bytes at `offset` into memory at `dest`. -/
def readInto (mem : ByteMemory) (dest : Nat) (file : ElfFile) (offset count : Nat) : ByteMemory :=
  fun x => if dest ≤ x ∧ x < dest + count then file.content (offset + (x - dest)) else mem x

/-- The `ushort` stored at `a`. -/
def half (mem : ByteMemory) (a : Nat) : Nat := (mem a).toNat + 256 * (mem (a + 1)).toNat

/-- The fields of `elf_head_t` that are read. -/
structure ElfHead where
  eIdent : List Nat
  eType : Nat
  eMachine : Nat
  eEntry : Nat
  ePhoff : Nat
  ePhentsize : Nat
  ePhnum : Nat
  deriving DecidableEq

def elfHead (mem : ByteMemory) : ElfHead where
  eIdent := (List.range 4).map fun i => (mem i).toNat
  eType := half mem 16
  eMachine := half mem 18
  eEntry := mem.word 24
  ePhoff := mem.word 28
  ePhentsize := half mem 42
  ePhnum := half mem 44

structure ElfPhead where
  pType : Nat
  pOffset : Nat
  pVaddr : Nat
  pPaddr : Nat
  pFilesz : Nat
  pMemsz : Nat
  pFlags : Nat
  pAlign : Nat
  deriving DecidableEq

def elfPhead (mem : ByteMemory) (a : Nat) : ElfPhead where
  pType := mem.word a
  pOffset := mem.word (a + 4)
  pVaddr := mem.word (a + 8)
  pPaddr := mem.word (a + 12)
  pFilesz := mem.word (a + 16)
  pMemsz := mem.word (a + 20)
  pFlags := mem.word (a + 24)
  pAlign := mem.word (a + 28)

/-- The `while (size > 0)` of load_phead, from file position `pos` on. -/
def loadPheadLoop (file : ElfFile) (pHead : ElfPhead) (pageDir : Nat) (s : PhysicalMemory)
    (vaddr pos size : Nat) : Int × PhysicalMemory :=
  if _ : size ≠ 0 then
    let paddr := transVtop s.mem pageDir vaddr
    if paddr = 0 then (-1, freeVpages s pageDir pHead.pVaddr pHead.pMemsz)
    else
      let count := file.read pos (if size > pageSize then pageSize else size)
      let s := s.setMem (readInto s.mem paddr file pos count.toNat)
      if count ≤ 0 then (-1, freeVpages s pageDir pHead.pVaddr pHead.pMemsz)
      else
        loadPheadLoop file pHead pageDir s ((vaddr + pageSize) % 4294967296) (pos + count.toNat)
          (size - pageSize)
  else (0, s)
termination_by size
decreasing_by
  unfold pageSize
  omega

def loadPhead (file : ElfFile) (pHead : ElfPhead) (pageDir : Nat) (s : PhysicalMemory) :
    Int × PhysicalMemory :=
  let allocated := allocVpages s pageDir pHead.pVaddr pHead.pMemsz
  if allocated.answer < 0 then (allocated.answer, allocated.state)
  else if file.seek pHead.pOffset < 0 then (-1, allocated.state)
  else
    -- `int size`: a `p_filesz` of 2 GB or more is negative
    loadPheadLoop file pHead pageDir allocated.state pHead.pVaddr pHead.pOffset
      (int32 pHead.pFilesz).toNat

/-- What a call of load_elf_file leaves: its answer, the memory, the offsets at which it looked
for a program header, and the headers it passed to load_phead. -/
structure Loading where
  answer : Int
  state : PhysicalMemory
  examined : List Nat
  loaded : List ElfPhead

def Loading.failed (s : PhysicalMemory) : Loading := ⟨-1, s, [], []⟩

/-- `p_head.p_type != 1 || p_head.p_vaddr < USER_MEMORY_BEGIN` does not hold. -/
def loadable (pHead : ElfPhead) : Bool :=
  pHead.pType = 1 ∧ userMemoryBegin ≤ pHead.pVaddr

/-- The loop over the program headers; `buffer` is `p_head`. -/
def loadElfLoop (file : ElfFile) (head : ElfHead) (pageDir offset : Nat) (buffer : ByteMemory)
    (s : PhysicalMemory) : (rounds : Nat) → Loading
  | 0 => ⟨int32 head.eEntry, s, [], []⟩
  | rounds + 1 =>
      if file.seek offset < 0 then Loading.failed s
      else
        let count := file.read offset 32
        let buffer := readInto buffer 0 file offset count.toNat
        let pHead := elfPhead buffer 0
        if count ≤ 0 then { Loading.failed s with examined := [offset] }
        else if loadable pHead then
          let loaded := loadPhead file pHead pageDir s
          if loaded.1 < 0 then
            { Loading.failed loaded.2 with examined := [offset], loaded := [pHead] }
          else
            let rest := loadElfLoop file head pageDir ((offset + head.ePhentsize) % 4294967296)
              buffer loaded.2 rounds
            { rest with examined := offset :: rest.examined, loaded := pHead :: rest.loaded }
        else
          -- `continue` skips `offset += head.e_phentsize`
          let rest := loadElfLoop file head pageDir offset buffer s rounds
          { rest with examined := offset :: rest.examined }

/-- `stack` and `buffer` are what the stack holds where `head` and `p_head` are. -/
def loadElfFile (file : ElfFile) (pageDir : Nat) (stack buffer : ByteMemory)
    (s : PhysicalMemory) : Loading :=
  if file.fd < 0 then Loading.failed s
  else
    let count := file.read 0 52
    let head := elfHead (readInto stack 0 file 0 count.toNat)
    if count ≤ 0 then Loading.failed s
    -- 0x7F, then "ELF"
    else if head.eIdent ≠ [127, 69, 76, 70] then Loading.failed s
    else if head.eType ≠ 2 ∨ head.eMachine ≠ 3 then Loading.failed s
    else if head.ePhentsize = 0 ∨ head.ePhoff = 0 then Loading.failed s
    else loadElfLoop file head pageDir head.ePhoff buffer s head.ePhnum

/-! ### Reading heads -/

/-- Every seek succeeds and every read returns what was asked for. -/
structure Reliable (file : ElfFile) : Prop where
  opened : 0 ≤ file.fd
  seek : ∀ offset, 0 ≤ file.seek offset
  read : ∀ offset size, 0 < size → file.read offset size = size

variable {file : ElfFile} {head : ElfHead} {pageDir offset : Nat} {s : PhysicalMemory}
  {stack buffer : ByteMemory}

theorem readInto_byte (mem : ByteMemory) (file : ElfFile) (offset : Nat) {count x : Nat}
    (inside : x < count) : readInto mem 0 file offset count x = file.content (offset + x) :=
  if_pos ⟨Nat.zero_le x, by omega⟩

theorem readInto_word (mem : ByteMemory) (file : ElfFile) (offset : Nat) {count a : Nat}
    (inside : a + 4 ≤ count) :
    (readInto mem 0 file offset count).word a = file.content.word (offset + a) := by
  unfold ByteMemory.word
  rw [readInto_byte mem file offset (by omega), readInto_byte mem file offset (by omega),
    readInto_byte mem file offset (by omega), readInto_byte mem file offset (by omega)]
  rfl

theorem readInto_half (mem : ByteMemory) (file : ElfFile) {count a : Nat}
    (inside : a + 2 ≤ count) : half (readInto mem 0 file 0 count) a = half file.content a := by
  unfold half
  rw [readInto_byte mem file 0 (by omega), readInto_byte mem file 0 (by omega), Nat.zero_add,
    Nat.zero_add]

theorem elfPhead_readInto (buffer : ByteMemory) (file : ElfFile) (offset : Nat) :
    elfPhead (readInto buffer 0 file offset 32) 0 = elfPhead file.content offset := by
  unfold elfPhead
  simp (disch := decide) only [readInto_word, Nat.add_zero, Nat.zero_add]

theorem elfHead_readInto (stack : ByteMemory) (file : ElfFile) :
    elfHead (readInto stack 0 file 0 52) = elfHead file.content := by
  have ident : ((List.range 4).map fun i => (readInto stack 0 file 0 52 i).toNat) =
      (List.range 4).map fun i => (file.content i).toNat := by
    apply List.map_congr_left
    intro i member
    rw [readInto_byte stack file 0 (by have small := List.mem_range.mp member; omega),
      Nat.zero_add]
  unfold elfHead
  rw [ident, readInto_half stack file (by decide), readInto_half stack file (by decide),
    readInto_half stack file (by decide), readInto_half stack file (by decide),
    readInto_word stack file 0 (by decide), readInto_word stack file 0 (by decide)]

/-! ### Rounds of the loop -/

/-- The program header at an offset of the file. -/
def headerAt (file : ElfFile) (offset : Nat) : ElfPhead := elfPhead file.content offset

theorem readHeader (reliable : Reliable file) (offset : Nat) (buffer : ByteMemory) :
    ¬ file.seek offset < 0 ∧ ¬ file.read offset 32 ≤ 0 ∧
      elfPhead (readInto buffer 0 file offset (file.read offset 32).toNat) 0 =
        headerAt file offset := by
  have count := reliable.read offset 32 (by decide)
  refine ⟨Int.not_lt.mpr (reliable.seek offset), by omega, ?_⟩
  rw [count]
  exact elfPhead_readInto buffer file offset

section Rounds

variable (reliable : Reliable file) (head : ElfHead) (pageDir : Nat) (buffer : ByteMemory)
  (s : PhysicalMemory) (rounds : Nat)
include reliable

/-- A header that is not loaded: the next round is at the same offset. -/
theorem loadElfLoop_skipped (skipped : loadable (headerAt file offset) = false) :
    ∃ next, (loadElfLoop file head pageDir offset buffer s (rounds + 1)).examined =
        offset :: (loadElfLoop file head pageDir offset next s rounds).examined ∧
      (loadElfLoop file head pageDir offset buffer s (rounds + 1)).loaded =
        (loadElfLoop file head pageDir offset next s rounds).loaded := by
  obtain ⟨found, whole, header⟩ := readHeader reliable offset buffer
  refine ⟨readInto buffer 0 file offset (file.read offset 32).toNat, ?_⟩
  rw [loadElfLoop]
  simp only [if_neg found, if_neg whole, header, skipped, Bool.false_eq_true, if_false, and_self]

theorem loadElfLoop_failed (isLoadable : loadable (headerAt file offset) = true)
    (failed : (loadPhead file (headerAt file offset) pageDir s).1 < 0) :
    (loadElfLoop file head pageDir offset buffer s (rounds + 1)).examined = [offset] ∧
      (loadElfLoop file head pageDir offset buffer s (rounds + 1)).loaded =
        [headerAt file offset] := by
  obtain ⟨found, whole, header⟩ := readHeader reliable offset buffer
  rw [loadElfLoop]
  simp only [if_neg found, if_neg whole, header, isLoadable, if_true, if_pos failed, and_self]

/-- A header that is loaded: the next round is behind it. -/
theorem loadElfLoop_loaded (isLoadable : loadable (headerAt file offset) = true)
    (succeeds : ¬ (loadPhead file (headerAt file offset) pageDir s).1 < 0) :
    ∃ next, (loadElfLoop file head pageDir offset buffer s (rounds + 1)).examined =
        offset :: (loadElfLoop file head pageDir ((offset + head.ePhentsize) % 4294967296) next
          (loadPhead file (headerAt file offset) pageDir s).2 rounds).examined ∧
      (loadElfLoop file head pageDir offset buffer s (rounds + 1)).loaded =
        headerAt file offset ::
          (loadElfLoop file head pageDir ((offset + head.ePhentsize) % 4294967296) next
            (loadPhead file (headerAt file offset) pageDir s).2 rounds).loaded := by
  obtain ⟨found, whole, header⟩ := readHeader reliable offset buffer
  refine ⟨readInto buffer 0 file offset (file.read offset 32).toNat, ?_⟩
  rw [loadElfLoop]
  simp only [if_neg found, if_neg whole, header, isLoadable, if_true, if_neg succeeds, and_self]

theorem loadElfLoop_examines (offset : Nat) :
    ∃ rest, (loadElfLoop file head pageDir offset buffer s (rounds + 1)).examined =
      offset :: rest := by
  cases isLoadable : loadable (headerAt file offset) with
  | false =>
      obtain ⟨next, examined, _⟩ :=
        loadElfLoop_skipped reliable head pageDir buffer s rounds isLoadable
      exact ⟨_, examined⟩
  | true =>
      by_cases failed : (loadPhead file (headerAt file offset) pageDir s).1 < 0
      · exact ⟨[], (loadElfLoop_failed reliable head pageDir buffer s rounds isLoadable failed).1⟩
      · obtain ⟨next, examined, _⟩ :=
          loadElfLoop_loaded reliable head pageDir buffer s rounds isLoadable failed
        exact ⟨_, examined⟩

end Rounds

/-! ### All program headers -/

/-- The offsets `offset`, `offset + size`, … of `count` headers. -/
def headerOffsets (offset size : Nat) : (count : Nat) → List Nat
  | 0 => []
  | count + 1 => offset :: headerOffsets (offset + size) size count

theorem headerOffsets_eq (offset size count : Nat) :
    headerOffsets offset size count = (List.range count).map fun i => offset + i * size := by
  induction count generalizing offset with
  | zero => rfl
  | succ count ih =>
      rw [headerOffsets, ih, List.range_succ_eq_map, List.map_cons, List.map_map]
      congr 1
      · omega
      · apply List.map_congr_left
        intro i _
        change offset + size + i * size = offset + (i + 1) * size
        rw [Nat.add_mul, Nat.one_mul]
        omega

/-- Each of the headers is loadable, and load_phead succeeds for them one after the other. -/
def LoadsAll (file : ElfFile) (pageDir : Nat) : PhysicalMemory → List ElfPhead → Prop
  | _, [] => True
  | s, pHead :: rest => loadable pHead = true ∧ ¬ (loadPhead file pHead pageDir s).1 < 0 ∧
      LoadsAll file pageDir (loadPhead file pHead pageDir s).2 rest

/-- The loop looks at each header once and passes on the loadable ones exactly if all headers
but the last are loaded. -/
theorem loadElfLoop_iff (reliable : Reliable file) (sized : 0 < head.ePhentsize)
    (pageDir count : Nat) :
    ∀ offset buffer s, offset + count * head.ePhentsize ≤ 4294967296 →
      ((loadElfLoop file head pageDir offset buffer s count).examined =
            headerOffsets offset head.ePhentsize count ∧
          (loadElfLoop file head pageDir offset buffer s count).loaded =
            ((headerOffsets offset head.ePhentsize count).map (headerAt file)).filter loadable ↔
        LoadsAll file pageDir s
          ((headerOffsets offset head.ePhentsize (count - 1)).map (headerAt file))) := by
  induction count with
  | zero =>
      intro offset buffer s _
      exact ⟨fun _ => trivial, fun _ => ⟨rfl, rfl⟩⟩
  | succ count ih =>
      intro offset buffer s inFile
      rw [headerOffsets, List.map_cons, Nat.add_sub_cancel]
      cases isLoadable : loadable (headerAt file offset) with
      | false =>
          obtain ⟨next, examined, loaded⟩ :=
            loadElfLoop_skipped reliable head pageDir buffer s count isLoadable
          rw [examined, loaded, List.filter_cons_of_neg (by rw [isLoadable]; decide)]
          cases count with
          | zero => exact ⟨fun _ => trivial, fun _ => ⟨rfl, rfl⟩⟩
          | succ count =>
              obtain ⟨rest, again⟩ :=
                loadElfLoop_examines reliable head pageDir next s count offset
              rw [again, headerOffsets, List.map_cons]
              constructor
              · rintro ⟨same, _⟩
                have second := (List.cons.inj (List.cons.inj same).2).1
                omega
              · rintro ⟨impossible, _⟩
                rw [isLoadable] at impossible
                cases impossible
      | true =>
          rw [List.filter_cons_of_pos isLoadable]
          by_cases failed : (loadPhead file (headerAt file offset) pageDir s).1 < 0
          · obtain ⟨examined, loaded⟩ :=
              loadElfLoop_failed reliable head pageDir buffer s count isLoadable failed
            rw [examined, loaded]
            cases count with
            | zero => exact ⟨fun _ => trivial, fun _ => ⟨rfl, rfl⟩⟩
            | succ count =>
                rw [headerOffsets, List.map_cons]
                constructor
                · rintro ⟨same, _⟩
                  cases (List.cons.inj same).2
                · rintro ⟨_, succeeds, _⟩
                  exact absurd failed succeeds
          · obtain ⟨next, examined, loaded⟩ :=
              loadElfLoop_loaded reliable head pageDir buffer s count isLoadable failed
            rw [examined, loaded]
            cases count with
            | zero => exact ⟨fun _ => trivial, fun _ => ⟨rfl, rfl⟩⟩
            | succ count =>
                rw [Nat.succ_mul] at inFile
                have positive : 0 < (count + 1) * head.ePhentsize :=
                  Nat.mul_pos (Nat.succ_pos count) sized
                rw [Nat.mod_eq_of_lt (by omega : offset + head.ePhentsize < 4294967296)]
                have later := ih (offset + head.ePhentsize) next
                  (loadPhead file (headerAt file offset) pageDir s).2 (by omega)
                rw [Nat.add_sub_cancel] at later
                rw [List.cons_eq_cons, List.cons_eq_cons, headerOffsets, List.map_cons]
                constructor
                · rintro ⟨⟨_, sameOffsets⟩, _, sameHeaders⟩
                  exact ⟨isLoadable, failed, later.mp ⟨sameOffsets, sameHeaders⟩⟩
                · rintro ⟨_, _, rest⟩
                  obtain ⟨sameOffsets, sameHeaders⟩ := later.mpr rest
                  exact ⟨⟨rfl, sameOffsets⟩, rfl, sameHeaders⟩

/-- An ELF32 executable for this processor whose program header table lies in the file. -/
structure ValidElf (file : ElfFile) : Prop where
  ident : (elfHead file.content).eIdent = [127, 69, 76, 70]
  executable : (elfHead file.content).eType = 2 ∧ (elfHead file.content).eMachine = 3
  table : (elfHead file.content).ePhoff ≠ 0
  sized : 32 ≤ (elfHead file.content).ePhentsize
  inFile : (elfHead file.content).ePhoff +
    (elfHead file.content).ePhnum * (elfHead file.content).ePhentsize ≤ 4294967296

/-- The offset of the program header `i`. -/
def headerOffset (file : ElfFile) (i : Nat) : Nat :=
  (elfHead file.content).ePhoff + i * (elfHead file.content).ePhentsize

/-- The first `count` program headers. -/
def headers (file : ElfFile) (count : Nat) : List ElfPhead :=
  (List.range count).map fun i => headerAt file (headerOffset file i)

/-- Each program header was looked at once, in order, and exactly the loadable ones were passed
to load_phead. -/
structure Processed (file : ElfFile) (out : Loading) : Prop where
  examined : out.examined = (List.range (elfHead file.content).ePhnum).map (headerOffset file)
  loaded : out.loaded = (headers file (elfHead file.content).ePhnum).filter loadable

theorem headers_eq (file : ElfFile) (count : Nat) :
    (headerOffsets (elfHead file.content).ePhoff (elfHead file.content).ePhentsize count).map
      (headerAt file) = headers file count := by
  rw [headerOffsets_eq, List.map_map]
  rfl

theorem loadElfFile_valid (reliable : Reliable file) (valid : ValidElf file) (pageDir : Nat)
    (stack buffer : ByteMemory) (s : PhysicalMemory) :
    loadElfFile file pageDir stack buffer s =
      loadElfLoop file (elfHead file.content) pageDir (elfHead file.content).ePhoff buffer s
        (elfHead file.content).ePhnum := by
  have opened : ¬ file.fd < 0 := Int.not_lt.mpr reliable.opened
  have count := reliable.read 0 52 (by decide)
  have whole : ¬ ((52 : Nat) : Int) ≤ 0 := by decide
  have sized := valid.sized
  have machine : ¬ ((elfHead file.content).eType ≠ 2 ∨ (elfHead file.content).eMachine ≠ 3) := by
    rw [valid.executable.1, valid.executable.2]
    decide
  have table : ¬ ((elfHead file.content).ePhentsize = 0 ∨ (elfHead file.content).ePhoff = 0) :=
    not_or.mpr ⟨by omega, valid.table⟩
  have ident : ¬ (elfHead file.content).eIdent ≠ [127, 69, 76, 70] :=
    fun different => different valid.ident
  unfold loadElfFile
  simp only [if_neg opened, count, if_neg whole, Int.toNat_natCast, elfHead_readInto,
    if_neg ident, if_neg machine, if_neg table]

/-- load_elf_file processes every program header exactly if each but the last is loaded. -/
theorem loadElfFile_processed_iff (reliable : Reliable file) (valid : ValidElf file)
    (pageDir : Nat) (stack buffer : ByteMemory) (s : PhysicalMemory) :
    Processed file (loadElfFile file pageDir stack buffer s) ↔
      LoadsAll file pageDir s (headers file ((elfHead file.content).ePhnum - 1)) := by
  have sized := valid.sized
  have loop := loadElfLoop_iff reliable
    (by omega : 0 < (elfHead file.content).ePhentsize) pageDir (elfHead file.content).ePhnum
    (elfHead file.content).ePhoff buffer s valid.inFile
  rw [headers_eq, headers_eq, headerOffsets_eq] at loop
  rw [loadElfFile_valid reliable valid, ← loop]
  constructor
  · intro processed
    exact ⟨processed.examined, processed.loaded⟩
  · rintro ⟨examined, loaded⟩
    exact ⟨examined, loaded⟩

/-- An executable with two program headers: the first is no segment to load (type 6), the
second maps 0x40000000. -/
def twoHeaders : ElfFile where
  fd := 3
  content := fun x =>
    if x = 0 then 127 else if x = 1 then 69 else if x = 2 then 76 else if x = 3 then 70
    else if x = 16 then 2 else if x = 18 then 3 else if x = 28 then 52 else if x = 42 then 32
    else if x = 44 then 2 else if x = 52 then 6 else if x = 84 then 1 else if x = 95 then 64
    else 0
  seek := fun _ => 0
  read := fun _ size => size

theorem twoHeaders_reliable : Reliable twoHeaders :=
  ⟨by decide, fun _ => Int.le_refl 0, fun _ _ _ => rfl⟩

theorem twoHeaders_valid : ValidElf twoHeaders :=
  ⟨by decide, by decide, by decide, by decide, by decide⟩

theorem loadElfFile_processed_twoHeaders :
    Processed twoHeaders (loadElfFile twoHeaders 4096 twoHeaders.content twoHeaders.content
        PhysicalMemory.onePage) ↔
      LoadsAll twoHeaders 4096 PhysicalMemory.onePage (headers twoHeaders 1) :=
  loadElfFile_processed_iff twoHeaders_reliable twoHeaders_valid 4096 _ _ _

/-- The first header is looked at twice, the second never. -/
theorem loadElfFile_rereads :
    Reliable twoHeaders ∧ ValidElf twoHeaders ∧
      (loadElfFile twoHeaders 4096 twoHeaders.content twoHeaders.content
        PhysicalMemory.onePage).examined = [52, 52] ∧
      ¬ Processed twoHeaders (loadElfFile twoHeaders 4096 twoHeaders.content twoHeaders.content
        PhysicalMemory.onePage) := by
  have examined : (loadElfFile twoHeaders 4096 twoHeaders.content twoHeaders.content
      PhysicalMemory.onePage).examined = [52, 52] := by decide +kernel
  refine ⟨twoHeaders_reliable, twoHeaders_valid, examined, ?_⟩
  intro processed
  have expected := processed.examined
  rw [examined] at expected
  revert expected
  decide

end MangoOS
