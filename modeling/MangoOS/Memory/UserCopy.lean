/-
copy_to_user and copy_from_user (kernel/task.c).

Both walk the user range page by page and hand each piece to kmemcpy; the pieces
kmemcpy touches on the user side are recorded next to the memory.
-/

import MangoOS.Memory.Paging
import MangoOS.Memory.ByteCopy
import MangoOS.Library.Words

namespace MangoOS

/-- A run of physical bytes. -/
structure Piece where
  addr : Nat
  count : Nat
  deriving DecidableEq, Repr

/-- What a copy leaves: the memory, and the user side of every piece it moved. -/
structure UserCopy where
  mem : ByteMemory
  touched : List Piece

/-- `size < PAGE_SIZE - (addr & (PAGE_SIZE - 1)) ? size : PAGE_SIZE - (addr & (PAGE_SIZE - 1))` -/
def pieceSize (addr size : Nat) : Nat :=
  if size < pageSize - addr % pageSize then size else pageSize - addr % pageSize

theorem pieceSize_pos (addr : Nat) {size : Nat} (nonempty : size ≠ 0) : 0 < pieceSize addr size := by
  unfold pieceSize pageSize
  split <;> omega

theorem pieceSize_le (addr size : Nat) : pieceSize addr size ≤ size := by
  unfold pieceSize
  split <;> omega

/-- The common loop; `move mem paddr kernel count` is its kmemcpy. -/
def userCopyLoop (move : ByteMemory → Nat → Nat → Nat → ByteMemory) (mem : ByteMemory)
    (pde user kernel size : Nat) : UserCopy :=
  if _ : size ≠ 0 then
    let toCopy := pieceSize user size
    let paddr := transVtop mem pde user
    let rest := userCopyLoop move (move mem paddr kernel toCopy) pde
      ((user + toCopy) % 4294967296) (kernel + toCopy) (size - toCopy)
    { rest with touched := ⟨paddr, kmemcpyCount paddr kernel toCopy⟩ :: rest.touched }
  else ⟨mem, []⟩
termination_by size
decreasing_by
  have positive := pieceSize_pos user ‹size ≠ 0›
  omega

def copyFromUserN (mem : ByteMemory) (pde toAddr fromAddr size : Nat) : Int × UserCopy :=
  if int32 fromAddr < 1073741824 ∨ uint32 (int32 (fromAddr + size)) > 4294967295 then
    (-1, ⟨mem, []⟩)
  else
    (0, userCopyLoop (fun mem paddr kernel count => kmemcpy mem kernel paddr count)
      mem pde fromAddr toAddr size)

def copyToUserN (mem : ByteMemory) (pde toAddr fromAddr size : Nat) : Int × UserCopy :=
  if toAddr < 1073741824 ∨ (toAddr + size) % 4294967296 > 4294967295 then
    (-1, ⟨mem, []⟩)
  else
    (0, userCopyLoop (fun mem paddr kernel count => kmemcpy mem paddr kernel count)
      mem pde toAddr fromAddr size)

/-- `cr3` is `current->cr3`. -/
def copyFromUser (mem : ByteMemory) (cr3 toAddr fromAddr size : Nat) : Int × UserCopy :=
  copyFromUserN mem cr3 toAddr fromAddr size

def copyToUser (mem : ByteMemory) (cr3 toAddr fromAddr size : Nat) : Int × UserCopy :=
  copyToUserN mem cr3 toAddr fromAddr size

/-- The user range `[addr, addr + size)` does not wrap and every byte of it is mapped. -/
structure RangeMapped (mem : ByteMemory) (pde addr size : Nat) : Prop where
  below : addr + size ≤ 4294967296
  mapped : ∀ i, i < size → (translate mem pde (addr + i)).isSome = true

/-- A copy over `[addr, addr + size)` that stays in user memory: it is refused and
touches nothing, or the whole range is mapped user memory and every byte it touches is
the physical byte of an address of the range. -/
def Confined (mem : ByteMemory) (pde addr size : Nat) (out : Int × UserCopy) : Prop :=
  (out.1 = -1 ∧ out.2.touched = [] ∧ out.2.mem = mem) ∨
    (userMemoryBegin ≤ addr ∧ RangeMapped mem pde addr size ∧
      ∀ piece, piece ∈ out.2.touched → ∀ k, k < piece.count →
        ∃ i, i < size ∧ translate mem pde (addr + i) = some (piece.addr + k))

/-- No byte the translations of the range read is `x`. -/
def Uninvolved (mem : ByteMemory) (pde addr size x : Nat) : Prop :=
  ∀ i, i < size → ¬ Supports mem pde (addr + i) x

/-- The frames behind the range hold no entry that maps it. -/
def FramesApart (mem : ByteMemory) (pde addr size : Nat) : Prop :=
  ∀ i p, i < size → translate mem pde (addr + i) = some p → Uninvolved mem pde addr size p

variable {mem : ByteMemory} {pde user kernel size : Nat}
  {move : ByteMemory → Nat → Nat → Nat → ByteMemory}

theorem userCopyLoop_step (nonempty : size ≠ 0) :
    userCopyLoop move mem pde user kernel size =
      { userCopyLoop move (move mem (transVtop mem pde user) kernel (pieceSize user size)) pde
          ((user + pieceSize user size) % 4294967296) (kernel + pieceSize user size)
          (size - pieceSize user size) with
        touched := ⟨transVtop mem pde user,
          kmemcpyCount (transVtop mem pde user) kernel (pieceSize user size)⟩ ::
          (userCopyLoop move (move mem (transVtop mem pde user) kernel (pieceSize user size)) pde
            ((user + pieceSize user size) % 4294967296) (kernel + pieceSize user size)
            (size - pieceSize user size)).touched } := by
  rw [userCopyLoop, dif_pos nonempty]

theorem userCopyLoop_done (empty : size = 0) :
    userCopyLoop move mem pde user kernel size = ⟨mem, []⟩ := by
  rw [userCopyLoop, dif_neg (not_not_intro empty)]

theorem pieceSize_inPage (user size : Nat) {k : Nat} (inside : k < pieceSize user size) :
    user % pageSize + k < pageSize := by
  unfold pieceSize at inside
  have offset : user % pageSize < pageSize := Nat.mod_lt _ (by decide)
  split at inside <;> omega

/-- The loop on the part of a mapped range from byte `i` on, when no move disturbs the
entries of the range: every byte touched belongs to the range. -/
theorem userCopyLoop_touched {first : ByteMemory} {start buffer total : Nat}
    (range : RangeMapped first pde start total)
    (still : ∀ now i count p, i + count ≤ total →
      (∀ k, k < count → translate first pde (start + i + k) = some (p + k)) →
      ∀ x, ¬ Uninvolved first pde start total x → move now p (buffer + i) count x = now x)
    (size : Nat) :
    ∀ now i, i + size = total →
      (∀ x, ¬ Uninvolved first pde start total x → now x = first x) →
      ∀ piece, piece ∈ (userCopyLoop move now pde (start + i) (buffer + i) size).touched →
        ∀ k, k < piece.count →
          ∃ j, j < total ∧ translate first pde (start + j) = some (piece.addr + k) := by
  induction size using Nat.strongRecOn with
  | ind size ih =>
      intro now i split agrees piece member k inPiece
      by_cases empty : size = 0
      · rw [userCopyLoop_done empty] at member
        cases member
      · have positive := pieceSize_pos (start + i) empty
        have fits := pieceSize_le (start + i) size
        rw [userCopyLoop_step empty] at member
        -- the entries of the range still read as in `first`
        have reads : ∀ j, j < total → translate now pde (start + j) = translate first pde (start + j) := by
          intro j inRange
          apply translate_congr
          intro x supports
          exact agrees x (fun apart => apart j inRange supports)
        obtain ⟨p, isMapped⟩ := Option.isSome_iff_exists.mp (range.mapped i (by omega))
        have physical : transVtop now pde (start + i) = p := by
          apply transVtop_of_translate
          rw [reads i (by omega)]
          exact isMapped
        have page : ∀ k, k < pieceSize (start + i) size →
            translate first pde (start + i + k) = some (p + k) := by
          intro k inside
          exact translate_add (pieceSize_inPage _ _ inside) isMapped
        rw [physical] at member
        cases member with
        | head =>
            have inside : k < pieceSize (start + i) size := by
              have bound := kmemcpyCount_le p (buffer + i) (pieceSize (start + i) size)
              change k < kmemcpyCount p (buffer + i) (pieceSize (start + i) size) at inPiece
              omega
            refine ⟨i + k, by omega, ?_⟩
            rw [← Nat.add_assoc]
            exact page k inside
        | tail _ inRest =>
            generalize step : pieceSize (start + i) size = count at *
            have below := range.below
            by_cases last : size - count = 0
            · rw [userCopyLoop_done last] at inRest
              cases inRest
            · rw [Nat.mod_eq_of_lt (by omega), Nat.add_assoc, Nat.add_assoc] at inRest
              refine ih (size - count) (by omega) _ (i + count) (by omega) ?_ piece inRest k inPiece
              intro x involved
              rw [still now i count p (by omega) page x involved]
              exact agrees x involved

theorem copyToUserN_refused (low : user < userMemoryBegin) (fromAddr : Nat) :
    copyToUserN mem pde user fromAddr size = (-1, ⟨mem, []⟩) := if_pos (Or.inl low)

/-- The second test of the guard never refuses: no `uint` exceeds 2^32 - 1. -/
theorem copyToUserN_accepted (high : userMemoryBegin ≤ user) (fromAddr : Nat) :
    copyToUserN mem pde user fromAddr size =
      (0, userCopyLoop (fun mem paddr kernel count => kmemcpy mem paddr kernel count)
        mem pde user fromAddr size) := by
  unfold userMemoryBegin at high
  unfold copyToUserN
  exact if_neg (by omega)

/-- The `int` comparison takes every address from 2^31 on for a negative one. -/
theorem int32_lt_userMemoryBegin (range : user < 4294967296) :
    int32 user < 1073741824 ↔ user < userMemoryBegin ∨ 2147483648 ≤ user := by
  unfold int32 userMemoryBegin
  omega

theorem copyFromUserN_refused (range : user < 4294967296)
    (outside : user < userMemoryBegin ∨ 2147483648 ≤ user) (toAddr : Nat) :
    copyFromUserN mem pde toAddr user size = (-1, ⟨mem, []⟩) :=
  if_pos (Or.inl ((int32_lt_userMemoryBegin range).mpr outside))

theorem copyFromUserN_accepted (range : user < 4294967296)
    (inside : ¬ (user < userMemoryBegin ∨ 2147483648 ≤ user)) (toAddr : Nat) :
    copyFromUserN mem pde toAddr user size =
      (0, userCopyLoop (fun mem paddr kernel count => kmemcpy mem kernel paddr count)
        mem pde user toAddr size) := by
  unfold copyFromUserN
  apply if_neg
  rintro (low | wraps)
  · exact inside ((int32_lt_userMemoryBegin range).mp low)
  · unfold uint32 at wraps
    omega

/-- A copy that was not refused is confined exactly when its whole range is mapped. -/
theorem confined_accepted (high : userMemoryBegin ≤ user) {copy : UserCopy}
    (touched : RangeMapped mem pde user size → ∀ piece, piece ∈ copy.touched →
      ∀ k, k < piece.count → ∃ i, i < size ∧ translate mem pde (user + i) = some (piece.addr + k)) :
    Confined mem pde user size (0, copy) ↔ RangeMapped mem pde user size := by
  constructor
  · rintro (⟨refused, _⟩ | ⟨_, range, _⟩)
    · cases refused
    · exact range
  · intro range
    exact Or.inr ⟨high, range, touched range⟩

theorem copyToUserN_confined (fromAddr : Nat) (apart : FramesApart mem pde user size) :
    Confined mem pde user size (copyToUserN mem pde user fromAddr size) ↔
      user < userMemoryBegin ∨ RangeMapped mem pde user size := by
  by_cases low : user < userMemoryBegin
  · rw [copyToUserN_refused low]
    exact ⟨fun _ => Or.inl low, fun _ => Or.inl ⟨rfl, rfl, rfl⟩⟩
  · rw [copyToUserN_accepted (by omega), or_iff_right low]
    apply confined_accepted (by omega)
    intro range
    refine userCopyLoop_touched range ?_ size mem 0 (Nat.zero_add size) (fun _ _ => rfl)
    intro now i count p fits page x involved
    apply kmemcpy_outside
    -- a byte of the frame is no entry of the range
    by_contra inside
    apply involved
    have found := page (x - p) (by omega)
    rw [Nat.add_assoc] at found
    have isFrame := apart _ _ (by omega) found
    rw [show p + (x - p) = x by omega] at isFrame
    exact isFrame

theorem copyFromUserN_confined (range : user < 4294967296) (toAddr : Nat)
    (apart : ∀ i, i < size → Uninvolved mem pde user size (toAddr + i)) :
    Confined mem pde user size (copyFromUserN mem pde toAddr user size) ↔
      user < userMemoryBegin ∨ 2147483648 ≤ user ∨ RangeMapped mem pde user size := by
  rw [← or_assoc]
  by_cases outside : user < userMemoryBegin ∨ 2147483648 ≤ user
  · rw [copyFromUserN_refused range outside]
    exact ⟨fun _ => Or.inl outside, fun _ => Or.inl ⟨rfl, rfl, rfl⟩⟩
  · rw [copyFromUserN_accepted range outside, or_iff_right outside]
    apply confined_accepted (by omega)
    intro isMapped
    refine userCopyLoop_touched isMapped ?_ size mem 0 (Nat.zero_add size) (fun _ _ => rfl)
    intro now i count p fits page x involved
    apply kmemcpy_outside
    by_contra inside
    apply involved
    have isBuffer := apart (x - toAddr) (by omega)
    rw [show toAddr + (x - toAddr) = x by omega] at isBuffer
    exact isBuffer

/-- What copy_to_user changes lies in the pieces it touches. -/
theorem userCopyLoop_changes (size : Nat) :
    ∀ now user kernel x,
      (userCopyLoop (fun mem paddr kernel count => kmemcpy mem paddr kernel count)
        now pde user kernel size).mem x ≠ now x →
      ∃ piece, piece ∈ (userCopyLoop (fun mem paddr kernel count =>
          kmemcpy mem paddr kernel count) now pde user kernel size).touched ∧
        piece.addr ≤ x ∧ x < piece.addr + piece.count := by
  induction size using Nat.strongRecOn with
  | ind size ih =>
      intro now user kernel x changed
      by_cases empty : size = 0
      · rw [userCopyLoop_done empty] at changed
        exact False.elim (changed rfl)
      · have positive := pieceSize_pos user empty
        rw [userCopyLoop_step empty] at changed ⊢
        by_cases later : (userCopyLoop (fun mem paddr kernel count => kmemcpy mem paddr kernel count)
            (kmemcpy now (transVtop now pde user) kernel (pieceSize user size)) pde
            ((user + pieceSize user size) % 4294967296) (kernel + pieceSize user size)
            (size - pieceSize user size)).mem x =
              kmemcpy now (transVtop now pde user) kernel (pieceSize user size) x
        · refine ⟨_, List.mem_cons_self .., ?_⟩
          by_contra outside
          apply changed
          refine later.trans ?_
          exact kmemcpy_untouched now _ kernel _ (by omega)
        · obtain ⟨piece, member, inside⟩ := ih _ (by omega) _ _ _ x later
          exact ⟨piece, List.mem_cons_of_mem _ member, inside⟩

/-- copy_to_user and copy_from_user stay in user memory exactly when the guard refuses or
the range is mapped to its end. The kernel hands out a frame for one purpose, so that no
byte a copy writes is a directory or table entry of the range. -/
theorem userCopies_confined_iff (mem : ByteMemory) (cr3 user buffer size : Nat)
    (range : user < 4294967296) (frames : FramesApart mem cr3 user size)
    (kernel : ∀ i, i < size → Uninvolved mem cr3 user size (buffer + i)) :
    (Confined mem cr3 user size (copyToUser mem cr3 user buffer size) ↔
        user < userMemoryBegin ∨ RangeMapped mem cr3 user size) ∧
      (Confined mem cr3 user size (copyFromUser mem cr3 buffer user size) ↔
        user < userMemoryBegin ∨ 2147483648 ≤ user ∨ RangeMapped mem cr3 user size) :=
  ⟨copyToUserN_confined buffer frames, copyFromUserN_confined range buffer kernel⟩

/-- A directory at 4096 whose table at 8192 maps the first user page to 12288. -/
def onePageMapped : ByteMemory := fun x =>
  if x = 5120 then 0x27 else if x = 5121 then 0x22
  else if x = 8192 then 0x27 else if x = 8193 then 0x32 else 0

theorem onePageMapped_directory : pdeValue onePageMapped 4096 256 = 8743 := by decide

theorem onePageMapped_table : pteValue onePageMapped 4096 256 0 = 12839 := by decide

theorem onePageMapped_translate {i : Nat} (inPage : i < pageSize) :
    translate onePageMapped 4096 (1073741824 + i) = some (12288 + i) := by
  have first : translate onePageMapped 4096 1073741824 = some 12288 := by decide
  exact translate_add (by unfold pageSize at *; omega) first

theorem onePageMapped_uninvolved {size x : Nat} (inPage : size ≤ pageSize) (past : 12288 ≤ x) :
    Uninvolved onePageMapped 4096 1073741824 size x := by
  unfold pageSize at inPage
  intro i inside supports
  unfold Supports at supports
  have directory : pdeIndex (1073741824 + i) = 256 := by
    unfold pdeIndex
    omega
  have table : pteIndex (1073741824 + i) = 0 := by
    unfold pteIndex
    omega
  rw [directory, table, onePageMapped_directory] at supports
  unfold alignDown pageSize at supports
  omega

theorem userCopies_confined_onePage :
    (Confined onePageMapped 4096 1073741824 2
        (copyToUser onePageMapped 4096 1073741824 16384 2) ↔
      1073741824 < userMemoryBegin ∨ RangeMapped onePageMapped 4096 1073741824 2) ∧
    (Confined onePageMapped 4096 1073741824 2
        (copyFromUser onePageMapped 4096 16384 1073741824 2) ↔
      1073741824 < userMemoryBegin ∨ 2147483648 ≤ 1073741824 ∨
        RangeMapped onePageMapped 4096 1073741824 2) := by
  apply userCopies_confined_iff
  · omega
  · intro i p inside isMapped
    rw [onePageMapped_translate (by unfold pageSize; omega)] at isMapped
    cases isMapped
    exact onePageMapped_uninvolved (by decide) (by omega)
  · intro i inside
    exact onePageMapped_uninvolved (by decide) (by omega)

/-- One byte to an address of the second user page, which has a table but no frame:
the copy answers 0 and writes the physical byte 8. -/
theorem copyToUser_unmapped :
    (copyToUser onePageMapped 4096 1073745928 16384 1).1 = 0 ∧
      ⟨8, 1⟩ ∈ (copyToUser onePageMapped 4096 1073745928 16384 1).2.touched ∧
      ¬ Confined onePageMapped 4096 1073745928 1
        (copyToUser onePageMapped 4096 1073745928 16384 1) := by
  have accepted : copyToUser onePageMapped 4096 1073745928 16384 1 = _ :=
    copyToUserN_accepted (by decide) 16384
  have unmapped : translate onePageMapped 4096 1073745928 = none := by decide
  have physical : transVtop onePageMapped 4096 1073745928 = 8 := by decide
  have one : pieceSize 1073745928 1 = 1 := by decide
  rw [accepted]
  refine ⟨rfl, ?_, ?_⟩
  · rw [userCopyLoop_step (by omega), physical, one]
    exact List.mem_cons_self ..
  · rintro (⟨refused, _⟩ | ⟨_, isMapped, _⟩)
    · cases refused
    · have inside := isMapped.mapped 0 (by omega)
      rw [Nat.add_zero, unmapped] at inside
      cases inside

end MangoOS
