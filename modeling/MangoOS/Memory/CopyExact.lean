/-
What copy_to_user and copy_from_user move (kernel/task.c).

Both loops keep that the bytes already passed are copied and that nothing else has
changed; the two together return what was stored.
-/

import MangoOS.Memory.UserCopy

namespace MangoOS

/-- A user range next to a kernel buffer: the frames behind it are memory of their own, apart
from page 0, from the buffer and from the entries that map the range.  The buffer is an object,
so it does not lie at NULL. -/
structure Backed (mem : ByteMemory) (pde user kernel size : Nat) : Prop where
  range : RangeMapped mem pde user size
  injective : ∀ i j p, i < size → j < size → translate mem pde (user + i) = some p →
    translate mem pde (user + j) = some p → i = j
  entries : FramesApart mem pde user size
  buffer : ∀ i p, i < size → translate mem pde (user + i) = some p →
    ∀ k, k < size → p ≠ kernel + k
  notNull : ∀ i p, i < size → translate mem pde (user + i) = some p → p ≠ 0
  bufferNotNull : 0 < size → kernel ≠ 0

variable {mem now : ByteMemory} {pde user kernel size total : Nat}

theorem kmemcpy_exact (mem : ByteMemory) {dest src count : Nat} (positive : 0 < count)
    (destNotNull : dest ≠ 0) (srcNotNull : src ≠ 0)
    (apart : ∀ i j, i < count → j < count → dest + i ≠ src + j) {i : Nat} (inside : i < count) :
    kmemcpy mem dest src count (dest + i) = mem (src + i) := by
  unfold kmemcpy
  rw [if_neg (by omega), Int.toNat_natCast]
  apply kmemcpyLoop_inside
  · by_contra meets
    by_cases order : dest ≤ src
    · exact apart (src - dest) 0 (by omega) positive (by omega)
    · exact apart 0 (dest - src) positive (by omega) (by omega)
  · exact inside

/-- After the first `done` bytes of a copy to the range. -/
structure StoredTo (first now : ByteMemory) (pde user kernel done : Nat) : Prop where
  copied : ∀ j p, j < done → translate first pde (user + j) = some p →
    now p = first (kernel + j)
  same : ∀ x, (∀ j, j < done → translate first pde (user + j) ≠ some x) → now x = first x

theorem StoredTo.piece (backed : Backed mem pde user kernel total) {i count p : Nat}
    (stored : StoredTo mem now pde user kernel i) (fits : i + count ≤ total)
    (positive : 0 < count)
    (page : ∀ k, k < count → translate mem pde (user + i + k) = some (p + k)) :
    StoredTo mem (kmemcpy now p (kernel + i) count) pde user kernel (i + count) := by
  have mapped : ∀ k, k < count → translate mem pde (user + (i + k)) = some (p + k) := by
    intro k inside
    rw [← Nat.add_assoc]
    exact page k inside
  have notNull : p ≠ 0 := backed.notNull i p (by omega) (mapped 0 positive)
  have bufferNotNull : kernel + i ≠ 0 := by
    have nonzero := backed.bufferNotNull (by omega)
    omega
  have apart : ∀ k j, k < count → j < count → p + k ≠ kernel + i + j := by
    intro k j inK inJ
    rw [Nat.add_assoc]
    exact backed.buffer (i + k) (p + k) (by omega) (mapped k inK) (i + j) (by omega)
  constructor
  · intro j q before isMapped
    by_cases old : j < i
    · -- a frame byte passed before is no byte of this piece
      have outside : q < p ∨ p + (count : Int).toNat ≤ q := by
        by_contra inside
        have here := mapped (q - p) (by omega)
        rw [show p + (q - p) = q by omega] at here
        have same := backed.injective j (i + (q - p)) q (by omega) (by omega) isMapped here
        omega
      rw [kmemcpy_outside _ _ _ _ outside]
      exact stored.copied j q old isMapped
    · have here := mapped (j - i) (by omega)
      rw [show i + (j - i) = j by omega, isMapped, Option.some.injEq] at here
      rw [here, kmemcpy_exact now positive notNull bufferNotNull apart (by omega),
        (by omega : kernel + i + (j - i) = kernel + j)]
      apply stored.same
      intro k before isBuffer
      exact backed.buffer k _ (by omega) isBuffer j (by omega) rfl
  · intro x unmapped
    have outside : x < p ∨ p + (count : Int).toNat ≤ x := by
      by_contra inside
      apply unmapped (i + (x - p)) (by omega)
      rw [mapped (x - p) (by omega), Option.some.injEq]
      omega
    rw [kmemcpy_outside _ _ _ _ outside]
    exact stored.same x (fun j before => unmapped j (by omega))

/-- What every piece keeps, the whole loop keeps; the entries of the range must read on as
they did. -/
theorem userCopyLoop_keeps {move : ByteMemory → Nat → Nat → Nat → ByteMemory}
    (kept : Nat → ByteMemory → Prop) (range : RangeMapped mem pde user total)
    (reads : ∀ i now, i ≤ total → kept i now → ∀ j, j < total →
      translate now pde (user + j) = translate mem pde (user + j))
    (piece : ∀ i count p now, kept i now → i + count ≤ total → 0 < count →
      (∀ k, k < count → translate mem pde (user + i + k) = some (p + k)) →
      kept (i + count) (move now p (kernel + i) count)) (size : Nat) :
    ∀ now i, i + size = total → kept i now →
      kept total (userCopyLoop move now pde (user + i) (kernel + i) size).mem := by
  induction size using Nat.strongRecOn with
  | ind size ih =>
      intro now i split keeps
      by_cases empty : size = 0
      · rw [userCopyLoop_done empty, ← split, empty]
        exact keeps
      · have positive := pieceSize_pos (user + i) empty
        have fits := pieceSize_le (user + i) size
        have below := range.below
        obtain ⟨p, isMapped⟩ := Option.isSome_iff_exists.mp (range.mapped i (by omega))
        have physical : transVtop now pde (user + i) = p := by
          apply transVtop_of_translate
          rw [reads i now (by omega) keeps i (by omega)]
          exact isMapped
        have page : ∀ k, k < pieceSize (user + i) size →
            translate mem pde (user + i + k) = some (p + k) := by
          intro k inside
          exact translate_add (pieceSize_inPage _ _ inside) isMapped
        rw [userCopyLoop_step empty, physical]
        generalize pieceSize (user + i) size = count at *
        have moved := piece i count p now keeps (by omega) positive page
        by_cases last : size - count = 0
        · have whole : i + count = total := by omega
          rw [userCopyLoop_done last]
          rw [whole] at moved
          exact moved
        · rw [Nat.mod_eq_of_lt (by omega), Nat.add_assoc, Nat.add_assoc]
          exact ih (size - count) (by omega) _ (i + count) (by omega) moved

/-- Copying to the range: every byte of it is stored and nothing else changes. -/
theorem copyToUserN_stored (backed : Backed mem pde user kernel size)
    (high : userMemoryBegin ≤ user) :
    (copyToUserN mem pde user kernel size).1 = 0 ∧
      StoredTo mem (copyToUserN mem pde user kernel size).2.mem pde user kernel size := by
  rw [copyToUserN_accepted high]
  have start : StoredTo mem mem pde user kernel 0 :=
    ⟨fun j p before => absurd before (Nat.not_lt_zero j), fun x _ => rfl⟩
  refine ⟨rfl, userCopyLoop_keeps (fun i now => StoredTo mem now pde user kernel i) backed.range
    ?_ ?_ size mem 0 (Nat.zero_add size) start⟩
  · intro i now inRange stored j inside
    apply translate_congr
    intro x supports
    apply stored.same
    intro k before isMapped
    exact backed.entries k x (by omega) isMapped j inside supports
  · intro i count p now stored fits positive page
    exact stored.piece backed fits positive page

/-- The copy in the words of the hardware: the frames of the range hold the buffer. -/
structure VirtualCopy (mem : ByteMemory) (pde user kernel size : Nat) (out : Int × UserCopy) :
    Prop where
  answer : out.1 = 0
  stored : ∀ k, k < size → ∃ p, translate mem pde (user + k) = some p ∧
    translate out.2.mem pde (user + k) = some p ∧ out.2.mem p = mem (kernel + k)
  frame : ∀ x, (∀ k, k < size → translate mem pde (user + k) ≠ some x) → out.2.mem x = mem x

/-- copy_to_user_n is an exact copy to the range. -/
theorem copyToUserN_exact (backed : Backed mem pde user kernel size)
    (high : userMemoryBegin ≤ user) :
    VirtualCopy mem pde user kernel size (copyToUserN mem pde user kernel size) := by
  obtain ⟨answer, stored⟩ := copyToUserN_stored backed high
  refine ⟨answer, ?_, stored.same⟩
  intro k inside
  obtain ⟨p, isMapped⟩ := Option.isSome_iff_exists.mp (backed.range.mapped k inside)
  refine ⟨p, isMapped, ?_, stored.copied k p inside isMapped⟩
  rw [← isMapped]
  apply translate_congr
  intro x supports
  apply stored.same
  intro j inRange isFrame
  exact backed.entries j x inRange isFrame k inside supports

/-- After the first `done` bytes of a copy from the range. -/
structure FetchedFrom (first now : ByteMemory) (pde user kernel done : Nat) : Prop where
  copied : ∀ j p, j < done → translate first pde (user + j) = some p →
    now (kernel + j) = first p
  same : ∀ x, (∀ j, j < done → x ≠ kernel + j) → now x = first x

theorem FetchedFrom.piece (backed : Backed mem pde user kernel total) {i count p : Nat}
    (fetched : FetchedFrom mem now pde user kernel i) (fits : i + count ≤ total)
    (positive : 0 < count)
    (page : ∀ k, k < count → translate mem pde (user + i + k) = some (p + k)) :
    FetchedFrom mem (kmemcpy now (kernel + i) p count) pde user kernel (i + count) := by
  have mapped : ∀ k, k < count → translate mem pde (user + (i + k)) = some (p + k) := by
    intro k inside
    rw [← Nat.add_assoc]
    exact page k inside
  have notNull : p ≠ 0 := backed.notNull i p (by omega) (mapped 0 positive)
  have bufferNotNull : kernel + i ≠ 0 := by
    have nonzero := backed.bufferNotNull (by omega)
    omega
  have apart : ∀ k j, k < count → j < count → kernel + i + k ≠ p + j := by
    intro k j inK inJ same
    rw [Nat.add_assoc] at same
    exact backed.buffer (i + j) (p + j) (by omega) (mapped j inJ) (i + k) (by omega) same.symm
  constructor
  · intro j q before isMapped
    by_cases old : j < i
    · rw [kmemcpy_outside _ _ _ _ (by omega)]
      exact fetched.copied j q old isMapped
    · have here := mapped (j - i) (by omega)
      rw [show i + (j - i) = j by omega, isMapped, Option.some.injEq] at here
      have moved := kmemcpy_exact now positive bufferNotNull notNull apart
        (by omega : j - i < count)
      rw [show kernel + i + (j - i) = kernel + j by omega] at moved
      rw [moved, here]
      apply fetched.same
      intro k before isBuffer
      rw [← here] at isBuffer
      exact backed.buffer j q (by omega) isMapped k (by omega) isBuffer
  · intro x away
    have outside : x < kernel + i ∨ kernel + i + (count : Int).toNat ≤ x := by
      by_contra inside
      exact away (x - kernel) (by omega) (by omega)
    rw [kmemcpy_outside _ _ _ _ outside]
    exact fetched.same x (fun j before => away j (by omega))

/-- Copying from the range below 2^31: the buffer holds the range. -/
theorem copyFromUserN_fetched (backed : Backed mem pde user kernel size)
    (apart : ∀ k, k < size → Uninvolved mem pde user size (kernel + k))
    (high : userMemoryBegin ≤ user) (low : user < 2147483648) :
    (copyFromUserN mem pde kernel user size).1 = 0 ∧
      FetchedFrom mem (copyFromUserN mem pde kernel user size).2.mem pde user kernel size := by
  rw [copyFromUserN_accepted (by omega) (by omega)]
  have start : FetchedFrom mem mem pde user kernel 0 :=
    ⟨fun j p before => absurd before (Nat.not_lt_zero j), fun x _ => rfl⟩
  refine ⟨rfl, userCopyLoop_keeps (fun i now => FetchedFrom mem now pde user kernel i)
    backed.range ?_ ?_ size mem 0 (Nat.zero_add size) start⟩
  · intro i now inRange fetched j inside
    apply translate_congr
    intro x supports
    apply fetched.same
    intro k before isBuffer
    rw [isBuffer] at supports
    exact apart k (by omega) j inside supports
  · intro i count p now fetched fits positive page
    exact fetched.piece backed fits positive page

/-! ### There and back -/

/-- Memory that reads alike at the entries of the range maps it alike. -/
theorem supports_congr {other : ByteMemory}
    (same : ∀ j, j < size → ∀ x, Supports mem pde (user + j) x → other x = mem x) {j : Nat}
    (inside : j < size) :
    translate other pde (user + j) = translate mem pde (user + j) ∧
      ∀ x, Supports other pde (user + j) x ↔ Supports mem pde (user + j) x := by
  have directory : pdeValue other pde (pdeIndex (user + j)) =
      pdeValue mem pde (pdeIndex (user + j)) := by
    apply ByteMemory.word_congr
    intro x lower upper
    exact same j inside x (Or.inl ⟨lower, upper⟩)
  refine ⟨translate_congr (same j inside), ?_⟩
  intro x
  unfold Supports
  rw [directory]

theorem Backed.congr {other : ByteMemory} (backed : Backed mem pde user kernel size)
    (same : ∀ j, j < size → ∀ x, Supports mem pde (user + j) x → other x = mem x) :
    Backed other pde user kernel size := by
  have maps : ∀ j, j < size → translate other pde (user + j) = translate mem pde (user + j) :=
    fun j inside => (supports_congr same inside).1
  constructor
  · refine ⟨backed.range.below, ?_⟩
    intro i inside
    rw [maps i inside]
    exact backed.range.mapped i inside
  · intro i j p inI inJ mappedI mappedJ
    rw [maps i inI] at mappedI
    rw [maps j inJ] at mappedJ
    exact backed.injective i j p inI inJ mappedI mappedJ
  · intro i p inI mappedI j inJ supports
    rw [maps i inI] at mappedI
    exact backed.entries i p inI mappedI j inJ
      (((supports_congr same inJ).2 p).mp supports)
  · intro i p inI mappedI
    rw [maps i inI] at mappedI
    exact backed.buffer i p inI mappedI
  · intro i p inI mappedI
    rw [maps i inI] at mappedI
    exact backed.notNull i p inI mappedI
  · exact backed.bufferNotNull

/-- What is stored with copy_to_user comes back with copy_from_user. -/
def RoundTrip (mem : ByteMemory) (cr3 user src dst size : Nat) : Prop :=
  (copyToUser mem cr3 user src size).1 = 0 ∧
    (copyFromUser (copyToUser mem cr3 user src size).2.mem cr3 dst user size).1 = 0 ∧
    ∀ k, k < size →
      (copyFromUser (copyToUser mem cr3 user src size).2.mem cr3 dst user size).2.mem (dst + k) =
        mem (src + k)

/-- The copies are inverse exactly on the range that starts below 2^31: from there on the
`int` comparison of copy_from_user refuses the address. -/
theorem copies_roundTrip_iff {src dst : Nat} (stores : Backed mem pde user src size)
    (fetches : Backed mem pde user dst size)
    (apart : ∀ k, k < size → Uninvolved mem pde user size (dst + k))
    (high : userMemoryBegin ≤ user) (range : user < 4294967296) :
    RoundTrip mem pde user src dst size ↔ user < 2147483648 := by
  obtain ⟨answer, stored⟩ := copyToUserN_stored stores high
  change (copyToUser mem pde user src size).1 = 0 at answer
  change StoredTo mem (copyToUser mem pde user src size).2.mem pde user src size at stored
  unfold RoundTrip
  generalize (copyToUser mem pde user src size).2.mem = after at stored ⊢
  constructor
  · rintro ⟨_, accepted, _⟩
    by_contra beyond
    have refused : copyFromUser after pde dst user size = (-1, ⟨after, []⟩) :=
      copyFromUserN_refused range (Or.inr (by omega)) dst
    rw [refused] at accepted
    cases accepted
  · intro low
    have same : ∀ j, j < size → ∀ x, Supports mem pde (user + j) x → after x = mem x := by
      intro j inside x supports
      apply stored.same
      intro k inRange isFrame
      exact stores.entries k x inRange isFrame j inside supports
    have stillApart : ∀ k, k < size → Uninvolved after pde user size (dst + k) := by
      intro k inside j inRange supports
      exact apart k inside j inRange (((supports_congr same inRange).2 _).mp supports)
    obtain ⟨fetched, held⟩ := copyFromUserN_fetched (fetches.congr same) stillApart high low
    refine ⟨answer, fetched, ?_⟩
    intro k inside
    obtain ⟨p, isMapped⟩ := Option.isSome_iff_exists.mp (stores.range.mapped k inside)
    have mapped := (supports_congr same inside).1.trans isMapped
    exact (held.copied k p inside mapped).trans (stored.copied k p inside isMapped)

/-! ### One page behind the entry `i` of a directory at 4096 -/

/-- The table at 8192 maps the first page of the entry to 12288. -/
structure FirstPage (mem : ByteMemory) (i : Nat) : Prop where
  index : i < 1024
  directory : pdeValue mem 4096 i = 8743
  table : pteValue mem 4096 i 0 = 12839

variable {i : Nat}

theorem firstPage_indices (i : Nat) {k : Nat} (inPage : k < 4096) :
    pdeIndex (4194304 * i + k) = i ∧ pteIndex (4194304 * i + k) = 0 := by
  unfold pdeIndex pteIndex
  omega

theorem FirstPage.translate_eq (first : FirstPage mem i) {k : Nat} (inPage : k < 4096) :
    translate mem 4096 (4194304 * i + k) = some (12288 + k) := by
  obtain ⟨directory, table⟩ := firstPage_indices i inPage
  have offset : (4194304 * i + k) % pageSize = k := by
    unfold pageSize
    omega
  have bothPresent : present 8743 = true ∧ present 12839 = true := by decide
  have frame : alignDown 12839 = 12288 := by decide
  unfold translate
  rw [directory, table, first.directory, first.table, if_pos bothPresent, offset, frame]

theorem FirstPage.uninvolved (first : FirstPage mem i) (inPage : size ≤ 4096) {x : Nat}
    (past : 12288 ≤ x) : Uninvolved mem 4096 (4194304 * i) size x := by
  intro k inside supports
  obtain ⟨directory, table⟩ := firstPage_indices i (by omega : k < 4096)
  have index := first.index
  have frame : alignDown 8743 = 8192 := by decide
  unfold Supports at supports
  rw [directory, table, first.directory, frame] at supports
  omega

theorem FirstPage.backed (first : FirstPage mem i) (inPage : size ≤ 4096)
    (behind : 16384 ≤ kernel) : Backed mem 4096 (4194304 * i) kernel size := by
  have maps : ∀ k p, k < size → translate mem 4096 (4194304 * i + k) = some p → p = 12288 + k := by
    intro k p inside isMapped
    rw [first.translate_eq (by omega), Option.some.injEq] at isMapped
    exact isMapped.symm
  have index := first.index
  constructor
  · refine ⟨by omega, ?_⟩
    intro k inside
    rw [first.translate_eq (by omega)]
    rfl
  · intro j k p inJ inK mappedJ mappedK
    have first := maps j p inJ mappedJ
    have second := maps k p inK mappedK
    omega
  · intro k p inside isMapped
    rw [maps k p inside isMapped]
    exact first.uninvolved inPage (by omega)
  · intro k p inside isMapped j inJ same
    have isFrame := maps k p inside isMapped
    omega
  · intro k p inside isMapped
    have isFrame := maps k p inside isMapped
    omega
  · intro _
    omega

theorem onePageMapped_first : FirstPage onePageMapped 256 :=
  ⟨by decide, onePageMapped_directory, onePageMapped_table⟩

/-- A directory at 4096 whose table at 8192 maps the page at 2^31 to 12288. -/
def highPageMapped : ByteMemory := fun x =>
  if x = 6144 then 0x27 else if x = 6145 then 0x22
  else if x = 8192 then 0x27 else if x = 8193 then 0x32 else 0

theorem highPageMapped_first : FirstPage highPageMapped 512 :=
  ⟨by decide, by decide, by decide⟩

/-- 100 bytes to the first user page. -/
theorem copyToUserN_exact_onePage :
    VirtualCopy onePageMapped 4096 (4194304 * 256) 16384 100
      (copyToUserN onePageMapped 4096 (4194304 * 256) 16384 100) :=
  copyToUserN_exact (onePageMapped_first.backed (by decide) (by decide)) (by decide)

theorem copies_roundTrip_onePage :
    RoundTrip onePageMapped 4096 (4194304 * 256) 16384 20480 100 ↔
      4194304 * 256 < 2147483648 :=
  copies_roundTrip_iff (onePageMapped_first.backed (by decide) (by decide))
    (onePageMapped_first.backed (by decide) (by decide))
    (fun _ _ => onePageMapped_first.uninvolved (by decide) (by omega)) (by decide) (by decide)

/-- A page at 2^31 is written but not read back. -/
theorem roundTrip_highPage :
    Backed highPageMapped 4096 (4194304 * 512) 16384 100 ∧
      Backed highPageMapped 4096 (4194304 * 512) 20480 100 ∧
      ¬ RoundTrip highPageMapped 4096 (4194304 * 512) 16384 20480 100 := by
  refine ⟨highPageMapped_first.backed (by decide) (by decide),
    highPageMapped_first.backed (by decide) (by decide), ?_⟩
  rintro ⟨_, accepted, _⟩
  generalize (copyToUser highPageMapped 4096 (4194304 * 512) 16384 100).2.mem = after at accepted
  have refused : copyFromUser after 4096 20480 (4194304 * 512) 100 = (-1, ⟨after, []⟩) :=
    copyFromUserN_refused (by decide) (Or.inr (by decide)) 20480
  rw [refused] at accepted
  cases accepted

end MangoOS
