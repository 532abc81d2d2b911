/-
destroy_pde (mm/page.c): the pages of an address space go back to the bitmap.

The addresses given to free_pages are listed beside the memory.
-/

import Mathlib.Data.List.Basic
import MangoOS.Memory.AddressSpace
import MangoOS.Memory.UserCopy

namespace MangoOS

open PhysicalMemory

/-- The loop over one table: every present page is freed and its entry cleared. -/
def destroyTableLoop (s : PhysicalMemory) (pte j : Nat) :
    (count : Nat) → List Nat × PhysicalMemory
  | 0 => ([], s)
  | count + 1 =>
      let value := s.mem.word (pte + 4 * j)
      if present value then
        let s := s.freePage (alignDown value)
        let rest := destroyTableLoop (s.setMem (s.mem.setWord (pte + 4 * j) 0)) pte (j + 1) count
        (alignDown value :: rest.1, rest.2)
      else destroyTableLoop s pte (j + 1) count

def destroyPdeLoop (s : PhysicalMemory) (pde i : Nat) :
    (count : Nat) → List Nat × PhysicalMemory
  | 0 => ([], s)
  | count + 1 =>
      if present (pdeValue s.mem pde i) then
        let frames := destroyTableLoop s (alignDown (pdeValue s.mem pde i)) 0 1024
        let table := alignDown (pdeValue frames.2.mem pde i)
        let s := frames.2.freePage table
        let rest := destroyPdeLoop (s.setMem (s.mem.setWord (pde + 4 * i) 0)) pde (i + 1) count
        (frames.1 ++ table :: rest.1, rest.2)
      else destroyPdeLoop s pde (i + 1) count

def destroyPde (s : PhysicalMemory) (pageDir : Nat) : List Nat × PhysicalMemory :=
  let tables := destroyPdeLoop s pageDir userStartIndex (1024 - userStartIndex)
  (tables.1 ++ [pageDir], tables.2.freePage pageDir)

/-! ### The pages of an address space -/

/-- The frames of the present entries of a table from `j` on. -/
def tableFrames (mem : ByteMemory) (table j count : Nat) : List Nat :=
  (((List.range' j count).map fun j => mem.word (table + 4 * j)).filter present).map alignDown

/-- The frames and the table behind the directory entry `i`. -/
def entryPages (mem : ByteMemory) (pde i : Nat) : List Nat :=
  if present (pdeValue mem pde i) then
    tableFrames mem (alignDown (pdeValue mem pde i)) 0 1024 ++ [alignDown (pdeValue mem pde i)]
  else []

/-- All pages that belong to a directory: frames and tables of its user half, and itself. -/
def spacePages (mem : ByteMemory) (pde : Nat) : List Nat :=
  (List.range' userStartIndex (1024 - userStartIndex)).flatMap (entryPages mem pde) ++ [pde]

/-! ### One table -/

theorem used_freePage (s : PhysicalMemory) (addr p : Nat) :
    (s.freePage addr).Used p ↔ s.Used p ∧ p ≠ addr / pageSize := by
  unfold Used freePage freePages bitmapFreeBits
  rw [bitmapSetBits_used s.pages (addr / pageSize) 1 p false (Nat.le_refl 1)]
  by_cases same : p = addr / pageSize
  · rw [if_pos (by omega)]
    simp [same]
  · rw [if_neg (by omega)]
    simp [same]

theorem alignDown_div (value : Nat) : alignDown value / pageSize = value / pageSize := by
  rw [alignDown_eq]
  exact Nat.mul_div_cancel _ (by decide)

/-- What freeing the pages `freed` leaves, apart from the memory. -/
structure Freed (s after : PhysicalMemory) (freed : List Nat) : Prop where
  nbits : after.pages.nbits = s.pages.nbits
  used : ∀ p, after.Used p ↔ s.Used p ∧ ∀ a, a ∈ freed → p ≠ a / pageSize

namespace Freed

variable {s middle after : PhysicalMemory} {first second : List Nat}

theorem refl (s : PhysicalMemory) : Freed s s [] :=
  ⟨rfl, fun p => by simp⟩

theorem trans (one : Freed s middle first) (two : Freed middle after second) :
    Freed s after (first ++ second) := by
  refine ⟨two.nbits.trans one.nbits, ?_⟩
  intro p
  rw [two.used p, one.used p]
  simp only [List.mem_append, or_imp, forall_and, and_assoc]

theorem one (s : PhysicalMemory) (addr : Nat) : Freed s (s.freePage addr) [addr] := by
  refine ⟨bitmapSetBits_nbits .., ?_⟩
  intro p
  rw [used_freePage]
  simp

theorem setMem (freed : Freed s after first) (mem : ByteMemory) :
    Freed s (after.setMem mem) first :=
  ⟨freed.nbits, freed.used⟩

end Freed

theorem destroyTableLoop_spec (pte count : Nat) (s : PhysicalMemory) (j : Nat) :
    (destroyTableLoop s pte j count).1 = tableFrames s.mem pte j count ∧
      Freed s (destroyTableLoop s pte j count).2 (tableFrames s.mem pte j count) ∧
      ∀ x, x < pte + 4 * j ∨ pte + 4 * (j + count) ≤ x →
        (destroyTableLoop s pte j count).2.mem x = s.mem x := by
  induction count generalizing s j with
  | zero => exact ⟨rfl, Freed.refl s, fun _ _ => rfl⟩
  | succ count ih =>
      by_cases isPresent : present (s.mem.word (pte + 4 * j)) = true
      · have later : tableFrames (s.mem.setWord (pte + 4 * j) 0) pte (j + 1) count =
            tableFrames s.mem pte (j + 1) count := by
          unfold tableFrames
          congr 2
          apply List.map_congr_left
          intro k member
          have behind := (List.mem_range'_1.mp member).1
          exact ByteMemory.word_setWord_other _ _ (by omega)
        have frames : tableFrames s.mem pte j (count + 1) =
            alignDown (s.mem.word (pte + 4 * j)) :: tableFrames s.mem pte (j + 1) count := by
          simp [tableFrames, List.range'_succ, isPresent]
        obtain ⟨listed, freed, outside⟩ := ih
          ((s.freePage (alignDown (s.mem.word (pte + 4 * j)))).setMem
            (s.mem.setWord (pte + 4 * j) 0)) (j + 1)
        rw [setMem_mem, later] at listed freed
        have result : destroyTableLoop s pte j (count + 1) =
            (alignDown (s.mem.word (pte + 4 * j)) ::
              (destroyTableLoop ((s.freePage (alignDown (s.mem.word (pte + 4 * j)))).setMem
                (s.mem.setWord (pte + 4 * j) 0)) pte (j + 1) count).1,
              (destroyTableLoop ((s.freePage (alignDown (s.mem.word (pte + 4 * j)))).setMem
                (s.mem.setWord (pte + 4 * j) 0)) pte (j + 1) count).2) := by
          rw [destroyTableLoop]
          simp only [if_pos isPresent]
          rfl
        rw [result, frames]
        refine ⟨by rw [listed], ?_, ?_⟩
        · exact ((Freed.one s _).setMem _).trans freed
        · intro x away
          rw [outside x (by omega)]
          exact ByteMemory.setWord_other _ _ (by omega)
      · have frames : tableFrames s.mem pte j (count + 1) = tableFrames s.mem pte (j + 1) count := by
          simp [tableFrames, List.range'_succ, isPresent]
        have result : destroyTableLoop s pte j (count + 1) =
            destroyTableLoop s pte (j + 1) count := by
          rw [destroyTableLoop]
          simp only [if_neg isPresent]
        obtain ⟨listed, freed, outside⟩ := ih s (j + 1)
        rw [result, frames]
        exact ⟨listed, freed, fun x away => outside x (by omega)⟩

/-! ### The directory -/

/-- Memory that agrees outside one table and one directory entry has the same pages behind the
entries of the other tables. -/
private theorem entryPages_congr {mem other : ByteMemory} {pde table i k : Nat}
    (aligned : pageSize ∣ pde) (small : k < 1024) (index : i < 1024) (different : k ≠ i)
    (same : ∀ x, x / pageSize ≠ table → (x < pde + 4 * i ∨ pde + 4 * i + 4 ≤ x) →
      other x = mem x)
    (tableApart : table ≠ pde / pageSize)
    (apart : present (pdeValue mem pde k) = true →
      pdeValue mem pde k / pageSize ≠ table ∧ pdeValue mem pde k / pageSize ≠ pde / pageSize) :
    pdeValue other pde k = pdeValue mem pde k ∧ entryPages other pde k = entryPages mem pde k := by
  obtain ⟨n, isPage⟩ := aligned
  have entry : pdeValue other pde k = pdeValue mem pde k := by
    apply ByteMemory.word_congr
    intro x lower upper
    apply same
    · have inDirectory : x / pageSize = pde / pageSize := by
        unfold pageSize at *
        omega
      rw [inDirectory]
      exact tableApart.symm
    · omega
  refine ⟨entry, ?_⟩
  unfold entryPages
  rw [entry]
  by_cases isPresent : present (pdeValue mem pde k) = true
  · obtain ⟨notTable, notDirectory⟩ := apart isPresent
    have frames : tableFrames other (alignDown (pdeValue mem pde k)) 0 1024 =
        tableFrames mem (alignDown (pdeValue mem pde k)) 0 1024 := by
      unfold tableFrames
      congr 2
      apply List.map_congr_left
      intro j member
      have inTable := (List.mem_range'_1.mp member).2
      apply ByteMemory.word_congr
      intro x lower upper
      have page : x / pageSize = pdeValue mem pde k / pageSize := by
        rw [alignDown_eq] at lower upper
        unfold pageSize at *
        omega
      apply same
      · rw [page]
        exact notTable
      · by_contra inEntry
        apply notDirectory
        rw [← page]
        unfold pageSize at *
        omega
    rw [frames]
  · rw [if_neg isPresent, if_neg isPresent]

private theorem table_mem {mem : ByteMemory} {pde i : Nat}
    (isPresent : present (pdeValue mem pde i) = true) :
    alignDown (pdeValue mem pde i) ∈ entryPages mem pde i := by
  unfold entryPages
  rw [if_pos isPresent]
  exact List.mem_append_right _ (List.mem_singleton_self _)

/-- A table of its own: apart from the directory and from the tables of later entries. -/
private theorem table_apart {mem : ByteMemory} {pde i count : Nat} (aligned : pageSize ∣ pde)
    (isPresent : present (pdeValue mem pde i) = true)
    (distinct : (entryPages mem pde i ++ (List.range' (i + 1) count).flatMap (entryPages mem pde) ++
      [pde]).Nodup) :
    pdeValue mem pde i / pageSize ≠ pde / pageSize ∧
      ∀ k, k ∈ List.range' (i + 1) count → present (pdeValue mem pde k) = true →
        pdeValue mem pde k / pageSize ≠ pdeValue mem pde i / pageSize ∧
          pdeValue mem pde k / pageSize ≠ pde / pageSize := by
  obtain ⟨n, isPage⟩ := aligned
  have here := table_mem isPresent
  obtain ⟨front, _, last⟩ := List.nodup_append.mp distinct
  obtain ⟨_, _, rest⟩ := List.nodup_append.mp front
  have page : ∀ value, value / pageSize = pde / pageSize → alignDown value = pde := by
    intro value same
    rw [alignDown_eq, same, isPage]
    unfold pageSize
    omega
  constructor
  · intro same
    exact last _ (List.mem_append_left _ here) pde (List.mem_singleton_self _) (page _ same)
  · intro k member presentK
    have inRest : alignDown (pdeValue mem pde k) ∈
        (List.range' (i + 1) count).flatMap (entryPages mem pde) :=
      List.mem_flatMap.mpr ⟨k, member, table_mem presentK⟩
    constructor
    · intro same
      apply rest _ here _ inRest
      rw [alignDown_eq, alignDown_eq, same]
    · intro same
      exact last _ (List.mem_append_right _ inRest) pde (List.mem_singleton_self _) (page _ same)

theorem destroyPdeLoop_spec {pde : Nat} (aligned : pageSize ∣ pde) (count : Nat)
    (s : PhysicalMemory) (i : Nat) (small : i + count ≤ 1024)
    (distinct : ((List.range' i count).flatMap (entryPages s.mem pde) ++ [pde]).Nodup) :
    (destroyPdeLoop s pde i count).1 = (List.range' i count).flatMap (entryPages s.mem pde) ∧
      Freed s (destroyPdeLoop s pde i count).2
        ((List.range' i count).flatMap (entryPages s.mem pde)) ∧
      ∀ x, (x < pde + 4 * i ∨ pde + 4 * (i + count) ≤ x) →
        (∀ k, i ≤ k → k < i + count → present (pdeValue s.mem pde k) = true →
          x / pageSize ≠ pdeValue s.mem pde k / pageSize) →
        (destroyPdeLoop s pde i count).2.mem x = s.mem x := by
  induction count generalizing s i with
  | zero => exact ⟨rfl, Freed.refl s, fun _ _ _ => rfl⟩
  | succ count ih =>
      rw [List.range'_succ, List.flatMap_cons] at distinct ⊢
      by_cases isPresent : present (pdeValue s.mem pde i) = true
      · obtain ⟨tableListed, tableFreed, tableOutside⟩ := destroyTableLoop_spec
          (alignDown (pdeValue s.mem pde i)) 1024 s 0
        have here : entryPages s.mem pde i =
            tableFrames s.mem (alignDown (pdeValue s.mem pde i)) 0 1024 ++
              [alignDown (pdeValue s.mem pde i)] := by
          unfold entryPages
          rw [if_pos isPresent]
        obtain ⟨apartPde, apartRest⟩ := table_apart aligned isPresent distinct
        generalize isTables : destroyTableLoop s (alignDown (pdeValue s.mem pde i)) 0 1024 =
          tables at tableListed tableFreed tableOutside
        -- the loop over the table leaves the directory
        have entry : pdeValue tables.2.mem pde i = pdeValue s.mem pde i := by
          obtain ⟨n, isPage⟩ := aligned
          apply ByteMemory.word_congr
          intro x lower upper
          apply tableOutside
          rw [alignDown_eq]
          unfold pageSize at *
          omega
        have same : ∀ x, x / pageSize ≠ pdeValue s.mem pde i / pageSize →
            (x < pde + 4 * i ∨ pde + 4 * i + 4 ≤ x) →
            (tables.2.mem.setWord (pde + 4 * i) 0) x = s.mem x := by
          intro x notTable notEntry
          rw [ByteMemory.setWord_other _ _ notEntry]
          apply tableOutside
          rw [alignDown_eq]
          unfold pageSize at *
          omega
        have later : ∀ k, k ∈ List.range' (i + 1) count →
            pdeValue (tables.2.mem.setWord (pde + 4 * i) 0) pde k = pdeValue s.mem pde k ∧
              entryPages (tables.2.mem.setWord (pde + 4 * i) 0) pde k =
                entryPages s.mem pde k := by
          intro k member
          have bounds := List.mem_range'_1.mp member
          refine entryPages_congr aligned (by omega) (by omega) (by omega) same apartPde ?_
          intro presentK
          exact apartRest k member presentK
        have result : destroyPdeLoop s pde i (count + 1) =
            (tables.1 ++ alignDown (pdeValue s.mem pde i) ::
              (destroyPdeLoop ((tables.2.freePage (alignDown (pdeValue s.mem pde i))).setMem
                (tables.2.mem.setWord (pde + 4 * i) 0)) pde (i + 1) count).1,
              (destroyPdeLoop ((tables.2.freePage (alignDown (pdeValue s.mem pde i))).setMem
                (tables.2.mem.setWord (pde + 4 * i) 0)) pde (i + 1) count).2) := by
          rw [destroyPdeLoop]
          simp only [if_pos isPresent, isTables, entry]
          rfl
        have restPages : (List.range' (i + 1) count).flatMap
            (entryPages (tables.2.mem.setWord (pde + 4 * i) 0) pde) =
              (List.range' (i + 1) count).flatMap (entryPages s.mem pde) :=
          List.flatMap_congr (fun k member => (later k member).2)
        obtain ⟨listed, freed, outside⟩ := ih
          ((tables.2.freePage (alignDown (pdeValue s.mem pde i))).setMem
            (tables.2.mem.setWord (pde + 4 * i) 0)) (i + 1) (by omega) (by
              rw [setMem_mem, restPages]
              rw [List.append_assoc] at distinct
              exact (List.nodup_append.mp distinct).2.1)
        rw [setMem_mem, restPages] at listed freed
        rw [result, here]
        refine ⟨by rw [listed, tableListed, List.append_assoc]; rfl, ?_, ?_⟩
        · exact (tableFreed.trans ((Freed.one _ _).setMem _)).trans freed
        · intro x away notTable
          have notHere := notTable i (Nat.le_refl i) (by omega) isPresent
          rw [outside x (by omega) ?_]
          · exact same x notHere (by omega)
          · intro k lower upper presentK
            have inRest : k ∈ List.range' (i + 1) count := List.mem_range'_1.mpr ⟨lower, by omega⟩
            rw [setMem_mem, (later k inRest).1] at presentK ⊢
            exact notTable k (by omega) (by omega) presentK
      · have nothing : entryPages s.mem pde i = [] := by
          unfold entryPages
          rw [if_neg isPresent]
        have result : destroyPdeLoop s pde i (count + 1) = destroyPdeLoop s pde (i + 1) count := by
          rw [destroyPdeLoop]
          simp only [if_neg isPresent]
        rw [nothing, List.nil_append] at distinct ⊢
        obtain ⟨listed, freed, outside⟩ := ih s (i + 1) (by omega) distinct
        rw [result]
        exact ⟨listed, freed, fun x away notTable =>
          outside x (by omega) (fun k lower upper => notTable k (by omega) (by omega))⟩

/-- What destroy_pde writes: the user half of the directory, and its user tables. -/
def UserHalf (mem : ByteMemory) (pde x : Nat) : Prop :=
  (pde + 4 * userStartIndex ≤ x ∧ x < pde + pageSize) ∨
    ∃ i, UserIndex i ∧ present (pdeValue mem pde i) = true ∧
      x / pageSize = pdeValue mem pde i / pageSize

/-- destroy_pde gives back the pages of the address space, each once and no other, and writes
the user half only. -/
structure Destroyed (s after : PhysicalMemory) (pde : Nat) (freed : List Nat) : Prop where
  pages : freed = spacePages s.mem pde
  nbits : after.pages.nbits = s.pages.nbits
  free : ∀ a, a ∈ spacePages s.mem pde → ¬ after.Used (a / pageSize)
  others : ∀ p, (∀ a, a ∈ spacePages s.mem pde → p ≠ a / pageSize) → (after.Used p ↔ s.Used p)
  bytes : ∀ x, after.mem x ≠ s.mem x → UserHalf s.mem pde x

theorem destroyPde_exact (s : PhysicalMemory) {pde : Nat} (aligned : pageSize ∣ pde)
    (distinct : (spacePages s.mem pde).Nodup) :
    Destroyed s (destroyPde s pde).2 pde (destroyPde s pde).1 := by
  obtain ⟨listed, freed, outside⟩ := destroyPdeLoop_spec aligned (1024 - userStartIndex) s
    userStartIndex (by decide) distinct
  have whole : Freed s (destroyPde s pde).2 (spacePages s.mem pde) := freed.trans (Freed.one _ pde)
  have end_eq : userStartIndex + (1024 - userStartIndex) = 1024 := rfl
  constructor
  · unfold destroyPde spacePages
    simp only
    rw [listed]
  · exact whole.nbits
  · intro a member used
    exact ((whole.used _).mp used).2 a member rfl
  · intro p notListed
    rw [whole.used p]
    exact and_iff_left notListed
  · intro x changed
    by_contra elsewhere
    apply changed
    change (destroyPdeLoop s pde userStartIndex (1024 - userStartIndex)).2.mem x = s.mem x
    apply outside
    · by_contra inside
      apply elsewhere
      left
      rw [end_eq] at inside
      unfold pageSize
      omega
    · intro k lower upper isPresent same
      rw [end_eq] at upper
      exact elsewhere (Or.inr ⟨k, ⟨lower, upper⟩, isPresent, same⟩)

theorem onePageMapped_spacePages : spacePages onePageMapped 4096 = [12288, 8192, 4096] := by
  decide +kernel

/-- The directory at 4096 with the table at 8192 and the frame at 12288. -/
theorem destroyPde_exact_onePage :
    Destroyed ⟨onePageMapped, BitMap.sixteen⟩ (destroyPde ⟨onePageMapped, BitMap.sixteen⟩ 4096).2
      4096 (destroyPde ⟨onePageMapped, BitMap.sixteen⟩ 4096).1 := by
  apply destroyPde_exact
  · exact ⟨1, rfl⟩
  · rw [onePageMapped_spacePages]
    decide

end MangoOS
