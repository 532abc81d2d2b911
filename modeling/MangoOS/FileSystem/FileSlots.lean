/-
Who receives a slot of `file_table` (fs/file.c): what one `alloc_file` finds, and
over any sequence of calls who holds the slot it returns.
-/

import MangoOS.FileSystem.FileTable

namespace MangoOS

namespace FileTable

/-- What a call of `alloc_file` is for.  NULL is the number of no slot. -/
def AllocRight (s : FileTable) : Prop :=
  (s.allocFile.1 < maxOpenFiles ∧ s.ref s.allocFile.1 = 0 ∧
      s.allocFile.2 = s.setRef s.allocFile.1 1) ∨
    ((∀ file, file < maxOpenFiles → 0 < s.ref file) ∧
      ¬ s.allocFile.1 < maxOpenFiles ∧ s.allocFile.2 = s)

/-- A call on the table.  `wrapped` is what `ref++` leaves of the largest `int`. -/
inductive SlotCall
  | alloc
  | free (file : Nat)
  | incRef (file : Nat) (wrapped : Int)

def slotStep (s : FileTable) : SlotCall → FileTable
  | .alloc => s.allocFile.2
  | .free file => s.freeFile file
  | .incRef file wrapped =>
      if s.ref file < 2 ^ 31 - 1 then s.fileIncRef file else s.setRef file wrapped

/-- The table before call `n` of a sequence. -/
def slotsAt (start : FileTable) (calls : Nat → SlotCall) : Nat → FileTable
  | 0 => start
  | n + 1 => (slotsAt start calls n).slotStep (calls n)

/-- The slot that call `n` hands out. -/
def handedOut (start : FileTable) (calls : Nat → SlotCall) (n : Nat) : Option Nat :=
  match calls n with
  | .alloc => some (slotsAt start calls n).allocFile.1
  | _ => none

/-- Before a slot is handed out again, its `ref` has once not been positive. -/
def Apart (start : FileTable) (calls : Nat → SlotCall) : Prop :=
  ∀ i j file, i < j → handedOut start calls i = some file →
    handedOut start calls j = some file →
    ∃ k, i < k ∧ k ≤ j ∧ (slotsAt start calls k).ref file ≤ 0

variable {s : FileTable}

theorem AllocRight.iff_hasFile (s : FileTable) : s.AllocRight ↔ s.HasFile := by
  rcases s.allocFile_spec with ⟨file, found, upper, free⟩ | ⟨last, full⟩
  · have right : s.AllocRight := by
      refine Or.inl ?_
      rw [found]
      exact ⟨upper, free, rfl⟩
    exact iff_of_true right ⟨file, upper, free⟩
  · refine iff_of_false ?_ full
    intro right
    rcases right with ⟨upper, free, _⟩ | ⟨_, null, _⟩
    · exact full ⟨_, upper, free⟩
    · rw [last] at null
      exact null (Nat.sub_lt (by decide) (by decide))

theorem handedOut_free {start : FileTable} {calls : Nat → SlotCall} {n file : Nat}
    (hasFile : calls n = .alloc → (slotsAt start calls n).HasFile)
    (received : handedOut start calls n = some file) : (slotsAt start calls n).ref file = 0 := by
  unfold handedOut at received
  cases called : calls n with
  | alloc =>
      rw [called] at received
      obtain rfl := Option.some.inj received
      rcases (slotsAt start calls n).allocFile_spec with ⟨file, found, _, free⟩ | ⟨_, full⟩
      · rw [found]
        exact free
      · exact absurd (hasFile called) full
  | free file =>
      rw [called] at received
      cases received
  | incRef file wrapped =>
      rw [called] at received
      cases received

/-- A call of `alloc_file` does its work if and only if some slot is free, and where every call
of a sequence finds one no two holders receive a slot that is in use. -/
theorem allocFile_apart (start : FileTable) (calls : Nat → SlotCall) :
    (start.AllocRight ↔ start.HasFile) ∧
      ((∀ n, calls n = .alloc → (slotsAt start calls n).HasFile) → Apart start calls) := by
  refine ⟨AllocRight.iff_hasFile start, ?_⟩
  intro hasFile i j file before _ again
  have free := handedOut_free (hasFile j) again
  exact ⟨j, before, Nat.le_refl j, le_of_eq free⟩

/-! ### A table that fills up -/

/-- A table whose first `n` files were handed out. -/
private def filled (n : Nat) : FileTable where
  ref := fun file => if file < n then 1 else 0
  tasks := ∅
  table := fun _ _ => none

private theorem slotStep_filled {n : Nat} (room : n < maxOpenFiles) :
    (filled n).allocFile.1 = n ∧ (filled n).slotStep .alloc = filled (n + 1) := by
  have refs : (filled n).ref = (opened n).ref := rfl
  have found : (filled n).allocFile = (n, (filled n).setRef n 1) := by
    unfold allocFile
    rw [refs, freeFileFrom_opened n maxOpenFiles 0 (Nat.zero_le n) (by omega)]
  refine ⟨by rw [found], ?_⟩
  have after : ((filled n).setRef n 1).ref = (filled (n + 1)).ref := by
    funext file
    rw [setRef_ref]
    exact opened_setRef_ref n file
  change (filled n).allocFile.2 = filled (n + 1)
  rw [found]
  exact congrArg (fun ref => FileTable.mk ref ∅ (fun _ _ => none)) after

private theorem slotsAt_filled (n : Nat) (room : n ≤ maxOpenFiles) :
    slotsAt (filled 0) (fun _ => .alloc) n = filled n := by
  induction n with
  | zero => rfl
  | succ n ih =>
      change (slotsAt (filled 0) (fun _ => .alloc) n).slotStep .alloc = filled (n + 1)
      rw [ih (by omega)]
      exact (slotStep_filled (by omega)).2

/-- The 2049th file of a boot is the 2048th one, which is still held. -/
theorem allocFile_apart_not :
    ¬ ((∀ s : FileTable, s.AllocRight) ∧
      ∀ (start : FileTable) (calls : Nat → SlotCall), Apart start calls) ∧
    ¬ (slotsAt (filled 0) (fun _ => .alloc) 2048).AllocRight ∧
    ¬ Apart (filled 0) (fun _ => .alloc) := by
  have full : slotsAt (filled 0) (fun _ => .alloc) 2048 = filled 2048 :=
    slotsAt_filled 2048 (by decide)
  have noFile : ¬ (filled 2048).HasFile := by
    intro ⟨file, upper, free⟩
    have used : (filled 2048).ref file = 1 := if_pos upper
    rw [used] at free
    cases free
  have wrong : ¬ (slotsAt (filled 0) (fun _ => .alloc) 2048).AllocRight := by
    rw [full, AllocRight.iff_hasFile]
    exact noFile
  have shared : ¬ Apart (filled 0) (fun _ => .alloc) := by
    intro apart
    have first : handedOut (filled 0) (fun _ => .alloc) 2047 = some 2047 := by
      change some (slotsAt (filled 0) (fun _ => .alloc) 2047).allocFile.1 = some 2047
      rw [slotsAt_filled 2047 (by decide), (slotStep_filled (by decide)).1]
    have second : handedOut (filled 0) (fun _ => .alloc) 2048 = some 2047 := by
      change some (slotsAt (filled 0) (fun _ => .alloc) 2048).allocFile.1 = some 2047
      rw [full]
      rcases (filled 2048).allocFile_spec with ⟨file, _, upper, free⟩ | ⟨last, _⟩
      · exact absurd ⟨file, upper, free⟩ noFile
      · rw [last]
        rfl
    obtain ⟨k, after, upto, idle⟩ := apart 2047 2048 2047 (by decide) first second
    have isLast : k = 2048 := by omega
    rw [isLast, full] at idle
    have used : (filled 2048).ref 2047 = 1 := by
      change (if 2047 < 2048 then (1 : Int) else 0) = 1
      rw [if_pos (by decide)]
    rw [used] at idle
    exact absurd idle (by decide)
  exact ⟨fun all => wrong (all.1 _), wrong, shared⟩

/-- Two calls on an empty table. -/
theorem allocFile_apart_two :
    (filled 0).HasFile ∧ ((filled 0).AllocRight ∧
      Apart (filled 0) (fun n => if n < 2 then .alloc else .free 0)) := by
  have hasFile : (filled 0).HasFile := ⟨0, by decide, rfl⟩
  have states : ∀ n, n < 2 →
      slotsAt (filled 0) (fun n => if n < 2 then .alloc else .free 0) n = filled n := by
    intro n below
    have isStart : n = 0 ∨ n = 1 := by omega
    rcases isStart with rfl | rfl
    · rfl
    · exact (slotStep_filled (by decide)).2
  obtain ⟨right, apart⟩ :=
    allocFile_apart (filled 0) (fun n => if n < 2 then .alloc else .free 0)
  refine ⟨hasFile, right.mpr hasFile, apart ?_⟩
  intro n called
  have below : n < 2 := by
    by_contra above
    rw [if_neg above] at called
    cases called
  rw [states n below]
  exact ⟨n, Nat.lt_trans below (by decide), if_neg (Nat.lt_irrefl n)⟩

end FileTable

end MangoOS
