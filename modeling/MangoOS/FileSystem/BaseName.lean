/-
Two ways to take the last name of a path: `get_name_index` (fs/ext2.c) and
`GET_FILENAME` (include/file.h) over `kstrrchr` (lib/string.c).

`get_name_index` moves `path` on and compares its index with the length of what
is left, so it stops in the middle of the path.
-/

import MangoOS.FileSystem.Unlink

namespace MangoOS

/-- The loop of `kstrrchr` from byte `i` on: where the string ends and where `c` stood last. -/
def kstrrchrLoop (c : BitVec 8) : (i : Nat) → (lastOccurrence : Option Nat) → CString →
    Nat × Option Nat
  | i, lastOccurrence, [] => (i, lastOccurrence)
  | i, lastOccurrence, byte :: rest =>
      kstrrchrLoop c (i + 1) (if byte = c then some i else lastOccurrence) rest

/-- `kstrrchr`; a pointer into the string is its index there. -/
def kstrrchr (str : CString) (c : BitVec 8) : Option Nat :=
  let (stop, lastOccurrence) := kstrrchrLoop c 0 none str
  if c = 0 then some stop else lastOccurrence

/-- `GET_FILENAME`, as an index into the path. -/
def getFilename (path : CString) : Nat :=
  match kstrrchr path slash with
  | some i => i + 1
  | none => 0

/-- The text from byte `index` on is what stands after the last slash, or all of the path. -/
def IsBaseName (path : CString) (index : Nat) : Prop :=
  index ≤ path.length ∧ slash ∉ path.drop index ∧
    (index = 0 ∨ ∃ before, path.take index = before ++ [slash])

/-- Both functions return the place of the last name. -/
def SameBaseName (path : CString) : Prop :=
  path.drop (getNameIndex path) = path.drop (getFilename path) ∧
    getNameIndex path = getFilename path ∧ IsBaseName path (getFilename path)

/-! ### The place after the last slash -/

/-- The place behind the last slash from byte `i` on, or `start`. -/
def afterSlash : (i start : Nat) → CString → Nat
  | _, start, [] => start
  | i, start, c :: rest => afterSlash (i + 1) (if c = slash then i + 1 else start) rest

theorem afterSlash_append (i start : Nat) (left right : CString) :
    afterSlash i start (left ++ right) =
      afterSlash (i + left.length) (afterSlash i start left) right := by
  induction left generalizing i start with
  | nil => rfl
  | cons c left ih =>
      rw [List.cons_append, afterSlash, ih, List.length_cons, afterSlash]
      congr 1
      omega

theorem afterSlash_none {text : CString} (absent : slash ∉ text) (i start : Nat) :
    afterSlash i start text = start := by
  induction text generalizing i start with
  | nil => rfl
  | cons c text ih =>
      rw [List.mem_cons, not_or] at absent
      rw [afterSlash, if_neg (Ne.symm absent.1)]
      exact ih absent.2 (i + 1) start

theorem last_slash_split {text : CString} (present : slash ∈ text) :
    ∃ before after, text = before ++ slash :: after ∧ slash ∉ after := by
  induction text with
  | nil => cases present
  | cons c text ih =>
      by_cases later : slash ∈ text
      · obtain ⟨before, after, split, last⟩ := ih later
        exact ⟨c :: before, after, by rw [split, List.cons_append], last⟩
      · have here : slash = c := (List.mem_cons.mp present).resolve_right later
        exact ⟨[], text, by rw [here, List.nil_append], later⟩

theorem afterSlash_split (i start : Nat) (before : CString) {after : CString}
    (last : slash ∉ after) :
    afterSlash i start (before ++ slash :: after) = i + before.length + 1 := by
  rw [afterSlash_append, afterSlash, if_pos rfl, afterSlash_none last]

theorem afterSlash_le {i start : Nat} (text : CString) (low : start ≤ i) :
    afterSlash i start text ≤ i + text.length := by
  by_cases present : slash ∈ text
  · obtain ⟨before, after, split, last⟩ := last_slash_split present
    rw [split, afterSlash_split i start before last, List.length_append, List.length_cons]
    omega
  · rw [afterSlash_none present]
    omega

theorem afterSlash_isBaseName (path : CString) : IsBaseName path (afterSlash 0 0 path) := by
  by_cases present : slash ∈ path
  · obtain ⟨before, after, split, last⟩ := last_slash_split present
    have place : afterSlash 0 0 path = before.length + 1 := by
      rw [split, afterSlash_split 0 0 before last, Nat.zero_add]
    have joined : path = (before ++ [slash]) ++ after := by
      rw [split, List.append_assoc, List.singleton_append]
    have length : (before ++ [slash]).length = before.length + 1 := by
      rw [List.length_append, List.length_singleton]
    rw [place, ← length, joined]
    refine ⟨?_, ?_, Or.inr ⟨before, List.take_left⟩⟩
    · rw [List.length_append, List.length_append, List.length_append]
      exact Nat.le_add_right _ _
    · rw [List.drop_left]
      exact last
  · rw [afterSlash_none present]
    exact ⟨Nat.zero_le _, by rwa [List.drop_zero], Or.inl rfl⟩

/-! ### The two functions -/

theorem kstrrchrLoop_last (i : Nat) (lastOccurrence : Option Nat) (text : CString) :
    ((kstrrchrLoop slash i lastOccurrence text).2.map (· + 1)).getD 0 =
      afterSlash i ((lastOccurrence.map (· + 1)).getD 0) text := by
  induction text generalizing i lastOccurrence with
  | nil => rfl
  | cons c text ih =>
      rw [kstrrchrLoop, afterSlash, ih]
      by_cases here : c = slash
      · rw [if_pos here, if_pos here, Option.map_some, Option.getD_some]
      · rw [if_neg here, if_neg here]

theorem getFilename_eq (path : CString) : getFilename path = afterSlash 0 0 path := by
  have last := kstrrchrLoop_last 0 none path
  rw [Option.map_none, Option.getD_none] at last
  rw [← last]
  unfold getFilename kstrrchr
  dsimp only
  rw [if_neg (by decide)]
  cases (kstrrchrLoop slash 0 none path).2 with
  | none => rfl
  | some i => rfl

/-- `get_name_index` sees the part of the path in which its index is below the length of the
rest. -/
theorem getNameIndexLoop_eq (i start : Nat) (path : CString) :
    getNameIndexLoop i start path =
      afterSlash i start (path.take ((path.length + 1 - i) / 2)) := by
  induction path generalizing i start with
  | nil => rw [getNameIndexLoop, List.take_nil, afterSlash]
  | cons c rest ih =>
      rw [getNameIndexLoop, List.length_cons]
      by_cases more : i < rest.length + 1
      · have half : (rest.length + 1 + 1 - i) / 2 = (rest.length + 1 - (i + 1)) / 2 + 1 := by
          omega
        rw [if_pos more, half, List.take_succ_cons, afterSlash]
        exact ih (i + 1) _
      · have none : (rest.length + 1 + 1 - i) / 2 = 0 := by omega
        rw [if_neg more, none, List.take_zero, afterSlash]

theorem getNameIndex_eq (path : CString) :
    getNameIndex path = afterSlash 0 0 (path.take ((path.length + 1) / 2)) :=
  getNameIndexLoop_eq 0 0 path

/-- They agree where no slash stands in the part that `get_name_index` does not see. -/
theorem getNameIndex_eq_iff (path : CString) :
    getNameIndex path = getFilename path ↔ slash ∉ path.drop ((path.length + 1) / 2) := by
  have seen : (path.take ((path.length + 1) / 2)).length = (path.length + 1) / 2 := by
    rw [List.length_take]
    omega
  have whole := afterSlash_append 0 0 (path.take ((path.length + 1) / 2))
    (path.drop ((path.length + 1) / 2))
  rw [List.take_append_drop, seen, Nat.zero_add] at whole
  rw [getNameIndex_eq, getFilename_eq, whole]
  constructor
  · intro same present
    obtain ⟨before, after, split, last⟩ := last_slash_split present
    have low := afterSlash_le (path.take ((path.length + 1) / 2)) (Nat.le_refl 0)
    rw [split, afterSlash_split _ _ before last] at same
    omega
  · intro absent
    rw [afterSlash_none absent]

theorem notMem_drop_iff (path : CString) (k : Nat) :
    slash ∉ path.drop k ↔ ∀ p, path[p]? = some slash → p < k := by
  constructor
  · intro absent p here
    by_contra behind
    apply absent
    apply List.mem_of_getElem? (i := p - k)
    rw [List.getElem?_drop, Nat.add_sub_cancel' (Nat.le_of_not_lt behind), here]
  · intro before present
    obtain ⟨p, here⟩ := List.mem_iff_getElem?.mp present
    rw [List.getElem?_drop] at here
    have below := before (k + p) here
    omega

/-- The two functions agree if and only if every slash stands in the first half of the path. -/
theorem sameBaseName_iff (path : CString) :
    SameBaseName path ↔ ∀ p, path[p]? = some slash → 2 * p < path.length := by
  have base : IsBaseName path (getFilename path) := by
    rw [getFilename_eq]
    exact afterSlash_isBaseName path
  have half : (∀ p, path[p]? = some slash → p < (path.length + 1) / 2) ↔
      ∀ p, path[p]? = some slash → 2 * p < path.length := by
    constructor
    · intro before p here
      have below := before p here
      omega
    · intro before p here
      have below := before p here
      omega
  rw [← half, ← notMem_drop_iff, ← getNameIndex_eq_iff]
  constructor
  · exact fun same => same.2.1
  · intro same
    exact ⟨by rw [same], same, base⟩

/-- The path `ab/c`: its slash is in the second half. -/
theorem sameBaseName_not :
    getNameIndex [97, 98, 47, 99] = 0 ∧ getFilename [97, 98, 47, 99] = 3 ∧
      ([97, 98, 47, 99] : CString).drop (getNameIndex [97, 98, 47, 99]) ≠
        ([97, 98, 47, 99] : CString).drop (getFilename [97, 98, 47, 99]) := by
  decide +kernel

end MangoOS
