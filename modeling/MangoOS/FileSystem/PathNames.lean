/-
The names that `find_inode_by_path` looks up (fs/ext2.c).

`iget_name` is called until the path is used up.  It clears `end` when a slash follows a
name and nothing sets it again, and it cuts a name that is too long.
-/

import MangoOS.FileSystem.Directory

namespace MangoOS

/-! ### What a path means -/

/-- The non-empty components of a path. -/
def components (path : CString) : List CString := (path.splitOn slash).filter (· ≠ [])

/-- Each component with the flag of the last one. -/
def flagLast : List CString → List (CString × Bool)
  | [] => []
  | [name] => [(name, true)]
  | name :: rest => (name, false) :: flagLast rest

/-- A name that fits `name[MAX_NAME_LEN]`. -/
def FitsName (name : CString) : Prop := name.length ≤ maxNameLen - 1

instance (name : CString) : Decidable (FitsName name) := inferInstanceAs (Decidable (_ ≤ _))

/-- The lookups a path calls for; the walk ends in front of a component that is too long. -/
def intendedNames (path : CString) : List (CString × Bool) :=
  (flagLast (components path)).takeWhile fun call => FitsName call.1

/-! ### What the walk looks up -/

/-- The names of successive calls of `iget_name`, with `end` after each. -/
def pathNamesFrom : (rounds : Nat) → CString → (isEnd : Bool) → List (CString × Bool)
  | 0, _, _ => []
  | rounds + 1, path, isEnd =>
      match igetName path isEnd with
      | none => []
      | some (name, path, isEnd) => (name, isEnd) :: pathNamesFrom rounds path isEnd

def pathNames (path : CString) : List (CString × Bool) := pathNamesFrom (path.length + 1) path true

namespace FileSystem

/-- One name after the other, each looked up in what the one before it named. -/
def walkNames (fuel : Nat) :
    List (CString × Bool) → FileSystem → File → Option InodeRef →
      Option (Option InodeRef × FileSystem × File)
  | [], fs, file, inode => some (inode, fs, file)
  | _ :: _, _, _, none => none
  | (name, isEnd) :: names, fs, file, some parent =>
      match fs.findInodeInDir fuel file parent name isEnd with
      | none => none
      | some (none, fs, file) => some (none, fs, file)
      | some (some found, fs, file) =>
          let fs := fs.setInode found { fs.inode found with parent := some parent }
          walkNames fuel names fs file (some found)

end FileSystem

/-- The walk looks up what the path calls for, and it fails where a component is too long. -/
def SplitsPath (path : CString) : Prop :=
  pathNames path = intendedNames path ∧
    ∀ name, name ∈ components path → ¬ FitsName name →
      ∀ fuel fs file ref after fileAfter,
        FileSystem.findInodeByPath fuel fs file path ≠ some (some ref, after, fileAfter)

variable {path name tail : CString} {isEnd : Bool} {rounds : Nat}

/-! ### Tokens -/

/-- Where a name ends. -/
def Boundary (tail : CString) : Prop := tail = [] ∨ ∃ rest, tail = slash :: rest

theorem skipSlashes_cons {c : BitVec 8} {rest : CString} (other : c ≠ slash) :
    skipSlashes (c :: rest) = c :: rest := by
  rw [skipSlashes, if_neg other]

/-- Slashes in front of the rest, which does not begin with one. -/
theorem skipSlashes_split (path : CString) :
    ∃ k, path = List.replicate k slash ++ skipSlashes path ∧
      ∀ c rest, skipSlashes path = c :: rest → c ≠ slash := by
  induction path with
  | nil => exact ⟨0, rfl, fun c rest split => by cases split⟩
  | cons c rest ih =>
      by_cases isSlash : c = slash
      · obtain ⟨k, split, first⟩ := ih
        rw [skipSlashes, if_pos isSlash]
        refine ⟨k + 1, ?_, first⟩
        rw [List.replicate_succ, List.cons_append, ← split, isSlash]
      · rw [skipSlashes_cons isSlash]
        refine ⟨0, rfl, ?_⟩
        intro d behind split
        rw [List.cons.injEq] at split
        exact split.1 ▸ isSlash

theorem skipSlashes_length (path : CString) : (skipSlashes path).length ≤ path.length := by
  obtain ⟨k, split, _⟩ := skipSlashes_split path
  have lengths := congrArg List.length split
  rw [List.length_append] at lengths
  omega

theorem exists_name (path : CString) :
    ∃ name tail, path = name ++ tail ∧ slash ∉ name ∧ Boundary tail := by
  induction path with
  | nil => exact ⟨[], [], rfl, List.not_mem_nil, Or.inl rfl⟩
  | cons c rest ih =>
      by_cases isSlash : c = slash
      · exact ⟨[], c :: rest, rfl, List.not_mem_nil, Or.inr ⟨rest, by rw [isSlash]⟩⟩
      · obtain ⟨name, tail, split, noSlash, ends⟩ := ih
        refine ⟨c :: name, tail, by rw [split]; rfl, ?_, ends⟩
        rw [List.mem_cons, not_or]
        exact ⟨Ne.symm isSlash, noSlash⟩

/-- A name that fits is taken whole, one that does not is cut. -/
theorem takeName_split (room : Nat) (noSlash : slash ∉ name) (ends : Boundary tail) :
    takeName room (name ++ tail) = (name.take room, name.drop room ++ tail) := by
  induction name generalizing room with
  | nil =>
      rw [List.take_nil, List.drop_nil, List.nil_append]
      cases room with
      | zero => rfl
      | succ room =>
          rcases ends with isNil | ⟨rest, isSlash⟩
          · rw [isNil, takeName]
          · rw [isSlash, takeName, if_pos rfl]
  | cons c name ih =>
      rw [List.mem_cons, not_or] at noSlash
      cases room with
      | zero => rfl
      | succ room =>
          rw [List.cons_append, takeName, if_neg (Ne.symm noSlash.1), ih room noSlash.2]
          rfl

theorem skipSlashes_name (k : Nat) (noSlash : slash ∉ name) (nonempty : name ≠ []) :
    skipSlashes (List.replicate k slash ++ (name ++ tail)) = name ++ tail := by
  induction k with
  | zero =>
      cases name with
      | nil => exact False.elim (nonempty rfl)
      | cons c name =>
          rw [List.mem_cons, not_or] at noSlash
          exact skipSlashes_cons (Ne.symm noSlash.1)
  | succ k ih =>
      rw [List.replicate_succ, List.cons_append, skipSlashes, if_pos rfl, ih]

theorem igetName_fits (k : Nat) (noSlash : slash ∉ name) (nonempty : name ≠ [])
    (fits : FitsName name) (ends : Boundary tail) (isEnd : Bool) :
    igetName (List.replicate k slash ++ (name ++ tail)) isEnd =
      some (name, skipSlashes tail, if tail = [] then isEnd else false) := by
  have room : name.length ≤ maxNameLen - 1 := fits
  have some : (List.replicate k slash ++ (name ++ tail)).length ≠ 0 := by
    have positive := List.length_pos_iff.mpr nonempty
    rw [List.length_append, List.length_append]
    omega
  rw [igetName, if_neg some, skipSlashes_name k noSlash nonempty, takeName_split _ noSlash ends,
    List.take_of_length_le room, List.drop_of_length_le room, List.nil_append]
  rcases ends with isNil | ⟨rest, isSlash⟩
  · rw [isNil]
    rfl
  · rw [isSlash, if_neg (List.cons_ne_nil slash rest)]
    rfl

theorem igetName_length {rest : CString} {after : Bool}
    (returns : igetName path isEnd = some (name, rest, after)) : rest.length < path.length := by
  unfold igetName at returns
  by_cases empty : path.length = 0
  · rw [if_pos empty] at returns
    cases returns
  · rw [if_neg empty] at returns
    obtain ⟨k, split, first⟩ := skipSlashes_split path
    obtain ⟨taken, behind, isTaken, noSlash, ends⟩ := exists_name (skipSlashes path)
    have cut := takeName_split (maxNameLen - 1) noSlash ends
    rw [← isTaken] at cut
    simp only [cut, Option.some.injEq, Prod.mk.injEq] at returns
    have shorter := skipSlashes_length (taken.drop (maxNameLen - 1) ++ behind)
    have whole := congrArg List.length split
    have parts := congrArg List.length isTaken
    rw [← returns.2.1]
    rw [List.length_append, List.length_replicate] at whole
    rw [List.length_append] at parts
    rw [List.length_append, List.length_drop] at shorter
    change _ ≤ taken.length - 63 + behind.length at shorter
    cases taken with
    | cons c taken =>
        rw [List.length_cons] at parts shorter
        omega
    | nil =>
        -- a path of slashes only: they are skipped
        rw [List.nil_append] at isTaken
        rcases ends with isNil | ⟨rest, isSlash⟩
        · rw [isNil, List.drop_nil, List.nil_append]
          change 0 < path.length
          omega
        · exact False.elim (first slash rest (isTaken.trans isSlash) rfl)

/-! ### Components -/

theorem components_name (noSlash : slash ∉ name) (nonempty : name ≠ []) (ends : Boundary tail) :
    components (name ++ tail) = name :: components tail := by
  unfold components
  rcases ends with isNil | ⟨rest, isSlash⟩
  · rw [isNil, List.append_nil, List.splitOn_eq_singleton noSlash]
    simp [nonempty]
  · rw [isSlash, List.splitOn_append_cons_of_beq name rest (beq_self_eq_true slash),
      List.splitOn_eq_singleton noSlash, List.singleton_append,
      List.splitOn_cons_eq_if_modifyHead, if_pos (beq_self_eq_true slash)]
    simp [nonempty]

theorem components_slashes (k : Nat) (path : CString) :
    components (List.replicate k slash ++ path) = components path := by
  induction k with
  | zero => rfl
  | succ k ih =>
      rw [List.replicate_succ, List.cons_append]
      rw [← ih]
      unfold components
      rw [List.splitOn_cons_eq_if_modifyHead, if_pos (beq_self_eq_true slash)]
      simp

theorem components_skip (path : CString) : components (skipSlashes path) = components path := by
  obtain ⟨k, split, _⟩ := skipSlashes_split path
  nth_rewrite 2 [split]
  exact (components_slashes k _).symm

/-- A path is used up or begins, behind slashes, with a component. -/
theorem path_cases (path : CString) :
    (∃ k, path = List.replicate k slash) ∨
      ∃ k name tail, path = List.replicate k slash ++ (name ++ tail) ∧ slash ∉ name ∧
        name ≠ [] ∧ Boundary tail := by
  obtain ⟨k, split, first⟩ := skipSlashes_split path
  obtain ⟨name, tail, isName, noSlash, ends⟩ := exists_name (skipSlashes path)
  by_cases empty : name = []
  · left
    refine ⟨k, ?_⟩
    rcases ends with isNil | ⟨rest, isSlash⟩
    · rw [empty, isNil] at isName
      rw [isName] at split
      rw [split, List.append_nil, List.append_nil]
    · rw [empty, List.nil_append] at isName
      exact False.elim (first slash rest (isName.trans isSlash) rfl)
  · exact Or.inr ⟨k, name, tail, by rw [← isName]; exact split, noSlash, empty, ends⟩

/-! ### The lookups of the walk -/

theorem pathNamesFrom_enough {more : Nat} (enough : path.length < rounds) (le : rounds ≤ more) :
    pathNamesFrom more path isEnd = pathNamesFrom rounds path isEnd := by
  induction rounds generalizing path isEnd more with
  | zero => exact absurd enough (Nat.not_lt_zero _)
  | succ rounds ih =>
      obtain ⟨more, rfl⟩ : ∃ fewer, more = fewer + 1 := ⟨more - 1, by omega⟩
      rw [pathNamesFrom, pathNamesFrom]
      cases call : igetName path isEnd with
      | none => rfl
      | some result =>
          obtain ⟨name, rest, after⟩ := result
          have shorter := igetName_length call
          exact congrArg _ (ih (by omega) (by omega))

theorem pathNamesFrom_fits (k : Nat) (noSlash : slash ∉ name) (nonempty : name ≠ [])
    (fits : FitsName name) (ends : Boundary tail)
    (enough : (List.replicate k slash ++ (name ++ tail)).length < rounds) :
    pathNamesFrom rounds (List.replicate k slash ++ (name ++ tail)) isEnd =
      (name, if tail = [] then isEnd else false) ::
        pathNamesFrom rounds (skipSlashes tail) (if tail = [] then isEnd else false) := by
  obtain ⟨fewer, rfl⟩ : ∃ fewer, rounds = fewer + 1 := ⟨rounds - 1, by omega⟩
  have call := igetName_fits k noSlash nonempty fits ends isEnd
  have shorter := igetName_length call
  rw [pathNamesFrom, call]
  exact congrArg _ (pathNamesFrom_enough (by omega) (Nat.le_succ _)).symm

theorem intendedNames_name (k : Nat) (noSlash : slash ∉ name) (nonempty : name ≠ [])
    (ends : Boundary tail) :
    intendedNames (List.replicate k slash ++ (name ++ tail)) =
      if FitsName name then
        if components tail = [] then [(name, true)]
        else (name, false) :: intendedNames (skipSlashes tail)
      else [] := by
  unfold intendedNames
  rw [components_slashes, components_name noSlash nonempty ends, components_skip]
  cases more : components tail with
  | nil =>
      rw [if_pos rfl, flagLast, List.takeWhile_cons]
      by_cases fits : FitsName name
      · simp [fits]
      · simp [fits]
  | cons next rest =>
      rw [if_neg (List.cons_ne_nil next rest), flagLast, List.takeWhile_cons]
      by_cases fits : FitsName name
      · simp [fits]
      · simp [fits]
      exact List.cons_ne_nil next rest

theorem pathNamesFrom_ne_nil (nonempty : path ≠ []) (positive : 0 < rounds) :
    pathNamesFrom rounds path isEnd ≠ [] := by
  obtain ⟨fewer, rfl⟩ : ∃ fewer, rounds = fewer + 1 := ⟨rounds - 1, by omega⟩
  have notEmpty : path.length ≠ 0 := fun empty => nonempty (List.length_eq_zero_iff.mp empty)
  rw [pathNamesFrom, igetName, if_neg notEmpty]
  exact List.cons_ne_nil _ _

/-- Once `end` is cleared, the last component is looked up without it. -/
theorem pathNamesFrom_cleared (enough : path.length < rounds) (more : components path ≠ []) :
    pathNamesFrom rounds path false ≠ intendedNames path := by
  induction measure : path.length using Nat.strong_induction_on generalizing path with
  | _ size ih =>
      rcases path_cases path with ⟨k, isSlashes⟩ | ⟨k, name, tail, split, noSlash, nonempty, ends⟩
      · rw [isSlashes, ← List.append_nil (List.replicate k slash), components_slashes] at more
        exact False.elim (more rfl)
      · rw [split] at enough measure ⊢
        rw [intendedNames_name k noSlash nonempty ends]
        by_cases fits : FitsName name
        · rw [if_pos fits, pathNamesFrom_fits k noSlash nonempty fits ends enough, ite_self]
          by_cases last : components tail = []
          · rw [if_pos last]
            intro same
            rw [List.cons.injEq, Prod.mk.injEq] at same
            exact Bool.false_ne_true same.1.2
          · rw [if_neg last]
            intro same
            rw [List.cons.injEq] at same
            have positive := List.length_pos_iff.mpr nonempty
            have shorter := skipSlashes_length tail
            rw [List.length_append, List.length_append] at enough measure
            refine ih _ ?_ ?_ ?_ rfl same.2
            · omega
            · omega
            · rw [components_skip]
              exact last
        · rw [if_neg fits]
          apply pathNamesFrom_ne_nil
          · have positive := List.length_pos_iff.mpr nonempty
            intro empty
            have none := congrArg List.length empty
            rw [List.length_append, List.length_append, List.length_nil] at none
            omega
          · omega

/-- The loop of `find_inode_by_path` looks up these names, as long as each is found. -/
theorem findPathLoop_walk (fuel : Nat) (fs : FileSystem) (file : File) (inode : Option InodeRef)
    (enough : path.length < rounds) :
    FileSystem.findPathLoop fuel rounds fs file path inode isEnd =
      FileSystem.walkNames fuel (pathNamesFrom rounds path isEnd) fs file inode := by
  induction rounds generalizing path isEnd fs file inode with
  | zero => exact absurd enough (Nat.not_lt_zero _)
  | succ rounds ih =>
      rw [FileSystem.findPathLoop, pathNamesFrom]
      cases call : igetName path isEnd with
      | none => rfl
      | some result =>
          obtain ⟨name, rest, after⟩ := result
          have shorter := igetName_length call
          cases inode with
          | none => rfl
          | some parent =>
              dsimp only
              rw [FileSystem.walkNames]
              cases looks : fs.findInodeInDir fuel file parent name after with
              | none => rfl
              | some found =>
                  obtain ⟨ref, fsAfter, fileAfter⟩ := found
                  cases ref with
                  | none => rfl
                  | some ref => exact ih _ _ _ (by omega)

/-- The walk of a path is a walk over its names.  It does what the path calls for if and
only if the path is empty or a single component that fits, with nothing behind it. -/
theorem splitsPath_iff (path : CString) :
    (∀ fuel (fs : FileSystem) file, fs.findInodeByPath fuel file path =
      FileSystem.walkNames fuel (pathNames path) (fs.igetInode 2).2 file (fs.igetInode 2).1) ∧
    (SplitsPath path ↔ path = [] ∨ ∃ k name, path = List.replicate k slash ++ name ∧
      slash ∉ name ∧ name ≠ [] ∧ FitsName name) := by
  constructor
  · intro fuel fs file
    exact findPathLoop_walk fuel _ file _ (Nat.lt_succ_self _)
  constructor
  · rintro ⟨same, _⟩
    rcases path_cases path with ⟨k, isSlashes⟩ | ⟨k, name, tail, split, noSlash, nonempty, ends⟩
    · -- slashes alone make the walk look up an empty name
      have none : intendedNames path = [] := by
        unfold intendedNames
        rw [isSlashes, ← List.append_nil (List.replicate k slash), components_slashes]
        rfl
      rw [none] at same
      by_contra notEmpty
      exact pathNamesFrom_ne_nil (not_or.mp notEmpty).1 (Nat.succ_pos _) same
    · subst split
      have long : List.replicate k slash ++ (name ++ tail) ≠ [] := by
        intro empty
        exact nonempty (List.append_eq_nil_iff.mp (List.append_eq_nil_iff.mp empty).2).1
      rw [intendedNames_name k noSlash nonempty ends] at same
      by_cases fits : FitsName name
      · by_cases alone : tail = []
        · rw [alone, List.append_nil]
          exact Or.inr ⟨k, name, rfl, noSlash, nonempty, fits⟩
        · -- the slash behind the first component clears `end` for good
          have first : pathNames (List.replicate k slash ++ (name ++ tail)) = _ :=
            pathNamesFrom_fits k noSlash nonempty fits ends (Nat.lt_succ_self _)
          rw [if_neg alone] at first
          rw [first, if_pos fits] at same
          by_cases last : components tail = []
          · rw [if_pos last, List.cons.injEq, Prod.mk.injEq] at same
            exact False.elim (Bool.false_ne_true same.1.2)
          · rw [if_neg last, List.cons.injEq] at same
            refine False.elim (pathNamesFrom_cleared ?_ ?_ same.2)
            · have shorter := skipSlashes_length tail
              rw [List.length_append, List.length_append]
              omega
            · rw [components_skip]
              exact last
      · rw [if_neg fits] at same
        exact False.elim (pathNamesFrom_ne_nil long (Nat.succ_pos _) same)
  · rintro (empty | ⟨k, name, split, noSlash, nonempty, fits⟩)
    · subst empty
      refine ⟨rfl, ?_⟩
      intro name member
      cases member
    · subst split
      have ends : Boundary [] := Or.inl rfl
      have parts : components (List.replicate k slash ++ name) = [name] := by
        rw [components_slashes, ← List.append_nil name, components_name noSlash nonempty ends,
          List.append_nil]
        rfl
      constructor
      · have first : pathNames (List.replicate k slash ++ (name ++ [])) = _ :=
          pathNamesFrom_fits k noSlash nonempty fits ends (Nat.lt_succ_self _)
        have intended := intendedNames_name k noSlash nonempty ends
        rw [List.append_nil] at first intended
        rw [first, intended, if_pos fits, if_pos (show components [] = [] from rfl), if_pos rfl]
        rfl
      · intro other member tooLong
        rw [parts, List.mem_singleton] at member
        exact False.elim (tooLong (member ▸ fits))

/-- The path "a/b": the last component is looked up as if another one followed. -/
theorem splitsPath_nested : ¬ SplitsPath [97#8, 47#8, 98#8] := by
  rintro ⟨same, _⟩
  exact absurd same (by decide)

end MangoOS
