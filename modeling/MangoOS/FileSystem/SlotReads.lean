/-
What the operations of ext2 read of a slot of `file_table` before they write it (fs/ext2.c).

Each is run with two slots that differ.  A lookup reads the `O_CREAT` of `mode` where a name is
missing; `ext2_unlink` goes on to read `ino` and `inode`; `ext2_open` writes everything that a
read or a write looks at.
-/

import MangoOS.FileSystem.Unlink
import MangoOS.Library.Paired

namespace MangoOS

/-- The slot asks for a missing name to be created. -/
def File.Creates (file : File) : Prop := file.mode &&& oCreat = oCreat

/-- The same but for `ino`, which a read or a write does not look at. -/
structure SameButIno (f g : File) : Prop where
  mode : f.mode = g.mode
  pos : f.pos = g.pos
  startBlock : f.startBlock = g.startBlock
  curBlock : f.curBlock = g.curBlock
  inode : f.inode = g.inode

section SameButIno

variable {f g h : File}

theorem SameButIno.refl (f : File) : SameButIno f f := ⟨rfl, rfl, rfl, rfl, rfl⟩

theorem SameButIno.symm (same : SameButIno f g) : SameButIno g f :=
  ⟨same.mode.symm, same.pos.symm, same.startBlock.symm, same.curBlock.symm, same.inode.symm⟩

theorem SameButIno.trans (first : SameButIno f g) (second : SameButIno g h) : SameButIno f h :=
  ⟨first.mode.trans second.mode, first.pos.trans second.pos,
    first.startBlock.trans second.startBlock, first.curBlock.trans second.curBlock,
    first.inode.trans second.inode⟩

theorem SameButIno.creates (same : SameButIno f g) : f.Creates ↔ g.Creates := by
  unfold File.Creates
  rw [same.mode]

theorem SameButIno.withMode (same : SameButIno f g) (mode : Nat) :
    SameButIno { f with mode := mode } { g with mode := mode } :=
  ⟨rfl, same.pos, same.startBlock, same.curBlock, same.inode⟩

theorem SameButIno.append (same : SameButIno f g) (fs : FileSystem) (mode : Nat) :
    SameButIno (if mode &&& oAppend = oAppend then sysOpenAppend fs f else f)
      (if mode &&& oAppend = oAppend then sysOpenAppend fs g else g) := by
  by_cases appends : mode &&& oAppend = oAppend
  · rw [if_pos appends, if_pos appends, sysOpenAppend, sysOpenAppend, same.inode]
    exact ⟨same.mode, rfl, same.startBlock, same.curBlock, rfl⟩
  · rw [if_neg appends, if_neg appends]
    exact same

end SameButIno

namespace FileSystem

/-! ### Looking up a path -/

/-- A directory without the name. -/
def Absent (fuel : Nat) (fs : FileSystem) (dir : InodeRef) (name : CString) : Prop :=
  sIsDir (fs.inode dir).iMode = true ∧
    ∃ last empty searched, scanDir (fs.inode dir) fs.blockSize name fuel fuel 0 fs.store none none =
      some (.missing last empty, searched)

/-- The walk comes to a directory without the name it looks up there, and `end` is set: the
place where `mode` is read. -/
inductive Misses (fuel : Nat) : FileSystem → InodeRef → CString → Bool → Prop
  | here {fs : FileSystem} {dir : InodeRef} {path name rest : CString} {isEnd : Bool}
      (next : igetName path isEnd = some (name, rest, true))
      (absent : fs.Absent fuel dir name) : Misses fuel fs dir path isEnd
  | deeper {fs after : FileSystem} {dir found : InodeRef} {path name rest : CString}
      {isEnd isEnd' : Bool} {file file' : File}
      (next : igetName path isEnd = some (name, rest, isEnd'))
      (search : fs.findInodeInDir fuel file dir name isEnd' = some (some found, after, file'))
      (misses : Misses fuel
        (after.setInode found { after.inode found with parent := some dir }) found rest isEnd') :
      Misses fuel fs dir path isEnd

/-- The first name, if there is one, is not found: the walk may leave `ino` as it was. -/
def Skips (fuel : Nat) (fs : FileSystem) (dir : InodeRef) (path : CString) (isEnd : Bool) : Prop :=
  ∀ name rest isEnd', igetName path isEnd = some (name, rest, isEnd') →
    isEnd' = true ∧ fs.Absent fuel dir name

/-- Two lookups, one with each slot, end alike, and of the slots only `ino` is set; it is then
the same in both, unless the lookup `skips`. -/
structure Searched (f g : File) (skips : Prop) (a b : Option InodeRef × FileSystem × File) :
    Prop where
  found : a.1 = b.1
  fs : a.2.1 = b.2.1
  left : SameButIno f a.2.2
  right : SameButIno g b.2.2
  ino : a.1 ≠ none →
    a.2.2.ino = b.2.2.ino ∨ skips ∧ a.2.2.ino = f.ino ∧ b.2.2.ino = g.ino

section Lookup

variable {fuel : Nat} {fs : FileSystem} {f g : File} {dir : InodeRef} {name path : CString}
  {isEnd : Bool}

theorem findInodeInDir_paired
    (creates : isEnd = true → fs.Absent fuel dir name → (f.Creates ↔ g.Creates)) :
    Option.Rel (Searched f g (isEnd = true ∧ fs.Absent fuel dir name))
      (fs.findInodeInDir fuel f dir name isEnd) (fs.findInodeInDir fuel g dir name isEnd) := by
  unfold findInodeInDir
  cases isDir : sIsDir (fs.inode dir).iMode with
  | false =>
      simp only [isDir, Bool.not_false, if_true]
      exact .some ⟨rfl, rfl, .refl f, .refl g, fun impossible => absurd rfl impossible⟩
  | true =>
      simp only [isDir, Bool.not_true, Bool.false_eq_true, if_false]
      cases scan : scanDir (fs.inode dir) fs.blockSize name fuel fuel 0 fs.store none none with
      | none => exact .none
      | some result =>
          obtain ⟨result, store⟩ := result
          cases result with
          | failed =>
              exact .some ⟨rfl, rfl, .refl f, .refl g, fun impossible => absurd rfl impossible⟩
          | found bb entry =>
              exact .some ⟨rfl, rfl, ⟨rfl, rfl, rfl, rfl, rfl⟩, ⟨rfl, rfl, rfl, rfl, rfl⟩,
                fun _ => Or.inl rfl⟩
          | missing last empty =>
              have absent : fs.Absent fuel dir name := ⟨isDir, last, empty, store, scan⟩
              dsimp only
              by_cases asked : f.mode &&& oCreat = oCreat ∧ isEnd = true
              · have alsoAsked : g.mode &&& oCreat = oCreat ∧ isEnd = true :=
                  ⟨(creates asked.2 absent).mp asked.1, asked.2⟩
                rw [if_pos asked, if_pos alsoAsked]
                cases (fs.setStore store).allocInode fuel with
                | none => exact .none
                | some result =>
                    cases last with
                    | none => exact .none
                    | some last =>
                        cases empty with
                        | none => exact .none
                        | some place =>
                            exact .some ⟨rfl, rfl, .refl f, .refl g,
                              fun _ => Or.inr ⟨⟨asked.2, absent⟩, rfl, rfl⟩⟩
              · have notAsked : ¬ (g.mode &&& oCreat = oCreat ∧ isEnd = true) := fun both =>
                  asked ⟨(creates both.2 absent).mpr both.1, both.2⟩
                rw [if_neg asked, if_neg notAsked]
                exact .some ⟨rfl, rfl, .refl f, .refl g, fun impossible => absurd rfl impossible⟩

theorem Searched.weaken {first second : Prop} {a b : Option InodeRef × FileSystem × File}
    (search : Searched f g first a b) (implies : first → second) : Searched f g second a b :=
  { search with
    ino := fun ends => (search.ino ends).imp_right fun both => ⟨implies both.1, both.2⟩ }

theorem Searched.trans {first second : Prop} {a b a' b' : Option InodeRef × FileSystem × File}
    (search : Searched f g first a b) (isFound : a.1 ≠ none)
    (onward : Searched a.2.2 b.2.2 second a' b') : Searched f g first a' b' where
  found := onward.found
  fs := onward.fs
  left := search.left.trans onward.left
  right := search.right.trans onward.right
  ino := by
    intro ends
    rcases onward.ino ends with same | ⟨_, left, right⟩
    · exact Or.inl same
    · rw [left, right]
      exact search.ino isFound

theorem findPathLoop_paired {rounds : Nat}
    (creates : Misses fuel fs dir path isEnd → (f.Creates ↔ g.Creates)) :
    Option.Rel (Searched f g (Skips fuel fs dir path isEnd))
      (findPathLoop fuel rounds fs f path (some dir) isEnd)
      (findPathLoop fuel rounds fs g path (some dir) isEnd) := by
  induction rounds generalizing fs f g dir path isEnd with
  | zero => exact .none
  | succ rounds ih =>
      rw [findPathLoop, findPathLoop]
      cases next : igetName path isEnd with
      | none =>
          have skips : Skips fuel fs dir path isEnd := by
            intro name rest isEnd' named
            rw [next] at named
            cases named
          exact .some ⟨rfl, rfl, .refl f, .refl g, fun _ => Or.inr ⟨skips, rfl, rfl⟩⟩
      | some result =>
          obtain ⟨name, rest, isEnd'⟩ := result
          have searches : Option.Rel (Searched f g (isEnd' = true ∧ fs.Absent fuel dir name))
              (fs.findInodeInDir fuel f dir name isEnd')
              (fs.findInodeInDir fuel g dir name isEnd') :=
            findInodeInDir_paired fun isLast absent => creates (.here (isLast ▸ next) absent)
          rcases rel_cases searches with
            ⟨left, right⟩ | ⟨⟨found, after, f'⟩, ⟨_, _, g'⟩, left, right, search⟩
          · simp only [left, right]
            exact .none
          · obtain rfl := search.found
            obtain rfl := search.fs
            simp only [left, right]
            cases found with
            | none =>
                exact .some ⟨rfl, rfl, search.left, search.right,
                  fun impossible => absurd rfl impossible⟩
            | some ref =>
                have asked : Misses fuel
                    (after.setInode ref { after.inode ref with parent := some dir }) ref rest
                    isEnd' → (f'.Creates ↔ g'.Creates) := by
                  intro misses
                  rw [← search.left.creates, ← search.right.creates]
                  exact creates (.deeper next left misses)
                refine rel_mono (ih asked) ?_
                intro a b _ _ onward
                refine Searched.trans (search.weaken ?_) (Option.some_ne_none ref) onward
                rintro ⟨isLast, absent⟩ other others isEnd'' named
                rw [next, Option.some.injEq, Prod.mk.injEq, Prod.mk.injEq] at named
                obtain ⟨rfl, _, rfl⟩ := named
                exact ⟨isLast, absent⟩

/-- The walk from the root reads `mode`. -/
def MissesName (fuel : Nat) (fs : FileSystem) (path : CString) : Prop :=
  ∃ dir, (fs.igetInode 2).1 = some dir ∧ Misses fuel (fs.igetInode 2).2 dir path true

/-- It may leave `ino` as it was. -/
def SkipsName (fuel : Nat) (fs : FileSystem) (path : CString) : Prop :=
  ∃ dir, (fs.igetInode 2).1 = some dir ∧ Skips fuel (fs.igetInode 2).2 dir path true

theorem findInodeByPath_paired (creates : fs.MissesName fuel path → (f.Creates ↔ g.Creates)) :
    Option.Rel (Searched f g (fs.SkipsName fuel path)) (fs.findInodeByPath fuel f path)
      (fs.findInodeByPath fuel g path) := by
  change Option.Rel _
    (findPathLoop fuel (path.length + 1) (fs.igetInode 2).2 f path (fs.igetInode 2).1 true)
    (findPathLoop fuel (path.length + 1) (fs.igetInode 2).2 g path (fs.igetInode 2).1 true)
  cases isRoot : (fs.igetInode 2).1 with
  | none =>
      rw [findPathLoop, findPathLoop]
      cases igetName path true with
      | none => exact .some ⟨rfl, rfl, .refl f, .refl g, fun impossible => absurd rfl impossible⟩
      | some result => exact .none
  | some dir =>
      refine rel_mono (findPathLoop_paired fun misses => creates ⟨dir, isRoot, misses⟩) ?_
      exact fun a b _ _ search => search.weaken fun skips => ⟨dir, isRoot, skips⟩

theorem findInodeByPath_sameMode (fs : FileSystem) (fuel : Nat) (path : CString)
    (same : f.mode = g.mode) :
    Option.Rel (Searched f g (fs.SkipsName fuel path)) (fs.findInodeByPath fuel f path)
      (fs.findInodeByPath fuel g path) := by
  apply findInodeByPath_paired
  intro _
  unfold File.Creates
  rw [same]

end Lookup

/-! ### `ext2_unlink` -/

/-- What `ext2_unlink` reads of a slot is the same in both, where it is read: the `O_CREAT` of
`mode` if a name is missing, the group of `ino` if the walk did not set it and there are blocks
to free, and `inode` once they are freed, unless both point to empty files. -/
structure ReadsAlike (fuel : Nat) (ram ram' : Ram) (fs : FileSystem) (f g : File)
    (path : CString) : Prop where
  mode : fs.MissesName fuel path → (f.Creates ↔ g.Creates)
  ino : fs.SkipsName fuel path → ∀ ref after f',
    fs.findInodeByPath fuel f path = some (some ref, after, f') → (after.inode ref).iBlocks ≠ 0 →
      f.ino / after.groupInode = g.ino / after.groupInode
  inode : ∀ ref after f' freed, fs.findInodeByPath fuel f path = some (some ref, after, f') →
    unlinkLoop (after.inode ref) (f'.ino / after.groupInode) (after.inode ref).iBlocks 0 after
      ⟨0, 0, 0⟩ = (true, freed) →
    (f.inode = g.inode ∧ ram = ram') ∨
      (freed.inode f.inode).iSize = 0 ∧ (freed.inode g.inode).iSize = 0

theorem ulinkInode_paired {fuel : Nat} {ram ram' : Ram} {fs : FileSystem} {f g : File}
    {name : CString} (inode : (f.inode = g.inode ∧ ram = ram') ∨
      (fs.inode f.inode).iSize = 0 ∧ (fs.inode g.inode).iSize = 0) :
    fs.ulinkInode fuel ram f name = fs.ulinkInode fuel ram' g name := by
  unfold ulinkInode
  rcases inode with ⟨same, rfl⟩ | ⟨left, right⟩
  · rw [same]
  · simp only [left, right, Nat.lt_irrefl, if_false]

/-- Two calls of `ext2_unlink` end alike, and of the slots only `ino` is set. -/
structure Unlinked (f g : File) (a b : Int × FileSystem × File) : Prop where
  err : a.1 = b.1
  fs : a.2.1 = b.2.1
  left : SameButIno f a.2.2
  right : SameButIno g b.2.2

theorem ext2Unlink_paired {fuel : Nat} {ram ram' : Ram} {fs : FileSystem} {f g : File}
    {path : CString} (alike : ReadsAlike fuel ram ram' fs f g path) :
    Option.Rel (Unlinked f g) (fs.ext2Unlink fuel ram f path)
      (fs.ext2Unlink fuel ram' g path) := by
  unfold ext2Unlink
  rcases rel_cases (findInodeByPath_paired alike.mode) with
    ⟨left, right⟩ | ⟨⟨found, after, f'⟩, ⟨_, _, g'⟩, left, right, search⟩
  · simp only [left, right]
    exact .none
  · obtain rfl := search.found
    obtain rfl := search.fs
    cases found with
    | none =>
        simp only [left, right]
        exact .some ⟨rfl, rfl, search.left, search.right⟩
    | some ref =>
        have loops : unlinkLoop (after.inode ref) (f'.ino / after.groupInode)
            (after.inode ref).iBlocks 0 after ⟨0, 0, 0⟩ =
            unlinkLoop (after.inode ref) (g'.ino / after.groupInode)
              (after.inode ref).iBlocks 0 after ⟨0, 0, 0⟩ := by
          rcases search.ino (Option.some_ne_none ref) with same | ⟨skips, isLeft, isRight⟩
          · change f'.ino = g'.ino at same
            rw [same]
          · change f'.ino = f.ino at isLeft
            change g'.ino = g.ino at isRight
            by_cases blocks : (after.inode ref).iBlocks = 0
            · rw [blocks]
              rfl
            · rw [isLeft, isRight, alike.ino skips ref after f' left blocks]
        simp only [left, right, ← loops]
        cases freed : unlinkLoop (after.inode ref) (f'.ino / after.groupInode)
            (after.inode ref).iBlocks 0 after ⟨0, 0, 0⟩ with
        | mk done final =>
            cases done with
            | false => exact .some ⟨rfl, rfl, search.left, search.right⟩
            | true =>
                have ends : final.ulinkInode fuel ram f' (path.drop (getNameIndex path)) =
                    final.ulinkInode fuel ram' g' (path.drop (getNameIndex path)) := by
                  have isLeft : f'.inode = f.inode := search.left.inode.symm
                  have isRight : g'.inode = g.inode := search.right.inode.symm
                  apply ulinkInode_paired
                  rw [isLeft, isRight]
                  exact alike.inode ref after f' final left freed
                simp only [ends]
                cases final.ulinkInode fuel ram' g' (path.drop (getNameIndex path)) with
                | none => exact .none
                | some last => exact .some ⟨rfl, rfl, search.left, search.right⟩

end FileSystem

section Open

variable {fs : FileSystem} {f g : File} {found : Option InodeRef}

theorem ext2Open_err (fs : FileSystem) (f g : File) (found : Option InodeRef) :
    (ext2Open fs f found).1 = (ext2Open fs g found).1 := by
  cases found with
  | none => rfl
  | some ref =>
      simp only [ext2Open]
      by_cases isDir : sIsDir (fs.inode ref).iMode = true
      · rw [if_pos isDir, if_pos isDir]
      · rw [if_neg isDir, if_neg isDir]

theorem ext2Open_failed (failed : (ext2Open fs f found).1 < 0) : (ext2Open fs f found).2 = f := by
  cases found with
  | none => rfl
  | some ref =>
      simp only [ext2Open] at failed ⊢
      by_cases isDir : sIsDir (fs.inode ref).iMode = true
      · rw [if_pos isDir]
      · rw [if_neg isDir] at failed
        exact absurd failed (Int.lt_irrefl 0)

theorem ext2Open_opened (mode : f.mode = g.mode) (opened : ¬ (ext2Open fs f found).1 < 0) :
    SameButIno (ext2Open fs f found).2 (ext2Open fs g found).2 := by
  cases found with
  | none => exact absurd (by decide : (-enotexist : Int) < 0) opened
  | some ref =>
      simp only [ext2Open] at opened ⊢
      by_cases isDir : sIsDir (fs.inode ref).iMode = true
      · rw [if_pos isDir] at opened
        exact absurd (by decide : (-enotexist : Int) < 0) opened
      · rw [if_neg isDir, if_neg isDir]
        exact ⟨mode, rfl, rfl, rfl, rfl⟩

end Open

section ReadWrite

variable {f g : File}

theorem ext2ReadLoop_paired (same : SameButIno f g) (inode : Inode) (blockSize : Nat) (size : Int)
    (fuel : Nat) (store : BlockStore) (data : Region) (begin : Int) (bno : Nat) (pos rSize : Int) :
    ∃ done after f' g' read,
      ext2ReadLoop inode blockSize size fuel store f data begin bno pos rSize =
        (done, after, f', read) ∧
      ext2ReadLoop inode blockSize size fuel store g data begin bno pos rSize =
        (done, after, g', read) ∧ SameButIno f' g' := by
  induction fuel generalizing f g store data begin bno pos rSize with
  | zero => exact ⟨true, store, f, g, data, rfl, rfl, same⟩
  | succ fuel ih =>
      rw [ext2ReadLoop, ext2ReadLoop]
      by_cases more : rSize > 0
      · rw [if_pos more, if_pos more]
        cases store.readBlock blockSize bno with
        | mk bb store =>
            cases bb with
            | none => exact ⟨false, store, f, g, data, rfl, rfl, same⟩
            | some bb =>
                dsimp only
                by_cases fits : size ≤ blockSize - begin
                · rw [if_pos fits, if_pos fits]
                  refine ⟨true, store, _, _, _, rfl, rfl, ?_⟩
                  rw [same.pos]
                  exact ⟨same.mode, rfl, same.startBlock, same.curBlock, same.inode⟩
                · rw [if_neg fits, if_neg fits, same.pos, same.curBlock]
                  refine ih ?_ _ _ _ _ _ _
                  exact ⟨same.mode, rfl, same.startBlock, rfl, same.inode⟩
      · rw [if_neg more, if_neg more]
        exact ⟨true, store, f, g, data, rfl, rfl, same⟩

theorem ext2Read_paired (same : SameButIno f g) (fs : FileSystem) (data : Region) (size : Int) :
    (ext2Read fs f data size).count = (ext2Read fs g data size).count ∧
      (ext2Read fs f data size).data = (ext2Read fs g data size).data ∧
      (ext2Read fs f data size).fs = (ext2Read fs g data size).fs ∧
      SameButIno (ext2Read fs f data size).file (ext2Read fs g data size).file := by
  unfold ext2Read
  rw [same.inode, same.pos, same.curBlock]
  obtain ⟨done, after, f', g', read, left, right, ends⟩ := ext2ReadLoop_paired same
    (fs.inode g.inode) fs.blockSize (readSize (fs.inode g.inode).iSize g.pos size)
    (readSize (fs.inode g.inode).iSize g.pos size).toNat
    (igetBno fs.store fs.blockSize (fs.inode g.inode) (uint32 g.curBlock)).2 data
    (g.pos.tmod fs.blockSize)
    (igetBno fs.store fs.blockSize (fs.inode g.inode) (uint32 g.curBlock)).1 0
    (readSize (fs.inode g.inode).iSize g.pos size)
  simp only [left, right, true_and]
  exact ends

theorem ext2WriteSize_paired (same : SameButIno f g) (fs : FileSystem) (size : Int) :
    ext2WriteSize fs f size = ext2WriteSize fs g size := by
  unfold ext2WriteSize
  rw [same.inode]

theorem ext2Write_paired (same : SameButIno f g) (fs : FileSystem) (data : Region) (size : Int) :
    (ext2Write fs f data size).1 = (ext2Write fs g data size).1 ∧
      (ext2Write fs f data size).2.1 = (ext2Write fs g data size).2.1 ∧
      SameButIno (ext2Write fs f data size).2.2 (ext2Write fs g data size).2.2 := by
  unfold ext2Write
  rw [same.inode, same.pos]
  by_cases some : size > 0
  · simp only [if_pos some]
    cases BlockStore.readBlock _ fs.blockSize _ with
    | mk bb store =>
        cases bb with
        | none => exact ⟨rfl, rfl, same⟩
        | some bb =>
            have moved (pos : Int) : SameButIno { f with pos := pos, inode := g.inode }
                { g with pos := pos } :=
              ⟨same.mode, rfl, same.startBlock, same.curBlock, rfl⟩
            exact ⟨rfl, ext2WriteSize_paired (moved _) _ size, moved _⟩
  · simp only [if_neg some]
    exact ⟨trivial, ext2WriteSize_paired same _ size, same⟩

end ReadWrite

end MangoOS
