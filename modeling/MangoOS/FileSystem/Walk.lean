/-
The lookups of a path walk (fs/ext2.c) and the pointers it holds meanwhile.

Besides the files that are open, a walk holds the inodes it has passed: each one's
`parent` points to the directory it was found in.
-/

import MangoOS.FileSystem.Sync
import MangoOS.FileSystem.Window

namespace MangoOS

/-- A round of `find_inode_by_path` that reaches `iget_inode`. -/
structure Round where
  /-- The file system when `iget_inode` is called, and with what. -/
  fs : FileSystem
  ino : Nat
  /-- The directory entry with the number, by buffer and byte; `none` for a new inode. -/
  entry : Option (Nat × Nat)
  /-- The directory that is searched, and its number. -/
  dir : InodeRef
  dirIno : Nat
  /-- The inodes passed so far, each with the directory it was found in. -/
  trail : Nat → Option Nat
  found : Option InodeRef
  after : FileSystem

namespace FileSystem

/-- The call of `iget_inode` in `find_inode_in_dir`: the file system then, the number, and
the entry it was read from. -/
def dirLook (fuel : Nat) (fs : FileSystem) (file : File) (dir : InodeRef) (name : CString)
    (isEnd : Bool) : Option (FileSystem × Nat × Option (Nat × Nat)) :=
  let dirInode := fs.inode dir
  if !sIsDir dirInode.iMode then none
  else
    match scanDir dirInode fs.blockSize name fuel fuel 0 fs.store none none with
    | some (.found bb entry, store) =>
        some (fs.setStore store, (store.buffers bb).data.word entry, some (bb, entry))
    | some (.missing _ _, store) =>
        if file.mode &&& oCreat = oCreat ∧ isEnd then
          ((fs.setStore store).allocInode fuel).map fun (ino, fs) => (fs, ino, none)
        else none
    | _ => none

/-- The rounds of `find_inode_by_path` from directory `dir` on. -/
def pathRounds (fuel : Nat) :
    (rounds : Nat) → FileSystem → File → (path : CString) → (dir : InodeRef) → (isEnd : Bool) →
      (dirIno : Nat) → (trail : Nat → Option Nat) → List Round
  | 0, _, _, _, _, _, _, _ => []
  | rounds + 1, fs, file, path, dir, isEnd, dirIno, trail =>
      match igetName path isEnd with
      | none => []
      | some (name, path, isEnd) =>
          match fs.findInodeInDir fuel file dir name isEnd,
              fs.dirLook fuel file dir name isEnd with
          | some (none, after, _), some (look, ino, entry) =>
              [⟨look, ino, entry, dir, dirIno, trail, none, after⟩]
          | some (some ref, after, file), some (look, ino, entry) =>
              let after := after.setInode ref { after.inode ref with parent := some dir }
              ⟨look, ino, entry, dir, dirIno, trail, some ref, after⟩ ::
                pathRounds fuel rounds after file path ref isEnd ino
                  (Function.update trail ino (some dirIno))
          | _, _ => []

end FileSystem

namespace Round

/-- The walk has passed inode `n`. -/
def Visited (trail : Nat → Option Nat) (n : Nat) : Prop := n = 2 ∨ trail n ≠ none

/-- The pointers held while a round looks up its inode; `files` are those of open files. -/
def Held (r : Round) (files : InodeRef → Nat → Prop) (ref : InodeRef) (n : Nat) : Prop :=
  files ref n ∨ Visited r.trail n ∧ r.fs.Denotes ref n

/-- What is behind the inodes after the round. -/
def trailAfter (r : Round) : Nat → Option Nat :=
  if r.found.isSome then Function.update r.trail r.ino (some r.dirIno) else r.trail

def Calm (r : Round) (files : InodeRef → Nat → Prop) : Prop :=
  r.fs.LookCalm r.ino (r.Held files)

/-- No pointer returned before denotes another inode, and every inode of the walk points to
the directory it was found in. -/
structure Right (r : Round) (files : InodeRef → Nat → Prop) : Prop where
  kept : ∀ ref n, r.Held files ref n → r.after.Denotes ref n
  parents : ∀ n d, r.trailAfter n = some d → ∃ ref parent, r.after.Denotes ref n ∧
    (r.after.inode ref).parent = some parent ∧ r.after.Denotes parent d

/-- The inode is not a new one, and the reload leaves the buffer with its number alone. -/
def Numbered (r : Round) : Prop :=
  ∃ bb entry, r.entry = some (bb, entry) ∧
    (r.fs.InodeCached r.ino ∨
      ((r.fs.loadWindow r.ino).2.1.buffers bb).data = (r.fs.store.buffers bb).data)

end Round

namespace FileSystem

/-- The inodes as last loaded or changed, after the lookups of a walk. -/
def learnRounds (latest : Nat → Inode) (rounds : List Round) : Nat → Inode :=
  rounds.foldl (fun latest r => r.fs.learn r.ino latest) latest

variable {fs middle after : FileSystem} {fuel : Nat}

/-! ### What leaves the windows alone -/

theorem sameWindows_allocInodeLoop {left i n : Nat}
    (returns : allocInodeLoop fuel fs left i = some (n, after)) : SameWindows fs after := by
  rcases allocInodeLoop_cases returns with ⟨_, unchanged, _⟩ | ⟨group, takes, _⟩
  · rw [unchanged]
    exact .refl fs
  · have same := sameWindows_setGroup fs group
      { fs.groups group with
        pInodeBitmap := setBit (fs.groups group).pInodeBitmap n 1
        freeInode := ((fs.groups group).freeInode + 65535) % 65536 } rfl rfl rfl
    rw [takes]
    exact ⟨⟨same.inodeCount, same.groupInode, same.inodeSize, same.blockSize,
      same.inodeTable⟩, same.inodeBegin, same.inodeData⟩

theorem sameWindows_markDirty (fs : FileSystem) (bb : Nat) : SameWindows fs (fs.markDirty bb) :=
  ⟨⟨rfl, rfl, rfl, rfl, fun _ => rfl⟩, fun _ => rfl, fun _ => rfl⟩

/-! ### One round -/

/-- What `find_inode_in_dir` does around its call of `iget_inode`. -/
structure LooksUp (fs look after : FileSystem) (file : File) (ino : Nat)
    (entry : Option (Nat × Nat)) (found : Option InodeRef) : Prop where
  before : SameWindows fs look
  found : found = (look.igetInode ino).1
  behind : SameWindows (look.igetInode ino).2 after
  number : ∀ bb e, entry = some (bb, e) → (look.store.buffers bb).data.word e = ino ∧
    file.ino = ((look.igetInode ino).2.store.buffers bb).data.word e

theorem findInodeInDir_look {file file' : File} {dir : InodeRef} {name : CString} {isEnd : Bool}
    {found : Option InodeRef}
    (returns : fs.findInodeInDir fuel file dir name isEnd = some (found, after, file')) :
    (fs.dirLook fuel file dir name isEnd = none ∧ found = none ∧ SameWindows fs after) ∨
      ∃ look ino entry, fs.dirLook fuel file dir name isEnd = some (look, ino, entry) ∧
        LooksUp fs look after file' ino entry found := by
  unfold dirLook
  cases findInodeInDir_iff.mp returns with
  | notDir other =>
      simp only [other, Bool.not_false, if_true]
      exact Or.inl ⟨trivial, trivial, .refl fs⟩
  | failed isDir scan =>
      simp only [isDir, Bool.not_true, Bool.false_eq_true, if_false, scan]
      exact Or.inl ⟨trivial, trivial, sameWindows_setStore fs _⟩
  | found isDir scan =>
      simp only [isDir, Bool.not_true, Bool.false_eq_true, if_false, scan]
      refine Or.inr ⟨_, _, _, rfl, sameWindows_setStore fs _, rfl, .refl _, ?_⟩
      intro bb' entry' same
      rw [Option.some.injEq, Prod.mk.injEq] at same
      rw [← same.1, ← same.2]
      exact ⟨rfl, rfl⟩
  | missing isDir scan noCreate =>
      simp only [isDir, Bool.not_true, Bool.false_eq_true, if_false, scan, if_neg noCreate]
      exact Or.inl ⟨trivial, trivial, sameWindows_setStore fs _⟩
  | @created last bb e ino searched taken isDir scan creates allocated =>
      simp only [isDir, Bool.not_true, Bool.false_eq_true, if_false, scan, if_pos creates,
        allocated]
      refine Or.inr ⟨taken, ino, none, rfl,
        (sameWindows_setStore fs searched).trans (sameWindows_allocInodeLoop allocated), rfl,
        (sameWindows_setStore _ _).trans (sameWindows_markDirty _ _), ?_⟩
      intro bb e isEntry
      cases isEntry

open Round (Visited)

/-- A walk standing in directory `dir`: what it passed still denotes what it did. -/
structure Walking (fs : FileSystem) (files : InodeRef → Nat → Prop) (latest : Nat → Inode)
    (dir : InodeRef) (dirIno : Nat) (trail : Nat → Option Nat) : Prop where
  sound : fs.Sound latest files
  dir : fs.Denotes dir dirIno
  visited : Visited trail dirIno
  parents : ∀ n d, trail n = some d → ∃ ref parent, fs.Denotes ref n ∧
    (fs.inode ref).parent = some parent ∧ fs.Denotes parent d ∧ Visited trail d

section Walking

variable {look : FileSystem} {files : InodeRef → Nat → Prop} {latest : Nat → Inode}
  {dir : InodeRef} {dirIno ino : Nat} {trail : Nat → Option Nat} {entry : Option (Nat × Nat)}
  {found : Option InodeRef} {file : File}

/-- What holds once `find_inode_in_dir` has returned, before `parent` is set. -/
structure LookedUp (r : Round) (files : InodeRef → Nat → Prop) (fs after : FileSystem)
    (latest : Nat → Inode) (found : Option InodeRef) : Prop where
  sound : after.Sound (r.fs.learn r.ino latest) (r.Held files)
  kept : ∀ ref n, r.Held files ref n → after.inode ref = fs.inode ref
  held : ∀ ref n, files ref n ∨ Visited r.trail n ∧ fs.Denotes ref n → r.Held files ref n
  found : ∀ ref, found = some ref → after.Denotes ref r.ino

theorem Walking.lookedUp (walking : fs.Walking files latest dir dirIno trail) {r : Round}
    (looks : LooksUp fs r.fs after file r.ino entry found) (calm : r.Calm files) : LookedUp r files fs after latest found := by
  have before := walking.sound.keep looks.before
  have sound : r.fs.Sound latest (r.Held files) := by
    refine ⟨before.shape, before.known, ?_⟩
    intro ref n isHeld
    rcases isHeld with isFile | ⟨_, denotes⟩
    · exact before.denotes ref n isFile
    · exact denotes
  have looked := igetInode_looked sound calm
  refine ⟨looked.sound.keep looks.behind, ?_, ?_, ?_⟩
  · intro ref n isHeld
    rw [looks.behind.inode, looked.kept ref n isHeld, looks.before.inode]
  · intro ref n isHeld
    rcases isHeld with isFile | ⟨visited, denotes⟩
    · exact Or.inl isFile
    · exact Or.inr ⟨visited,
        denotes.keep looks.before.toSameLayout (looks.before.inodeBegin ref.group)⟩
  · intro ref isFound
    rw [looks.found] at isFound
    exact (looked.found ref isFound).keep looks.behind.toSameLayout
      (looks.behind.inodeBegin ref.group)

theorem LookedUp.missing {r : Round} (up : LookedUp r files fs after latest none)
    (walking : fs.Walking files latest dir dirIno trail) (isTrail : r.trail = trail)
    (isFound : r.found = none) (isAfter : r.after = after) : r.Right files := by
  constructor
  · intro ref n isHeld
    rw [isAfter]
    exact up.sound.denotes ref n isHeld
  · intro n d behind
    have isTrailAfter : r.trailAfter = trail := by
      unfold Round.trailAfter
      rw [isFound, isTrail]
      rfl
    rw [isTrailAfter] at behind
    obtain ⟨ref, parent, denotes, isParent, target, visited⟩ := walking.parents n d behind
    have heldRef := up.held ref n
      (Or.inr ⟨Or.inr (by rw [isTrail, behind]; exact Option.some_ne_none d), denotes⟩)
    have heldParent := up.held parent d (Or.inr ⟨by rw [isTrail]; exact visited, target⟩)
    rw [isAfter]
    exact ⟨ref, parent, up.sound.denotes ref n heldRef,
      by rw [up.kept ref n heldRef]; exact isParent, up.sound.denotes parent d heldParent⟩

theorem visited_update {n : Nat} (visited : Visited trail n) (ino dirIno : Nat) :
    Visited (Function.update trail ino (some dirIno)) n := by
  unfold Visited at visited ⊢
  rw [Function.update_apply]
  cases decEq n ino with
  | isTrue same =>
      rw [if_pos same]
      exact Or.inr (Option.some_ne_none dirIno)
  | isFalse different =>
      rw [if_neg different]
      exact visited

/-- The round sets `parent`, and the walk stands in the inode it found. -/
theorem LookedUp.enter {r : Round} {ref : InodeRef}
    (up : LookedUp r files fs after latest (some ref))
    (walking : fs.Walking files latest dir dirIno trail) (isTrail : r.trail = trail)
    (isNumber : r.dirIno = dirIno) (isFound : r.found = some ref)
    (isAfter : r.after = after.setInode ref { after.inode ref with parent := some dir }) :
    r.Right files ∧ r.after.Walking files (r.fs.learn r.ino latest) ref r.ino r.trailAfter := by
  have denotes := up.found ref rfl
  have stored := (denotes.stored up.sound.known).parent (some dir)
  have entered := up.sound.setInode denotes stored
  rw [Function.update_eq_self, ← isAfter] at entered
  have isTrailAfter : r.trailAfter = Function.update trail r.ino (some dirIno) := by
    unfold Round.trailAfter
    rw [isFound, isTrail, isNumber]
    rfl
  have heldDir : r.Held files dir dirIno :=
    up.held dir dirIno (Or.inr ⟨by rw [isTrail]; exact walking.visited, walking.dir⟩)
  have parents : ∀ n d, r.trailAfter n = some d → ∃ ref parent, r.after.Denotes ref n ∧
      (r.after.inode ref).parent = some parent ∧ r.after.Denotes parent d ∧
      Visited r.trailAfter d := by
    intro n d behind
    rw [isTrailAfter, Function.update_apply] at behind
    cases decEq n r.ino with
    | isTrue same =>
        rw [if_pos same, Option.some.injEq] at behind
        rw [same, ← behind, isTrailAfter]
        refine ⟨ref, dir, ?_, ?_, entered.denotes dir dirIno heldDir,
          visited_update walking.visited _ _⟩
        · rw [isAfter]
          exact setInode_denotes denotes
        · rw [isAfter, setInode_inode, if_pos rfl]
    | isFalse different =>
        rw [if_neg different] at behind
        obtain ⟨old, parent, denotesOld, isParent, target, visited⟩ :=
          walking.parents n d behind
        have heldOld := up.held old n
          (Or.inr ⟨Or.inr (by rw [isTrail, behind]; exact Option.some_ne_none d), denotesOld⟩)
        have heldParent := up.held parent d (Or.inr ⟨by rw [isTrail]; exact visited, target⟩)
        have oldAfter := up.sound.denotes old n heldOld
        have apart : old ≠ ref := by
          intro same
          rw [same] at oldAfter
          exact different (up.sound.shape.cachedRef_inj denotes.valid oldAfter.valid
            (oldAfter.place.symm.trans denotes.place))
        rw [isTrailAfter]
        refine ⟨old, parent, entered.denotes old n heldOld, ?_,
          entered.denotes parent d heldParent, visited_update visited _ _⟩
        rw [isAfter, setInode_inode, if_neg apart, up.kept old n heldOld]
        exact isParent
  have right : r.Right files := by
    refine ⟨entered.denotes, ?_⟩
    intro n d behind
    obtain ⟨old, parent, denotesOld, isParent, target, _⟩ := parents n d behind
    exact ⟨old, parent, denotesOld, isParent, target⟩
  refine ⟨right, ⟨entered.shape, entered.known, fun old n isFile =>
    entered.denotes old n (Or.inl isFile)⟩, ?_, ?_, parents⟩
  · rw [isAfter]
    exact setInode_denotes denotes
  · rw [isTrailAfter]
    exact Or.inr (by rw [Function.update_self]; exact Option.some_ne_none dirIno)

end Walking

/-- What a walk from `dir` ends with. -/
structure WalkEnds (rounds : List Round) (files : InodeRef → Nat → Prop) (latest : Nat → Inode)
    (dirIno : Nat) (file file' : File) (after : FileSystem) (found : Option InodeRef) : Prop where
  right : ∀ r, r ∈ rounds → r.Right files
  sound : after.Sound (learnRounds latest rounds) files
  empty : rounds = [] → ∀ ref, found = some ref → after.Denotes ref dirIno ∧ file' = file
  last : ∀ r, rounds.getLast? = some r → ∀ ref, found = some ref →
    after.Denotes ref r.ino ∧ r.found.isSome ∧ (r.Numbered → file'.ino = r.ino)

/-- The number that `find_inode_in_dir` puts into the file. -/
theorem LooksUp.numbered {r : Round} {file : File}
    {found : Option InodeRef} {ref : InodeRef}
    (looks : LooksUp fs r.fs after file r.ino r.entry found)
    (isFound : found = some ref) (numbered : r.Numbered) : file.ino = r.ino := by
  obtain ⟨bb, entry, isEntry, same⟩ := numbered
  obtain ⟨before, behind⟩ := looks.number bb entry isEntry
  rw [behind]
  refine Eq.trans ?_ before
  have returned := looks.found
  rw [isFound] at returned
  by_cases valid : r.fs.ValidIno r.ino
  · by_cases cached : r.fs.InodeCached r.ino
    · rw [igetInode_cached valid.1 valid.2 cached]
    · have unchanged := same.resolve_left cached
      obtain ⟨store, inodeData, loads, _, isAfter⟩ :=
        igetInode_reloaded valid.1 valid.2 cached
          (Prod.ext returned.symm rfl : r.fs.igetInode r.ino = (some ref, (r.fs.igetInode r.ino).2))
      rw [loads] at unchanged
      rw [isAfter]
      change Region.word (store.buffers bb).data entry = _
      rw [unchanged]
  · rw [igetInode_notValid valid] at returned
    cases returned

theorem WalkEnds.cons {r : Round} {rounds : List Round} {files : InodeRef → Nat → Prop}
    {latest : Nat → Inode} {dirIno : Nat} {file file1 file' : File} {found : Option InodeRef}
    (right : r.Right files) (entered : r.found.isSome) (number : r.Numbered → file1.ino = r.ino)
    (rest : WalkEnds rounds files (r.fs.learn r.ino latest) r.ino file1 file' after found) :
    WalkEnds (r :: rounds) files latest dirIno file file' after found := by
  refine ⟨?_, rest.sound, ?_, ?_⟩
  · intro other member
    rcases List.mem_cons.mp member with isFirst | inRest
    · rw [isFirst]
      exact right
    · exact rest.right other inRest
  · intro isEmpty
    cases isEmpty
  · intro last isLast ref isFound
    cases rounds with
    | nil =>
        obtain ⟨denotes, sameFile⟩ := rest.empty rfl ref isFound
        cases isLast
        rw [sameFile]
        exact ⟨denotes, entered, number⟩
    | cons second others => exact rest.last last isLast ref isFound

theorem findPathLoop_ends {files : InodeRef → Nat → Prop} {latest : Nat → Inode}
    {rounds dirIno : Nat} {file file' : File} {path : CString} {dir : InodeRef} {isEnd : Bool}
    {trail : Nat → Option Nat} {found : Option InodeRef}
    (walking : fs.Walking files latest dir dirIno trail)
    (calm : ∀ r, r ∈ pathRounds fuel rounds fs file path dir isEnd dirIno trail → r.Calm files)
    (returns : findPathLoop fuel rounds fs file path (some dir) isEnd =
      some (found, after, file')) :
    WalkEnds (pathRounds fuel rounds fs file path dir isEnd dirIno trail) files latest dirIno
      file file' after found := by
  induction rounds generalizing fs file path dir isEnd dirIno trail latest with
  | zero => cases returns
  | succ rounds ih =>
      rw [pathRounds] at calm ⊢
      cases findPathLoop_step returns with
      | ended noName =>
          simp only [noName]
          refine ⟨fun r member => absurd member List.not_mem_nil, walking.sound, ?_, ?_⟩
          · intro _ ref isDir
            cases isDir
            exact ⟨walking.dir, rfl⟩
          · intro r isLast
            cases isLast
      | missing isName search =>
          rcases findInodeInDir_look search with
            ⟨isLook, _, same⟩ | ⟨look, ino, entry, isLook, looks⟩
          · simp only [isName, search, isLook]
            refine ⟨fun r member => absurd member List.not_mem_nil, walking.sound.keep same, ?_, ?_⟩
            · intro _ ref isDir
              cases isDir
            · intro r isLast
              cases isLast
          · simp only [isName, search, isLook] at calm ⊢
            have up := walking.lookedUp (r := ⟨look, ino, entry, dir, dirIno, trail, none, after⟩)
              looks (calm _ (List.mem_singleton_self _))
            refine ⟨?_, ?_, ?_, ?_⟩
            · intro r member
              rw [List.mem_singleton.mp member]
              exact up.missing walking rfl rfl rfl
            · exact ⟨up.sound.shape, up.sound.known, fun ref n isFile =>
                up.sound.denotes ref n (Or.inl isFile)⟩
            · intro isEmpty
              cases isEmpty
            · intro r _ ref isDir
              cases isDir
      | @entered name rest last parent ref middle _ next _ _ isName search behind =>
          rcases findInodeInDir_look search with
            ⟨_, isNone, _⟩ | ⟨look, ino, entry, isLook, looks⟩
          · cases isNone
          · simp only [isName, search, isLook] at calm ⊢
            have up := walking.lookedUp looks (calm _ (List.mem_cons_self ..))
            obtain ⟨right, onward⟩ := up.enter walking rfl rfl rfl rfl
            have ends := ih onward
              (fun r member => calm r (List.mem_cons_of_mem _ member)) behind
            exact .cons right rfl (looks.numbered rfl) ends

/-- A walk over a path that has a name looks something up. -/
theorem pathRounds_ne {rounds dirIno : Nat} {file file' : File} {path : CString}
    {dir ref : InodeRef} {isEnd : Bool} {trail : Nat → Option Nat} (nonempty : path ≠ [])
    (returns : findPathLoop fuel rounds fs file path (some dir) isEnd =
      some (some ref, after, file')) :
    pathRounds fuel rounds fs file path dir isEnd dirIno trail ≠ [] := by
  cases rounds with
  | zero => cases returns
  | succ rounds =>
      have long : path.length ≠ 0 := fun zero => nonempty (List.length_eq_zero_iff.mp zero)
      rw [pathRounds]
      cases findPathLoop_step returns with
      | ended noName =>
          unfold igetName at noName
          rw [if_neg long] at noName
          cases noName
      | entered isName search behind =>
          rcases findInodeInDir_look search with
            ⟨_, isNone, _⟩ | ⟨look, ino, entry, isLook, _⟩
          · cases isNone
          · simp only [isName, search, isLook]
            exact List.cons_ne_nil _ _

end FileSystem

end MangoOS
