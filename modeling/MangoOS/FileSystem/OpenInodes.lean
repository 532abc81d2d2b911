/-
Open files and the inodes behind them (fs/ext2.c, fs/fs.c) over runs of opens,
reads, writes, unlinks, lookups and closes.

`latest` is not in the source: it is what each inode was last loaded as or changed to.
-/

import MangoOS.FileSystem.Walk

namespace MangoOS

/-- A file system and the entries of `file_table` that descriptors refer to. -/
structure Session where
  fs : FileSystem
  files : Nat → Option File
  latest : Nat → Inode

namespace FileSystem

/-- The rounds of `find_inode_by_path`. -/
def lookups (fuel : Nat) (fs : FileSystem) (file : File) (path : CString) : List Round :=
  match fs.igetInode 2 with
  | (none, _) => []
  | (some root, fs) =>
      pathRounds fuel (path.length + 1) fs file path root true 2 (fun _ => none)

def learnPath (fuel : Nat) (fs : FileSystem) (file : File) (path : CString)
    (latest : Nat → Inode) : Nat → Inode :=
  learnRounds (fs.learn 2 latest) (fs.lookups fuel file path)

/-- Every lookup of the walk is calm. -/
def PathCalm (fuel : Nat) (fs : FileSystem) (file : File) (path : CString)
    (files : InodeRef → Nat → Prop) : Prop :=
  fs.LookCalm 2 files ∧ ∀ r, r ∈ fs.lookups fuel file path → r.Calm files

end FileSystem

/-- What `ext2_write` leaves of an inode. -/
def grown (inode : Inode) (size : Int) (now : Nat) : Inode :=
  { inode with iSize := uint32 (inode.iSize + size), iAtime := now }

theorem SameStored.grown {a b : Inode} (same : SameStored a b) (size : Int) (now : Nat) :
    SameStored (grown a size now) (grown b size now) := by
  unfold MangoOS.grown
  exact ⟨same.iMode, same.iBlocks, same.iUid, same.iGid, by rw [same.iSize], rfl, same.iMtime,
    same.iCtime, same.iBlock⟩

/-- The calls; `slot` is the entry that `alloc_file` returns, and `stale` what it holds.  If
all entries are in use it is one of these. -/
inductive InodeCall
  | «open» (slot fuel : Nat) (stale : File) (mode : Nat) (path : CString)
  | read (slot : Nat) (data : Region) (size : Int)
  | write (slot : Nat) (data : Region) (size : Int)
  | unlink (slot fuel : Nat) (ram : Ram) (stale : File) (path : CString)
  | lookup (fuel : Nat) (file : File) (path : CString)
  | close (slot fuel : Nat)

namespace Session

def setFile (s : Session) (slot : Nat) (file : Option File) : Session :=
  { s with files := Function.update s.files slot file }

/-- A failed call has changed its entry, which matters if the entry is in use. -/
def spoil (s : Session) (slot : Nat) (file : File) : Session :=
  if (s.files slot).isSome then s.setFile slot (some file) else s

/-- `sys_open` behind `alloc_file`. -/
def sysOpen (s : Session) (slot fuel : Nat) (stale : File) (mode : Nat) (path : CString) :
    Option Session :=
  let file := { (s.files slot).getD stale with mode := mode }
  match s.fs.findInodeByPath fuel file path with
  | none => none
  | some (found, fs, opened) =>
      let s := { s with fs := fs, latest := s.fs.learnPath fuel file path s.latest }
      let (err, opened) := ext2Open fs opened found
      if err < 0 then some (s.spoil slot opened)
      else
        let opened := if mode &&& oAppend = oAppend then sysOpenAppend fs opened else opened
        some (s.setFile slot (some opened))

/-- `ext2_read` on an open file. -/
def read (s : Session) (slot : Nat) (data : Region) (size : Int) : Session :=
  match s.files slot with
  | none => s
  | some file =>
      let result := ext2Read s.fs file data size
      { s with fs := result.fs }.setFile slot (some result.file)

/-- `ext2_write` on an open file; it returns 0 for a positive size if a block could not be
read. -/
def write (s : Session) (slot : Nat) (data : Region) (size : Int) : Session :=
  match s.files slot with
  | none => s
  | some file =>
      let (count, fs, written) := ext2Write s.fs file data size
      let latest :=
        if 0 < size ∧ count = 0 then s.latest
        else Function.update s.latest file.ino
          (grown (s.latest file.ino) size (fs.store.clock (fs.store.looks - 1)))
      { s with fs := fs, latest := latest }.setFile slot (some written)

def unlink (s : Session) (slot fuel : Nat) (ram : Ram) (stale : File) (path : CString) :
    Option Session :=
  let file := (s.files slot).getD stale
  (s.fs.ext2Unlink fuel ram file path).map fun (_, fs, unlinked) =>
    { s with fs := fs, latest := s.fs.learnPath fuel file path s.latest }.spoil slot unlinked

/-- `find_inode_by_path` for anything else. -/
def lookup (s : Session) (fuel : Nat) (file : File) (path : CString) : Option Session :=
  (s.fs.findInodeByPath fuel file path).map fun (_, fs, _) =>
    { s with fs := fs, latest := s.fs.learnPath fuel file path s.latest }

/-- The last `sys_close` of a file. -/
def close (s : Session) (slot fuel : Nat) : Option Session :=
  match s.files slot with
  | none => some s
  | some file =>
      (ext2Close fuel s.fs file).map fun (_, fs) => { s with fs := fs }.setFile slot none

/-- `none` if the call does not return. -/
def step (s : Session) : InodeCall → Option Session
  | .open slot fuel stale mode path => s.sysOpen slot fuel stale mode path
  | .read slot data size => some (s.read slot data size)
  | .write slot data size => some (s.write slot data size)
  | .unlink slot fuel ram stale path => s.unlink slot fuel ram stale path
  | .lookup fuel file path => s.lookup fuel file path
  | .close slot fuel => s.close slot fuel

/-- The pointers of the open files, with the numbers they are meant for. -/
def Points (s : Session) (ref : InodeRef) (n : Nat) : Prop :=
  ∃ slot file, s.files slot = some file ∧ file.inode = ref ∧ file.ino = n

/-- The walk of a call: with which file and path. -/
def walkOf (s : Session) : InodeCall → Option (Nat × File × CString)
  | .open slot fuel stale mode path =>
      some (fuel, { (s.files slot).getD stale with mode := mode }, path)
  | .unlink slot fuel _ stale path => some (fuel, (s.files slot).getD stale, path)
  | .lookup fuel file path => some (fuel, file, path)
  | _ => none

/-- The entry is free, the lookups are calm, and a file that is opened gets its number. -/
structure Calm (s : Session) (call : InodeCall) : Prop where
  walk : ∀ fuel file path, s.walkOf call = some (fuel, file, path) →
    s.fs.PathCalm fuel file path s.Points
  free : match call with
    | .open slot _ _ _ _ => s.files slot = none
    | .unlink slot _ _ _ _ => s.files slot = none
    | _ => True
  numbered : match call with
    | .open slot fuel stale mode path => path ≠ [] ∧
        ∀ r, (s.fs.lookups fuel { (s.files slot).getD stale with mode := mode } path).getLast? =
          some r → r.found.isSome → r.Numbered
    | _ => True

/-- Every open file refers to the cached inode of its number, with the contents this inode
was last given. -/
def FilesRight (s : Session) : Prop :=
  ∀ slot file, s.files slot = some file →
    s.fs.Denotes file.inode file.ino ∧
      SameStored (s.fs.inode file.inode) (s.latest file.ino)

/-- No lookup of the call takes a pointer away, and its walk sets the right parents. -/
def WalkRight (s : Session) (call : InodeCall) : Prop :=
  ∀ fuel file path, s.walkOf call = some (fuel, file, path) →
    (∀ ref n, s.Points ref n → (s.fs.igetInode 2).2.Denotes ref n) ∧
      ∀ r, r ∈ s.fs.lookups fuel file path → r.Right s.Points

/-- Nothing is open, and the windows hold what was loaded.  `read_block` reads the blocks whole; it
overruns the buffers of smaller ones. -/
structure Fresh (s : Session) : Prop where
  shape : s.fs.TableShape
  whole : s.fs.blockSize = 8 * sectorSize
  known : s.fs.Known s.latest
  closed : ∀ slot, s.files slot = none

inductive InodeCalls (allowed : Session → InodeCall → Prop) (initial : Session) :
    Session → Prop
  | start : InodeCalls allowed initial initial
  | call {s after : Session} (call : InodeCall) : InodeCalls allowed initial s →
      allowed s call → s.step call = some after → InodeCalls allowed initial after

end Session

namespace FileSystem

variable {fs after : FileSystem} {fuel : Nat}

/-- What a calm walk leads to. -/
structure PathEnds (fuel : Nat) (fs : FileSystem) (file : File) (path : CString)
    (files : InodeRef → Nat → Prop) (latest : Nat → Inode) (found : Option InodeRef)
    (after : FileSystem) (file' : File) : Prop where
  root : ∀ ref n, files ref n → (fs.igetInode 2).2.Denotes ref n
  right : ∀ r, r ∈ fs.lookups fuel file path → r.Right files
  sound : after.Sound (fs.learnPath fuel file path latest) files
  denotes : path ≠ [] → (∀ r, (fs.lookups fuel file path).getLast? = some r →
    r.found.isSome → r.Numbered) → ∀ ref, found = some ref → after.Denotes ref file'.ino

theorem lookups_none {file : File} {path : CString} {middle : FileSystem}
    (root : fs.igetInode 2 = (none, middle)) : fs.lookups fuel file path = [] := by
  unfold lookups
  rw [root]

theorem lookups_some {file : File} {path : CString} {middle : FileSystem} {ref : InodeRef}
    (root : fs.igetInode 2 = (some ref, middle)) :
    fs.lookups fuel file path =
      pathRounds fuel (path.length + 1) middle file path ref true 2 (fun _ => none) := by
  unfold lookups
  rw [root]

theorem findInodeByPath_ends {file file' : File} {path : CString} {found : Option InodeRef}
    {files : InodeRef → Nat → Prop} {latest : Nat → Inode} (sound : fs.Sound latest files)
    (calm : fs.PathCalm fuel file path files)
    (returns : fs.findInodeByPath fuel file path = some (found, after, file')) :
    PathEnds fuel fs file path files latest found after file' := by
  have looked := igetInode_looked sound calm.1
  have rounds := calm.2
  have kept := looked.sound.denotes
  unfold findInodeByPath at returns
  rcases root : fs.igetInode 2 with ⟨inode, middle⟩
  rw [root] at looked
  simp only [root] at returns
  cases inode with
  | none =>
      have empty : fs.lookups fuel file path = [] := lookups_none root
      cases findPathLoop_step returns with
      | ended noName =>
          refine ⟨kept, ?_, ?_, ?_⟩
          · intro r member
            rw [empty] at member
            cases member
          · unfold learnPath
            rw [empty]
            exact looked.sound
          · intro _ _ ref isRef
            cases isRef
  | some ref =>
      have isLookups : fs.lookups fuel file path = _ := lookups_some root
      have walking : middle.Walking files (fs.learn 2 latest) ref 2 (fun _ => none) :=
        ⟨looked.sound, looked.found ref rfl, Or.inl rfl, fun n d behind => by cases behind⟩
      rw [isLookups] at rounds
      have ends := findPathLoop_ends walking rounds returns
      rw [← isLookups] at ends
      refine ⟨kept, ends.right, ends.sound, ?_⟩
      intro nonempty numbered target isTarget
      rw [isTarget] at returns
      have notEmpty : fs.lookups fuel file path ≠ [] := by
        rw [isLookups]
        exact pathRounds_ne nonempty returns
      have isLast := List.getLast?_eq_some_getLast notEmpty
      obtain ⟨denotes, entered, number⟩ := ends.last _ isLast target isTarget
      rw [number (numbered _ isLast entered)]
      exact denotes

/-! ### The other calls -/

theorem sameWindows_framed : Framed SameWindows where
  refl := .refl
  trans := .trans
  store := sameWindows_setStore
  bit fs gno _ := sameWindows_setGroup fs gno _ rfl rfl rfl

theorem sameWindows_syncBlocks {fuel : Nat} {bn : Option Nat} {done : Bool}
    (returns : syncBlocks fuel fs bn = some (done, after)) : SameWindows fs after := by
  induction fuel generalizing fs bn with
  | zero => cases returns
  | succ fuel ih =>
      cases bn with
      | none =>
          rw [syncBlocks, Option.some.injEq, Prod.mk.injEq] at returns
          exact returns.2 ▸ .refl fs
      | some bb =>
          rw [syncBlocks] at returns
          rcases flushed : fs.store.flush
            (BlockStore.sectorOf fs.blockSize (fs.store.buffers bb).blockNo) bb with ⟨count, store⟩
          simp only [flushed] at returns
          have stored := sameWindows_setStore fs store
          by_cases failed : count ≤ 0
          · rw [if_pos failed, Option.some.injEq, Prod.mk.injEq] at returns
            exact returns.2 ▸ stored
          · rw [if_neg failed] at returns
            have rest := ih returns
            exact stored.trans ⟨⟨rest.inodeCount, rest.groupInode, rest.inodeSize,
              rest.blockSize, rest.inodeTable⟩, rest.inodeBegin, rest.inodeData⟩

theorem sameWindows_syncGroup (fs : FileSystem) (i : Nat) : SameWindows fs (fs.syncGroup i).2 := by
  unfold syncGroup
  dsimp only
  split
  · exact sameWindows_setStore _ _
  · split
    · exact sameWindows_setStore _ _
    · exact sameWindows_setStore _ _

theorem sameWindows_syncGroups (left i : Nat) (fs : FileSystem) :
    SameWindows fs (syncGroups left i fs).2 := by
  induction left generalizing i fs with
  | zero => exact .refl fs
  | succ left ih =>
      have group := sameWindows_syncGroup fs i
      rw [syncGroups]
      cases synced : fs.syncGroup i with
      | mk done middle =>
          rw [synced] at group
          cases done with
          | false => exact group
          | true => exact group.trans (ih (i + 1) middle)

theorem sameWindows_syncSuper (fs : FileSystem) : SameWindows fs fs.syncSuper.2 := by
  unfold syncSuper
  dsimp only
  split
  · exact ⟨⟨rfl, rfl, rfl, rfl, fun _ => rfl⟩, fun _ => rfl, fun _ => rfl⟩
  · exact ⟨⟨rfl, rfl, rfl, rfl, fun _ => rfl⟩, fun _ => rfl, fun _ => rfl⟩

theorem sameWindows_ext2Sync {err : Int} (returns : ext2Sync fuel fs = some (err, after)) :
    SameWindows fs after := by
  unfold ext2Sync at returns
  split at returns
  case h_1 => cases returns
  case h_2 synced blocks =>
      rw [Option.some.injEq, Prod.mk.injEq] at returns
      exact returns.2 ▸ sameWindows_syncBlocks blocks
  case h_3 synced blocks =>
      have first := sameWindows_syncBlocks blocks
      have groups := sameWindows_syncGroups synced.groupCount 0 synced
      cases isGroups : syncGroups synced.groupCount 0 synced with
      | mk done grouped =>
          rw [isGroups] at groups returns
          cases done with
          | false =>
              rw [Option.some.injEq, Prod.mk.injEq] at returns
              exact returns.2 ▸ first.trans groups
          | true =>
              rw [Option.some.injEq] at returns
              have last := sameWindows_syncSuper grouped
              rw [returns] at last
              exact (first.trans groups).trans last

theorem sameWindows_ext2Close {file : File} {err : Int}
    (returns : ext2Close fuel fs file = some (err, after)) : SameWindows fs after := by
  unfold ext2Close at returns
  split at returns
  · rw [Option.some.injEq, Prod.mk.injEq] at returns
    exact returns.2 ▸ .refl fs
  · split at returns
    case h_1 => cases returns
    case h_2 err synced sync =>
        rw [Option.some.injEq, Prod.mk.injEq] at returns
        exact returns.2 ▸ sameWindows_ext2Sync sync

theorem ext2ReadLoop_pointer (inode : Inode) (blockSize : Nat) (size : Int) (fuel : Nat)
    (store : BlockStore) (file : File) (data : Region) (begin : Int) (bno : Nat)
    (pos rSize : Int) :
    (ext2ReadLoop inode blockSize size fuel store file data begin bno pos rSize).2.2.1.inode =
        file.inode ∧
      (ext2ReadLoop inode blockSize size fuel store file data begin bno pos rSize).2.2.1.ino =
        file.ino := by
  induction fuel generalizing store file data begin bno pos rSize with
  | zero => exact ⟨rfl, rfl⟩
  | succ fuel ih =>
      rw [ext2ReadLoop]
      by_cases more : rSize > 0
      · rw [if_pos more]
        rcases store.readBlock blockSize bno with ⟨bb, readStore⟩
        cases bb with
        | none => exact ⟨rfl, rfl⟩
        | some bb =>
            dsimp only
            by_cases fits : size ≤ blockSize - begin
            · rw [if_pos fits]
              exact ⟨rfl, rfl⟩
            · rw [if_neg fits]
              exact ih _ _ _ _ _ _ _
      · rw [if_neg more]
        exact ⟨rfl, rfl⟩

theorem ext2Read_pointer (fs : FileSystem) (file : File) (data : Region) (size : Int) :
    (ext2Read fs file data size).file.inode = file.inode ∧
      (ext2Read fs file data size).file.ino = file.ino :=
  ext2ReadLoop_pointer _ _ _ _ _ _ _ _ _ _ _

theorem sameWindows_ext2Read (fs : FileSystem) (file : File) (data : Region) (size : Int) :
    SameWindows fs (ext2Read fs file data size).fs :=
  sameWindows_setStore fs _

/-- What `ext2_write` does to the windows: nothing, or the inode of its file grows. -/
structure Written (fs : FileSystem) (file : File) (size count : Int) (after : FileSystem)
    (file' : File) : Prop where
  inode : file'.inode = file.inode
  ino : file'.ino = file.ino
  failed : 0 < size ∧ count = 0 → SameWindows fs after
  grows : ¬ (0 < size ∧ count = 0) → ∃ middle, SameWindows fs middle ∧
    after = middle.setInode file.inode
      (grown (middle.inode file.inode) size (after.store.clock (after.store.looks - 1)))

theorem ext2WriteSize_eq (fs : FileSystem) (file : File) (size : Int) :
    ∃ middle, SameWindows fs middle ∧
      ext2WriteSize fs file size = middle.setInode file.inode
        (grown (middle.inode file.inode) size
          ((ext2WriteSize fs file size).store.clock
            ((ext2WriteSize fs file size).store.looks - 1))) :=
  ⟨fs.setStore { fs.store with looks := fs.store.looks + 1 }, sameWindows_setStore fs _, rfl⟩

theorem ext2Write_written (fs : FileSystem) (file : File) (data : Region) (size : Int) :
    Written fs file size (ext2Write fs file data size).1 (ext2Write fs file data size).2.1
      (ext2Write fs file data size).2.2 := by
  unfold ext2Write
  rcases igetBno fs.store fs.blockSize (fs.inode file.inode)
    (uint32 (file.pos.tdiv fs.blockSize)) with ⟨bno, found⟩
  dsimp only
  by_cases some : size > 0
  · rw [if_pos some]
    rcases found.readBlock fs.blockSize bno with ⟨bb, store⟩
    cases bb with
    | none =>
        exact ⟨rfl, rfl, fun _ => sameWindows_setStore fs store, fun goes =>
          absurd ⟨some, rfl⟩ goes⟩
    | some bb =>
        refine ⟨rfl, rfl, fun failed => absurd failed.2 (Int.ne_of_gt some), ?_⟩
        intro _
        obtain ⟨middle, same, isAfter⟩ := ext2WriteSize_eq
          ((fs.setStore (store.setBuffer bb { store.buffers bb with
            data := (store.buffers bb).data.copy (file.pos.tmod fs.blockSize) data 0
              (if size ≤ fs.blockSize - file.pos.tmod fs.blockSize then size
                else fs.blockSize - file.pos.tmod fs.blockSize) })).markDirty bb)
          { file with pos := int32 (file.pos +
              if size ≤ fs.blockSize - file.pos.tmod fs.blockSize then size
              else fs.blockSize - file.pos.tmod fs.blockSize) } size
        exact ⟨middle, ((sameWindows_setStore fs _).trans (sameWindows_markDirty _ bb)).trans same,
          isAfter⟩
  · rw [if_neg some]
    refine ⟨rfl, rfl, fun failed => absurd failed.1 some, ?_⟩
    intro _
    obtain ⟨middle, same, isAfter⟩ := ext2WriteSize_eq (fs.setStore found) file size
    exact ⟨middle, (sameWindows_setStore fs found).trans same, isAfter⟩

end FileSystem

namespace FileSystem

theorem Sound.hold {fs : FileSystem} {latest : Nat → Inode} {held others : InodeRef → Nat → Prop}
    (sound : fs.Sound latest held) (denotes : ∀ ref n, others ref n → fs.Denotes ref n) :
    fs.Sound latest others :=
  ⟨sound.shape, sound.known, denotes⟩

end FileSystem

namespace Session

variable {s after : Session} {slot : Nat} {file : File}

/-- The file system and the pointers of the open files are what they should be. -/
def Sound (s : Session) : Prop := s.fs.Sound s.latest s.Points

theorem setFile_points {ref : InodeRef} {n : Nat} {opened : Option File}
    (points : (s.setFile slot opened).Points ref n) :
    (∃ file, opened = some file ∧ file.inode = ref ∧ file.ino = n) ∨ s.Points ref n := by
  obtain ⟨place, file, isOpen, isRef, isNumber⟩ := points
  unfold setFile at isOpen
  simp only [Function.update_apply] at isOpen
  cases decEq place slot with
  | isTrue same =>
      rw [if_pos same] at isOpen
      exact Or.inl ⟨file, isOpen, isRef, isNumber⟩
  | isFalse different =>
      rw [if_neg different] at isOpen
      exact Or.inr ⟨place, file, isOpen, isRef, isNumber⟩

theorem Sound.setFile (sound : s.Sound) {opened : Option File}
    (right : ∀ file, opened = some file → s.fs.Denotes file.inode file.ino) :
    (s.setFile slot opened).Sound := by
  apply FileSystem.Sound.hold sound
  intro ref n points
  rcases setFile_points points with ⟨file, isOpen, isRef, isNumber⟩ | points
  · rw [← isRef, ← isNumber]
    exact right file isOpen
  · exact sound.denotes ref n points

/-- The file of an entry moves on, over the same windows. -/
theorem Sound.move (sound : s.Sound) {fs : FileSystem} (same : FileSystem.SameWindows s.fs fs)
    (isOpen : s.files slot = some file) {moved : File} (inode : moved.inode = file.inode)
    (ino : moved.ino = file.ino) : ({ s with fs := fs }.setFile slot (some moved)).Sound := by
  have kept : Session.Sound { s with fs := fs } := FileSystem.Sound.keep sound same
  apply kept.setFile
  intro other isMoved
  rw [Option.some.injEq] at isMoved
  rw [← isMoved, inode, ino]
  exact kept.denotes _ _ ⟨slot, file, isOpen, rfl, rfl⟩

theorem Sound.read (sound : s.Sound) (data : Region) (size : Int) :
    (s.read slot data size).Sound := by
  unfold Session.read
  split
  case h_1 => exact sound
  case h_2 file isOpen =>
      have pointer := FileSystem.ext2Read_pointer s.fs file data size
      exact sound.move (FileSystem.sameWindows_ext2Read s.fs file data size) isOpen
        pointer.1 pointer.2

theorem Sound.write (sound : s.Sound) (data : Region) (size : Int) :
    (s.write slot data size).Sound := by
  unfold Session.write
  split
  case h_1 => exact sound
  case h_2 file isOpen =>
      have written := FileSystem.ext2Write_written s.fs file data size
      rcases wrote : ext2Write s.fs file data size with ⟨count, fs, moved⟩
      rw [wrote] at written
      have denotes := FileSystem.Sound.denotes sound _ _ ⟨slot, file, isOpen, rfl, rfl⟩
      by_cases failed : 0 < size ∧ count = 0
      · simp only [if_pos failed]
        exact sound.move (written.failed failed) isOpen written.inode written.ino
      · simp only [if_neg failed]
        obtain ⟨middle, same, isAfter⟩ := written.grows failed
        have kept := FileSystem.Sound.keep sound same
        have denotesMiddle := kept.denotes _ _ ⟨slot, file, isOpen, rfl, rfl⟩
        have stored := (denotesMiddle.stored kept.known).grown size
          (fs.store.clock (fs.store.looks - 1))
        have changed := kept.setInode denotesMiddle stored
        rw [← isAfter] at changed
        have sized : Session.Sound { s with
            fs := fs
            latest := Function.update s.latest file.ino
              (grown (s.latest file.ino) size (fs.store.clock (fs.store.looks - 1))) } := changed
        apply sized.setFile
        intro other isMoved
        rw [Option.some.injEq] at isMoved
        rw [← isMoved, written.inode, written.ino]
        exact changed.denotes _ _ ⟨slot, file, isOpen, rfl, rfl⟩

theorem Sound.close (sound : s.Sound) {fuel : Nat} (returns : s.close slot fuel = some after) :
    after.Sound := by
  unfold Session.close at returns
  split at returns
  case h_1 => exact Option.some.inj returns ▸ sound
  case h_2 file isOpen =>
      rw [Option.map_eq_some_iff] at returns
      obtain ⟨⟨err, fs⟩, closes, isAfter⟩ := returns
      have kept : Session.Sound { s with fs := fs } :=
        FileSystem.Sound.keep sound (FileSystem.sameWindows_ext2Close closes)
      rw [← isAfter]
      apply kept.setFile
      intro other isNone
      cases isNone

theorem Sound.walk (sound : s.Sound) {fuel : Nat} {file found : File} {path : CString}
    {inode : Option InodeRef} {middle fs : FileSystem}
    (calm : s.fs.PathCalm fuel file path s.Points)
    (search : s.fs.findInodeByPath fuel file path = some (inode, middle, found))
    (same : FileSystem.SameWindows middle fs) :
    Session.Sound { s with fs := fs, latest := s.fs.learnPath fuel file path s.latest } :=
  FileSystem.Sound.keep (FileSystem.findInodeByPath_ends sound calm search).sound same

theorem spoil_free (free : s.files slot = none) (fs : FileSystem) (latest : Nat → Inode)
    (file : File) : Session.spoil ⟨fs, s.files, latest⟩ slot file = ⟨fs, s.files, latest⟩ := by
  unfold spoil
  simp only [free]
  rfl

theorem Sound.lookup (sound : s.Sound) {fuel : Nat} {file : File} {path : CString}
    (calm : s.fs.PathCalm fuel file path s.Points)
    (returns : s.lookup fuel file path = some after) : after.Sound := by
  unfold Session.lookup at returns
  rw [Option.map_eq_some_iff] at returns
  obtain ⟨⟨inode, fs, found⟩, search, isAfter⟩ := returns
  rw [← isAfter]
  exact sound.walk calm search (.refl fs)

theorem Sound.unlink (sound : s.Sound) {fuel : Nat} {ram : Ram} {stale : File} {path : CString}
    (free : s.files slot = none)
    (calm : s.fs.PathCalm fuel ((s.files slot).getD stale) path s.Points)
    (returns : s.unlink slot fuel ram stale path = some after) : after.Sound := by
  unfold Session.unlink at returns
  rw [Option.map_eq_some_iff] at returns
  obtain ⟨⟨err, fs, found⟩, unlinks, isAfter⟩ := returns
  obtain ⟨inode, middle, walked, search, same⟩ :=
    FileSystem.sameWindows_framed.ext2Unlink unlinks
  rw [← isAfter]
  dsimp only
  rw [spoil_free free]
  exact sound.walk calm search same

theorem notExist_neg : -enotexist < 0 := by decide

/-- `ext2_open` fails, or the entry refers to what was found. -/
theorem ext2Open_cases (fs : FileSystem) (file : File) (found : Option InodeRef) :
    (ext2Open fs file found).1 < 0 ∨ ∃ ref, found = some ref ∧
      ext2Open fs file found =
        (0, { file with inode := ref, pos := 0, startBlock := 0, curBlock := 0 }) := by
  unfold ext2Open
  cases found with
  | none => exact Or.inl notExist_neg
  | some ref =>
      by_cases isDir : sIsDir (fs.inode ref).iMode = true
      · simp only [if_pos isDir]
        exact Or.inl notExist_neg
      · simp only [if_neg isDir]
        exact Or.inr ⟨ref, rfl, rfl⟩

theorem sysOpenAppend_pointer (fs : FileSystem) (file : File) :
    (sysOpenAppend fs file).inode = file.inode ∧ (sysOpenAppend fs file).ino = file.ino := by
  unfold sysOpenAppend
  exact ⟨rfl, rfl⟩

theorem Sound.sysOpen (sound : s.Sound) {fuel mode : Nat} {stale : File} {path : CString}
    (free : s.files slot = none) (nonempty : path ≠ [])
    (calm : s.fs.PathCalm fuel { (s.files slot).getD stale with mode := mode } path s.Points)
    (numbered : ∀ r, (s.fs.lookups fuel { (s.files slot).getD stale with mode := mode }
      path).getLast? = some r → r.found.isSome → r.Numbered)
    (returns : s.sysOpen slot fuel stale mode path = some after) : after.Sound := by
  unfold Session.sysOpen at returns
  cases search : s.fs.findInodeByPath fuel { (s.files slot).getD stale with mode := mode } path with
  | none =>
      simp only [search] at returns
      cases returns
  | some result =>
      obtain ⟨found, fs, opened⟩ := result
      have kept := sound.walk calm search (.refl fs)
      have ends := FileSystem.findInodeByPath_ends sound calm search
      simp only [search, spoil_free free] at returns
      rcases ext2Open_cases fs opened found with failed | ⟨ref, isFound, opens⟩
      · rw [if_pos failed, Option.some.injEq] at returns
        exact returns ▸ kept
      · rw [opens, if_neg (Int.lt_irrefl 0), Option.some.injEq] at returns
        have denotes := ends.denotes nonempty numbered ref isFound
        rw [← returns]
        apply kept.setFile
        intro file isOpened
        rw [Option.some.injEq] at isOpened
        by_cases appends : mode &&& oAppend = oAppend
        · rw [if_pos appends] at isOpened
          obtain ⟨sameInode, sameIno⟩ := sysOpenAppend_pointer fs
            { opened with inode := ref, pos := 0, startBlock := 0, curBlock := 0 }
          rw [← isOpened, sameInode, sameIno]
          exact denotes
        · rw [if_neg appends] at isOpened
          rw [← isOpened]
          exact denotes

/-! ### Runs -/

theorem walk_returns {call : InodeCall} {fuel : Nat} {path : CString}
    (returns : s.step call = some after) (isWalk : s.walkOf call = some (fuel, file, path)) :
    ∃ result, s.fs.findInodeByPath fuel file path = some result := by
  cases call with
  | «open» slot fuel stale mode path =>
      cases isWalk
      change s.sysOpen slot fuel stale mode path = _ at returns
      unfold Session.sysOpen at returns
      cases search : s.fs.findInodeByPath fuel
          { (s.files slot).getD stale with mode := mode } path with
      | none =>
          simp only [search] at returns
          cases returns
      | some result => exact ⟨result, rfl⟩
  | unlink slot fuel ram stale path =>
      cases isWalk
      change (s.fs.ext2Unlink _ _ _ _).map _ = _ at returns
      rw [Option.map_eq_some_iff] at returns
      obtain ⟨⟨err, fs, found⟩, unlinks, _⟩ := returns
      obtain ⟨inode, middle, walked, search, _⟩ :=
        FileSystem.sameWindows_framed.ext2Unlink unlinks
      exact ⟨_, search⟩
  | lookup fuel file path =>
      cases isWalk
      change (s.fs.findInodeByPath fuel file path).map _ = _ at returns
      rw [Option.map_eq_some_iff] at returns
      obtain ⟨result, search, _⟩ := returns
      exact ⟨result, search⟩
  | read slot data size => cases isWalk
  | write slot data size => cases isWalk
  | close slot fuel => cases isWalk

theorem Sound.step (sound : s.Sound) {call : InodeCall} (calm : s.Calm call)
    (returns : s.step call = some after) : after.Sound := by
  cases call with
  | «open» slot fuel stale mode path =>
      exact sound.sysOpen calm.free calm.numbered.1 (calm.walk _ _ _ rfl) calm.numbered.2 returns
  | read slot data size => exact Option.some.inj returns ▸ sound.read data size
  | write slot data size => exact Option.some.inj returns ▸ sound.write data size
  | unlink slot fuel ram stale path =>
      exact sound.unlink calm.free (calm.walk _ _ _ rfl) returns
  | lookup fuel file path => exact sound.lookup (calm.walk _ _ _ rfl) returns
  | close slot fuel => exact sound.close returns

theorem Fresh.sound (fresh : s.Fresh) : s.Sound := by
  refine ⟨fresh.shape, fresh.known, ?_⟩
  intro ref n points
  obtain ⟨slot, file, isOpen, _⟩ := points
  rw [fresh.closed slot] at isOpen
  cases isOpen

theorem Sound.filesRight (sound : s.Sound) : s.FilesRight := by
  intro slot file isOpen
  have denotes := FileSystem.Sound.denotes sound _ _ ⟨slot, file, isOpen, rfl, rfl⟩
  exact ⟨denotes, denotes.stored (FileSystem.Sound.known sound)⟩

end Session

open Session

/-- In a run whose calls are calm every open file refers to its inode, and a further calm
call that returns takes no pointer away and sets the parents of its walk right. -/
theorem openInodes_keep {initial s : Session} (fresh : initial.Fresh)
    (run : InodeCalls Session.Calm initial s) :
    s.FilesRight ∧ ∀ call after, s.Calm call → s.step call = some after → s.WalkRight call := by
  have sound : s.Sound := by
    induction run with
    | start => exact fresh.sound
    | call call _ calm returns ih => exact ih.step calm returns
  refine ⟨sound.filesRight, ?_⟩
  intro call after calm returns fuel file path isWalk
  obtain ⟨⟨found, middle, file'⟩, search⟩ := walk_returns returns isWalk
  have right := FileSystem.findInodeByPath_ends sound (calm.walk fuel file path isWalk) search
  exact ⟨right.root, right.right⟩

/-- The files /a and /b of inodes 12 and 200 in one group; the window begins at its first
block, so that it holds inode 12 and not inode 200. -/
def openFs : FileSystem :=
  let entries : Nat → BitVec 8 := fun a =>
    if a = 204800 then 12#8 else if a = 204804 then 16#8 else if a = 204808 then 97#8
    else if a = 204816 then 200#8 else if a = 204820 then 240#8 else if a = 204821 then 15#8
    else if a = 204824 then 98#8 else 0#8
  let group := (FileSystem.sample 4096).groups 0
  let inodeData := fun slot =>
    { group.inodeData slot with
      iMode := if slot = 1 then 0o040755 else 0o100644
      iBlock := fun i => if slot = 1 then 50 + i else 100 + i }
  let device := { (FileSystem.sample 4096).store.device with bytes := entries }
  { FileSystem.sample 4096 with
    store := { (FileSystem.sample 4096).store with device := device }
    inodeCount := 400
    groupInode := 400
    groups := fun _ => { group with inodeData := inodeData } }

def openSample : Session where
  fs := openFs
  files := fun _ => none
  latest := fun n => openFs.inode (openFs.cachedRef n)

theorem openFs_shape : openFs.TableShape := by
  constructor <;> decide

theorem openSample_fresh : openSample.Fresh :=
  ⟨openFs_shape, rfl, fun n _ _ => SameStored.refl (openFs.inode (openFs.cachedRef n)),
    fun _ => rfl⟩

/-- An unused entry. -/
def openFile : File where
  pos := 0
  mode := 0
  startBlock := 0
  curBlock := 0
  ino := 0
  inode := ⟨0, 0⟩
  ref := 1

def openCall : InodeCall := .open 0 4 openFile 0 [47#8, 97#8]

theorem openSample_rounds : (openFs.lookups 4 openFile [47#8, 97#8]).all (fun r =>
    r.entry.isSome && decide (r.fs.InodeCached r.ino)) = true := by
  decide +kernel

theorem openSample_round (r : Round) (member : r ∈ openFs.lookups 4 openFile [47#8, 97#8]) :
    r.entry.isSome = true ∧ r.fs.InodeCached r.ino := by
  have both := List.all_eq_true.mp openSample_rounds r member
  rw [Bool.and_eq_true, decide_eq_true_iff] at both
  exact both

theorem openSample_calm : openSample.Calm openCall where
  walk := by
    intro fuel file path isWalk
    cases isWalk
    refine ⟨fun _ => Or.inl (by decide), ?_⟩
    intro r member _
    exact Or.inl (openSample_round r member).2
  free := rfl
  numbered := by
    refine ⟨List.cons_ne_nil _ _, ?_⟩
    intro r isLast _
    obtain ⟨isEntry, cached⟩ := openSample_round r (List.mem_of_getLast? isLast)
    obtain ⟨⟨bb, entry⟩, same⟩ := Option.isSome_iff_exists.mp isEntry
    exact ⟨bb, entry, same, Or.inl cached⟩

theorem openInodes_keep_opened :
    ∃ s, openSample.step openCall = some s ∧ (s.files 0).isSome ∧ s.FilesRight := by
  have opens : (openSample.step openCall).map (fun s => (s.files 0).isSome) = some true := by
    decide +kernel
  rw [Option.map_eq_some_iff] at opens
  obtain ⟨s, returns, isOpen⟩ := opens
  have run : Session.InodeCalls Session.Calm openSample s :=
    .call openCall .start openSample_calm returns
  exact ⟨s, returns, isOpen, (openInodes_keep openSample_fresh run).1⟩

/-- Looking /a up loads the first window again, under the pointer of the open file /b. -/
theorem openInodes_reloaded :
    ∃ s, Session.InodeCalls (fun _ _ => True) openSample s ∧ ¬ s.FilesRight := by
  have calls : ((openSample.step (.open 0 4 openFile 0 [47#8, 98#8])).bind fun s =>
      s.step (.lookup 4 openFile [47#8, 97#8])).map (fun s =>
        ((s.files 0).map (·.ino), (s.fs.groups 0).inodeBegin, s.fs.inodeSize, s.fs.groupInode,
          s.fs.blockSize, (s.fs.groups 0).inodeTable)) =
      some (some 200, 4, 128, 400, 4096, 4) := by
    decide +kernel
  rw [Option.map_eq_some_iff] at calls
  obtain ⟨s, returns, facts⟩ := calls
  rw [Option.bind_eq_some_iff] at returns
  obtain ⟨opened, opens, looks⟩ := returns
  simp only [Prod.mk.injEq] at facts
  obtain ⟨isOpen, begin, inodeSize, groupInode, blockSize, inodeTable⟩ := facts
  refine ⟨s, .call _ (.call _ .start trivial opens) trivial looks, ?_⟩
  intro right
  rw [Option.map_eq_some_iff] at isOpen
  obtain ⟨file, isFile, isNumber⟩ := isOpen
  have cached := (right 0 file isFile).1.cached
  rw [isNumber] at cached
  have group : s.fs.inodeGroup 200 = 0 := by
    unfold FileSystem.inodeGroup
    rw [groupInode]
  have away := cached.2
  unfold FileSystem.inodeAway FileSystem.inodeBlock FileSystem.inodePlace at away
  rw [group, begin, inodeSize, groupInode, blockSize, inodeTable] at away
  exact absurd away (by decide)

end MangoOS
