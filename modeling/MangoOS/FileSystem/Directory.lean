/-
Paths and directories (fs/ext2.c): `iget_name`, `find_inode_in_dir` and
`find_inode_by_path`.

Directory contents are taken as they are on disk, so a scan need not end: `fuel`
bounds its rounds, and `none` means that they did not suffice or that the code
follows a NULL pointer.
-/

import MangoOS.FileSystem.AllocInode
import MangoOS.FileSystem.InodeCache

namespace MangoOS

/-- A string without its terminating zero. -/
abbrev CString := List (BitVec 8)

def slash : BitVec 8 := 47#8

def maxNameLen : Nat := 64

def oCreat : Nat := 64

/-! ### Names -/

def skipSlashes : CString → CString
  | [] => []
  | c :: rest => if c = slash then skipSlashes rest else c :: rest

/-- The next name, of at most `room` characters, and what follows it. -/
def takeName : (room : Nat) → CString → CString × CString
  | 0, path => ([], path)
  | _ + 1, [] => ([], [])
  | room + 1, c :: rest =>
      if c = slash then ([], c :: rest)
      else
        let (name, rest) := takeName room rest
        (c :: name, rest)

/-- `iget_name`: the name, the rest of the path and `end`; `none` is NULL. -/
def igetName (path : CString) (isEnd : Bool) : Option (CString × CString × Bool) :=
  if path.length = 0 then none
  else
    let (name, rest) := takeName (maxNameLen - 1) (skipSlashes path)
    let isEnd := match rest with
      | [] => isEnd
      | c :: _ => if c = slash then false else isEnd
    some (name, skipSlashes rest, isEnd)

/-! ### Scanning a directory -/

/-- The entry at byte `entry` of a block is in use and its name begins with `name`. -/
def entryMatches (data : Region) (entry : Nat) (name : CString) : Bool :=
  data.word entry ≠ 0 &&
    (List.range name.length).all (fun k => data (entry + 8 + k : Nat) == name.getD k 0#8)

/-- What the scan of a block ends with: a matching entry, or the first unused entry if none
had been seen. -/
inductive BlockScan
  | found (entry : Nat)
  | missing (empty : Option Nat)

/-- The entries of a block from byte `entry` on. -/
def scanBlock (data : Region) (blockSize : Nat) (name : CString) :
    (fuel entry : Nat) → (empty : Option Nat) → Option BlockScan
  | 0, _, _ => none
  | fuel + 1, entry, empty =>
      if entry < blockSize then
        if entryMatches data entry name then some (.found entry)
        else
          let empty := if data.word entry = 0 ∧ empty = none then some entry else empty
          scanBlock data blockSize name fuel (entry + data.half (entry + 4 : Nat)) empty
      else some (.missing empty)

/-- What the search of a directory ends with; entries are given by buffer and byte. -/
inductive DirScan
  | failed
  | found (bb entry : Nat)
  | missing (last : Option Nat) (empty : Option (Nat × Nat))

/-- `pos / block_size` as an index of `i_block`: `pos` is an `int`, and addresses of words are
numbers of 30 bits. -/
def blockIndex (pos blockSize : Nat) : Nat :=
  if pos < 2147483648 then pos / blockSize
  else (1073741824 - (4294967296 - pos) / blockSize) % 1073741824

/-- The blocks of a directory from byte `pos` on; `pos` is compared as a `uint`. -/
def scanDir (inode : Inode) (blockSize : Nat) (name : CString) (rounds : Nat) :
    (fuel pos : Nat) → BlockStore → (last : Option Nat) → (empty : Option (Nat × Nat)) →
      Option (DirScan × BlockStore)
  | 0, _, _, _, _ => none
  | fuel + 1, pos, store, last, empty =>
      if pos < inode.iSize then
        match store.readBlock blockSize (inode.iBlock (blockIndex pos blockSize)) with
        | (none, store) => some (.failed, store)
        | (some bb, store) =>
            match scanBlock (store.buffers bb).data blockSize name rounds 0 none with
            | none => none
            | some (.found entry) => some (.found bb entry, store)
            | some (.missing first) =>
                let empty := empty.or (first.map fun entry => (bb, entry))
                scanDir inode blockSize name rounds fuel ((pos + blockSize) % 4294967296) store
                  (some bb) empty
      else some (.missing last empty, store)

/-- A new entry for inode `ino`. -/
def writeEntry (data : Region) (entry ino : Nat) (name : CString) : Region :=
  let data := data.setWord entry ino
  let data := data.copy (entry + 8 : Nat) (fun k => name.getD k.toNat 0#8) 0 name.length
  let data : Region := Function.update data (entry + 6 : Nat) (BitVec.ofNat 8 name.length)
  data.setHalf (entry + 4 : Nat) (8 + name.length)

namespace FileSystem

def findInodeInDir (fuel : Nat) (fs : FileSystem) (file : File) (dir : InodeRef) (name : CString)
    (isEnd : Bool) : Option (Option InodeRef × FileSystem × File) :=
  let dirInode := fs.inode dir
  if !sIsDir dirInode.iMode then some (none, fs, file)
  else
    match scanDir dirInode fs.blockSize name fuel fuel 0 fs.store none none with
    | none => none
    | some (.failed, store) => some (none, fs.setStore store, file)
    | some (.found bb entry, store) =>
        let (inode, fs) := (fs.setStore store).igetInode ((store.buffers bb).data.word entry)
        some (inode, fs, { file with ino := (fs.store.buffers bb).data.word entry })
    | some (.missing last empty, store) =>
        let fs := fs.setStore store
        if file.mode &&& oCreat = oCreat ∧ isEnd then
          match fs.allocInode fuel with
          | none => none
          | some (ino, fs) =>
              let (inode, fs) := fs.igetInode ino
              match last, empty with
              | some last, some (bb, entry) =>
                  let buffer := fs.store.buffers bb
                  let fs := fs.setStore (fs.store.setBuffer bb
                    { buffer with data := writeEntry buffer.data entry ino name })
                  some (inode, fs.markDirty last, file)
              | _, _ => none
        else some (none, fs, file)

/-- An entry of a buffer is written. -/
def putEntry (fs : FileSystem) (bb entry ino : Nat) (name : CString) : FileSystem :=
  fs.setStore (fs.store.setBuffer bb
    { fs.store.buffers bb with data := writeEntry (fs.store.buffers bb).data entry ino name })

/-- The ways in which `find_inode_in_dir` returns, with what it returns. -/
inductive FindsInDir (fuel : Nat) (fs : FileSystem) (file : File) (dir : InodeRef)
    (name : CString) (isEnd : Bool) : Option InodeRef → FileSystem → File → Prop
  | notDir (other : sIsDir (fs.inode dir).iMode = false) :
      FindsInDir fuel fs file dir name isEnd none fs file
  | failed {searched : BlockStore} (isDir : sIsDir (fs.inode dir).iMode = true)
      (scan : scanDir (fs.inode dir) fs.blockSize name fuel fuel 0 fs.store none none =
        some (.failed, searched)) :
      FindsInDir fuel fs file dir name isEnd none (fs.setStore searched) file
  | found {bb entry : Nat} {searched : BlockStore} (isDir : sIsDir (fs.inode dir).iMode = true)
      (scan : scanDir (fs.inode dir) fs.blockSize name fuel fuel 0 fs.store none none =
        some (.found bb entry, searched)) :
      FindsInDir fuel fs file dir name isEnd
        ((fs.setStore searched).igetInode ((searched.buffers bb).data.word entry)).1
        ((fs.setStore searched).igetInode ((searched.buffers bb).data.word entry)).2
        { file with
          ino := (((fs.setStore searched).igetInode
            ((searched.buffers bb).data.word entry)).2.store.buffers bb).data.word entry }
  | missing {last : Option Nat} {empty : Option (Nat × Nat)} {searched : BlockStore}
      (isDir : sIsDir (fs.inode dir).iMode = true)
      (scan : scanDir (fs.inode dir) fs.blockSize name fuel fuel 0 fs.store none none =
        some (.missing last empty, searched))
      (noCreate : ¬ (file.mode &&& oCreat = oCreat ∧ isEnd = true)) :
      FindsInDir fuel fs file dir name isEnd none (fs.setStore searched) file
  | created {last bb entry ino : Nat} {searched : BlockStore} {taken : FileSystem}
      (isDir : sIsDir (fs.inode dir).iMode = true)
      (scan : scanDir (fs.inode dir) fs.blockSize name fuel fuel 0 fs.store none none =
        some (.missing (some last) (some (bb, entry)), searched))
      (creates : file.mode &&& oCreat = oCreat ∧ isEnd = true)
      (allocated : (fs.setStore searched).allocInode fuel = some (ino, taken)) :
      FindsInDir fuel fs file dir name isEnd (taken.igetInode ino).1
        (((taken.igetInode ino).2.putEntry bb entry ino name).markDirty last) file

theorem findInodeInDir_iff {fuel : Nat} {fs after : FileSystem} {file file' : File}
    {dir : InodeRef} {name : CString} {isEnd : Bool} {found : Option InodeRef} :
    fs.findInodeInDir fuel file dir name isEnd = some (found, after, file') ↔
      FindsInDir fuel fs file dir name isEnd found after file' := by
  constructor
  · intro returns
    unfold findInodeInDir at returns
    cases isDir : sIsDir (fs.inode dir).iMode with
    | false =>
        simp only [isDir, Bool.not_false, if_true, Option.some.injEq, Prod.mk.injEq] at returns
        obtain ⟨rfl, rfl, rfl⟩ := returns
        exact .notDir isDir
    | true =>
        simp only [isDir, Bool.not_true, Bool.false_eq_true, if_false] at returns
        cases scan : scanDir (fs.inode dir) fs.blockSize name fuel fuel 0 fs.store none none with
        | none =>
            simp only [scan] at returns
            cases returns
        | some result =>
            obtain ⟨result, store⟩ := result
            cases result with
            | failed =>
                simp only [scan, Option.some.injEq, Prod.mk.injEq] at returns
                obtain ⟨rfl, rfl, rfl⟩ := returns
                exact .failed isDir scan
            | found bb entry =>
                simp only [scan, Option.some.injEq, Prod.mk.injEq] at returns
                obtain ⟨rfl, rfl, rfl⟩ := returns
                exact .found isDir scan
            | missing last empty =>
                simp only [scan] at returns
                by_cases creates : file.mode &&& oCreat = oCreat ∧ isEnd = true
                · rw [if_pos creates] at returns
                  cases allocated : (fs.setStore store).allocInode fuel with
                  | none =>
                      simp only [allocated] at returns
                      cases returns
                  | some result =>
                      obtain ⟨ino, taken⟩ := result
                      cases last with
                      | none =>
                          simp only [allocated] at returns
                          cases returns
                      | some last =>
                          cases empty with
                          | none =>
                              simp only [allocated] at returns
                              cases returns
                          | some place =>
                              simp only [allocated, Option.some.injEq, Prod.mk.injEq] at returns
                              obtain ⟨rfl, rfl, rfl⟩ := returns
                              exact .created isDir scan creates allocated
                · rw [if_neg creates, Option.some.injEq, Prod.mk.injEq, Prod.mk.injEq] at returns
                  obtain ⟨rfl, rfl, rfl⟩ := returns
                  exact .missing isDir scan creates
  · intro finds
    unfold findInodeInDir
    cases finds with
    | notDir other => simp only [other, Bool.not_false, if_true]
    | failed isDir scan =>
        simp only [isDir, Bool.not_true, Bool.false_eq_true, if_false, scan]
    | found isDir scan =>
        simp only [isDir, Bool.not_true, Bool.false_eq_true, if_false, scan]
    | missing isDir scan noCreate =>
        simp only [isDir, Bool.not_true, Bool.false_eq_true, if_false, scan, if_neg noCreate]
    | created isDir scan creates allocated =>
        simp only [isDir, Bool.not_true, Bool.false_eq_true, if_false, scan, if_pos creates,
          allocated]
        rfl

/-- The loop of `find_inode_by_path`; every round shortens the path. -/
def findPathLoop (fuel : Nat) :
    (rounds : Nat) → FileSystem → File → (path : CString) → (inode : Option InodeRef) →
      (isEnd : Bool) → Option (Option InodeRef × FileSystem × File)
  | 0, _, _, _, _, _ => none
  | rounds + 1, fs, file, path, inode, isEnd =>
      match igetName path isEnd with
      | none => some (inode, fs, file)
      | some (name, path, isEnd) =>
          match inode with
          | none => none
          | some parent =>
              match fs.findInodeInDir fuel file parent name isEnd with
              | none => none
              | some (none, fs, file) => some (none, fs, file)
              | some (some found, fs, file) =>
                  let fs := fs.setInode found { fs.inode found with parent := some parent }
                  findPathLoop fuel rounds fs file path (some found) isEnd

/-- The ways in which a round of the loop comes to what the loop returns. -/
inductive PathStep (fuel rounds : Nat) (fs : FileSystem) (file : File) (path : CString)
    (isEnd : Bool) : Option InodeRef → Option InodeRef → FileSystem → File → Prop
  | ended {inode : Option InodeRef} (noName : igetName path isEnd = none) :
      PathStep fuel rounds fs file path isEnd inode inode fs file
  | missing {name rest : CString} {last : Bool} {parent : InodeRef} {after : FileSystem}
      {file' : File} (isName : igetName path isEnd = some (name, rest, last))
      (search : fs.findInodeInDir fuel file parent name last = some (none, after, file')) :
      PathStep fuel rounds fs file path isEnd (some parent) none after file'
  | entered {name rest : CString} {last : Bool} {parent ref : InodeRef}
      {middle after : FileSystem} {next file' : File} {found : Option InodeRef}
      (isName : igetName path isEnd = some (name, rest, last))
      (search : fs.findInodeInDir fuel file parent name last = some (some ref, middle, next))
      (behind : findPathLoop fuel rounds
        (middle.setInode ref { middle.inode ref with parent := some parent }) next rest (some ref)
        last = some (found, after, file')) :
      PathStep fuel rounds fs file path isEnd (some parent) found after file'

theorem findPathLoop_step {fuel rounds : Nat} {fs after : FileSystem} {file file' : File}
    {path : CString} {inode found : Option InodeRef} {isEnd : Bool}
    (returns : findPathLoop fuel (rounds + 1) fs file path inode isEnd =
      some (found, after, file')) :
    PathStep fuel rounds fs file path isEnd inode found after file' := by
  rw [findPathLoop] at returns
  cases isName : igetName path isEnd with
  | none =>
      simp only [isName, Option.some.injEq, Prod.mk.injEq] at returns
      obtain ⟨rfl, rfl, rfl⟩ := returns
      exact .ended isName
  | some result =>
      obtain ⟨name, rest, last⟩ := result
      cases inode with
      | none =>
          simp only [isName] at returns
          cases returns
      | some parent =>
          cases search : fs.findInodeInDir fuel file parent name last with
          | none =>
              simp only [isName, search] at returns
              cases returns
          | some result =>
              obtain ⟨inode, middle, next⟩ := result
              cases inode with
              | none =>
                  simp only [isName, search, Option.some.injEq, Prod.mk.injEq] at returns
                  obtain ⟨rfl, rfl, rfl⟩ := returns
                  exact .missing isName search
              | some ref =>
                  simp only [isName, search] at returns
                  exact .entered isName search returns

/-- `find_inode_by_path`; inode 2 is the root. -/
def findInodeByPath (fuel : Nat) (fs : FileSystem) (file : File) (path : CString) :
    Option (Option InodeRef × FileSystem × File) :=
  let (inode, fs) := fs.igetInode 2
  findPathLoop fuel (path.length + 1) fs file path inode true

end FileSystem

end MangoOS
