/-
`ext2_unlink` (fs/ext2.c): the blocks it means to free and the entry it means to
remove.

`ulink_inode` walks on from address 0 once it has met the name, so its loop reads
memory by address.
-/

import MangoOS.FileSystem.Directory
import MangoOS.FileSystem.Tree

namespace MangoOS

open BlockStore (sectorOf)

def eio : Int := 5

/-- Where the data of the buffers lie, and what lies everywhere else. -/
structure Ram where
  base : Nat → Nat
  byte : Nat → BitVec 8

/-- The byte at an address. -/
def Ram.read (ram : Ram) (store : BlockStore) (blockSize a : Nat) : BitVec 8 :=
  match (List.range store.made).find? (fun bb => ram.base bb ≤ a ∧ a < ram.base bb + blockSize) with
  | some bb => (store.buffers bb).data (a - ram.base bb : Nat)
  | none => ram.byte a

/-- The inner loop of `ulink_inode` from address `entry` up to `stop`: whether it ends. -/
def ulinkWalk (mem : Nat → BitVec 8) (stop : Nat) (name : CString) :
    (fuel entry : Nat) → Option Unit
  | 0, _ => none
  | fuel + 1, entry =>
      if entry < stop then
        let view : Region := fun x => mem ((entry + x.toNat) % 4294967296)
        let entry := if entryMatches view 0 name then 0 else entry
        let recLen := (mem (entry + 4)).toNat + 256 * (mem (entry + 5)).toNat
        ulinkWalk mem stop name fuel ((entry + recLen) % 4294967296)
      else some ()

namespace FileSystem

/-- The outer loop of `ulink_inode` from byte `pos` on; nothing is ever written. -/
def ulinkLoop (ram : Ram) (name : CString) (inode : Inode) (parent : Inode) (rounds : Nat) :
    (fuel pos : Nat) → FileSystem → Option FileSystem
  | 0, _, _ => none
  | fuel + 1, pos, fs =>
      if pos < inode.iSize then
        match fs.store.readBlock fs.blockSize (parent.iBlock (blockIndex pos fs.blockSize)) with
        | (none, store) => some (fs.setStore store)
        | (some bb, store) =>
            match ulinkWalk (ram.read store fs.blockSize)
                ((ram.base bb + inode.iSize) % 4294967296) name rounds (ram.base bb) with
            | none => none
            | some () =>
                ulinkLoop ram name inode parent rounds fuel
                  ((pos + fs.blockSize) % 4294967296) (fs.setStore store)
      else some fs

/-- `ulink_inode`; it takes the inode of the file, which `ext2_unlink` has not set. -/
def ulinkInode (fuel : Nat) (ram : Ram) (fs : FileSystem) (file : File) (name : CString) :
    Option FileSystem :=
  let inode := fs.inode file.inode
  if 0 < inode.iSize then
    match inode.parent with
    | none => none
    | some parent => ulinkLoop ram name inode (fs.inode parent) fuel fuel 0 fs
  else some fs

/-- A buffer becomes invalid and the bit of its block is to be cleared. -/
def release (fs : FileSystem) (gno bb : Nat) : FileSystem :=
  let buffer := fs.store.buffers bb
  let fs := fs.setStore (fs.store.setBuffer bb { buffer with bState := 0 })
  let group := fs.groups gno
  fs.setGroup gno
    { group with pBlockBitmap := setBit group.pBlockBitmap buffer.blockNo 0 }

/-- The same for a buffer that holds its block. -/
def releaseHeld (fs : FileSystem) (gno bb : Nat) : FileSystem :=
  if (fs.store.buffers bb).bState ≠ 0 then fs.release gno bb else fs

/-- The entry at byte `offset` of a buffer. -/
def tableEntry (fs : FileSystem) (bb offset : Nat) : Nat := (fs.store.buffers bb).data.word offset

/-- `bget_block` of a data block and its release. -/
def releaseBlock (fs : FileSystem) (gno bno : Nat) : FileSystem :=
  let (bb, store) := fs.store.bgetBlock bno
  (fs.setStore store).releaseHeld gno bb

/-- The buffers of the tables that the loop stands in. -/
structure Tables where
  bb : Nat
  nbb : Nat
  nnbb : Nat

/-- `bb = read_block(...)`; the continuation gets the buffer, `none` is the return of
`-EIO`. -/
def withBlock (fs : FileSystem) (bno : Nat) (next : FileSystem → Nat → FileSystem × Option Tables) :
    FileSystem × Option Tables :=
  match fs.store.readBlock fs.blockSize bno with
  | (none, store) => (fs.setStore store, none)
  | (some bb, store) => next (fs.setStore store) bb

/-- `bb = read_block(...)` if a new table begins here, or else the table at hand. -/
def withTable (fs : FileSystem) (isNew : Bool) (bno bb : Nat)
    (next : FileSystem → Nat → FileSystem × Option Tables) : FileSystem × Option Tables :=
  if isNew then fs.withBlock bno next else next fs bb

/-- A round on the single indirect blocks; `bb` is the table. -/
def unlinkSingle (inode : Inode) (gno i : Nat) (tables : Tables) (fs : FileSystem) (bb : Nat) :
    FileSystem × Option Tables :=
  let fs := fs.releaseBlock gno (fs.tableEntry bb ((i - 12) * 4))
  let fs := if i = 1035 ∨ i = inode.iBlocks - 1 then fs.release gno bb else fs
  (fs, some { tables with bb := bb })

/-- A round on the double indirect blocks. -/
def unlinkDouble (inode : Inode) (gno i : Nat) (tables : Tables) (bb : Nat) (fs : FileSystem)
    (nbb : Nat) : FileSystem × Option Tables :=
  let fs := fs.releaseBlock gno (fs.tableEntry nbb ((i - 1036) % 1024 * 4))
  let fs :=
    if (i - 1036) % 1024 = 1023 ∨ i = inode.iBlocks - 1 then fs.releaseHeld gno nbb else fs
  let fs := if i = 1049611 ∨ i = inode.iBlocks - 1 then fs.release gno bb else fs
  (fs, some { tables with bb := bb, nbb := nbb })

/-- A round on the triple indirect blocks; the block comes from the second table. -/
def unlinkTriple (inode : Inode) (gno i place bb nbb : Nat) (fs : FileSystem) (nnbb : Nat) :
    FileSystem × Option Tables :=
  let fs := fs.releaseBlock gno (fs.tableEntry nbb (place % 1024 * 4))
  let fs := if place % 1024 = 1023 ∨ i = inode.iBlocks - 1 then fs.releaseHeld gno nnbb else fs
  let fs := if place = 1048575 ∨ i = inode.iBlocks - 1 then fs.releaseHeld gno nbb else fs
  let fs := if i = inode.iBlocks - 1 then fs.release gno bb else fs
  (fs, some { bb := bb, nbb := nbb, nnbb := nnbb })

/-- The tables of such a round; `place` counts the blocks below the second level. -/
def unlinkThird (inode : Inode) (gno i place : Nat) (tables : Tables) (fs : FileSystem)
    (bb : Nat) : FileSystem × Option Tables :=
  fs.withTable (place = 0) (fs.tableEntry bb ((i - 1049612) / 1048576 * 4)) tables.nbb
    fun fs nbb =>
      fs.withTable (place % 1024 = 0) (fs.tableEntry nbb (place / 1024 * 4)) tables.nnbb
        (unlinkTriple inode gno i place bb nbb)

/-- Round `i` of the loop of `ext2_unlink`. -/
def unlinkRound (fs : FileSystem) (inode : Inode) (gno i : Nat) (tables : Tables) :
    FileSystem × Option Tables :=
  if i < 12 then (fs.releaseBlock gno (inode.iBlock i), some tables)
  else if i < 1036 then
    fs.withTable (i = 12) (inode.iBlock 12) tables.bb (unlinkSingle inode gno i tables)
  else if i < 1049612 then
    fs.withTable (i = 1036) (inode.iBlock 13) tables.bb fun fs bb =>
      fs.withTable ((i - 1036) % 1024 = 0) (fs.tableEntry bb ((i - 1036) / 1024 * 4)) tables.nbb
        (unlinkDouble inode gno i tables bb)
  else
    fs.withTable (i = 1049612) (inode.iBlock 14) tables.bb
      (unlinkThird inode gno i ((i - 1049612) % 1048576) tables)

/-- The loop of `ext2_unlink`: whether every block could be read. -/
def unlinkLoop (inode : Inode) (gno : Nat) :
    (left i : Nat) → FileSystem → Tables → Bool × FileSystem
  | 0, _, fs, _ => (true, fs)
  | left + 1, i, fs, tables =>
      match fs.unlinkRound inode gno i tables with
      | (fs, none) => (false, fs)
      | (fs, some tables) => unlinkLoop inode gno left (i + 1) fs tables

end FileSystem

/-- `get_name_index`; `path` moves on while its length is measured again. -/
def getNameIndexLoop : (i start : Nat) → CString → Nat
  | _, start, [] => start
  | i, start, c :: rest =>
      if i < rest.length + 1 then
        getNameIndexLoop (i + 1) (if c = slash then i + 1 else start) rest
      else start

def getNameIndex (path : CString) : Nat := getNameIndexLoop 0 0 path

namespace FileSystem

def ext2Unlink (fuel : Nat) (ram : Ram) (fs : FileSystem) (file : File) (path : CString) :
    Option (Int × FileSystem × File) :=
  match fs.findInodeByPath fuel file path with
  | none => none
  | some (none, fs, file) => some (-enotexist, fs, file)
  | some (some ref, fs, file) =>
      let inode := fs.inode ref
      let gno := file.ino / fs.groupInode
      match unlinkLoop inode gno inode.iBlocks 0 fs ⟨0, 0, 0⟩ with
      | (false, fs) => some (-eio, fs, file)
      | (true, fs) =>
          match fs.ulinkInode fuel ram file (path.drop (getNameIndex path)) with
          | none => none
          | some fs => some (0, fs, file)

/-! ### Block bits -/

/-- Bit `bit` of the block bitmap of a group. -/
def blockBit (fs : FileSystem) (group bit : Nat) : Bool :=
  bitOf (fs.groups group).pBlockBitmap bit

/-- The block is marked used. -/
def BlockUsed (fs : FileSystem) (bno : Nat) : Prop :=
  fs.blockBit (bno / fs.groupBlock) (bno % fs.groupBlock) = true

/-- The bits of the blocks are cleared and no others. -/
def FreesExactly (fs after : FileSystem) (blocks : Set Nat) : Prop :=
  (∀ bno, bno ∈ blocks → ¬ after.BlockUsed bno) ∧
    ∀ group bit, (∀ bno, bno ∈ blocks → group ≠ bno / fs.groupBlock ∨ bit ≠ bno % fs.groupBlock) →
      after.blockBit group bit = fs.blockBit group bit

/-- The block bitmaps are the same, as are the sizes of the groups. -/
structure KeepsBlockBits (fs after : FileSystem) : Prop where
  bits : ∀ group, (after.groups group).pBlockBitmap = (fs.groups group).pBlockBitmap
  groupBlock : after.groupBlock = fs.groupBlock

section KeepsBlockBits

variable {fs middle after : FileSystem}

theorem KeepsBlockBits.refl (fs : FileSystem) : KeepsBlockBits fs fs :=
  ⟨fun _ => rfl, rfl⟩

theorem KeepsBlockBits.trans (first : KeepsBlockBits fs middle)
    (second : KeepsBlockBits middle after) : KeepsBlockBits fs after :=
  ⟨fun group => (second.bits group).trans (first.bits group),
    second.groupBlock.trans first.groupBlock⟩

theorem keeps_setStore (fs : FileSystem) (store : BlockStore) :
    KeepsBlockBits fs (fs.setStore store) :=
  ⟨fun _ => rfl, rfl⟩

theorem keeps_setGroup (fs : FileSystem) (index : Nat) (group : Group)
    (same : group.pBlockBitmap = (fs.groups index).pBlockBitmap) :
    KeepsBlockBits fs (fs.setGroup index group) :=
  ⟨setGroup_field Group.pBlockBitmap same, rfl⟩

theorem keeps_setInode (fs : FileSystem) (ref : InodeRef) (inode : Inode) :
    KeepsBlockBits fs (fs.setInode ref inode) :=
  keeps_setGroup fs ref.group _ rfl

theorem keeps_igetInode (fs : FileSystem) (ino : Nat) : KeepsBlockBits fs (fs.igetInode ino).2 := by
  rcases igetInode_changes fs ino with same | ⟨store, inodeData, inodeBegin, loaded⟩
  · rw [same]
    exact .refl fs
  · rw [loaded]
    exact (keeps_setStore fs store).trans (keeps_setGroup _ _ _ rfl)

theorem keeps_allocInodeLoop {fuel left i n : Nat}
    (returns : allocInodeLoop fuel fs left i = some (n, after)) : KeepsBlockBits fs after := by
  rcases allocInodeLoop_cases returns with ⟨_, same, _⟩ | ⟨group, takes, _⟩
  · rw [same]
    exact .refl fs
  · have keeps := keeps_setGroup fs group
      { fs.groups group with
        pInodeBitmap := setBit (fs.groups group).pInodeBitmap n 1
        freeInode := ((fs.groups group).freeInode + 65535) % 65536 } rfl
    rw [takes]
    exact ⟨keeps.bits, keeps.groupBlock⟩

theorem keeps_findInodeInDir {fuel : Nat} {file file' : File} {dir : InodeRef} {name : CString}
    {isEnd : Bool} {found : Option InodeRef}
    (returns : fs.findInodeInDir fuel file dir name isEnd = some (found, after, file')) :
    KeepsBlockBits fs after := by
  cases findInodeInDir_iff.mp returns with
  | notDir other => exact .refl fs
  | failed isDir scan => exact keeps_setStore fs _
  | found isDir scan => exact (keeps_setStore fs _).trans (keeps_igetInode _ _)
  | missing isDir scan noCreate => exact keeps_setStore fs _
  | @created last bb entry ino searched taken isDir scan creates allocated =>
      have keeps := ((keeps_setStore fs searched).trans (keeps_allocInodeLoop allocated)).trans
        (keeps_igetInode taken ino)
      exact ⟨keeps.bits, keeps.groupBlock⟩

theorem keeps_findPathLoop {fuel rounds : Nat} {file file' : File} {path : CString}
    {inode found : Option InodeRef} {isEnd : Bool}
    (returns : findPathLoop fuel rounds fs file path inode isEnd = some (found, after, file')) :
    KeepsBlockBits fs after := by
  induction rounds generalizing fs file path inode isEnd with
  | zero => cases returns
  | succ rounds ih =>
      cases findPathLoop_step returns with
      | ended noName => exact .refl _
      | missing isName search => exact keeps_findInodeInDir search
      | entered isName search behind =>
          exact ((keeps_findInodeInDir search).trans (keeps_setInode _ _ _)).trans (ih behind)

theorem keeps_findInodeByPath {fuel : Nat} {file file' : File} {path : CString}
    {found : Option InodeRef}
    (returns : fs.findInodeByPath fuel file path = some (found, after, file')) :
    KeepsBlockBits fs after :=
  (keeps_igetInode fs 2).trans (keeps_findPathLoop returns)

/-- A relation that reading blocks and clearing bits with `set_bit` stay within. -/
structure Framed (R : FileSystem → FileSystem → Prop) : Prop where
  refl : ∀ fs, R fs fs
  trans : ∀ {fs middle after}, R fs middle → R middle after → R fs after
  store : ∀ fs store, R fs (setStore fs store)
  bit : ∀ fs gno bit, R fs (setGroup fs gno
    { fs.groups gno with pBlockBitmap := setBit (fs.groups gno).pBlockBitmap bit 0 })

/-- A relation that the steps of `ext2_unlink` behind the walk stay within: blocks read or
taken, buffers made invalid and bits cleared with `set_bit`. -/
structure Stepped (R : FileSystem → FileSystem → Prop) : Prop where
  refl : ∀ fs, R fs fs
  trans : ∀ {fs middle after}, R fs middle → R middle after → R fs after
  read : ∀ fs bno, R fs (setStore fs (fs.store.readBlock fs.blockSize bno).2)
  get : ∀ fs bno, R fs (setStore fs (fs.store.bgetBlock bno).2)
  clear : ∀ fs bb, R fs (setStore fs
    (fs.store.setBuffer bb { fs.store.buffers bb with bState := 0 }))
  bit : ∀ fs gno bit, R fs (setGroup fs gno
    { fs.groups gno with pBlockBitmap := setBit (fs.groups gno).pBlockBitmap bit 0 })

theorem Framed.stepped {R : FileSystem → FileSystem → Prop} (framed : Framed R) : Stepped R :=
  ⟨framed.refl, framed.trans, fun fs _ => framed.store fs _, fun fs _ => framed.store fs _,
    fun fs _ => framed.store fs _, framed.bit⟩

theorem keepsBlockBits_framed : Framed KeepsBlockBits :=
  ⟨.refl, .trans, keeps_setStore, fun fs gno bit =>
    keeps_setGroup fs gno _ (setBit_zero (fs.groups gno).pBlockBitmap bit)⟩

theorem keeps_if {R : FileSystem → FileSystem → Prop} {p : Prop} [Decidable p]
    {fs first second : FileSystem} (yes : R fs first) (no : R fs second) :
    R fs (if p then first else second) := by
  by_cases isTrue : p
  · rw [if_pos isTrue]
    exact yes
  · rw [if_neg isTrue]
    exact no

section Stepped

variable {R : FileSystem → FileSystem → Prop} (stepped : Stepped R)
include stepped

theorem Stepped.release (fs : FileSystem) (gno bb : Nat) : R fs (fs.release gno bb) :=
  stepped.trans (stepped.clear fs bb) (stepped.bit _ _ _)

theorem Stepped.releaseHeld (fs : FileSystem) (gno bb : Nat) :
    R fs (fs.releaseHeld gno bb) := by
  unfold FileSystem.releaseHeld
  by_cases held : (fs.store.buffers bb).bState ≠ 0
  · rw [if_pos held]
    exact stepped.release fs gno bb
  · rw [if_neg held]
    exact stepped.refl fs

theorem Stepped.releaseBlock (fs : FileSystem) (gno bno : Nat) :
    R fs (fs.releaseBlock gno bno) :=
  stepped.trans (stepped.get fs bno) (stepped.releaseHeld _ _ _)

theorem Stepped.withBlock (fs : FileSystem) (bno : Nat)
    {next : FileSystem → Nat → FileSystem × Option Tables}
    (keeps : ∀ fs bb, R fs (next fs bb).1) :
    R fs (fs.withBlock bno next).1 := by
  have read := stepped.read fs bno
  unfold FileSystem.withBlock
  rcases reads : fs.store.readBlock fs.blockSize bno with ⟨bb, store⟩
  rw [reads] at read
  cases bb with
  | none => exact read
  | some bb => exact stepped.trans read (keeps _ bb)

theorem Stepped.withTable (fs : FileSystem) (isNew : Bool) (bno bb : Nat)
    {next : FileSystem → Nat → FileSystem × Option Tables}
    (keeps : ∀ fs bb, R fs (next fs bb).1) :
    R fs (fs.withTable isNew bno bb next).1 := by
  cases isNew with
  | true => exact stepped.withBlock fs bno keeps
  | false => exact keeps fs bb

theorem Stepped.unlinkSingle (inode : Inode) (gno i : Nat) (tables : Tables) (fs : FileSystem)
    (bb : Nat) : R fs (unlinkSingle inode gno i tables fs bb).1 := by
  have freed := stepped.releaseBlock fs gno (fs.tableEntry bb ((i - 12) * 4))
  exact keeps_if (stepped.trans freed (stepped.release _ _ _)) freed

theorem Stepped.unlinkDouble (inode : Inode) (gno i : Nat) (tables : Tables) (bb : Nat)
    (fs : FileSystem) (nbb : Nat) :
    R fs (unlinkDouble inode gno i tables bb fs nbb).1 := by
  have freed := stepped.releaseBlock fs gno (fs.tableEntry nbb ((i - 1036) % 1024 * 4))
  have table := keeps_if (p := (i - 1036) % 1024 = 1023 ∨ i = inode.iBlocks - 1)
    (stepped.trans freed (stepped.releaseHeld _ gno nbb)) freed
  exact keeps_if (stepped.trans table (stepped.release _ _ _)) table

theorem Stepped.unlinkTriple (inode : Inode) (gno i place bb nbb : Nat) (fs : FileSystem)
    (nnbb : Nat) : R fs (unlinkTriple inode gno i place bb nbb fs nnbb).1 := by
  have freed := stepped.releaseBlock fs gno (fs.tableEntry nbb (place % 1024 * 4))
  have third := keeps_if (p := place % 1024 = 1023 ∨ i = inode.iBlocks - 1)
    (stepped.trans freed (stepped.releaseHeld _ gno nnbb)) freed
  have second := keeps_if (p := place = 1048575 ∨ i = inode.iBlocks - 1)
    (stepped.trans third (stepped.releaseHeld _ gno nbb)) third
  exact keeps_if (stepped.trans second (stepped.release _ _ _)) second

theorem Stepped.unlinkThird (inode : Inode) (gno i place : Nat) (tables : Tables) (fs : FileSystem)
    (bb : Nat) : R fs (unlinkThird inode gno i place tables fs bb).1 := by
  apply stepped.withTable
  intro fs nbb
  exact stepped.withTable _ _ _ _ (stepped.unlinkTriple inode gno i place bb nbb)

theorem Stepped.unlinkRound (fs : FileSystem) (inode : Inode) (gno i : Nat) (tables : Tables) :
    R fs (fs.unlinkRound inode gno i tables).1 := by
  unfold FileSystem.unlinkRound
  by_cases direct : i < 12
  · rw [if_pos direct]
    exact stepped.releaseBlock _ _ _
  · rw [if_neg direct]
    by_cases single : i < 1036
    · rw [if_pos single]
      exact stepped.withTable _ _ _ _ (stepped.unlinkSingle inode gno i tables)
    · rw [if_neg single]
      by_cases double : i < 1049612
      · rw [if_pos double]
        apply stepped.withTable
        intro fs bb
        exact stepped.withTable _ _ _ _ (stepped.unlinkDouble inode gno i tables bb)
      · rw [if_neg double]
        exact stepped.withTable _ _ _ _ (stepped.unlinkThird inode gno i _ tables)

theorem Stepped.unlinkLoop (inode : Inode) (gno left i : Nat) (fs : FileSystem) (tables : Tables) :
    R fs (unlinkLoop inode gno left i fs tables).2 := by
  induction left generalizing i fs tables with
  | zero => exact stepped.refl fs
  | succ left ih =>
      have keeps := stepped.unlinkRound fs inode gno i tables
      rcases round : fs.unlinkRound inode gno i tables with ⟨middle, next⟩
      rw [round] at keeps
      cases next with
      | none =>
          simp only [FileSystem.unlinkLoop, round]
          exact keeps
      | some tables =>
          simp only [FileSystem.unlinkLoop, round]
          exact stepped.trans keeps (ih (i + 1) middle tables)

theorem Stepped.ulinkLoop {ram : Ram} {name : CString} {inode parent : Inode}
    {rounds fuel pos : Nat}
    (returns : ulinkLoop ram name inode parent rounds fuel pos fs = some after) :
    R fs after := by
  induction fuel generalizing pos fs with
  | zero => cases returns
  | succ fuel ih =>
      rw [FileSystem.ulinkLoop] at returns
      by_cases more : pos < inode.iSize
      · rw [if_pos more] at returns
        rcases reads : fs.store.readBlock fs.blockSize
          (parent.iBlock (blockIndex pos fs.blockSize)) with ⟨bb, store⟩
        have stored := stepped.read fs (parent.iBlock (blockIndex pos fs.blockSize))
        rw [reads] at stored
        cases bb with
        | none =>
            simp only [reads, Option.some.injEq] at returns
            exact returns ▸ stored
        | some bb =>
            simp only [reads] at returns
            cases walk : ulinkWalk (ram.read store fs.blockSize)
                ((ram.base bb + inode.iSize) % 4294967296) name rounds (ram.base bb) with
            | none =>
                simp only [walk] at returns
                cases returns
            | some _ =>
                simp only [walk] at returns
                exact stepped.trans stored (ih returns)
      · rw [if_neg more, Option.some.injEq] at returns
        exact returns ▸ stepped.refl fs

theorem Stepped.ulinkInode {fuel : Nat} {ram : Ram} {file : File} {name : CString}
    (returns : fs.ulinkInode fuel ram file name = some after) : R fs after := by
  unfold FileSystem.ulinkInode at returns
  by_cases some : 0 < (fs.inode file.inode).iSize
  · simp only [if_pos some] at returns
    cases isParent : (fs.inode file.inode).parent with
    | none =>
        simp only [isParent] at returns
        cases returns
    | some parent =>
        simp only [isParent] at returns
        exact stepped.ulinkLoop returns
  · simp only [if_neg some, Option.some.injEq] at returns
    exact returns ▸ stepped.refl fs

/-- Behind the walk `ext2_unlink` stays within the relation. -/
theorem Stepped.ext2Unlink {fuel : Nat} {ram : Ram} {file file' : File} {path : CString}
    {err : Int} {fs after : FileSystem}
    (returns : fs.ext2Unlink fuel ram file path = some (err, after, file')) :
    ∃ inode middle found, fs.findInodeByPath fuel file path = some (inode, middle, found) ∧
      R middle after := by
  unfold FileSystem.ext2Unlink at returns
  cases search : fs.findInodeByPath fuel file path with
  | none =>
      simp only [search] at returns
      cases returns
  | some result =>
      obtain ⟨inode, middle, found⟩ := result
      refine ⟨inode, middle, found, rfl, ?_⟩
      cases inode with
      | none =>
          simp only [search, Option.some.injEq, Prod.mk.injEq] at returns
          exact returns.2.1 ▸ stepped.refl middle
      | some ref =>
          have looped := stepped.unlinkLoop (middle.inode ref) (found.ino / middle.groupInode)
            (middle.inode ref).iBlocks 0 middle ⟨0, 0, 0⟩
          rcases loop : FileSystem.unlinkLoop (middle.inode ref) (found.ino / middle.groupInode)
            (middle.inode ref).iBlocks 0 middle ⟨0, 0, 0⟩ with ⟨done, freed⟩
          rw [loop] at looped
          cases done with
          | false =>
              simp only [search, loop, Option.some.injEq, Prod.mk.injEq] at returns
              exact returns.2.1 ▸ looped
          | true =>
              cases removes : freed.ulinkInode fuel ram found
                  (path.drop (getNameIndex path)) with
              | none =>
                  simp only [search, loop, removes] at returns
                  cases returns
              | some removed =>
                  simp only [search, loop, removes, Option.some.injEq, Prod.mk.injEq] at returns
                  exact returns.2.1 ▸ stepped.trans looped (stepped.ulinkInode removes)

end Stepped

theorem Framed.ext2Unlink {R : FileSystem → FileSystem → Prop} (framed : Framed R) {fuel : Nat}
    {ram : Ram} {file file' : File} {path : CString} {err : Int} {fs after : FileSystem}
    (returns : fs.ext2Unlink fuel ram file path = some (err, after, file')) :
    ∃ inode middle found, fs.findInodeByPath fuel file path = some (inode, middle, found) ∧
      R middle after :=
  framed.stepped.ext2Unlink returns

theorem keeps_ext2Unlink {fuel : Nat} {ram : Ram} {file file' : File} {path : CString} {err : Int}
    (returns : fs.ext2Unlink fuel ram file path = some (err, after, file')) :
    KeepsBlockBits fs after := by
  obtain ⟨inode, middle, found, search, keeps⟩ := keepsBlockBits_framed.ext2Unlink returns
  exact (keeps_findInodeByPath search).trans keeps

end KeepsBlockBits

/-- The blocks of the tree of an inode, by what is on the disk. -/
def inodeTree (fs : FileSystem) (inode : Inode) : Set Nat :=
  treeOf (fun bno => fs.store.device.sectors (sectorOf fs.blockSize bno)) inode.iBlock
    ((inode.iSize + fs.blockSize - 1) / fs.blockSize)

/-- The tree of the inode that a path names. -/
def foundTree (fs : FileSystem) (fuel : Nat) (file : File) (path : CString) : Set Nat :=
  match fs.findInodeByPath fuel file path with
  | some (some ref, found, _) => fs.inodeTree (found.inode ref)
  | _ => ∅

theorem ext2Unlink_frees_iff {fs after : FileSystem} {fuel : Nat} {ram : Ram}
    {file file' : File} {path : CString}
    (returns : fs.ext2Unlink fuel ram file path = some (0, after, file')) :
    fs.FreesExactly after (fs.foundTree fuel file path) ↔
      ∀ bno, bno ∈ fs.foundTree fuel file path → ¬ fs.BlockUsed bno := by
  have keeps := keeps_ext2Unlink returns
  have same : ∀ group bit, after.blockBit group bit = fs.blockBit group bit := by
    intro group bit
    unfold blockBit
    rw [keeps.bits]
  have used : ∀ bno, after.BlockUsed bno ↔ fs.BlockUsed bno := by
    intro bno
    unfold BlockUsed
    rw [same, keeps.groupBlock]
  constructor
  · intro ⟨freed, _⟩ bno member isUsed
    exact freed bno member ((used bno).mpr isUsed)
  · intro clear
    refine ⟨?_, fun group bit _ => same group bit⟩
    intro bno member isUsed
    exact clear bno member ((used bno).mp isUsed)

/-- The file /a in block 100 on a disk of one group; `bits` is its block bitmap. -/
def unlinkSample (bits : Region) : FileSystem :=
  let entries : Nat → BitVec 8 := fun a =>
    if a = 204800 then 12#8 else if a = 204805 then 16#8 else if a = 204808 then 97#8 else 0#8
  let group := (sample 4096).groups 0
  let inodeData := fun slot =>
    { group.inodeData slot with
      iMode := if slot = 1 then 0o040755 else 0o100644
      iBlocks := if slot = 12 then 0 else 8
      iSize := if slot = 12 then 0 else 4096
      iBlock := fun i => if slot = 1 then 50 + i else 100 + i }
  let device := { (sample 4096).store.device with bytes := entries }
  { sample 4096 with
    store := { (sample 4096).store with device := device }
    groups := fun _ => { group with pBlockBitmap := bits, inodeData := inodeData } }

/-- A file slot that was last used for an empty file. -/
def unlinkFile : File where
  pos := 0
  mode := 0
  startBlock := 0
  curBlock := 0
  ino := 13
  inode := ⟨0, 12⟩
  ref := 1

def unlinkRam : Ram where
  base := fun bb => 8388608 + 4096 * bb
  byte := fun _ => 0#8

def unlinkPath : CString := [47#8, 97#8]

private theorem unlink_returns (bits : Region)
    (zero : ((unlinkSample bits).ext2Unlink 4 unlinkRam unlinkFile unlinkPath).map (·.1) =
      some 0) :
    ∃ after file, (unlinkSample bits).ext2Unlink 4 unlinkRam unlinkFile unlinkPath =
      some (0, after, file) := by
  rw [Option.map_eq_some_iff] at zero
  obtain ⟨⟨err, after, file⟩, returns, isZero⟩ := zero
  change err = 0 at isZero
  exact ⟨after, file, isZero ▸ returns⟩

private theorem unlink_tree :
    100 ∈ (unlinkSample (fun _ => 255#8)).foundTree 4 unlinkFile unlinkPath := by
  have finds : ((unlinkSample (fun _ => 255#8)).findInodeByPath 4 unlinkFile unlinkPath).map
      (fun found => (found.1, (found.2.1.inode ⟨0, 11⟩).iBlock 0,
        (found.2.1.inode ⟨0, 11⟩).iSize)) = some (some ⟨0, 11⟩, 100, 4096) := by
    decide +kernel
  rw [Option.map_eq_some_iff] at finds
  obtain ⟨⟨ref, found, file⟩, search, facts⟩ := finds
  simp only [Prod.mk.injEq] at facts
  obtain ⟨isRef, isBlock, isSize⟩ := facts
  unfold foundTree
  rw [search, isRef]
  refine ⟨0, ?_, ?_⟩
  · rw [isSize]
    decide
  · exact List.mem_singleton.mpr isBlock.symm

theorem ext2Unlink_frees_clear :
    ∃ after file, (unlinkSample (fun _ => 0#8)).ext2Unlink 4 unlinkRam unlinkFile unlinkPath =
        some (0, after, file) ∧
      (unlinkSample (fun _ => 0#8)).FreesExactly after
        ((unlinkSample (fun _ => 0#8)).foundTree 4 unlinkFile unlinkPath) := by
  obtain ⟨after, file, returns⟩ := unlink_returns (fun _ => 0#8) (by decide +kernel)
  refine ⟨after, file, returns, (ext2Unlink_frees_iff returns).mpr ?_⟩
  intro bno _ used
  change (0#8).getLsbD (bno % 32768 % 8) = true at used
  rw [BitVec.getLsbD_zero] at used
  cases used

theorem ext2Unlink_frees_used :
    ∃ after file, (unlinkSample (fun _ => 255#8)).ext2Unlink 4 unlinkRam unlinkFile unlinkPath =
        some (0, after, file) ∧
      ¬ (unlinkSample (fun _ => 255#8)).FreesExactly after
        ((unlinkSample (fun _ => 255#8)).foundTree 4 unlinkFile unlinkPath) := by
  obtain ⟨after, file, returns⟩ := unlink_returns (fun _ => 255#8) (by decide +kernel)
  refine ⟨after, file, returns, ?_⟩
  intro ⟨freed, _⟩
  have keeps := keeps_ext2Unlink returns
  apply freed 100 unlink_tree
  unfold BlockUsed blockBit
  rw [keeps.bits, keeps.groupBlock]
  decide +kernel

end FileSystem

end MangoOS
