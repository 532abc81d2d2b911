/-
The list of dirty buffers over sequences of calls (fs/ext2.c).

`ext2_write` and the creation of a file link the node of a buffer into the list without a test
whether it is there, and a creation links the block it has read last, not the one with the new
entry.
-/

import MangoOS.FileSystem.SyncDrain

namespace MangoOS

open Intrusive
open BlockStore (sectorOf)

/-! ### The buffers that a call touches -/

/-- The buffers whose bytes a call changes without writing them, and those that it puts on the
dirty list, in order. -/
structure Touched where
  changed : List Nat
  marked : List Nat
  deriving DecidableEq

def Touched.none : Touched := ⟨[], []⟩

def Touched.append (first second : Touched) : Touched :=
  ⟨first.changed ++ second.changed, first.marked ++ second.marked⟩

/-- The buffers that the loop of `write_inode` changes and then fails to write. -/
def InodeShape.lostLoop (shape : InodeShape) (inodeData : Nat → Inode) :
    (left i : Nat) → BlockStore → (bb step : Nat) → List Nat
  | 0, _, _, _, _ => []
  | left + 1, i, store, bb, step =>
      match shape.startRound store i bb step with
      | (none, _) => []
      | (some (bb, step), store) =>
          let buffer := store.buffers bb
          let store := store.setBuffer bb
            { buffer with data := storeInode buffer.data step (inodeData i) }
          if i % shape.num = shape.num - 1 ∨ i = shape.total - 1 then
            let (count, store) :=
              store.flush (sectorOf shape.blockSize (store.buffers bb).blockNo) bb
            (if count ≤ 0 then [bb] else []) ++
              shape.lostLoop inodeData left (i + 1) store bb (step + shape.inodeSize)
          else shape.lostLoop inodeData left (i + 1) store bb (step + shape.inodeSize)

namespace FileSystem

/-- The same for `write_inode`. -/
def windowLost (fs : FileSystem) (group : Group) : List Nat :=
  if group.inodeBegin = -1 then []
  else
    let shape : InodeShape := ⟨fs.blockSize, fs.inodeSize, uint32 group.inodeBegin⟩
    shape.lostLoop group.inodeData shape.total 0 fs.store 0 0

/-- The same for `iget_inode`, which writes a window back before it loads another one. -/
def lookLost (fs : FileSystem) (ino : Nat) : List Nat :=
  if ino < 1 ∨ ino > fs.inodeCount then []
  else if fs.InodeCached ino then []
  else fs.windowLost (fs.groups (fs.inodeGroup ino))

/-- What `find_inode_in_dir` touches: the block with the reused entry is changed, the last one
read is put on the list. -/
def dirTouched (fuel : Nat) (fs : FileSystem) (file : File) (dir : InodeRef) (name : CString)
    (isEnd : Bool) : Touched :=
  let dirInode := fs.inode dir
  if !sIsDir dirInode.iMode then .none
  else
    match scanDir dirInode fs.blockSize name fuel fuel 0 fs.store none none with
    | none => .none
    | some (.failed, _) => .none
    | some (.found bb entry, store) =>
        ⟨(fs.setStore store).lookLost ((store.buffers bb).data.word entry), []⟩
    | some (.missing last empty, store) =>
        if file.mode &&& oCreat = oCreat ∧ isEnd then
          match (fs.setStore store).allocInode fuel with
          | none => .none
          | some (ino, fs) =>
              match last, empty with
              | some last, some (bb, _) => ⟨fs.lookLost ino ++ [bb], [last]⟩
              | _, _ => .none
        else .none

/-- What the loop of `find_inode_by_path` touches. -/
def pathTouched (fuel : Nat) :
    (rounds : Nat) → FileSystem → File → (path : CString) → (inode : Option InodeRef) →
      (isEnd : Bool) → Touched
  | 0, _, _, _, _, _ => .none
  | rounds + 1, fs, file, path, inode, isEnd =>
      match igetName path isEnd with
      | none => .none
      | some (name, path, isEnd) =>
          match inode with
          | none => .none
          | some parent =>
              match fs.findInodeInDir fuel file parent name isEnd with
              | none => .none
              | some (none, _, _) => fs.dirTouched fuel file parent name isEnd
              | some (some found, after, next) =>
                  let after := after.setInode found { after.inode found with parent := some parent }
                  (fs.dirTouched fuel file parent name isEnd).append
                    (pathTouched fuel rounds after next path (some found) isEnd)

/-- What `find_inode_by_path` touches, where `ext2_open` creates files. -/
def openTouched (fuel : Nat) (fs : FileSystem) (file : File) (path : CString) : Touched :=
  let (inode, after) := fs.igetInode 2
  Touched.append ⟨fs.lookLost 2, []⟩
    (pathTouched fuel (path.length + 1) after file path inode true)

/-- What `ext2_write` touches. -/
def writeTouched (fs : FileSystem) (file : File) (size : Int) : Touched :=
  let (bno, store) := igetBno fs.store fs.blockSize (fs.inode file.inode)
    (uint32 (file.pos.tdiv fs.blockSize))
  if size > 0 then
    match store.readBlock fs.blockSize bno with
    | (none, _) => .none
    | (some bb, _) => ⟨[bb], [bb]⟩
  else .none

/-- The buffers of the inode table that `ext2_sync` changes and fails to write for a group. -/
def groupLost (fs : FileSystem) (i : Nat) : List Nat :=
  let group := fs.groups i
  match writeBitmap fs.blockSize group.blockBitmap group.blockBitmapSize group.pBlockBitmap
      fs.store with
  | (false, _) => []
  | (true, store) =>
      match writeBitmap fs.blockSize group.inodeBitmap group.inodeBitmapSize group.pInodeBitmap
          store with
      | (false, _) => []
      | (true, store) => (fs.setStore store).windowLost group

def groupsLost : (left i : Nat) → FileSystem → List Nat
  | 0, _, _ => []
  | left + 1, i, fs =>
      match fs.syncGroup i with
      | (false, _) => []
      | (true, after) => fs.groupLost i ++ groupsLost left (i + 1) after

def syncLost (fuel : Nat) (fs : FileSystem) : List Nat :=
  match fs.syncBlocks fuel (fs.dirty.next none) with
  | some (true, fs) => groupsLost fs.groupCount 0 fs
  | _ => []

end FileSystem

/-! ### Runs -/

inductive DirtyOp
  | write (file : File) (data : Region) (size : Int)
  | create (fuel : Nat) (file : File) (path : CString)
  | sync (fuel : Nat)

/-- The file system, and the buffers changed since they were last written. -/
structure DirtyState where
  fs : FileSystem
  unwritten : List Nat

namespace DirtyState

open FileSystem

/-- One call; `none` if it does not return. -/
def step (s : DirtyState) : DirtyOp → Option DirtyState
  | .write file data size =>
      some ⟨(ext2Write s.fs file data size).2.1, (s.fs.writeTouched file size).changed ++ s.unwritten⟩
  | .create fuel file path =>
      (s.fs.findInodeByPath fuel file path).map fun result =>
        ⟨result.2.1, (s.fs.openTouched fuel file path).changed ++ s.unwritten⟩
  | .sync fuel =>
      (ext2Sync fuel s.fs).map fun result =>
        ⟨result.2, s.fs.syncLost fuel ++
          s.unwritten.filter (fun bb => bb ∉ s.fs.syncWrites fuel (s.fs.dirty.next none))⟩

/-- `dirty_blocks` is a ring and has every buffer changed since it was last written once. -/
def Sound (s : DirtyState) : Prop :=
  ∃ nodes : List Nat, Ring s.fs.dirty none (nodes.map some) ∧
    ∀ bb, bb ∈ s.unwritten → nodes.count bb = 1

/-- The buffers put on the list are not on it, and every changed one is on it then. -/
def Fits (s : DirtyState) (touched : Touched) : Prop :=
  ∀ nodes : List Nat, Ring s.fs.dirty none (nodes.map some) →
    (nodes ++ touched.marked).Nodup ∧
      ∀ bb, bb ∈ touched.changed → bb ∈ nodes ++ touched.marked

/-- The condition on a call. -/
def Meets (s : DirtyState) : DirtyOp → Prop
  | .write file _ size => s.Fits (s.fs.writeTouched file size)
  | .create fuel file path => s.Fits (s.fs.openTouched fuel file path)
  | .sync fuel => s.fs.syncLost fuel = []

end DirtyState

/-- The states that calls lead to, in blocks that the 8 sectors of `read_block` do not overrun. -/
inductive DirtyRun (allowed : DirtyState → DirtyOp → Prop) (start : DirtyState) :
    DirtyState → Prop
  | start (whole : 8 * sectorSize ≤ start.fs.blockSize) : DirtyRun allowed start start
  | step {s next : DirtyState} (op : DirtyOp) :
      DirtyRun allowed start s → allowed s op → s.step op = some next →
      DirtyRun allowed start next

/-! ### What the calls do to the list -/

/-- `list_insert_tail` for one buffer after the other. -/
def insertAll (links : Links (Option Nat)) (marked : List Nat) : Links (Option Nat) :=
  marked.foldl (fun links bb => queueInsertTail links none (some bb)) links

theorem insertAll_append (links : Links (Option Nat)) (first second : List Nat) :
    insertAll links (first ++ second) = insertAll (insertAll links first) second :=
  List.foldl_append

theorem insertAll_ring {links : Links (Option Nat)} {nodes marked : List Nat}
    (ring : Ring links none (nodes.map some)) (fresh : (nodes ++ marked).Nodup) :
    Ring (insertAll links marked) none ((nodes ++ marked).map some) := by
  induction marked generalizing links nodes with
  | nil =>
      rw [List.append_nil]
      exact ring
  | cons bb marked ih =>
      rw [List.append_cons] at fresh ⊢
      have isNew : some bb ∉ none :: nodes.map some := by
        have apart := (List.nodup_append'.mp (List.nodup_append'.mp fresh).1).2.2
        rw [List.mem_cons, not_or]
        refine ⟨Option.some_ne_none bb, ?_⟩
        intro member
        obtain ⟨other, inside, same⟩ := List.mem_map.mp member
        rw [Option.some.injEq] at same
        exact apart (same ▸ inside) (List.mem_singleton_self bb)
      have inserted := queueInsertTail_ring ring isNew
      have isList : (nodes ++ [bb]).map some = nodes.map some ++ [some bb] := by
        rw [List.map_append, List.map_singleton]
      rw [← isList] at inserted
      exact ih inserted fresh

namespace FileSystem

variable {fs after : FileSystem} {fuel : Nat} {file file' : File} {dir : InodeRef}
  {name path : CString} {isEnd : Bool} {found : Option InodeRef}

theorem igetInode_dirty (fs : FileSystem) (ino : Nat) : (fs.igetInode ino).2.dirty = fs.dirty := by
  rcases igetInode_changes fs ino with same | ⟨store, inodeData, inodeBegin, loaded⟩
  · rw [same]
  · rw [loaded, setGroup, setStore]

theorem allocInodeLoop_dirty {left i n : Nat}
    (returns : allocInodeLoop fuel fs left i = some (n, after)) : after.dirty = fs.dirty := by
  rcases allocInodeLoop_cases returns with ⟨_, same, _⟩ | ⟨group, takes, _⟩
  · rw [same]
  · rw [takes, takeInode, setGroup]

theorem findInodeInDir_dirty
    (returns : fs.findInodeInDir fuel file dir name isEnd = some (found, after, file')) :
    after.dirty = insertAll fs.dirty (fs.dirTouched fuel file dir name isEnd).marked := by
  unfold dirTouched
  cases findInodeInDir_iff.mp returns with
  | notDir other =>
      simp only [other, Bool.not_false, if_true]
      rfl
  | failed isDir scan =>
      simp only [isDir, Bool.not_true, Bool.false_eq_true, if_false, scan]
      rfl
  | found isDir scan =>
      simp only [isDir, Bool.not_true, Bool.false_eq_true, if_false, scan]
      exact igetInode_dirty _ _
  | missing isDir scan noCreate =>
      simp only [isDir, Bool.not_true, Bool.false_eq_true, if_false, scan, if_neg noCreate]
      rfl
  | @created last bb entry ino searched taken isDir scan creates allocated =>
      simp only [isDir, Bool.not_true, Bool.false_eq_true, if_false, scan, if_pos creates,
        allocated]
      change queueInsertTail (taken.igetInode ino).2.dirty none (some last) = _
      rw [igetInode_dirty, allocInodeLoop_dirty allocated]
      rfl

theorem findPathLoop_dirty {rounds : Nat} {inode : Option InodeRef}
    (returns : findPathLoop fuel rounds fs file path inode isEnd = some (found, after, file')) :
    after.dirty = insertAll fs.dirty (pathTouched fuel rounds fs file path inode isEnd).marked := by
  induction rounds generalizing fs file path inode isEnd with
  | zero => cases returns
  | succ rounds ih =>
      rw [pathTouched]
      cases findPathLoop_step returns with
      | ended noName =>
          simp only [noName]
          rfl
      | missing isName search =>
          simp only [isName, search]
          exact findInodeInDir_dirty search
      | @entered name rest last parent ref middle _ next _ _ isName search behind =>
          simp only [isName, search]
          have onward := ih behind
          change _ = insertAll middle.dirty _ at onward
          rw [findInodeInDir_dirty search, ← insertAll_append] at onward
          exact onward

theorem findInodeByPath_dirty
    (returns : fs.findInodeByPath fuel file path = some (found, after, file')) :
    after.dirty = insertAll fs.dirty (fs.openTouched fuel file path).marked := by
  have behind : after.dirty = insertAll (fs.igetInode 2).2.dirty
      (pathTouched fuel (path.length + 1) (fs.igetInode 2).2 file path (fs.igetInode 2).1
        true).marked := findPathLoop_dirty returns
  rw [igetInode_dirty] at behind
  exact behind

theorem ext2Write_dirty (fs : FileSystem) (file : File) (data : Region) (size : Int) :
    (ext2Write fs file data size).2.1.dirty =
      insertAll fs.dirty (fs.writeTouched file size).marked := by
  unfold ext2Write writeTouched
  rcases igetBno fs.store fs.blockSize (fs.inode file.inode)
    (uint32 (file.pos.tdiv fs.blockSize)) with ⟨bno, store⟩
  dsimp only
  by_cases some : size > 0
  · rw [if_pos some, if_pos some]
    rcases store.readBlock fs.blockSize bno with ⟨read, served⟩
    cases read with
    | none => rfl
    | some bb => rfl
  · rw [if_neg some, if_neg some]
    rfl

theorem syncGroup_dirty (fs : FileSystem) (i : Nat) : (fs.syncGroup i).2.dirty = fs.dirty := by
  unfold syncGroup
  dsimp only
  split
  · rfl
  · split
    · rfl
    · rfl

theorem syncGroups_dirty (left i : Nat) (fs : FileSystem) :
    (syncGroups left i fs).2.dirty = fs.dirty := by
  induction left generalizing i fs with
  | zero => rfl
  | succ left ih =>
      have here := syncGroup_dirty fs i
      rw [syncGroups]
      rcases group : fs.syncGroup i with ⟨done, middle⟩
      rw [group] at here
      cases done with
      | false => exact here
      | true => exact (ih (i + 1) middle).trans here

/-- `ext2_sync` takes off the list what it writes, and nothing else. -/
theorem ext2Sync_ring {err : Int} {nodes : List Nat} (ring : Ring fs.dirty none (nodes.map some))
    (returns : ext2Sync fuel fs = some (err, after)) :
    ∃ left, Ring after.dirty none (left.map some) ∧
      (fs.syncWrites fuel (fs.dirty.next none) ++ left).Perm nodes := by
  have first : fs.dirty.next none = nodes.head? := by
    rw [ring.next_head]
    cases nodes with
    | nil => rfl
    | cons bb others => rfl
  unfold ext2Sync at returns
  cases blocks : fs.syncBlocks fuel (fs.dirty.next none) with
  | none =>
      rw [blocks] at returns
      cases returns
  | some result =>
      obtain ⟨done, middle⟩ := result
      have run := blocks
      rw [first] at run ⊢
      obtain ⟨left, ran⟩ := syncBlocks_run fuel fs [] nodes ring run
      refine ⟨left, ?_, ran.perm⟩
      rw [blocks] at returns
      cases done with
      | false =>
          simp only [Option.some.injEq, Prod.mk.injEq] at returns
          exact returns.2 ▸ ran.ring
      | true =>
          have same := syncGroups_dirty middle.groupCount 0 middle
          rcases groups : syncGroups middle.groupCount 0 middle with ⟨done, last⟩
          rw [groups] at same
          simp only [groups] at returns
          cases done with
          | false =>
              simp only [Option.some.injEq, Prod.mk.injEq] at returns
              rw [← returns.2, same]
              exact ran.ring
          | true =>
              have ends : last.syncSuper.2.dirty = last.dirty := by
                unfold syncSuper
                dsimp only
                split
                · rfl
                · rfl
              simp only [Option.some.injEq] at returns
              rw [returns] at ends
              rw [ends, same]
              exact ran.ring

end FileSystem

/-! ### Every run -/

namespace DirtyState

open FileSystem

variable {s next : DirtyState} {op : DirtyOp}

theorem Sound.touched {touched : Touched} {after : FileSystem} (sound : s.Sound)
    (fits : s.Fits touched) (marks : after.dirty = insertAll s.fs.dirty touched.marked) :
    Sound ⟨after, touched.changed ++ s.unwritten⟩ := by
  obtain ⟨nodes, ring, once⟩ := sound
  obtain ⟨fresh, listed⟩ := fits nodes ring
  refine ⟨nodes ++ touched.marked, ?_, ?_⟩
  · change Ring after.dirty none _
    rw [marks]
    exact insertAll_ring ring fresh
  · intro bb member
    apply List.count_eq_one_of_mem fresh
    rcases List.mem_append.mp member with changed | before
    · exact listed bb changed
    · apply List.mem_append_left
      have here := once bb before
      exact List.count_pos_iff.mp (by omega)

theorem Sound.synced {fuel : Nat} {err : Int} {after : FileSystem} (sound : s.Sound)
    (served : s.fs.syncLost fuel = []) (returns : ext2Sync fuel s.fs = some (err, after)) :
    Sound ⟨after, s.fs.syncLost fuel ++
      s.unwritten.filter (fun bb => bb ∉ s.fs.syncWrites fuel (s.fs.dirty.next none))⟩ := by
  obtain ⟨nodes, ring, once⟩ := sound
  obtain ⟨left, ringAfter, perm⟩ := ext2Sync_ring ring returns
  refine ⟨left, ringAfter, ?_⟩
  intro bb member
  rw [served, List.nil_append, List.mem_filter, decide_eq_true_iff] at member
  obtain ⟨before, kept⟩ := member
  have count := perm.count_eq bb
  rw [List.count_append, once bb before, List.count_eq_zero_of_not_mem kept, Nat.zero_add] at count
  exact count

theorem Sound.step (sound : s.Sound) (meets : s.Meets op) (steps : s.step op = some next) :
    next.Sound := by
  cases op with
  | write file data size =>
      rw [DirtyState.step, Option.some.injEq] at steps
      rw [← steps]
      exact sound.touched meets (ext2Write_dirty s.fs file data size)
  | create fuel file path =>
      obtain ⟨⟨found, after, file'⟩, returns, isNext⟩ := Option.map_eq_some_iff.mp steps
      rw [← isNext]
      exact sound.touched meets (findInodeByPath_dirty returns)
  | sync fuel =>
      obtain ⟨⟨err, after⟩, returns, isNext⟩ := Option.map_eq_some_iff.mp steps
      rw [← isNext]
      exact sound.synced meets returns

end DirtyState

namespace DirtyState

open FileSystem

/-- A buffer that is put on the list a second time makes it no list any more. -/
theorem write_again {s next : DirtyState} {file : File} {data : Region} {size : Int} {bb : Nat}
    {nodes : List Nat} (ring : Ring s.fs.dirty none (nodes.map some))
    (touches : (s.fs.writeTouched file size).marked = [bb]) (listed : bb ∈ nodes)
    (steps : s.step (.write file data size) = some next) : ¬ next.Sound := by
  rintro ⟨after, again, _⟩
  rw [DirtyState.step, Option.some.injEq] at steps
  rw [← steps] at again
  change Ring (ext2Write s.fs file data size).2.1.dirty none _ at again
  rw [ext2Write_dirty, touches] at again
  exact queueInsertTail_again ring (List.mem_map.mpr ⟨bb, listed, rfl⟩) _ again

/-- A file system whose bucket 0 is full: it holds the blocks 0, 10, 20 and so on. -/
def full : FileSystem :=
  let head (hash : Int) : BufferHead :=
    if hash = 0 then { size := 100, nodes := List.range 100 } else { size := 0, nodes := [] }
  let buffer (bb : Nat) : Buffer :=
    { blockNo := 10 * bb, data := fun _ => 0#8, bState := 1, expTime := bb }
  { sample 4096 with
    store := { BlockStore.zeroed with heads := head, buffers := buffer, made := 100 } }

/-- A file at its beginning, in block 100. -/
def opened : File where
  pos := 0
  mode := 2
  startBlock := 0
  curBlock := 0
  ino := 1
  inode := ⟨0, 0⟩
  ref := 1

/-- One byte is written to it. -/
def written (fs : FileSystem) : DirtyState :=
  ⟨(ext2Write fs opened (fun _ => 65#8) 1).2.1, [10]⟩

theorem full_touched : full.writeTouched opened 1 = ⟨[10], [10]⟩ := by decide +kernel

theorem written_touched : (written full).fs.writeTouched opened 1 = ⟨[10], [10]⟩ := by
  decide +kernel

theorem full_step :
    DirtyState.step ⟨full, []⟩ (.write opened (fun _ => 65#8) 1) = some (written full) := by
  rw [DirtyState.step, full_touched]
  rfl

theorem full_empty : Ring full.dirty none [] := by decide

theorem full_meets : Meets ⟨full, []⟩ (.write opened (fun _ => 65#8) 1) := by
  intro nodes ring
  have none := ring.unique full_empty
  rw [List.map_eq_nil_iff] at none
  change (nodes ++ (full.writeTouched opened 1).marked).Nodup ∧
    ∀ bb, bb ∈ (full.writeTouched opened 1).changed →
      bb ∈ nodes ++ (full.writeTouched opened 1).marked
  rw [none, full_touched]
  exact ⟨List.nodup_singleton 10, fun bb member => member⟩

end DirtyState

end MangoOS
