/-
Transfers of the disk driver (device/disk.c) and the mutexes that they and `bget_block`
(fs/buffer.c) hold meanwhile.

What the drive answers is given: the bytes that its status port shows after each sector and
the sectors themselves.  A transfer lists its own calls on the mutex and the semaphore.
-/

import MangoOS.FileSystem.Buffer
import MangoOS.Kernel.LockLevel

namespace MangoOS

open Intrusive

def enopart : Int := 12

/-- `part_info_t`; its name and its type take no part in a transfer. -/
structure PartInfo where
  beginSec : Nat
  count : Nat

structure Drive where
  /-- What port 0x1F7 shows at each poll, sector by sector. -/
  status : Nat → Nat → BitVec 8
  sector : Nat → Region
  /-- What was written to port 0x1F0 before. -/
  received : Region

/-- What `send_cmd` is given. -/
structure DriveCommand where
  startSec : Nat
  count : Int
  cmd : Nat

structure Transfer where
  result : Int
  data : Region
  command : Option DriveCommand
  ops : List Op

/-- Neither an error nor data, and the drive is busy. -/
def busy (status : BitVec 8) : Bool := status &&& 137#8 == 128#8

def waitData (status : Nat → BitVec 8) : (fuel poll : Nat) → Option Int
  | 0, _ => none
  | fuel + 1, poll =>
      if busy (status poll) then waitData status fuel (poll + 1)
      else some (if status poll &&& 1#8 = 0#8 then 0 else -1)

/-- The loop of `disk_read` and `disk_write` with the unlock behind it; `before` and `after`
move a sector in front of and behind the wait. -/
def transferLoop (m s : Nat) (status : Nat → Nat → BitVec 8) (fuel : Nat)
    (before after : Nat → Region → Region) :
    (left i : Nat) → Region → List Op → Option (Int × Region × List Op)
  | 0, i, data, ops => some (i, data, ops ++ [.mutexUnlock m])
  | left + 1, i, data, ops =>
      let data := before i data
      let ops := ops ++ [.semWait s]
      match waitData (status i) fuel 0 with
      | none => none
      | some err =>
          if err ≠ 0 then some (-enodisk, data, ops)
          else transferLoop m s status fuel before after left (i + 1) (after i data) ops

/-- What `disk_read` and `disk_write` share. -/
def diskTransfer (m s : Nat) (partInfo : Nat → PartInfo) (minor beginSec count : Int) (cmd : Nat)
    (status : Nat → Nat → BitVec 8) (fuel : Nat) (before after : Nat → Region → Region)
    (data : Region) : Option Transfer :=
  let info := partInfo (minor % 16).toNat
  if info.count = 0 then
    some { result := -enopart, data := data, command := none, ops := [.mutexLock m] }
  else
    (transferLoop m s status fuel before after count.toNat 0 data [.mutexLock m]).map
      fun (result, data, ops) =>
        { result := result
          data := data
          command :=
            some { startSec := uint32 (info.beginSec + beginSec), count := count, cmd := cmd }
          ops := ops }

/-- Sector `i` of a transfer from `source` into `target`. -/
def moveSector (source : Region) (start : Int) (i : Nat) (target : Region) : Region :=
  target.copy (512 * i : Nat) source start 512

def diskRead (m s : Nat) (partInfo : Nat → PartInfo) (drive : Drive) (fuel : Nat)
    (minor beginSec : Int) (buf : Region) (count : Int) : Option Transfer :=
  diskTransfer m s partInfo minor beginSec count 0x24 drive.status fuel (fun _ buf => buf)
    (fun i buf => moveSector (drive.sector i) 0 i buf) buf

def diskWrite (m s : Nat) (partInfo : Nat → PartInfo) (drive : Drive) (fuel : Nat)
    (minor beginSec : Int) (buf : Region) (count : Int) : Option Transfer :=
  diskTransfer m s partInfo minor beginSec count 0x34 drive.status fuel
    (fun i sent => moveSector buf (512 * i : Nat) i sent) (fun _ sent => sent) drive.received

/-- The calls of `bget_block` on its mutex; a hit returns from inside. -/
def BlockStore.bgetOps (store : BlockStore) (m bno : Nat) : List Op :=
  if (store.heads (hashBh bno)).size ≥ 100 then
    match store.bgetFound bno with
    | .inl _ => [.mutexLock m]
    | .inr _ => [.mutexLock m, .mutexUnlock m]
  else [.mutexLock m, .mutexUnlock m]

/-! ### What a transfer returns -/

/-- The first answer of a drive that is not busy has no error bit. -/
def NoError (status : Nat → BitVec 8) : Prop :=
  ∀ poll, (∀ earlier, earlier < poll → busy (status earlier) = true) →
    busy (status poll) = false → status poll &&& 1#8 = 0#8

variable {m s fuel : Nat} {err : Int}

theorem waitData_zero_iff {status : Nat → BitVec 8} {poll : Nat}
    (waited : ∀ earlier, earlier < poll → busy (status earlier) = true)
    (returns : waitData status fuel poll = some err) : err = 0 ↔ NoError status := by
  induction fuel generalizing poll with
  | zero => cases returns
  | succ fuel ih =>
      rw [waitData] at returns
      by_cases isBusy : busy (status poll) = true
      · rw [if_pos isBusy] at returns
        apply ih _ returns
        intro earlier below
        rcases Nat.lt_succ_iff_lt_or_eq.mp below with before | same
        · exact waited earlier before
        · exact same ▸ isBusy
      · rw [if_neg isBusy, Option.some.injEq] at returns
        rw [Bool.not_eq_true] at isBusy
        constructor
        · intro none other earlierBusy otherFree
          -- the first answer is the only one
          have same : other = poll := by
            rcases Nat.lt_trichotomy other poll with below | same | above
            · rw [waited other below] at otherFree
              cases otherFree
            · exact same
            · rw [earlierBusy poll above] at isBusy
              cases isBusy
          by_contra bit
          rw [← same, if_neg bit] at returns
          omega
        · intro noError
          rw [if_pos (noError poll waited isBusy)] at returns
          exact returns.symm

/-- How the loop of a transfer ends. -/
structure LoopEnds (m s : Nat) (status : Nat → Nat → BitVec 8) (left i : Nat) (ops : List Op)
    (result : Int) (opsAfter : List Op) : Prop where
  whole : (∀ j, j < left → NoError (status (i + j))) →
    result = (i + left : Nat) ∧
      opsAfter = ops ++ List.replicate left (.semWait s) ++ [.mutexUnlock m]
  broken : (¬ ∀ j, j < left → NoError (status (i + j))) →
    result = -enodisk ∧ ∃ n, opsAfter = ops ++ List.replicate n (.semWait s)

theorem transferLoop_ends {status : Nat → Nat → BitVec 8} {before after : Nat → Region → Region}
    {left i : Nat} {data dataAfter : Region} {ops opsAfter : List Op} {result : Int}
    (returns : transferLoop m s status fuel before after left i data ops =
      some (result, dataAfter, opsAfter)) :
    LoopEnds m s status left i ops result opsAfter := by
  induction left generalizing i data ops with
  | zero =>
      cases returns
      constructor
      · intro _
        exact ⟨rfl, by rw [List.replicate_zero, List.append_nil]⟩
      · intro broken
        exact False.elim (broken fun j below => absurd below (Nat.not_lt_zero j))
  | succ left ih =>
      rw [transferLoop] at returns
      cases waits : waitData (status i) fuel 0 with
      | none =>
          simp only [waits] at returns
          cases returns
      | some err =>
          simp only [waits] at returns
          have first := waitData_zero_iff (fun _ below => absurd below (Nat.not_lt_zero _)) waits
          have split : (∀ j, j < left + 1 → NoError (status (i + j))) ↔
              NoError (status i) ∧ ∀ j, j < left → NoError (status (i + 1 + j)) := by
            rw [Nat.forall_lt_succ_left]
            simp only [Nat.add_zero, Nat.add_assoc, Nat.add_comm 1]
          by_cases good : err = 0
          · rw [if_neg (not_not_intro good)] at returns
            have rest := ih returns
            constructor
            · intro all
              obtain ⟨isResult, isOps⟩ := rest.whole (split.mp all).2
              refine ⟨by rw [isResult]; omega, ?_⟩
              rw [isOps, List.replicate_succ, List.append_assoc ops [_]]
              rfl
            · intro some
              have later : ¬ ∀ j, j < left → NoError (status (i + 1 + j)) :=
                fun all => some (split.mpr ⟨first.mp good, all⟩)
              obtain ⟨isResult, n, isOps⟩ := rest.broken later
              refine ⟨isResult, n + 1, ?_⟩
              rw [isOps, List.replicate_succ, List.append_assoc ops [_]]
              rfl
          · rw [if_pos good] at returns
            cases returns
            constructor
            · intro all
              exact False.elim (good (first.mpr (split.mp all).1))
            · intro _
              exact ⟨rfl, 1, rfl⟩

/-! ### The mutexes -/

/-- A call of one of the functions that hold a static mutex. -/
inductive LockedCall
  | bgetBlock (store : BlockStore) (bno : Nat)
  | diskRead (partInfo : Nat → PartInfo) (drive : Drive) (minor beginSec : Int) (buf : Region)
      (count : Int)
  | diskWrite (partInfo : Nat → PartInfo) (drive : Drive) (minor beginSec : Int) (buf : Region)
      (count : Int)

namespace LockedCall

/-- Whether the call has failed, and its own calls. -/
def returns (m s fuel : Nat) : LockedCall → Option (Bool × List Op)
  | .bgetBlock store bno => some (false, store.bgetOps m bno)
  | .diskRead partInfo drive minor beginSec buf count =>
      (MangoOS.diskRead m s partInfo drive fuel minor beginSec buf count).map
        fun transfer => (decide (transfer.result < 0), transfer.ops)
  | .diskWrite partInfo drive minor beginSec buf count =>
      (MangoOS.diskWrite m s partInfo drive fuel minor beginSec buf count).map
        fun transfer => (decide (transfer.result < 0), transfer.ops)

/-- The partition is there and the drive reports no error for any sector. -/
def Undisturbed (partInfo : Nat → PartInfo) (drive : Drive) (minor count : Int) : Prop :=
  (partInfo (minor % 16).toNat).count ≠ 0 ∧ ∀ i, i < count.toNat → NoError (drive.status i)

/-- No full bucket holds the block, and no transfer meets an error. -/
def Clean : LockedCall → Prop
  | .bgetBlock store bno =>
      ¬ (100 ≤ (store.heads (hashBh bno)).size ∧
        ∃ bb, bb ∈ (store.heads (hashBh bno)).nodes ∧ store.Valid bno bb)
  | .diskRead partInfo drive minor _ _ count => Undisturbed partInfo drive minor count
  | .diskWrite partInfo drive minor _ _ count => Undisturbed partInfo drive minor count

end LockedCall

/-- Some other task can get the mutex although `t` does not call `mutex_unlock` any more. -/
def Acquirable (boot : Boot) (m t : Nat) (k : Kernel) (calls : Calls) : Prop :=
  ∃ u later callsLater, u ≠ t ∧ Passes boot m t k calls [] later callsLater ∧
    later.current = u ∧ (later.mutex m).owner = some u

/-- The task holds the mutex as often as before, and if the call has failed and the task
did not hold it before, then others can get it. -/
def LocksReleased (boot : Boot) (m t : Nat) (k after : Kernel) (callsAfter : Calls)
    (failed : Bool) : Prop :=
  (after.mutex m).heldBy t = (k.mutex m).heldBy t ∧
    (failed = true → (k.mutex m).heldBy t = 0 → Acquirable boot m t after callsAfter)

variable {boot : Boot} {t : Nat} {k after : Kernel} {calls callsAfter : Calls} {ops : List Op}
variable {failed : Bool}

/-- One lock, followed by an unlock exactly if the call is clean and succeeds. -/
structure OneLock (m : Nat) (ops : List Op) (failed : Bool) (clean : Prop) : Prop where
  unlocksOwn : UnlocksOwn m ops
  locks : ops.count (.mutexLock m) = 1
  whenClean : clean → failed = false ∧ ops.count (.mutexUnlock m) = 1
  whenUnclean : ¬ clean → ops.count (.mutexUnlock m) = 0

theorem bgetOps_oneLock (store : BlockStore) (m bno : Nat) :
    OneLock m (store.bgetOps m bno) false (LockedCall.Clean (.bgetBlock store bno)) := by
  have single : UnlocksOwn m [.mutexLock m] := unlocksOwn_lock (by simp)
  have double : UnlocksOwn m [.mutexLock m, .mutexUnlock m] := unlocksOwn_lock (by simp)
  unfold BlockStore.bgetOps LockedCall.Clean
  by_cases full : (store.heads (hashBh bno)).size ≥ 100
  · rw [if_pos full]
    cases found : store.bgetFound bno with
    | inl bb =>
        obtain ⟨member, valid⟩ := BlockStore.bgetSearch_hit found
        refine ⟨single, by simp, ?_, fun _ => by simp⟩
        intro clean
        exact False.elim (clean ⟨full, bb, member, valid⟩)
    | inr oldest =>
        have none := (BlockStore.bgetSearch_miss found).2.2
        refine ⟨double, by simp, fun _ => ⟨rfl, by simp⟩, ?_⟩
        intro unclean
        exact False.elim (unclean fun ⟨_, bb, member, valid⟩ => none bb member valid)
  · rw [if_neg full]
    refine ⟨double, by simp, fun _ => ⟨rfl, by simp⟩, ?_⟩
    intro unclean
    exact False.elim (unclean fun both => full both.1)

theorem bgetBlock_held (store : BlockStore) (m bno : Nat) :
    ((store.bgetBlock bno).2.held : Int) = store.held +
      (store.bgetOps m bno).count (.mutexLock m) -
      (store.bgetOps m bno).count (.mutexUnlock m) := by
  unfold BlockStore.bgetOps
  by_cases full : (store.heads (hashBh bno)).size ≥ 100
  · rw [if_pos full]
    cases found : store.bgetFound bno with
    | inl bb => simp [BlockStore.bgetBlock, full, found, BlockStore.stamp, BlockStore.setBuffer]
    | inr oldest =>
        simp [BlockStore.bgetBlock, full, found, BlockStore.stamp, BlockStore.setBuffer]
  · rw [if_neg full]
    simp [BlockStore.bgetBlock, full, BlockStore.stamp, BlockStore.setBuffer, BlockStore.setHead]

theorem diskTransfer_oneLock {partInfo : Nat → PartInfo} {drive : Drive}
    {minor beginSec count : Int} {cmd : Nat} {before behind : Nat → Region → Region}
    {data : Region} {transfer : Transfer}
    (returns : diskTransfer m s partInfo minor beginSec count cmd drive.status fuel before behind
      data = some transfer) :
    OneLock m transfer.ops (decide (transfer.result < 0))
      (LockedCall.Undisturbed partInfo drive minor count) := by
  unfold diskTransfer at returns
  unfold LockedCall.Undisturbed
  by_cases absent : (partInfo (minor % 16).toNat).count = 0
  · rw [if_pos absent] at returns
    cases returns
    refine ⟨unlocksOwn_lock (by simp), by simp, ?_, fun _ => by simp⟩
    intro clean
    exact False.elim (clean.1 absent)
  · rw [if_neg absent] at returns
    cases loops : transferLoop m s drive.status fuel before behind count.toNat 0 data
        [.mutexLock m] with
    | none =>
        rw [loops] at returns
        cases returns
    | some ended =>
        obtain ⟨result, dataAfter, opsAfter⟩ := ended
        rw [loops] at returns
        cases returns
        have ends := transferLoop_ends loops
        change OneLock m opsAfter (decide (result < 0)) _
        by_cases good : ∀ i, i < count.toNat → NoError (drive.status i)
        · obtain ⟨isResult, isOps⟩ := ends.whole (by simpa using good)
          rw [isResult, isOps]
          refine ⟨?_, by simp [List.count_replicate], fun _ => ⟨decide_eq_false (by omega), ?_⟩, ?_⟩
          · rw [List.singleton_append, List.cons_append]
            exact unlocksOwn_lock (by simp [List.count_replicate])
          · simp [List.count_replicate]
          · intro unclean
            exact False.elim (unclean ⟨absent, good⟩)
        · obtain ⟨isResult, n, isOps⟩ := ends.broken (by simpa using good)
          rw [isOps]
          refine ⟨unlocksOwn_lock (by simp [List.count_replicate]),
            by simp [List.count_replicate], ?_, fun _ => by simp [List.count_replicate]⟩
          intro clean
          exact False.elim (good clean.2)

theorem LockedCall.oneLock {call : LockedCall} (returned : call.returns m s fuel = some (failed, ops)) :
    OneLock m ops failed call.Clean := by
  cases call with
  | bgetBlock store bno =>
      cases returned
      exact bgetOps_oneLock store m bno
  | diskRead partInfo drive minor beginSec buf count =>
      obtain ⟨transfer, isTransfer, same⟩ := Option.map_eq_some_iff.mp returned
      cases same
      exact diskTransfer_oneLock isTransfer
  | diskWrite partInfo drive minor beginSec buf count =>
      obtain ⟨transfer, isTransfer, same⟩ := Option.map_eq_some_iff.mp returned
      cases same
      exact diskTransfer_oneLock isTransfer

/-- The calls that give their mutex back, in every run that keeps `lock_times` within a C
`int`. -/
theorem locksReleased_iff (run : MutexRun boot m Calls.Within k calls) (begins : k.current = t)
    (call : LockedCall) (returned : call.returns m s fuel = some (failed, ops))
    (passes : Passes boot m t k calls ops after callsAfter) (ends : after.current = t) :
    LocksReleased boot m t k after callsAfter failed ↔ call.Clean := by
  have oneLock := call.oneLock returned
  have held := passes.heldBy run oneLock.unlocksOwn begins ends
  rw [oneLock.locks] at held
  constructor
  · intro released
    by_contra unclean
    rw [oneLock.whenUnclean unclean, released.1] at held
    omega
  · intro clean
    obtain ⟨succeeded, unlocks⟩ := oneLock.whenClean clean
    rw [unlocks] at held
    refine ⟨by omega, ?_⟩
    intro isFailed
    rw [succeeded] at isFailed
    cases isFailed

/-! ### A drive that reports an error -/

/-- Each sector ends with the error bit. -/
def failingDrive : Drive where
  status := fun _ _ => 1#8
  sector := fun _ _ => 0#8
  received := fun _ => 0#8

/-- Reading eight sectors of a partition behind the boot sector. -/
def failingRead : LockedCall :=
  .diskRead (fun _ => { beginSec := 63, count := 1000 }) failingDrive 1 0 (fun _ => 0#8) 8

theorem failingRead_returns :
    failingRead.returns 0 0 1 = some (true, [.mutexLock 0, .semWait 0]) := rfl

/-- Nothing but the two mutex calls enters the account while nobody waits. -/
theorem record_quiet {calls : Calls} {op : Op} (k after : Kernel) (notLock : op ≠ .mutexLock m)
    (notUnlock : op ≠ .mutexUnlock m) (waiting : calls.waiting = [])
    (resumed : calls.resumed = []) : calls.record m k op after = calls := by
  unfold Calls.record
  rw [Calls.enter, if_neg notLock, if_neg (fun both => notUnlock both.1), Calls.dispatch_idle]
  · cases calls
    simp_all [Calls.wake, Kernel.suspended, Kernel.awakened]
  · simp [Calls.wake, waiting, resumed, Kernel.awakened]

/-- The init task calls `disk_read` with the mutex free, and the interrupt comes before it
waits for it. -/
theorem failingRead_passes :
    ∃ k after callsAfter, MutexRun Boot.zeroed 0 Calls.Within k Calls.none ∧ k.current = 1 ∧
      (k.mutex 0).heldBy 1 = 0 ∧ after.current = 1 ∧
      Passes Boot.zeroed 0 1 k Calls.none [.mutexLock 0, .semWait 0] after callsAfter := by
  obtain ⟨booted, run, current, alone, quiet, count⟩ := Boot.zeroed_ready
  obtain ⟨place, tasks, scheduled⟩ := run.scheduled
  have start : MutexRun Boot.zeroed 0 Calls.Within (booted.mutexInit 0) Calls.none :=
    MutexRun.start run alone
  have free : ((booted.mutexInit 0).mutex 0).lockTimes = 0 := by
    simp [Kernel.mutexInit, Kernel.withMutex]
  have notHeld : ((booted.mutexInit 0).mutex 0).heldBy 1 = 0 := by
    simp [Kernel.mutexInit, Kernel.withMutex, Mutex.heldBy]
  have awake : ((booted.mutexInit 0).task (booted.mutexInit 0).current).state ≠ .waiting :=
    scheduled.current_awake
  have unawaited : queueEmpty (booted.mutexInit 0).links (.head (.sem 0)) = true := by
    rw [Ring.nil_iff] at quiet
    simp [queueEmpty, queueInit, Kernel.mutexInit, Kernel.withMutex, quiet.2]
  have noCount : ((booted.mutexInit 0).sem 0).count = 0 := count
  generalize isStart : booted.mutexInit 0 = k at *
  have isInit : k.current = 1 := by
    rw [← isStart]
    exact current
  have notIdle : k.current ≠ Boot.zeroed.idle := by
    rw [isInit]
    exact Nat.one_ne_zero
  obtain ⟨locked, recorded⟩ := lock_alone Calls.none awake (Or.inl free) rfl rfl
  have within : (Calls.none.returns k.current).Within := by
    intro t
    by_cases same : t = k.current
    · subst same
      simp [Calls.returns, Calls.none]
    · simp [Calls.returns, Calls.none, same]
  have first := Passes.own (Passes.start k Calls.none) (.mutexLock 0) isInit notIdle locked
    (by rw [recorded]; exact within)
  rw [recorded] at first
  generalize isLocked : k.withMutex 0 _ = k1 at first
  have notified : k1.step (.semNotify 0) =
      some (k1.withSem 0 (fun sem => { sem with count := int32 (sem.count + 1) })) := by
    rw [← isLocked]
    exact if_pos unawaited
  have second := Passes.aside first (.semNotify 0) (Or.inr ⟨by simp, by simp⟩) trivial notified
    (by rw [record_quiet _ _ (by simp) (by simp) rfl rfl]; exact within)
  rw [record_quiet _ _ (by simp) (by simp) rfl rfl] at second
  generalize isNotified : k1.withSem 0 _ = k2 at second
  have current2 : k2.current = k.current := by
    rw [← isNotified, ← isLocked]
    rfl
  have one : (k2.sem 0).count = 1 := by
    rw [← isNotified, ← isLocked, Kernel.withSem_sem, if_pos rfl]
    change int32 ((k.sem 0).count + 1) = 1
    rw [noCount]
    exact int32_of_range (by decide) (by decide)
  have waited : k2.step (.semWait 0) =
      some (k2.withSem 0 (fun sem => { sem with count := int32 (sem.count - 1) })) :=
    if_pos (by rw [one]; decide)
  have third := Passes.own second (.semWait 0) (current2.trans isInit)
    (by change k2.current ≠ _; rw [current2]; exact notIdle) waited
    (by rw [record_quiet _ _ (by simp) (by simp) rfl rfl]; exact within)
  refine ⟨k, _, _, start, isInit, notHeld, ?_, third⟩
  exact current2.trans isInit

/-- After the failed read the init task keeps the mutex of the disk, and no other task can
get it any more. -/
theorem diskRead_keepsLock :
    ∃ k after callsAfter, MutexRun Boot.zeroed 0 Calls.Within k Calls.none ∧ k.current = 1 ∧
      (k.mutex 0).heldBy 1 = 0 ∧
      failingRead.returns 0 0 1 = some (true, [.mutexLock 0, .semWait 0]) ∧
      Passes Boot.zeroed 0 1 k Calls.none [.mutexLock 0, .semWait 0] after callsAfter ∧
      after.current = 1 ∧ (after.mutex 0).heldBy 1 = 1 ∧
      ¬ Acquirable Boot.zeroed 0 1 after callsAfter ∧
      ¬ LocksReleased Boot.zeroed 0 1 k after callsAfter true := by
  obtain ⟨k, after, callsAfter, run, begins, notHeld, ends, passes⟩ := failingRead_passes
  have ownUnlocks : UnlocksOwn 0 [.mutexLock 0, .semWait 0] := unlocksOwn_lock (by decide)
  have held := passes.heldBy run ownUnlocks begins ends
  rw [notHeld] at held
  have once : (after.mutex 0).heldBy 1 = 1 := held
  have owner : (after.mutex 0).owner = some 1 := by
    by_contra other
    unfold Mutex.heldBy at once
    rw [if_neg other] at once
    cases once
  refine ⟨k, after, callsAfter, run, begins, notHeld, failingRead_returns, passes, ends, once,
    ?_, ?_⟩
  · rintro ⟨u, later, callsLater, other, waits, _, isOwner⟩
    rw [waits.owner_stays (passes.level run ownUnlocks).1 owner] at isOwner
    cases isOwner
    exact other rfl
  · intro released
    rw [LocksReleased, once, notHeld] at released
    cases released.1

theorem locksReleased_failing :
    ∃ k after callsAfter, (LocksReleased Boot.zeroed 0 1 k after callsAfter true ↔
      failingRead.Clean) := by
  obtain ⟨k, after, callsAfter, run, begins, _, ends, passes⟩ := failingRead_passes
  exact ⟨k, after, callsAfter,
    locksReleased_iff run begins failingRead failingRead_returns passes ends⟩

end MangoOS
