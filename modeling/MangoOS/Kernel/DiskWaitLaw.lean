/-
Whether each `sem_wait` of the disk driver comes back with an interrupt of its own command.

Where no interrupt is left over, it does: the task in the loop owns the mutex, and of the
interrupts of its command those that it has not waited for are pending or counted.  A drive
tells of a sector only when the one before has gone through the port, so none is left when
the loop ends.  But `disk_init` polls the sector of IDENTIFY and leaves its interrupt.
-/

import MangoOS.Kernel.DiskWait

namespace MangoOS

open Intrusive

/-- The interrupts that a transfer has waited for beyond the sectors it moved. -/
def DiskPoint.taken : DiskPoint → (write : Bool) → Nat
  | .granted, false => 1
  | _, _ => 0

/-- The sectors it moved beyond the interrupts it has waited for. -/
def DiskPoint.owed : DiskPoint → (write : Bool) → Nat
  | .due, true => 1
  | _, _ => 0

/-- A transfer and its command; `waiting` is the queue of the semaphore. -/
structure InTransfer (line : DiskLine) (credit waiting : List Nat) (t : Nat) (point : DiskPoint)
    (command : Nat) (write : Bool) (left : Nat) : Prop where
  last : command = line.issued
  same : line.write = write
  ownPending : ∀ c, c ∈ line.pending → c = command
  ownCredit : ∀ c, c ∈ credit → c = command
  waiter : waiting = [] ∨ waiting = [t] ∧ point = .granted ∧ credit = []
  balance : line.pending.length + credit.length + line.moved + point.taken write =
    line.raised + waiting.length + point.owed write
  told : line.raised ≤ line.moved + if write then 0 else 1
  accepted : line.raised ≤ line.accepted
  rest : write = false → line.accepted ≤ line.moved + left

/-- No interrupt is there and none can come. -/
structure Silent (line : DiskLine) (credit waiting : List Nat) : Prop where
  pending : line.pending = []
  credit : credit = []
  waiting : waiting = []
  told : ¬ line.CanRaise

variable {line : DiskLine} {credit waiting : List Nat} {t command left : Nat} {write : Bool}
variable {point : DiskPoint}

theorem acceptedSectors_le {count : Int} (positive : 1 ≤ count) :
    acceptedSectors count ≤ count.toNat := by
  unfold acceptedSectors
  split_ifs <;> omega

/-! ### What the drive and the transfer do to the account -/

namespace InTransfer

theorem sendCmd (silent : Silent line credit waiting) {accepted : Nat}
    (enough : write = false → accepted ≤ left) :
    InTransfer (line.sendCmd write accepted) credit waiting t .head (line.issued + 1) write
      left where
  last := rfl
  same := rfl
  ownPending := by
    intro c member
    change c ∈ line.pending at member
    rw [silent.pending] at member
    cases member
  ownCredit := by
    intro c member
    rw [silent.credit] at member
    cases member
  waiter := Or.inl silent.waiting
  balance := by
    change line.pending.length + _ + 0 + 0 = 0 + _ + 0
    rw [silent.pending, silent.credit, silent.waiting]
    rfl
  told := Nat.zero_le _
  accepted := Nat.zero_le _
  rest := by
    intro isRead
    change accepted ≤ 0 + left
    rw [Nat.zero_add]
    exact enough isRead

theorem raise (transfer : InTransfer line credit waiting t point command write left)
    (can : line.CanRaise) :
    InTransfer line.raise credit waiting t point command write left where
  last := transfer.last
  same := transfer.same
  ownPending := by
    intro c member
    rcases List.mem_append.mp member with old | new
    · exact transfer.ownPending c old
    · rw [List.mem_singleton.mp new]
      exact transfer.last.symm
  ownCredit := transfer.ownCredit
  waiter := transfer.waiter
  balance := by
    have balance := transfer.balance
    change (line.pending ++ [line.issued]).length + _ + line.moved + _ = line.raised + 1 + _ + _
    rw [List.length_append, List.length_singleton]
    omega
  told := by
    have below := can.2
    rw [transfer.same] at below
    exact below
  accepted := can.1
  rest := transfer.rest

/-- Only a task behind `sem_wait` is suspended in it. -/
theorem alone (transfer : InTransfer line credit waiting t point command write left)
    (elsewhere : point ≠ .granted) : waiting = [] := by
  rcases transfer.waiter with none | ⟨_, atWait, _⟩
  · exact none
  · exact False.elim (elsewhere atWait)

theorem put (transfer : InTransfer line credit waiting t .head command write left) :
    InTransfer (if write then line.moveSector else line) credit waiting t .due command write
      left := by
  have waiter := transfer.alone (by decide)
  have balance := transfer.balance
  cases write with
  | false =>
      rw [if_neg Bool.false_ne_true]
      exact { transfer with waiter := Or.inl waiter, balance := balance }
  | true =>
      rw [if_pos rfl]
      refine
        { transfer with
          waiter := Or.inl waiter
          balance := ?_
          told := Nat.le_succ_of_le transfer.told
          rest := fun isRead => by cases isRead }
      change line.pending.length + _ + (line.moved + 1) + 0 = line.raised + _ + 1
      change _ + _ + line.moved + 0 = line.raised + _ + 0 at balance
      omega

theorem take {c : Nat} {credit : List Nat}
    (transfer : InTransfer line (c :: credit) waiting t .due command write left) :
    c = command ∧ InTransfer line credit waiting t .granted command write left := by
  refine ⟨transfer.ownCredit c (List.mem_cons_self ..), ?_⟩
  refine
    { transfer with
      ownCredit := fun d member => transfer.ownCredit d (List.mem_cons_of_mem _ member)
      waiter := Or.inl (transfer.alone (by decide))
      balance := ?_ }
  have balance := transfer.balance
  rw [List.length_cons] at balance
  cases write with
  | false =>
      change _ + _ + line.moved + 1 = _ + _ + 0
      change _ + _ + line.moved + 0 = _ + _ + 0 at balance
      omega
  | true =>
      change _ + _ + line.moved + 0 = _ + _ + 0
      change _ + _ + line.moved + 0 = _ + _ + 1 at balance
      omega

theorem suspend (transfer : InTransfer line [] [] t .due command write left) :
    InTransfer line [] [t] t .granted command write left := by
  refine { transfer with waiter := Or.inr ⟨rfl, rfl, rfl⟩, balance := ?_ }
  have balance := transfer.balance
  cases write with
  | false =>
      change _ + 0 + line.moved + 1 = line.raised + 1 + 0
      change _ + 0 + line.moved + 0 = line.raised + 0 + 0 at balance
      omega
  | true =>
      change _ + 0 + line.moved + 0 = line.raised + 1 + 0
      change _ + 0 + line.moved + 0 = line.raised + 0 + 1 at balance
      omega

/-- The handler takes the oldest interrupt, which is the command's. -/
private theorem first {c : Nat} {rest : List Nat}
    (transfer : InTransfer line credit waiting t point command write left)
    (oldest : line.pending = c :: rest) : c = command ∧ ∀ d, d ∈ rest → d = command := by
  constructor
  · apply transfer.ownPending
    rw [oldest]
    exact List.mem_cons_self ..
  · intro d member
    apply transfer.ownPending
    rw [oldest]
    exact List.mem_cons_of_mem _ member

theorem count {c : Nat} {rest : List Nat}
    (transfer : InTransfer line credit [] t point command write left)
    (oldest : line.pending = c :: rest) :
    InTransfer { line with pending := rest } (credit ++ [c]) [] t point command write left := by
  obtain ⟨own, others⟩ := transfer.first oldest
  refine
    { transfer with
      ownPending := others
      ownCredit := ?_
      waiter := Or.inl rfl
      balance := ?_ }
  · intro d member
    rcases List.mem_append.mp member with old | new
    · exact transfer.ownCredit d old
    · rw [List.mem_singleton.mp new]
      exact own
  · have balance := transfer.balance
    rw [oldest, List.length_cons] at balance
    change rest.length + _ + line.moved + _ = line.raised + _ + _
    rw [List.length_append, List.length_singleton]
    omega

/-- A handler that wakes a task wakes the one in the loop. -/
theorem wake {c u : Nat} {rest others : List Nat}
    (transfer : InTransfer line credit (u :: others) t point command write left)
    (oldest : line.pending = c :: rest) :
    u = t ∧ c = command ∧
      InTransfer { line with pending := rest } credit others t point command write left := by
  rcases transfer.waiter with none | ⟨isWaiting, atWait, noCredit⟩
  · cases none
  · obtain ⟨own, others⟩ := transfer.first oldest
    rw [List.cons.injEq] at isWaiting
    obtain ⟨isTask, alone⟩ := isWaiting
    subst alone
    refine ⟨isTask, own, ?_⟩
    refine { transfer with ownPending := others, waiter := Or.inl rfl, balance := ?_ }
    have balance := transfer.balance
    rw [oldest, List.length_cons, List.length_singleton] at balance
    change rest.length + _ + line.moved + _ = line.raised + 0 + _
    omega

theorem next (transfer : InTransfer line credit [] t .granted command write (left + 1)) :
    InTransfer (if write then line else line.moveSector) credit [] t .head command write
      left := by
  have balance := transfer.balance
  cases write with
  | true =>
      rw [if_pos rfl]
      exact
        { transfer with
          waiter := Or.inl rfl
          balance := balance
          rest := fun isRead => by cases isRead }
  | false =>
      rw [if_neg Bool.false_ne_true]
      refine
        { transfer with
          waiter := Or.inl rfl
          balance := ?_
          told := Nat.le_succ_of_le transfer.told
          rest := fun isRead => ?_ }
      · change line.pending.length + _ + (line.moved + 1) + 0 = line.raised + _ + 0
        change _ + _ + line.moved + 1 = line.raised + _ + 0 at balance
        omega
      · have rest := transfer.rest isRead
        change line.accepted ≤ line.moved + 1 + left
        omega

/-- Where every interrupt that can come has been waited for, there is none. -/
private theorem silent (transfer : InTransfer line credit [] t point command write left)
    (none : line.raised + point.owed write ≤ line.moved + point.taken write)
    (last : line.accepted ≤ line.raised ∨ line.moved + (if write then 0 else 1) ≤ line.raised) :
    Silent line credit [] := by
  have balance := transfer.balance
  rw [List.length_nil] at balance
  constructor
  · exact List.length_eq_zero_iff.mp (by omega)
  · exact List.length_eq_zero_iff.mp (by omega)
  · rfl
  · rintro ⟨more, further⟩
    rw [transfer.same] at further
    omega

/-- The drive is at most one sector ahead of the transfer. -/
theorem credit_le (transfer : InTransfer line credit waiting t point command write left) :
    credit.length ≤ 3 := by
  have balance := transfer.balance
  have told := transfer.told
  have ahead : (if write then 0 else 1) ≤ 1 := by
    split <;> omega
  have owed : point.owed write ≤ 1 := by
    unfold DiskPoint.owed
    split <;> omega
  have waiter : waiting.length ≤ 1 := by
    rcases transfer.waiter with none | ⟨isWaiting, _⟩
    · rw [none]
      exact Nat.zero_le 1
    · rw [isWaiting]
      exact Nat.le_refl 1
  omega

theorem finish (transfer : InTransfer line credit [] t .head command write 0) :
    Silent line credit [] := by
  have balance := transfer.balance
  have accepted := transfer.accepted
  change _ + _ + line.moved + 0 = line.raised + 0 + 0 at balance
  cases write with
  | false =>
      have rest := transfer.rest rfl
      apply transfer.silent
      · change line.raised + 0 ≤ line.moved + 0
        omega
      · left
        omega
  | true =>
      have told := transfer.told
      change line.raised ≤ line.moved + 0 at told
      apply transfer.silent
      · exact told
      · right
        change line.moved + 0 ≤ line.raised
        omega

/-- The drive has told of no sector behind the one that failed. -/
theorem fail (transfer : InTransfer line credit [] t .granted command write left) :
    Silent line credit [] := by
  have balance := transfer.balance
  have told := transfer.told
  cases write with
  | false =>
      change _ + _ + line.moved + 1 = line.raised + 0 + 0 at balance
      apply transfer.silent
      · exact told
      · right
        change line.moved + 1 ≤ line.raised
        omega
  | true =>
      change _ + _ + line.moved + 0 = line.raised + 0 + 0 at balance
      apply transfer.silent
      · exact told
      · right
        change line.moved + 0 ≤ line.raised
        omega

end InTransfer

/-! ### The mutex -/

/-- Whoever is inside the driver owns the mutex or is suspended in its `mutex_lock`. -/
structure DiskEntered (mutex : Mutex) (queue : List Nat) (pc : Option Nat → DiskPc) : Prop where
  held : ∀ t, mutex.owner = some t → 0 < mutex.lockTimes ∧ mutex.lockTimes < 2147483648
  inside : ∀ t, pc (some t) ≠ .out →
    mutex.owner = some t ∨ t ∈ queue ∧ ∃ write count, pc (some t) = .locked write count

def DiskPc.Looping : DiskPc → Prop
  | .loop _ _ _ _ => True
  | _ => False

/-- In `load_disk_info` or `load_part_info`. -/
def DiskPc.Probing : DiskPc → Prop
  | .diskInfo => True
  | .partInfo => True
  | .probe _ _ => True
  | _ => False

variable {k kernelAfter : Kernel} {place placeAfter : Placement Queue Nat} {tasks : List Nat}
variable {idle m s : Nat} {mutex : Mutex} {queue : List Nat} {pc : Option Nat → DiskPc}
variable {q : DiskPc}

private theorem pc_other (t : Nat) {u : Nat} (different : u ≠ t) :
    Function.update pc (some t) q (some u) = pc (some u) :=
  Function.update_of_ne (fun same => different (Option.some.inj same)) _ _

private theorem pc_self (t : Nat) : Function.update pc (some t) q (some t) = q :=
  Function.update_self ..

theorem DiskEntered.owner (entered : DiskEntered mutex queue pc) (notQueued : t ∉ queue)
    (inside : pc (some t) ≠ .out) : mutex.owner = some t := by
  rcases entered.inside t inside with owner | ⟨queued, _⟩
  · exact owner
  · exact False.elim (notQueued queued)

theorem DiskEntered.looping (entered : DiskEntered mutex queue pc) (loops : (pc (some t)).Looping) :
    mutex.owner = some t := by
  have inside : pc (some t) ≠ .out := by
    intro out
    rw [out] at loops
    exact loops
  rcases entered.inside t inside with owner | ⟨_, write, count, locked⟩
  · exact owner
  · rw [locked] at loops
    exact False.elim loops

/-- While one task owns the mutex no other is in the loop. -/
theorem DiskEntered.others (entered : DiskEntered mutex queue pc) (owner : mutex.owner = some t) :
    ∀ u, u ≠ t → ¬ (pc (some u)).Looping := by
  intro u different loops
  have same := entered.looping loops
  rw [owner] at same
  exact different (Option.some.inj same).symm

theorem DiskEntered.advance (entered : DiskEntered mutex queue pc) (owner : mutex.owner = some t) :
    DiskEntered mutex queue (Function.update pc (some t) q) where
  held := entered.held
  inside := by
    intro u inside
    by_cases same : u = t
    · subst same
      exact Or.inl owner
    · rw [pc_other t same] at inside ⊢
      exact entered.inside u inside

theorem DiskEntered.lock (scheduled : Scheduled idle k place tasks)
    (entered : DiskEntered (k.mutex m) (place.on (.mutex m)) pc)
    (counted : (k.mutex m).lockTimes < 2147483647)
    (outcome : LockOutcome k place m kernelAfter placeAfter) (write : Bool) (count : Int) :
    DiskEntered (kernelAfter.mutex m) (placeAfter.on (.mutex m))
      (Function.update pc (some k.current) (.locked write count)) := by
  have absent : k.current ∉ place.on (.mutex m) := scheduled.current_notMem (by simp)
  cases outcome with
  | taken free =>
      rw [Kernel.withMutex_mutex, if_pos rfl]
      constructor
      · intro t _
        change 0 < int32 ((k.mutex m).lockTimes + 1) ∧ int32 ((k.mutex m).lockTimes + 1) < _
        rw [free, int32_of_range (by decide) (by decide)]
        decide
      · intro t inside
        by_cases same : t = k.current
        · exact Or.inl (congrArg some same.symm)
        · rw [pc_other _ same] at inside ⊢
          rcases entered.inside t inside with owner | queued
          · have positive := (entered.held t owner).1
            omega
          · exact Or.inr queued
  | nested held own =>
      have bounds := entered.held k.current own
      have more : int32 ((k.mutex m).lockTimes + 1) = (k.mutex m).lockTimes + 1 :=
        int32_of_range (by omega) (by omega)
      rw [Kernel.withMutex_mutex, if_pos rfl, more]
      have advanced : DiskEntered (k.mutex m) (place.on (.mutex m))
          (Function.update pc (some k.current) (.locked write count)) := entered.advance own
      constructor
      · intro t _
        change 0 < (k.mutex m).lockTimes + 1 ∧ (k.mutex m).lockTimes + 1 < _
        omega
      · exact advanced.inside
  | blocked held other next =>
      change DiskEntered (k.mutex m) ((place.move k.current (.mutex m)).on (.mutex m)) _
      rw [Placement.move_on_target _ _ _ absent]
      constructor
      · exact entered.held
      · intro t inside
        by_cases same : t = k.current
        · subst same
          exact Or.inr ⟨by simp, write, count, pc_self _⟩
        · rw [pc_other _ same] at inside ⊢
          exact (entered.inside t inside).imp_right
            fun queued => ⟨List.mem_append_left _ queued.1, queued.2⟩

theorem DiskEntered.unlock (entered : DiskEntered (k.mutex m) (place.on (.mutex m)) pc)
    (owner : (k.mutex m).owner = some k.current)
    (outcome : UnlockOutcome k place m kernelAfter placeAfter) :
    DiskEntered (kernelAfter.mutex m) (placeAfter.on (.mutex m))
      (Function.update pc (some k.current) .out) := by
  have bounds := entered.held k.current owner
  -- the caller is outside now, and nobody else owned the mutex
  have queued : ∀ t, Function.update pc (some k.current) .out (some t) ≠ .out →
      t ∈ place.on (.mutex m) ∧ ∃ write count,
        Function.update pc (some k.current) DiskPc.out (some t) = .locked write count := by
    intro t inside
    by_cases same : t = k.current
    · subst same
      exact False.elim (inside (pc_self _))
    · rw [pc_other _ same] at inside ⊢
      rcases entered.inside t inside with isOwner | queued
      · rw [owner] at isOwner
        exact False.elim (same (Option.some.inj isOwner).symm)
      · exact queued
  cases outcome with
  | notOwner other => exact False.elim (other owner)
  | nested own more =>
      have less : int32 ((k.mutex m).lockTimes - 1) = (k.mutex m).lockTimes - 1 :=
        int32_of_range (by omega) (by omega)
      rw [less] at more
      rw [Kernel.withMutex_mutex, if_pos rfl, less]
      constructor
      · intro t _
        change 0 < (k.mutex m).lockTimes - 1 ∧ (k.mutex m).lockTimes - 1 < _
        omega
      · exact fun t inside => Or.inr (queued t inside)
  | released own last alone =>
      change DiskEntered (Function.update k.mutex m { lockTimes := 0, owner := none } m) _ _
      rw [Function.update_self]
      constructor
      · intro t isOwner
        cases isOwner
      · exact fun t inside => Or.inr (queued t inside)
  | handed own last first rest waiting next =>
      change DiskEntered (Function.update k.mutex m { lockTimes := 1, owner := some first } m)
        ((place.move first .ready).on (.mutex m)) _
      rw [Function.update_self, wake_rest waiting (by simp)]
      constructor
      · intro t _
        change (0 : Int) < 1 ∧ (1 : Int) < 2147483648
        decide
      · intro t inside
        obtain ⟨member, locked⟩ := queued t inside
        rw [waiting] at member
        rcases List.mem_cons.mp member with isFirst | behind
        · exact Or.inl (congrArg some isFirst.symm)
        · exact Or.inr ⟨behind, locked⟩

/-! ### The interrupts under way -/

/-- The interrupts belong to the transfer that is in the loop, and without one there are
none. -/
structure Traffic (line : DiskLine) (credit waiting : List Nat) (pc : Option Nat → DiskPc) :
    Prop where
  loop : ∀ t point command write left, pc (some t) = .loop point command write left →
    InTransfer line credit waiting t point command write left
  still : (∀ t, ¬ (pc (some t)).Looping) → Silent line credit waiting

theorem Traffic.into (others : ∀ u, u ≠ t → ¬ (pc (some u)).Looping)
    (transfer : InTransfer line credit waiting t point command write left) :
    Traffic line credit waiting
      (Function.update pc (some t) (.loop point command write left)) where
  loop := by
    intro u point' command' write' left' isLoop
    by_cases same : u = t
    · subst same
      rw [pc_self, DiskPc.loop.injEq] at isLoop
      obtain ⟨rfl, rfl, rfl, rfl⟩ := isLoop
      exact transfer
    · rw [pc_other t same] at isLoop
      exact False.elim (others u same (by rw [isLoop]; trivial))
  still := by
    intro nobody
    exact False.elim (nobody t (by rw [pc_self]; trivial))

theorem Traffic.outOf (others : ∀ u, u ≠ t → ¬ (pc (some u)).Looping) (outside : ¬ q.Looping)
    (silent : Silent line credit waiting) :
    Traffic line credit waiting (Function.update pc (some t) q) where
  loop := by
    intro u point command write left isLoop
    by_cases same : u = t
    · subst same
      rw [pc_self] at isLoop
      exact False.elim (outside (by rw [isLoop]; trivial))
    · rw [pc_other t same] at isLoop
      exact False.elim (others u same (by rw [isLoop]; trivial))
  still := fun _ => silent

theorem Traffic.silent (traffic : Traffic line credit waiting pc)
    (others : ∀ u, u ≠ t → ¬ (pc (some u)).Looping) (outside : ¬ (pc (some t)).Looping) :
    Silent line credit waiting := by
  apply traffic.still
  intro u
  by_cases same : u = t
  · rw [same]
    exact outside
  · exact others u same

/-! ### What the steps do -/

variable {boot : Boot} {σ after : DiskSystem} {notes : DiskNotes} {count : Int}

namespace DiskSystem

theorem step_probe (stepped : σ.step boot m s .probe = some after) :
    ∃ parts, σ.pc σ.caller = (if parts then .partInfo else .diskInfo) ∧
      after = { σ.setPc (.probe parts (σ.line.issued + 1)) with
                line := σ.line.sendCmd false 1 } := by
  rw [step] at stepped
  split at stepped
  next isPc => exact ⟨false, isPc, (Option.some.inj stepped).symm⟩
  next isPc => exact ⟨true, isPc, (Option.some.inj stepped).symm⟩
  next => cases stepped

theorem step_start (stepped : σ.step boot m s .start = some after) :
    σ.started = false ∧ σ.pc none = .out ∧ σ.found = true ∧
      ∃ k, σ.kernel.kernelInit boot.idle boot.init boot.entry = some k ∧
        after = { σ with kernel := k, started := true } := by
  rw [step] at stepped
  split at stepped
  next all =>
      rw [Option.map_eq_some_iff] at stepped
      obtain ⟨k, inits, isAfter⟩ := stepped
      exact ⟨all.1, all.2.1, all.2.2, k, inits, isAfter.symm⟩
  next => cases stepped

theorem step_noPart (stepped : σ.step boot m s .noPart = some after) :
    ∃ write count, σ.pc σ.caller = .locked write count ∧ after = σ.setPc .out := by
  rw [step] at stepped
  split at stepped
  next write count isPc => exact ⟨write, count, isPc, (Option.some.inj stepped).symm⟩
  next => cases stepped

theorem step_sendCmd (stepped : σ.step boot m s .sendCmd = some after) :
    ∃ write count, σ.pc σ.caller = .locked write count ∧ σ.found = true ∧
      after = { σ.setPc (.loop .head (σ.line.issued + 1) write count.toNat) with
                waitInterupt := true
                line := σ.line.sendCmd write (acceptedSectors count) } := by
  rw [step] at stepped
  split at stepped
  next write count isPc =>
      split at stepped
      next found => exact ⟨write, count, isPc, found, (Option.some.inj stepped).symm⟩
      next => cases stepped
  next => cases stepped

theorem step_put (stepped : σ.step boot m s .put = some after) :
    ∃ command write left, σ.pc σ.caller = .loop .head command write (left + 1) ∧
      after = { σ.setPc (.loop .due command write (left + 1)) with
                line := if write then σ.line.moveSector else σ.line } := by
  rw [step] at stepped
  split at stepped
  next command write left isPc =>
      exact ⟨command, write, left, isPc, (Option.some.inj stepped).symm⟩
  next => cases stepped

theorem step_semWait (stepped : σ.step boot m s .semWait = some after) :
    ∃ command write left k, σ.pc σ.caller = .loop .due command write left ∧
      (if σ.started then σ.kernel.semWait s else some σ.kernel) = some k ∧
      after = { σ.setPc (.loop .granted command write left) with kernel := k } := by
  rw [step] at stepped
  split at stepped
  next command write left isPc =>
      rw [Option.map_eq_some_iff] at stepped
      obtain ⟨k, waits, isAfter⟩ := stepped
      exact ⟨command, write, left, k, isPc, waits, isAfter.symm⟩
  next => cases stepped

theorem step_ready (stepped : σ.step boot m s .ready = some after) :
    σ.line.Ready ∧
      ((∃ command write left, σ.pc σ.caller = .loop .granted command write (left + 1) ∧
        after = { σ.setPc (.loop .head command write left) with
                  line := if write then σ.line else σ.line.moveSector }) ∨
      (∃ command, σ.pc σ.caller = .probe false command ∧
        after = { σ.setPc .partInfo with found := true, line := σ.line.moveSector }) ∨
      ∃ command, σ.pc σ.caller = .probe true command ∧
        after = { σ.setPc .out with line := σ.line.moveSector }) := by
  rw [step] at stepped
  split at stepped
  next isReady =>
      refine ⟨isReady, ?_⟩
      split at stepped
      next command write left isPc =>
          exact Or.inl ⟨command, write, left, isPc, (Option.some.inj stepped).symm⟩
      next command isPc =>
          exact Or.inr (Or.inl ⟨command, isPc, (Option.some.inj stepped).symm⟩)
      next command isPc =>
          exact Or.inr (Or.inr ⟨command, isPc, (Option.some.inj stepped).symm⟩)
      next => cases stepped
  next => cases stepped

theorem step_fail (stepped : σ.step boot m s .fail = some after) :
    ((∃ command write left, σ.pc σ.caller = .loop .granted command write left) ∨
      ∃ parts command, σ.pc σ.caller = .probe parts command) ∧ after = σ.setPc .out := by
  rw [step] at stepped
  split at stepped
  next command write left isPc =>
      exact ⟨Or.inl ⟨command, write, left, isPc⟩, (Option.some.inj stepped).symm⟩
  next parts command isPc =>
      exact ⟨Or.inr ⟨parts, command, isPc⟩, (Option.some.inj stepped).symm⟩
  next => cases stepped

theorem step_finish (stepped : σ.step boot m s .finish = some after) :
    ∃ command write k, σ.pc σ.caller = .loop .head command write 0 ∧
      (if σ.started then σ.kernel.mutexUnlock m else σ.kernel.bootUnlock m) = some k ∧
      after = { σ.setPc .out with kernel := k } := by
  rw [step] at stepped
  split at stepped
  next command write isPc =>
      rw [Option.map_eq_some_iff] at stepped
      obtain ⟨k, unlocks, isAfter⟩ := stepped
      exact ⟨command, write, k, isPc, unlocks, isAfter.symm⟩
  next => cases stepped

theorem step_lock {write : Bool} (stepped : σ.step boot m s (.lock write count) = some after) :
    σ.pc σ.caller = .out ∧
      ∃ k, (if σ.started then σ.kernel.mutexLock m else σ.kernel.bootLock m) = some k ∧
        after = { σ.setPc (.locked write count) with kernel := k } := by
  rw [step] at stepped
  split at stepped
  next isPc =>
      rw [Option.map_eq_some_iff] at stepped
      obtain ⟨k, locks, isAfter⟩ := stepped
      exact ⟨isPc, k, locks, isAfter.symm⟩
  next => cases stepped

theorem step_enable {on : Bool} (stepped : σ.step boot m s (.enable on) = some after) :
    σ.pc σ.caller = .out ∧ (on = true → σ.found = true) ∧ after = { σ with enabled := on } := by
  rw [step] at stepped
  split at stepped
  next both => exact ⟨both.1, both.2, (Option.some.inj stepped).symm⟩
  next => cases stepped

theorem step_other {op : Op} (stepped : σ.step boot m s (.other op) = some after) :
    σ.started = true ∧ ¬ Driver m s op ∧
      ∃ k, σ.kernel.step op = some k ∧ after = { σ with kernel := k } := by
  rw [step] at stepped
  split at stepped
  next both =>
      rw [Option.map_eq_some_iff] at stepped
      obtain ⟨k, runs, isAfter⟩ := stepped
      exact ⟨both.1, both.2, k, runs, isAfter.symm⟩
  next => cases stepped

theorem step_raise (stepped : σ.step boot m s .raise = some after) :
    σ.line.CanRaise ∧ after = { σ with line := σ.line.raise } := by
  rw [step] at stepped
  split at stepped
  next can => exact ⟨can, (Option.some.inj stepped).symm⟩
  next => cases stepped

theorem step_handle (stepped : σ.step boot m s .handle = some after) :
    ∃ command rest k, σ.line.pending = command :: rest ∧ σ.started = true ∧
      (if σ.waitInterupt && σ.started then σ.kernel.semNotify s else some σ.kernel) = some k ∧
      after = { σ with kernel := k, line := { σ.line with pending := rest } } := by
  rw [step] at stepped
  split at stepped
  next => cases stepped
  next command rest oldest =>
      split at stepped
      next both =>
          rw [Option.map_eq_some_iff] at stepped
          obtain ⟨k, notifies, isAfter⟩ := stepped
          exact ⟨command, rest, k, oldest, (Bool.and_eq_true_iff.mp both).1, notifies,
            isAfter.symm⟩
      next => cases stepped

end DiskSystem

namespace DiskNotes

theorem Own.issue (own : notes.Own) (count : (σ.kernel.sem s).count = 0)
    (pending : σ.line.pending = []) : (notes.issue s σ).Own := by
  refine ⟨?_, own.2⟩
  intro found member
  rcases List.mem_append.mp member with old | new
  · exact own.1 found old
  · rw [List.mem_singleton.mp new, count, pending]

theorem Own.release (own : notes.Own) {credit : List Nat} (command : Nat) :
    Own { notes with credit := credit,
                     released := notes.released ++ [(some command, some command)] } := by
  refine ⟨own.1, ?_⟩
  intro pair member
  rcases List.mem_append.mp member with old | new
  · exact own.2 pair old
  · exact ⟨command, List.mem_singleton.mp new⟩

end DiskNotes

/-! ### While tasks run -/

structure Served (boot : Boot) (m s : Nat) (σ : DiskSystem) (notes : DiskNotes)
    (place : Placement Queue Nat) (tasks : List Nat) : Prop where
  started : σ.started = true
  scheduled : Scheduled boot.idle σ.kernel place tasks
  count : (σ.kernel.sem s).count = notes.credit.length
  entered : DiskEntered (σ.kernel.mutex m) (place.on (.mutex m)) σ.pc
  traffic : Traffic σ.line notes.credit (place.on (.sem s)) σ.pc
  expecting : ∀ t, (σ.pc (some t)).Looping → σ.waitInterupt = true
  probes : ∀ t, ¬ (σ.pc (some t)).Probing
  own : notes.Own

theorem Kernel.firstWaiter_eq (scheduled : Scheduled idle k place tasks) :
    k.firstWaiter s = (place.on (.sem s)).head? := by
  rw [Kernel.firstWaiter, scheduled.rep.first_eq]
  cases waiting : place.on (.sem s) with
  | nil => rw [if_pos ((scheduled.rep.empty_iff (.sem s)).mpr waiting), List.head?_nil]
  | cons first rest =>
      have notEmpty : ¬ queueEmpty k.links (.head (.sem s)) = true := by
        rw [scheduled.rep.empty_iff (.sem s), waiting]
        exact List.cons_ne_nil first rest
      rw [if_neg notEmpty]
      rfl

namespace Served

variable (served : Served boot m s σ notes place tasks)
include served

theorem caller_eq : σ.caller = some σ.kernel.current := if_pos served.started

theorem setPc_pc (q : DiskPc) :
    (σ.setPc q).pc = Function.update σ.pc (some σ.kernel.current) q := by
  unfold DiskSystem.setPc
  rw [served.caller_eq]

theorem absent : σ.kernel.current ∉ place.on (.sem s) :=
  served.scheduled.current_notMem (by simp)

/-- A task that runs inside the driver owns the mutex. -/
theorem owner (inside : σ.pc σ.caller ≠ .out) :
    (σ.kernel.mutex m).owner = some σ.kernel.current := by
  rw [served.caller_eq] at inside
  exact served.entered.owner (served.scheduled.current_notMem (by simp)) inside

theorem transfer (isLoop : σ.pc σ.caller = .loop point command write left) :
    place.on (.sem s) = [] ∧
      InTransfer σ.line notes.credit [] σ.kernel.current point command write left := by
  rw [served.caller_eq] at isLoop
  have transfer := served.traffic.loop _ _ _ _ _ isLoop
  have alone : place.on (.sem s) = [] := by
    rcases transfer.waiter with none | ⟨isWaiting, _⟩
    · exact none
    · have absent := served.absent
      rw [isWaiting] at absent
      exact False.elim (absent (List.mem_singleton_self _))
  rw [alone] at transfer
  exact ⟨alone, transfer⟩

private theorem pc_after (noProbe : ¬ q.Probing) {wait : Bool}
    (expects : σ.waitInterupt = true → wait = true) (expecting : q.Looping → wait = true) :
    (∀ t, (Function.update σ.pc (some σ.kernel.current) q (some t)).Looping → wait = true) ∧
      ∀ t, ¬ (Function.update σ.pc (some σ.kernel.current) q (some t)).Probing := by
  constructor
  · intro t loops
    by_cases same : t = σ.kernel.current
    · subst same
      rw [pc_self] at loops
      exact expecting loops
    · rw [pc_other _ same] at loops
      exact expects (served.expecting t loops)
  · intro t
    by_cases same : t = σ.kernel.current
    · subst same
      rw [pc_self]
      exact noProbe
    · rw [pc_other _ same]
      exact served.probes t

/-- A step of the task that owns the mutex which leaves the kernel alone. -/
theorem advance (inside : σ.pc σ.caller ≠ .out) (noProbe : ¬ q.Probing)
    {wait : Bool} (expects : σ.waitInterupt = true → wait = true)
    (expecting : q.Looping → wait = true) {notesAfter : DiskNotes}
    (credit : notesAfter.credit = notes.credit) (own : notesAfter.Own)
    (traffic : (∀ u, u ≠ σ.kernel.current → ¬ (σ.pc (some u)).Looping) →
      Traffic line notes.credit (place.on (.sem s))
        (Function.update σ.pc (some σ.kernel.current) q)) :
    Served boot m s { σ.setPc q with waitInterupt := wait, line := line } notesAfter place
      tasks := by
  have owner := served.owner inside
  have pcAfter := served.setPc_pc q
  obtain ⟨looping, noProbes⟩ := served.pc_after noProbe expects expecting
  constructor
  · exact served.started
  · exact served.scheduled
  · rw [credit]
    exact served.count
  · rw [show ({ σ.setPc q with waitInterupt := wait, line := line } : DiskSystem).pc = _
      from pcAfter]
    exact served.entered.advance owner
  · rw [show ({ σ.setPc q with waitInterupt := wait, line := line } : DiskSystem).pc = _
      from pcAfter, credit]
    exact traffic (served.entered.others owner)
  · change ∀ t, ((σ.setPc q).pc (some t)).Looping → wait = true
    rw [pcAfter]
    exact looping
  · change ∀ t, ¬ ((σ.setPc q).pc (some t)).Probing
    rw [pcAfter]
    exact noProbes
  · exact own

theorem noPart (stepped : σ.step boot m s .noPart = some after) :
    Served boot m s after notes place tasks := by
  obtain ⟨write, count, isPc, isAfter⟩ := DiskSystem.step_noPart stepped
  subst isAfter
  have inside : σ.pc σ.caller ≠ .out := by
    rw [isPc]
    simp
  apply served.advance inside id id False.elim rfl served.own
  intro others
  apply Traffic.outOf others id
  apply served.traffic.silent others
  rw [← served.caller_eq, isPc]
  exact id

theorem sendCmd (careful : σ.Careful m .sendCmd)
    (stepped : σ.step boot m s .sendCmd = some after) :
    Served boot m s after (notes.record s σ .sendCmd) place tasks := by
  obtain ⟨write, count, isPc, _, isAfter⟩ := DiskSystem.step_sendCmd stepped
  subst isAfter
  have inside : σ.pc σ.caller ≠ .out := by
    rw [isPc]
    simp
  have silent : Silent σ.line notes.credit (place.on (.sem s)) := by
    apply served.traffic.silent (served.entered.others (served.owner inside))
    rw [← served.caller_eq, isPc]
    exact id
  have zero : (σ.kernel.sem s).count = 0 := by
    rw [served.count, silent.credit]
    rfl
  apply served.advance inside id (fun _ => rfl) (fun _ => rfl) (by rfl)
    (served.own.issue zero silent.pending)
  intro others
  apply Traffic.into others
  apply InTransfer.sendCmd silent
  intro isRead
  subst isRead
  exact acceptedSectors_le (careful count isPc)

theorem put (stepped : σ.step boot m s .put = some after) :
    Served boot m s after notes place tasks := by
  obtain ⟨command, write, left, isPc, isAfter⟩ := DiskSystem.step_put stepped
  subst isAfter
  have inside : σ.pc σ.caller ≠ .out := by
    rw [isPc]
    simp
  obtain ⟨alone, transfer⟩ := served.transfer isPc
  rw [served.caller_eq] at isPc
  have expects := served.expecting _ (by rw [isPc]; trivial)
  apply served.advance inside id id (fun _ => expects) rfl served.own
  intro others
  rw [alone]
  exact Traffic.into others transfer.put

theorem ready (stepped : σ.step boot m s .ready = some after) :
    Served boot m s after (notes.record s σ .ready) place tasks := by
  obtain ⟨_, isTransfer | isProbe⟩ := DiskSystem.step_ready stepped
  · obtain ⟨command, write, left, isPc, isAfter⟩ := isTransfer
    subst isAfter
    have inside : σ.pc σ.caller ≠ .out := by
      rw [isPc]
      simp
    obtain ⟨alone, transfer⟩ := served.transfer isPc
    rw [served.caller_eq] at isPc
    have expects := served.expecting _ (by rw [isPc]; trivial)
    apply served.advance inside id id (fun _ => expects) (by rfl) (by exact served.own)
    intro others
    rw [alone]
    exact Traffic.into others transfer.next
  · have probing : (σ.pc σ.caller).Probing := by
      rcases isProbe with ⟨command, isPc, _⟩ | ⟨command, isPc, _⟩
      · rw [isPc]
        trivial
      · rw [isPc]
        trivial
    rw [served.caller_eq] at probing
    exact False.elim (served.probes _ probing)

theorem fail (stepped : σ.step boot m s .fail = some after) :
    Served boot m s after notes place tasks := by
  obtain ⟨isTransfer | isProbe, isAfter⟩ := DiskSystem.step_fail stepped
  · obtain ⟨command, write, left, isPc⟩ := isTransfer
    subst isAfter
    have inside : σ.pc σ.caller ≠ .out := by
      rw [isPc]
      simp
    obtain ⟨alone, transfer⟩ := served.transfer isPc
    apply served.advance inside id id False.elim rfl served.own
    intro others
    rw [alone]
    exact Traffic.outOf others id transfer.fail
  · obtain ⟨parts, command, isPc⟩ := isProbe
    rw [served.caller_eq] at isPc
    exact False.elim (served.probes _ (by rw [isPc]; trivial))

theorem probe : σ.step boot m s .probe ≠ some after := by
  intro stepped
  obtain ⟨parts, isPc, _⟩ := DiskSystem.step_probe stepped
  rw [served.caller_eq] at isPc
  apply served.probes σ.kernel.current
  rw [isPc]
  cases parts <;> trivial

theorem raise (stepped : σ.step boot m s .raise = some after) :
    Served boot m s after notes place tasks := by
  obtain ⟨can, isAfter⟩ := DiskSystem.step_raise stepped
  subst isAfter
  refine { served with traffic := ⟨?_, ?_⟩ }
  · intro t point command write left isLoop
    exact (served.traffic.loop t point command write left isLoop).raise can
  · intro nobody
    exact False.elim ((served.traffic.still nobody).told can)

theorem other {op : Op} (permitted : σ.kernel.Permits boot.idle op)
    (stepped : σ.step boot m s (.other op) = some after) :
    ∃ placeAfter tasksAfter, Served boot m s after notes placeAfter tasksAfter := by
  obtain ⟨_, notDriver, k, runs, isAfter⟩ := DiskSystem.step_other stepped
  subst isAfter
  unfold DiskSystem.Driver at notDriver
  simp only [not_or] at notDriver
  obtain ⟨notLock, notUnlock, notWait, notNotify⟩ := notDriver
  obtain ⟨placeAfter, tasksAfter, scheduled, outcome⟩ :=
    step_outcome served.scheduled op permitted runs
  obtain ⟨mutex, queue⟩ := Outcome.keeps_mutex served.scheduled outcome notLock notUnlock
  obtain ⟨sem, waiting⟩ := Outcome.keeps_sem served.scheduled outcome notWait notNotify
  refine ⟨placeAfter, tasksAfter, { served with
    scheduled := scheduled, count := ?_, entered := ?_, traffic := ?_ }⟩
  · change (k.sem s).count = _
    rw [sem]
    exact served.count
  · change DiskEntered (k.mutex m) _ _
    rw [mutex, queue]
    exact served.entered
  · rw [waiting]
    exact served.traffic

theorem lock {write : Bool} (permitted : σ.Permits boot (.lock write count))
    (careful : σ.Careful m (.lock write count))
    (stepped : σ.step boot m s (.lock write count) = some after) :
    ∃ placeAfter tasksAfter, Served boot m s after notes placeAfter tasksAfter := by
  obtain ⟨isPc, k, locks, isAfter⟩ := DiskSystem.step_lock stepped
  subst isAfter
  rw [if_pos served.started] at locks
  rw [served.caller_eq] at isPc
  obtain ⟨placeAfter, tasksAfter, scheduled, outcome⟩ :=
    step_outcome served.scheduled (.mutexLock m) (permitted served.started) locks
  obtain ⟨sem, waiting⟩ :=
    Outcome.keeps_sem served.scheduled (s := s) outcome (by simp) (by simp)
  have pcAfter := served.setPc_pc (.locked write count)
  obtain ⟨looping, noProbes⟩ :=
    served.pc_after (q := .locked write count) id id False.elim
  refine ⟨placeAfter, tasksAfter, ?_⟩
  constructor
  · exact served.started
  · exact scheduled
  · change (k.sem s).count = _
    rw [sem]
    exact served.count
  · change DiskEntered (k.mutex m) _ (σ.setPc (.locked write count)).pc
    rw [pcAfter]
    exact served.entered.lock served.scheduled careful outcome write count
  · change Traffic σ.line _ _ (σ.setPc (.locked write count)).pc
    rw [pcAfter, waiting]
    constructor
    · intro t point command write' left isLoop
      by_cases same : t = σ.kernel.current
      · subst same
        rw [pc_self] at isLoop
        cases isLoop
      · rw [pc_other _ same] at isLoop
        exact served.traffic.loop t point command write' left isLoop
    · intro nobody
      apply served.traffic.still
      intro t loops
      by_cases same : t = σ.kernel.current
      · rw [same, isPc] at loops
        exact loops
      · have quiet := nobody t
        rw [pc_other _ same] at quiet
        exact quiet loops
  · change ∀ t, ((σ.setPc (.locked write count)).pc (some t)).Looping → _
    rw [pcAfter]
    exact looping
  · change ∀ t, ¬ ((σ.setPc (.locked write count)).pc (some t)).Probing
    rw [pcAfter]
    exact noProbes
  · exact served.own

/-- The driver's own calls on the kernel, by the task that owns the mutex. -/
theorem call (inside : σ.pc σ.caller ≠ .out) (noProbe : ¬ q.Probing)
    (expecting : q.Looping → (σ.pc (some σ.kernel.current)).Looping)
    {placeAfter : Placement Queue Nat} {tasksAfter : List Nat} {notesAfter : DiskNotes}
    (scheduled : Scheduled boot.idle k placeAfter tasksAfter)
    (count : (k.sem s).count = notesAfter.credit.length)
    (entered : DiskEntered (k.mutex m) (placeAfter.on (.mutex m))
      (Function.update σ.pc (some σ.kernel.current) q))
    (own : notesAfter.Own)
    (traffic : (∀ u, u ≠ σ.kernel.current → ¬ (σ.pc (some u)).Looping) →
      Traffic σ.line notesAfter.credit (placeAfter.on (.sem s))
        (Function.update σ.pc (some σ.kernel.current) q)) :
    Served boot m s { σ.setPc q with kernel := k } notesAfter placeAfter tasksAfter := by
  have pcAfter := served.setPc_pc q
  obtain ⟨looping, noProbes⟩ := served.pc_after noProbe id
    fun loops => served.expecting _ (expecting loops)
  constructor
  · exact served.started
  · exact scheduled
  · exact count
  · change DiskEntered _ _ (σ.setPc q).pc
    rw [pcAfter]
    exact entered
  · change Traffic _ _ _ (σ.setPc q).pc
    rw [pcAfter]
    exact traffic (served.entered.others (served.owner inside))
  · change ∀ t, ((σ.setPc q).pc (some t)).Looping → _
    rw [pcAfter]
    exact looping
  · change ∀ t, ¬ ((σ.setPc q).pc (some t)).Probing
    rw [pcAfter]
    exact noProbes
  · exact own

theorem finish (stepped : σ.step boot m s .finish = some after) :
    ∃ placeAfter tasksAfter, Served boot m s after notes placeAfter tasksAfter := by
  obtain ⟨command, write, k, isPc, unlocks, isAfter⟩ :=
    DiskSystem.step_finish stepped
  rw [if_pos served.started] at unlocks
  subst isAfter
  have inside : σ.pc σ.caller ≠ .out := by
    rw [isPc]
    simp
  obtain ⟨alone, transfer⟩ := served.transfer isPc
  obtain ⟨placeAfter, tasksAfter, scheduled, outcome⟩ :=
    step_outcome served.scheduled (.mutexUnlock m) trivial unlocks
  obtain ⟨sem, waiting⟩ :=
    Outcome.keeps_sem served.scheduled (s := s) outcome (by simp) (by simp)
  refine ⟨placeAfter, tasksAfter, ?_⟩
  apply served.call inside id False.elim scheduled
  · rw [sem]
    exact served.count
  · exact served.entered.unlock (served.owner inside) outcome
  · exact served.own
  · intro others
    rw [waiting, alone]
    exact Traffic.outOf others id transfer.finish

theorem semWait (permitted : σ.Permits boot .semWait)
    (stepped : σ.step boot m s .semWait = some after) :
    ∃ placeAfter tasksAfter,
      Served boot m s after (notes.record s σ .semWait) placeAfter tasksAfter := by
  obtain ⟨command, write, left, k, isPc, waits, isAfter⟩ :=
    DiskSystem.step_semWait stepped
  rw [if_pos served.started] at waits
  subst isAfter
  have inside : σ.pc σ.caller ≠ .out := by
    rw [isPc]
    simp
  obtain ⟨alone, transfer⟩ := served.transfer isPc
  have owner := served.owner inside
  obtain ⟨placeAfter, tasksAfter, scheduled, outcome⟩ :=
    step_outcome served.scheduled (.semWait s) (permitted served.started) waits
  obtain ⟨mutex, queue⟩ :=
    Outcome.keeps_mutex served.scheduled (m := m) outcome (by simp) (by simp)
  have loops : (σ.pc (some σ.kernel.current)).Looping := by
    rw [← served.caller_eq, isPc]
    trivial
  have entered : DiskEntered (k.mutex m) (placeAfter.on (.mutex m))
      (Function.update σ.pc (some σ.kernel.current) (.loop .granted command write left)) := by
    rw [mutex, queue]
    exact served.entered.advance owner
  have waited : WaitOutcome σ.kernel place s k placeAfter := outcome
  have count := served.count
  refine ⟨placeAfter, tasksAfter, ?_⟩
  cases credited : notes.credit with
  | nil =>
      rw [credited, List.length_nil] at count
      have quiet : notes.record s σ .semWait = notes := if_neg (by omega)
      rw [quiet]
      cases waited with
      | granted available => omega
      | blocked empty next =>
          apply served.call inside id (fun _ => loops) scheduled
          · rw [credited]
            exact count
          · exact entered
          · exact served.own
          · intro others
            rw [credited, Placement.move_on_target _ _ _ served.absent, alone, List.nil_append]
            rw [credited] at transfer
            exact Traffic.into others transfer.suspend
  | cons first rest =>
      rw [credited, List.length_cons] at count
      rw [credited] at transfer
      obtain ⟨isOwn, taken⟩ := transfer.take
      have noted : notes.record s σ .semWait =
          { notes with
            credit := rest
            released := notes.released ++ [(some command, some command)] } := by
        rw [DiskNotes.record, if_pos ⟨served.started, by omega⟩, isPc, credited, isOwn]
        rfl
      rw [noted]
      cases waited with
      | granted available =>
          apply served.call inside id (fun _ => loops) scheduled
          · rw [Kernel.withSem_sem, if_pos rfl]
            change int32 ((σ.kernel.sem s).count - 1) = _
            have small := transfer.credit_le
            rw [List.length_cons] at small
            rw [count, int32_of_range (by omega) (by omega)]
            change ((rest.length + 1 : Nat) : Int) - 1 = (rest.length : Int)
            omega
          · exact entered
          · exact served.own.release command
          · intro others
            change Traffic _ rest _ _
            rw [alone]
            exact Traffic.into others taken
      | blocked empty next => omega

theorem handle (stepped : σ.step boot m s .handle = some after) :
    ∃ placeAfter tasksAfter,
      Served boot m s after (notes.record s σ .handle) placeAfter tasksAfter := by
  obtain ⟨command, rest, k, oldest, _, notifies, isAfter⟩ := DiskSystem.step_handle stepped
  subst isAfter
  have someone : ∃ t, (σ.pc (some t)).Looping := by
    by_contra nobody
    have pending := (served.traffic.still (not_exists.mp nobody)).pending
    rw [oldest] at pending
    cases pending
  have expects : (σ.waitInterupt && σ.started) = true := by
    obtain ⟨t, loops⟩ := someone
    rw [served.expecting t loops, served.started]
    rfl
  rw [if_pos expects] at notifies
  obtain ⟨placeAfter, tasksAfter, scheduled, outcome⟩ :=
    step_outcome served.scheduled (.semNotify s) trivial notifies
  obtain ⟨mutex, queue⟩ :=
    Outcome.keeps_mutex served.scheduled (m := m) outcome (by simp) (by simp)
  have entered : DiskEntered (k.mutex m) (placeAfter.on (.mutex m)) σ.pc := by
    rw [mutex, queue]
    exact served.entered
  have gone : ∀ {credit waiting : List Nat},
      (∃ t, (σ.pc (some t)).Looping) → (∀ t, ¬ (σ.pc (some t)).Looping) →
        Silent { σ.line with pending := rest } credit waiting := by
    rintro _ _ ⟨t, loops⟩ nobody
    exact False.elim (nobody t loops)
  have notified : NotifyOutcome σ.kernel place s k placeAfter := outcome
  refine ⟨placeAfter, tasksAfter, ?_⟩
  cases notified with
  | counted alone =>
      have noted : notes.record s σ .handle =
          { notes with credit := notes.credit ++ [command] } := by
        rw [DiskNotes.record, oldest]
        dsimp only
        rw [if_pos expects, Kernel.firstWaiter_eq served.scheduled, alone]
        rfl
      rw [noted]
      have small : notes.credit.length ≤ 3 := by
        obtain ⟨t, loops⟩ := someone
        cases isPc : σ.pc (some t) with
        | loop point command write left =>
            exact (served.traffic.loop t point command write left isPc).credit_le
        | _ =>
            rw [isPc] at loops
            exact False.elim loops
      refine { served with
        scheduled := scheduled, count := ?_, entered := entered, traffic := ⟨?_, ?_⟩ }
      · change (Kernel.sem _ s).count = ((notes.credit ++ [command]).length : Int)
        rw [Kernel.withSem_sem, if_pos rfl]
        change int32 ((σ.kernel.sem s).count + 1) = _
        rw [served.count, int32_of_range (by omega) (by omega), List.length_append,
          List.length_singleton]
        rfl
      · intro t point command' write left isLoop
        have transfer := served.traffic.loop t point command' write left isLoop
        rw [alone] at transfer ⊢
        exact transfer.count oldest
      · exact gone someone
  | woken first others waiting next =>
      obtain ⟨t, loops⟩ := someone
      cases isPc : σ.pc (some t) with
      | loop point own write left =>
          have transfer := served.traffic.loop t point own write left isPc
          rw [waiting] at transfer
          obtain ⟨isTask, isOwn, _⟩ := transfer.wake oldest
          have noted : notes.record s σ .handle =
              { notes with released := notes.released ++ [(some own, some own)] } := by
            rw [DiskNotes.record, oldest]
            dsimp only
            rw [if_pos expects, Kernel.firstWaiter_eq served.scheduled, waiting]
            dsimp only [List.head?_cons]
            rw [isTask, isPc, isOwn]
            rfl
          rw [noted]
          refine { served with
            scheduled := scheduled, count := served.count, entered := entered,
            traffic := ⟨?_, gone ⟨t, loops⟩⟩, own := served.own.release own }
          intro u point' command' write' left' isLoop
          have taken := served.traffic.loop u point' command' write' left' isLoop
          rw [waiting] at taken
          rw [wake_rest waiting (by simp)]
          exact (taken.wake oldest).2.2
      | _ =>
          rw [isPc] at loops
          exact False.elim loops

end Served

/-- The step lemma while tasks run. -/
theorem Served.step (served : Served boot m s σ notes place tasks) (event : DiskEvent)
    (permitted : σ.Permits boot event) (careful : σ.Careful m event)
    (stepped : σ.step boot m s event = some after) :
    ∃ placeAfter tasksAfter,
      Served boot m s after (notes.record s σ event) placeAfter tasksAfter := by
  cases event with
  | probe => exact False.elim (served.probe stepped)
  | start =>
      have off := (DiskSystem.step_start stepped).1
      rw [served.started] at off
      cases off
  | lock write count => exact served.lock permitted careful stepped
  | noPart => exact ⟨place, tasks, served.noPart stepped⟩
  | sendCmd => exact ⟨place, tasks, served.sendCmd careful stepped⟩
  | put => exact ⟨place, tasks, served.put stepped⟩
  | semWait => exact served.semWait permitted stepped
  | ready => exact ⟨place, tasks, served.ready stepped⟩
  | fail => exact ⟨place, tasks, served.fail stepped⟩
  | finish => exact served.finish stepped
  | enable on =>
      obtain ⟨_, _, isAfter⟩ := DiskSystem.step_enable stepped
      subst isAfter
      exact ⟨place, tasks, { served with }⟩
  | other op => exact served.other permitted stepped
  | raise => exact ⟨place, tasks, served.raise stepped⟩
  | handle => exact served.handle stepped

theorem DiskSystem.Quiet.served (quiet : σ.Quiet boot m s) :
    ∃ place tasks, Served boot m s σ DiskNotes.none place tasks := by
  obtain ⟨place, tasks, scheduled, alone⟩ := quiet.scheduled
  have outside : ∀ {t}, ¬ (σ.pc (some t)).Looping := by
    intro t loops
    rw [quiet.outside t] at loops
    exact loops
  refine ⟨place, tasks, quiet.started, scheduled, quiet.count, ⟨?_, ?_⟩, ⟨?_, ?_⟩, ?_, ?_, ?_⟩
  · intro t owner
    rw [quiet.owner] at owner
    cases owner
  · intro t inside
    exact False.elim (inside (quiet.outside t))
  · intro t point command write left isLoop
    rw [quiet.outside t] at isLoop
    cases isLoop
  · intro _
    exact ⟨quiet.pending, rfl, alone, quiet.told⟩
  · intro t loops
    exact False.elim (outside loops)
  · intro t probing
    rw [quiet.outside t] at probing
    exact probing
  · exact ⟨fun _ member => (by cases member), fun _ member => (by cases member)⟩

/-- The run lemma. -/
theorem DiskRun.served {first : DiskSystem} (quiet : first.Quiet boot m s)
    (run : DiskRun boot m s (DiskSystem.Careful m) first σ notes) :
    ∃ place tasks, Served boot m s σ notes place tasks := by
  induction run with
  | start => exact quiet.served
  | step run event permitted stepped careful ih =>
      obtain ⟨place, tasks, served⟩ := ih
      exact served.step event permitted careful stepped

/-! ### While `current` is NULL -/

/-- Behind the command of `load_part_info`, or behind an IDENTIFY without an answer. -/
def DiskPc.Behind : DiskPc → Prop
  | .diskInfo => False
  | .partInfo => False
  | .probe false _ => False
  | _ => True

/-- How far `disk_init` came, and what was noted by then. -/
inductive DiskInit (s : Nat) (σ : DiskSystem) (notes : DiskNotes) : Prop
  | first (off : σ.started = false) (isPc : σ.pc none = .diskInfo) (missing : σ.found = false)
      (line : σ.line = .quiet) (count : (σ.kernel.sem s).count = 0)
      (fresh : notes = DiskNotes.none)
  | asked (off : σ.started = false) {command : Nat} (isPc : σ.pc none = .probe false command)
      (missing : σ.found = false) (isRead : σ.line.write = false)
      (told : σ.line.raised ≤ σ.line.pending.length) (own : notes.Own)
  | lost (off : σ.started = false)
      (isPc : σ.pc none = .out ∨ ∃ write count, σ.pc none = .locked write count)
      (missing : σ.found = false) (own : notes.Own)
  | answered (off : σ.started = false) (isPc : σ.pc none = .partInfo) (found : σ.found = true)
      (pending : σ.line.pending ≠ []) (own : notes.Own)
  | broken (behind : (σ.pc none).Behind) (found : σ.found = true) (mixed : ¬ notes.Own)

namespace DiskSystem

theorem caller_off (off : σ.started = false) : σ.caller = none := by
  rw [caller, off]
  rfl

theorem setPc_off (off : σ.started = false) : (σ.setPc q).pc none = q := by
  unfold setPc
  rw [caller_off off]
  change Function.update σ.pc none q none = q
  exact Function.update_self ..

theorem setPc_behind (before : (σ.pc none).Behind) (behind : q.Behind) :
    ((σ.setPc q).pc none).Behind := by
  change (Function.update σ.pc σ.caller q none).Behind
  rw [Function.update_apply]
  split
  next => exact behind
  next => exact before

/-- Code inside the two functions is not the boot's where that is behind them. -/
theorem setPc_elsewhere {p : DiskPc} (behind : (σ.pc none).Behind) (isPc : σ.pc σ.caller = p)
    (before : ¬ p.Behind) : ((σ.setPc q).pc none).Behind := by
  change (Function.update σ.pc σ.caller q none).Behind
  rw [Function.update_apply]
  split
  next atBoot =>
      rw [atBoot, isPc] at behind
      exact False.elim (before behind)
  next => exact behind

/-- In `load_disk_info` and `load_part_info` there is nothing but their own steps and the
drive. -/
theorem step_probing {event : DiskEvent} (off : σ.started = false)
    (probing : (σ.pc none).Probing) (stepped : σ.step boot m s event = some after) :
    event = .probe ∨ event = .ready ∨ event = .fail ∨ event = .raise := by
  have elsewhere : ∀ {q}, ¬ q.Probing → σ.pc σ.caller ≠ q := by
    rintro q outside rfl
    rw [caller_off off] at outside
    exact outside probing
  cases event with
  | probe => exact Or.inl rfl
  | ready => exact Or.inr (Or.inl rfl)
  | fail => exact Or.inr (Or.inr (Or.inl rfl))
  | raise => exact Or.inr (Or.inr (Or.inr rfl))
  | start =>
      have isPc := (step_start stepped).2.1
      rw [isPc] at probing
      exact False.elim probing
  | lock write count => exact absurd (step_lock stepped).1 (elsewhere id)
  | noPart =>
      obtain ⟨_, _, isPc, _⟩ := step_noPart stepped
      exact absurd isPc (elsewhere id)
  | sendCmd =>
      obtain ⟨_, _, isPc, _⟩ := step_sendCmd stepped
      exact absurd isPc (elsewhere id)
  | put =>
      obtain ⟨_, _, _, isPc, _⟩ := step_put stepped
      exact absurd isPc (elsewhere id)
  | semWait =>
      obtain ⟨_, _, _, _, isPc, _⟩ := step_semWait stepped
      exact absurd isPc (elsewhere id)
  | finish =>
      obtain ⟨_, _, _, isPc, _⟩ := step_finish stepped
      exact absurd isPc (elsewhere id)
  | enable on => exact absurd (step_enable stepped).1 (elsewhere id)
  | other op =>
      have started := (step_other stepped).1
      rw [off] at started
      cases started
  | handle =>
      obtain ⟨_, _, _, _, started, _⟩ := step_handle stepped
      rw [off] at started
      cases started

/-- In front of their commands there is the command, and the drive. -/
theorem step_unsent {event : DiskEvent} {parts : Bool} (off : σ.started = false)
    (isPc : σ.pc none = if parts then .partInfo else .diskInfo)
    (stepped : σ.step boot m s event = some after) :
    event = .raise ∨ event = .probe ∧
      after = { σ.setPc (.probe parts (σ.line.issued + 1)) with
                line := σ.line.sendCmd false 1 } := by
  have isCaller : σ.pc σ.caller = if parts then .partInfo else .diskInfo := by
    rw [caller_off off, isPc]
  have probing : (σ.pc none).Probing := by
    rw [isPc]
    cases parts <;> trivial
  rcases step_probing off probing stepped with rfl | rfl | rfl | rfl
  · obtain ⟨sent, atPc, isAfter⟩ := step_probe stepped
    have same : sent = parts := by
      rw [isCaller] at atPc
      cases sent <;> cases parts <;> first | rfl | cases atPc
    rw [isAfter, same]
    exact Or.inr ⟨rfl, rfl⟩
  · obtain ⟨_, ⟨_, _, _, atPc, _⟩ | ⟨_, atPc, _⟩ | ⟨_, atPc, _⟩⟩ := step_ready stepped
    all_goals
      rw [isCaller] at atPc
      cases parts <;> cases atPc
  · obtain ⟨⟨_, _, _, atPc⟩ | ⟨_, _, atPc⟩, _⟩ := step_fail stepped
    all_goals
      rw [isCaller] at atPc
      cases parts <;> cases atPc
  · exact Or.inl rfl

theorem step_behind {event : DiskEvent} (behind : (σ.pc none).Behind) (found : σ.found = true)
    (stepped : σ.step boot m s event = some after) :
    (after.pc none).Behind ∧ after.found = true := by
  cases event with
  | probe =>
      obtain ⟨parts, isPc, isAfter⟩ := step_probe stepped
      subst isAfter
      refine ⟨setPc_elsewhere behind isPc ?_, found⟩
      cases parts <;> exact id
  | start =>
      obtain ⟨_, _, _, _, _, isAfter⟩ := step_start stepped
      subst isAfter
      exact ⟨behind, found⟩
  | lock write count =>
      obtain ⟨_, _, _, isAfter⟩ := step_lock stepped
      subst isAfter
      exact ⟨setPc_behind behind trivial, found⟩
  | noPart =>
      obtain ⟨_, _, _, isAfter⟩ := step_noPart stepped
      subst isAfter
      exact ⟨setPc_behind behind trivial, found⟩
  | sendCmd =>
      obtain ⟨_, _, _, _, isAfter⟩ := step_sendCmd stepped
      subst isAfter
      exact ⟨setPc_behind behind trivial, found⟩
  | put =>
      obtain ⟨_, _, _, _, isAfter⟩ := step_put stepped
      subst isAfter
      exact ⟨setPc_behind behind trivial, found⟩
  | semWait =>
      obtain ⟨_, _, _, _, _, _, isAfter⟩ := step_semWait stepped
      subst isAfter
      exact ⟨setPc_behind behind trivial, found⟩
  | ready =>
      obtain ⟨_, ⟨_, _, _, _, isAfter⟩ | ⟨_, isPc, isAfter⟩ | ⟨_, _, isAfter⟩⟩ :=
        step_ready stepped
      · subst isAfter
        exact ⟨setPc_behind behind trivial, found⟩
      · subst isAfter
        exact ⟨setPc_elsewhere behind isPc id, rfl⟩
      · subst isAfter
        exact ⟨setPc_behind behind trivial, found⟩
  | fail =>
      obtain ⟨_, isAfter⟩ := step_fail stepped
      subst isAfter
      exact ⟨setPc_behind behind trivial, found⟩
  | finish =>
      obtain ⟨_, _, _, _, _, isAfter⟩ := step_finish stepped
      subst isAfter
      exact ⟨setPc_behind behind trivial, found⟩
  | enable on =>
      obtain ⟨_, _, isAfter⟩ := step_enable stepped
      subst isAfter
      exact ⟨behind, found⟩
  | other op =>
      obtain ⟨_, _, _, _, isAfter⟩ := step_other stepped
      subst isAfter
      exact ⟨behind, found⟩
  | raise =>
      obtain ⟨_, isAfter⟩ := step_raise stepped
      subst isAfter
      exact ⟨behind, found⟩
  | handle =>
      obtain ⟨_, _, _, _, _, _, isAfter⟩ := step_handle stepped
      subst isAfter
      exact ⟨behind, found⟩

end DiskSystem

/-- What was noted stays noted. -/
theorem DiskNotes.Own.before {event : DiskEvent} (own : (notes.record s σ event).Own) :
    notes.Own := by
  have issued : ∀ found, found ∈ notes.issued → found ∈ (notes.record s σ event).issued := by
    intro found member
    unfold DiskNotes.record
    split
    · exact List.mem_append_left _ member
    · exact List.mem_append_left _ member
    · split <;> exact member
    · split
      next => exact member
      next =>
          split
          next => split <;> exact member
          next => exact member
    · exact member
  have released : ∀ pair, pair ∈ notes.released →
      pair ∈ (notes.record s σ event).released := by
    intro pair member
    unfold DiskNotes.record
    split
    · exact member
    · exact member
    · split
      next => exact List.mem_append_left _ member
      next => exact member
    · split
      next => exact member
      next =>
          split
          next =>
              split
              next => exact List.mem_append_left _ member
              next => exact member
          next => exact member
    · exact member
  exact ⟨fun found member => own.1 found (issued found member),
    fun pair member => own.2 pair (released pair member)⟩

namespace DiskInit

theorem first_step {event : DiskEvent} (off : σ.started = false) (isPc : σ.pc none = .diskInfo)
    (missing : σ.found = false) (line : σ.line = .quiet) (count : (σ.kernel.sem s).count = 0)
    (stepped : σ.step boot m s event = some after) :
    DiskInit s after (DiskNotes.none.record s σ event) := by
  have isFirst : σ.pc none = if false then .partInfo else .diskInfo := isPc
  rcases DiskSystem.step_unsent off isFirst stepped with rfl | ⟨rfl, rfl⟩
  · have can := (DiskSystem.step_raise stepped).1
    rw [line] at can
    exact absurd can (by decide)
  · have fresh : DiskNotes.none.Own :=
      ⟨fun _ member => (by cases member), fun _ member => (by cases member)⟩
    have pending : σ.line.pending = [] := by
      rw [line]
      rfl
    exact .asked off (DiskSystem.setPc_off off) missing rfl (Nat.zero_le _)
      (fresh.issue count pending)

theorem asked_step {event : DiskEvent} (off : σ.started = false)
    (isPc : σ.pc none = .probe false command) (missing : σ.found = false)
    (isRead : σ.line.write = false) (told : σ.line.raised ≤ σ.line.pending.length)
    (own : notes.Own) (stepped : σ.step boot m s event = some after) :
    DiskInit s after (notes.record s σ event) := by
  have isCaller : σ.pc σ.caller = .probe false command := by
    rw [DiskSystem.caller_off off, isPc]
  rcases DiskSystem.step_probing off (by rw [isPc]; trivial) stepped with
    rfl | rfl | rfl | rfl
  · obtain ⟨parts, atProbe, _⟩ := DiskSystem.step_probe stepped
    rw [isCaller] at atProbe
    cases parts <;> cases atProbe
  · obtain ⟨isReady, ⟨_, _, _, atPc, _⟩ | ⟨_, _, isAfter⟩ | ⟨_, atPc, _⟩⟩ :=
      DiskSystem.step_ready stepped
    · rw [isCaller] at atPc
      cases atPc
    · subst isAfter
      unfold DiskLine.Ready at isReady
      rw [isRead, if_neg Bool.false_ne_true] at isReady
      -- the poll saw a sector, of which the drive has told
      have pending : σ.line.pending ≠ [] := by
        intro none
        rw [none, List.length_nil] at told
        omega
      exact .answered off (DiskSystem.setPc_off off) rfl pending own
    · rw [isCaller] at atPc
      cases atPc
  · obtain ⟨_, isAfter⟩ := DiskSystem.step_fail stepped
    subst isAfter
    exact .lost off (Or.inl (DiskSystem.setPc_off off)) missing own
  · obtain ⟨_, isAfter⟩ := DiskSystem.step_raise stepped
    subst isAfter
    refine .asked off isPc missing isRead ?_ own
    change σ.line.raised + 1 ≤ (σ.line.pending ++ [σ.line.issued]).length
    rw [List.length_append, List.length_singleton]
    exact Nat.succ_le_succ told

/-- Without an answer no command follows. -/
theorem lost_step {event : DiskEvent} (off : σ.started = false)
    (isPc : σ.pc none = .out ∨ ∃ write count, σ.pc none = .locked write count)
    (missing : σ.found = false) (own : notes.Own)
    (stepped : σ.step boot m s event = some after) :
    DiskInit s after (notes.record s σ event) := by
  have elsewhere : ∀ {q}, q ≠ .out → (∀ write count, q ≠ .locked write count) →
      σ.pc σ.caller ≠ q := by
    rintro q notOut notLocked rfl
    rw [DiskSystem.caller_off off] at notOut notLocked
    rcases isPc with out | ⟨write, count, locked⟩
    · exact notOut out
    · exact notLocked write count locked
  cases event with
  | probe =>
      obtain ⟨parts, atPc, _⟩ := DiskSystem.step_probe stepped
      cases parts <;> exact absurd atPc (elsewhere (by simp) (by simp))
  | start =>
      have found := (DiskSystem.step_start stepped).2.2.1
      rw [missing] at found
      cases found
  | lock write count =>
      obtain ⟨_, _, _, isAfter⟩ := DiskSystem.step_lock stepped
      subst isAfter
      exact .lost off (Or.inr ⟨write, count, DiskSystem.setPc_off off⟩) missing own
  | noPart =>
      obtain ⟨_, _, _, isAfter⟩ := DiskSystem.step_noPart stepped
      subst isAfter
      exact .lost off (Or.inl (DiskSystem.setPc_off off)) missing own
  | sendCmd =>
      obtain ⟨_, _, _, found, _⟩ := DiskSystem.step_sendCmd stepped
      rw [missing] at found
      cases found
  | put =>
      obtain ⟨_, _, _, atPc, _⟩ := DiskSystem.step_put stepped
      exact absurd atPc (elsewhere (by simp) (by simp))
  | semWait =>
      obtain ⟨_, _, _, _, atPc, _⟩ := DiskSystem.step_semWait stepped
      exact absurd atPc (elsewhere (by simp) (by simp))
  | ready =>
      obtain ⟨_, ⟨_, _, _, atPc, _⟩ | ⟨_, atPc, _⟩ | ⟨_, atPc, _⟩⟩ :=
        DiskSystem.step_ready stepped
      all_goals exact absurd atPc (elsewhere (by simp) (by simp))
  | fail =>
      obtain ⟨⟨_, _, _, atPc⟩ | ⟨_, _, atPc⟩, _⟩ := DiskSystem.step_fail stepped
      all_goals exact absurd atPc (elsewhere (by simp) (by simp))
  | finish =>
      obtain ⟨_, _, _, atPc, _⟩ := DiskSystem.step_finish stepped
      exact absurd atPc (elsewhere (by simp) (by simp))
  | enable on =>
      obtain ⟨_, _, isAfter⟩ := DiskSystem.step_enable stepped
      subst isAfter
      exact .lost off isPc missing own
  | other op =>
      have started := (DiskSystem.step_other stepped).1
      rw [off] at started
      cases started
  | raise =>
      obtain ⟨_, isAfter⟩ := DiskSystem.step_raise stepped
      subst isAfter
      exact .lost off isPc missing own
  | handle =>
      obtain ⟨_, _, _, _, started, _⟩ := DiskSystem.step_handle stepped
      rw [off] at started
      cases started

/-- The command of `load_part_info` finds the interrupt of IDENTIFY. -/
theorem answered_step {event : DiskEvent} (off : σ.started = false)
    (isPc : σ.pc none = .partInfo) (found : σ.found = true) (pending : σ.line.pending ≠ [])
    (own : notes.Own) (stepped : σ.step boot m s event = some after) :
    DiskInit s after (notes.record s σ event) := by
  have isNext : σ.pc none = if true then .partInfo else .diskInfo := isPc
  rcases DiskSystem.step_unsent off isNext stepped with rfl | ⟨rfl, rfl⟩
  · obtain ⟨_, isAfter⟩ := DiskSystem.step_raise stepped
    subst isAfter
    exact .answered off isPc found
      (List.append_ne_nil_of_right_ne_nil _ (List.cons_ne_nil _ _)) own
  · refine .broken ?_ found ?_
    · rw [show ({ σ.setPc (.probe true (σ.line.issued + 1)) with
          line := σ.line.sendCmd false 1 } : DiskSystem).pc none = _ from DiskSystem.setPc_off off]
      trivial
    · intro own
      have none := own.1 _ (List.mem_append_right _ (List.mem_singleton_self _))
      rw [Prod.mk.injEq] at none
      exact pending none.2

theorem step {event : DiskEvent} (init : DiskInit s σ notes)
    (stepped : σ.step boot m s event = some after) :
    DiskInit s after (notes.record s σ event) := by
  cases init with
  | first off isPc missing line count fresh =>
      subst fresh
      exact first_step off isPc missing line count stepped
  | asked off isPc missing isRead told own =>
      exact asked_step off isPc missing isRead told own stepped
  | lost off isPc missing own => exact lost_step off isPc missing own stepped
  | answered off isPc found pending own => exact answered_step off isPc found pending own stepped
  | broken behind found mixed =>
      obtain ⟨still, stays⟩ := DiskSystem.step_behind behind found stepped
      exact .broken still stays fun own => mixed own.before

end DiskInit

theorem DiskRun.init {allowed : DiskSystem → DiskEvent → Prop}
    (run : DiskRun boot m s allowed (boot.diskInit m s) σ notes) : DiskInit s σ notes := by
  induction run with
  | start =>
      refine .first rfl ?_ rfl rfl ?_ rfl
      · change Function.update (fun _ : Option Nat => DiskPc.out) none .diskInfo none = .diskInfo
        exact Function.update_self ..
      · simp [Boot.diskInit, Kernel.semInit, Kernel.withSem]
  | step run event permitted stepped admitted ih => exact ih.step stepped

/-! ### Runs -/

/-- In a run from the boot each command finds the semaphore at 0 and no interrupt, and each
`sem_wait` comes back with an interrupt of its own command, until the sector of IDENTIFY is
there and the next command goes out; then never again.  Where nothing is left of the boot's
commands, careful steps keep the interrupts apart. -/
theorem run_diskWaits (boot : Boot) (m s : Nat) :
    (∀ σ notes, DiskRun boot m s (fun _ _ => True) (boot.diskInit m s) σ notes →
      (notes.Own ↔ σ.found = false ∨ σ.pc none = .partInfo)) ∧
    ∀ first : DiskSystem, first.Quiet boot m s → ∀ σ notes,
      DiskRun boot m s (DiskSystem.Careful m) first σ notes → notes.Own := by
  constructor
  · intro σ notes run
    cases run.init with
    | first off isPc missing line count fresh =>
        subst fresh
        exact iff_of_true
          ⟨fun _ member => (by cases member), fun _ member => (by cases member)⟩ (Or.inl missing)
    | asked off isPc missing isRead told own => exact iff_of_true own (Or.inl missing)
    | lost off isPc missing own => exact iff_of_true own (Or.inl missing)
    | answered off isPc found pending own => exact iff_of_true own (Or.inr isPc)
    | broken behind found mixed =>
        refine iff_of_false mixed ?_
        rintro (missing | isPc)
        · rw [found] at missing
          cases missing
        · rw [isPc] at behind
          exact behind
  · intro first quiet σ notes run
    obtain ⟨place, tasks, served⟩ := run.served quiet
    exact served.own

/-- The memory of `kernel_init` with the mutex and the semaphore of the driver. -/
def Boot.withDisk (boot : Boot) (m s : Nat) : Boot where
  memory := (boot.memory.mutexInit m).semInit s 0
  idle := boot.idle
  init := boot.init
  entry := boot.entry
  distinct := boot.distinct
  pid := boot.pid
  mutexQueues := by
    intro n
    have old := boot.mutexQueues n
    rw [Ring.nil_iff] at old ⊢
    by_cases same : n = m
    · simp [Kernel.semInit, Kernel.mutexInit, Kernel.withSem, Kernel.withMutex, queueInit, same]
    · simp [Kernel.semInit, Kernel.mutexInit, Kernel.withSem, Kernel.withMutex, queueInit, same,
        old.1, old.2]
  semQueues := by
    intro n
    have old := boot.semQueues n
    rw [Ring.nil_iff] at old ⊢
    by_cases same : n = s
    · simp [Kernel.semInit, Kernel.mutexInit, Kernel.withSem, Kernel.withMutex, queueInit, same]
    · simp [Kernel.semInit, Kernel.mutexInit, Kernel.withSem, Kernel.withMutex, queueInit, same,
        old.1, old.2]

theorem Boot.withDisk_scheduled (boot : Boot) (m s : Nat)
    (starts : (boot.withDisk m s).start = some k) :
    ∃ place tasks, Scheduled boot.idle k place tasks ∧ place.on (.sem s) = [] := by
  obtain ⟨found, place, foundAs, scheduled, calm⟩ := (boot.withDisk m s).start_spec
  rw [starts, Option.some.injEq] at foundAs
  subst foundAs
  exact ⟨place, _, scheduled, calm.waiting (.sem s) (by simp) (by simp)⟩

/-- The kernel when tasks start to run. -/
def Boot.zeroedDisk : Kernel := ((Boot.zeroed.withDisk 0 0).start).get rfl

/-- Tasks run, and the drive is at rest. -/
def DiskSystem.atRest : DiskSystem where
  kernel := Boot.zeroedDisk
  started := true
  waitInterupt := false
  enabled := true
  found := true
  line := .quiet
  pc := fun _ => .out

theorem DiskSystem.atRest_quiet : DiskSystem.atRest.Quiet Boot.zeroed 0 0 where
  started := rfl
  scheduled := Boot.zeroed.withDisk_scheduled 0 0 rfl
  count := rfl
  owner := rfl
  pending := rfl
  told := by decide
  outside := fun _ => rfl

/-- `load_part_info` finds the interrupt of IDENTIFY.  Where none is left, a task reads a
sector and is suspended until its interrupt. -/
theorem run_diskWaits_read :
    (∃ σ notes, DiskRun Boot.zeroed 0 0 (fun _ _ => True) (Boot.zeroed.diskInit 0 0) σ notes ∧
      notes.issued = [(0, []), (0, [1])] ∧ ¬ notes.Own) ∧
    DiskSystem.atRest.Quiet Boot.zeroed 0 0 ∧
    ∃ σ notes, DiskRun Boot.zeroed 0 0 (DiskSystem.Careful 0) DiskSystem.atRest σ notes ∧
      notes.issued = [(0, [])] ∧ notes.released = [(some 1, some 1)] ∧ notes.Own := by
  refine ⟨?_, DiskSystem.atRest_quiet, ?_⟩
  · have atBoot : DiskRun Boot.zeroed 0 0 (fun _ _ => True) (Boot.zeroed.diskInit 0 0) _ _ :=
      DiskRun.start
    have identify := DiskRun.step atBoot .probe trivial rfl trivial
    have told := DiskRun.step identify .raise trivial rfl trivial
    have answered := DiskRun.step told .ready trivial rfl trivial
    have parts := DiskRun.step answered .probe trivial rfl trivial
    refine ⟨_, _, parts, rfl, fun own => ?_⟩
    rcases ((run_diskWaits Boot.zeroed 0 0).1 _ _ parts).mp own with missing | isPc
    · cases missing
    · cases isPc
  · have first : DiskRun Boot.zeroed 0 0 (DiskSystem.Careful 0) DiskSystem.atRest _ _ :=
      DiskRun.start
    have switched := DiskRun.step first (.other .taskTick) trivial rfl trivial
    have locked := DiskRun.step switched (.lock false 1) (fun _ => by decide) rfl
      (by exact (by decide : (0 : Int) < 2147483647))
    have sent := DiskRun.step locked .sendCmd trivial rfl
      (fun count isPc => by cases isPc; decide)
    have waits := DiskRun.step (DiskRun.step sent .put trivial rfl trivial) .semWait
      (fun _ => by decide) rfl trivial
    have raised := DiskRun.step waits .raise trivial rfl trivial
    have woken := DiskRun.step raised .handle trivial rfl trivial
    exact ⟨_, _, woken, rfl, rfl,
      (run_diskWaits Boot.zeroed 0 0).2 _ DiskSystem.atRest_quiet _ _ woken⟩

namespace DiskSystem

/-- Events that need no more than a task to run them. -/
def mayPlay (boot : Boot) (σ : DiskSystem) : DiskEvent → Bool
  | .lock _ _ => !σ.started || σ.kernel.current != boot.idle
  | .semWait => !σ.started || σ.kernel.current != boot.idle
  | .other op => op == .taskTick
  | _ => true

/-- The events one after the other. -/
def play (boot : Boot) (m s : Nat) : List DiskEvent → DiskSystem × DiskNotes →
    Option (DiskSystem × DiskNotes)
  | [], place => some place
  | event :: events, (σ, notes) =>
      if σ.mayPlay boot event then
        (σ.step boot m s event).bind fun after =>
          play boot m s events (after, notes.record s σ event)
      else none

theorem permits_of_mayPlay {event : DiskEvent} (may : σ.mayPlay boot event = true) :
    σ.Permits boot event := by
  cases event with
  | lock write count =>
      intro started
      simpa [mayPlay, started] using may
  | semWait =>
      intro started
      simpa [mayPlay, started] using may
  | other op =>
      have isTick : op = .taskTick := by simpa [mayPlay] using may
      rw [isTick]
      trivial
  | _ => trivial

end DiskSystem

theorem DiskRun.play {first : DiskSystem} {events : List DiskEvent}
    {place final : DiskSystem × DiskNotes}
    (run : DiskRun boot m s (fun _ _ => True) first place.1 place.2)
    (plays : DiskSystem.play boot m s events place = some final) :
    DiskRun boot m s (fun _ _ => True) first final.1 final.2 := by
  induction events generalizing place with
  | nil =>
      cases plays
      exact run
  | cons event events ih =>
      rw [DiskSystem.play] at plays
      split at plays
      next may =>
          obtain ⟨after, stepped, rest⟩ := Option.bind_eq_some_iff.mp plays
          exact ih (run.step event (DiskSystem.permits_of_mayPlay may) stepped trivial) rest
      next => cases plays

/-- The boot polls `count` sectors. -/
def polledRead (count : Nat) : List DiskEvent :=
  [.lock false count, .sendCmd] ++
    (List.replicate count [.put, .semWait, .raise, .ready]).flatten ++ [.finish]

/-- A boot that mounts a root of one group with bitmaps of one sector, and the first read of
a task: its `sem_wait` takes the interrupt of IDENTIFY. -/
def mountAndRead : List DiskEvent :=
  [.probe, .raise, .ready, .probe, .raise, .ready, .enable true] ++
    polledRead 7 ++ polledRead 1 ++ polledRead 1 ++ [.start] ++ List.replicate 11 .handle ++
    [.other .taskTick, .lock false 1, .sendCmd, .put, .semWait]

theorem run_diskWaits_shifted :
    ∃ σ notes, DiskRun Boot.zeroed 0 0 (fun _ _ => True) (Boot.zeroed.diskInit 0 0) σ notes ∧
      notes.issued.map Prod.fst = [0, 0, 0, 0, 0, 11] ∧
      notes.issued.map (fun found => found.2.length) = [0, 1, 2, 9, 10, 0] ∧
      notes.released = [(some 6, some 1)] ∧ ¬ notes.Own := by
  have played : (DiskSystem.play Boot.zeroed 0 0 mountAndRead
      (Boot.zeroed.diskInit 0 0, DiskNotes.none)).map (fun final =>
        (final.2.issued.map Prod.fst, final.2.issued.map (fun found => found.2.length),
          final.2.released)) =
      some ([0, 0, 0, 0, 0, 11], [0, 1, 2, 9, 10, 0], [(some 6, some 1)]) := by
    decide +kernel
  obtain ⟨final, plays, isNoted⟩ := Option.map_eq_some_iff.mp played
  rw [Prod.mk.injEq, Prod.mk.injEq] at isNoted
  obtain ⟨counts, pending, released⟩ := isNoted
  have run : DiskRun Boot.zeroed 0 0 (fun _ _ => True) (Boot.zeroed.diskInit 0 0) final.1
      final.2 := DiskRun.play DiskRun.start plays
  refine ⟨_, _, run, counts, pending, released, ?_⟩
  intro own
  obtain ⟨command, same⟩ := own.2 (some 6, some 1) (by rw [released]; simp)
  cases same

end MangoOS
