/-
The kernel refines its coroutines: every step keeps the contexts of the tasks that do not run
and the frames of their traps in memory.
-/

import MangoOS.Kernel.Threads

namespace MangoOS

open Machine TaskBytes

variable {L : Stacks} {s : SwitchKernel} {a : Threads} {mem other : ByteMemory} {high low : Nat}
  {fs : List ExceptionFrame}

/-! ### Bytes that stay -/

theorem bottom_le (frames : FramesOn mem high fs) : bottom high fs ≤ high := by
  induction fs with
  | nil => exact Nat.le_refl high
  | cons f fs ih =>
      obtain ⟨⟨_, _, stop, _⟩, rest⟩ := frames
      have below := ih rest
      change f.start - 4 ≤ high
      unfold ExceptionFrame.stop at stop
      omega

theorem FramesOn.congr (frames : FramesOn mem high fs)
    (same : ∀ x, bottom high fs ≤ x → x < high → other x = mem x) : FramesOn other high fs := by
  induction fs with
  | nil => trivial
  | cons f fs ih =>
      obtain ⟨⟨room, stacked, stop, others⟩, rest⟩ := frames
      have below := bottom_le rest
      have upward : f.stop = f.start + 4 * f.words.length := rfl
      refine ⟨⟨room, ?_, stop, others⟩, ih rest ?_⟩
      · apply stacked.congr
        intro x lower upper
        exact same x (Nat.le_trans (Nat.sub_le _ _) lower) (by omega)
      · intro x lower upper
        refine same x ?_ upper
        change f.start - 4 ≤ x
        omega

variable {task : Nat} {t : Thread} {esp0 : Nat} {tasks : List Nat}

theorem Saved.congr (saved : Saved mem low high task t)
    (fields : ∀ x, SwitchField task x → other x = mem x)
    (stack : ∀ x, low ≤ x → x < high → other x = mem x) : Saved other low high task t := by
  have isEsp : other.word (task + espAt) = mem.word (task + espAt) :=
    ByteMemory.word_congr fun x lower upper => fields x (Or.inr ⟨lower, upper⟩)
  have isDir : other.word (task + cr3At) = mem.word (task + cr3At) :=
    ByteMemory.word_congr fun x lower upper => fields x (Or.inl ⟨lower, upper⟩)
  have least := saved.low
  have esp := saved.esp
  have top := saved.top
  have below := bottom_le saved.frames
  refine ⟨isEsp ▸ saved.low, isEsp ▸ saved.esp, ?_, saved.top, ?_, isDir.trans saved.dir⟩
  · rw [isEsp]
    apply saved.stacked.congr
    intro x lower upper
    change x < _ + 44 at upper
    exact stack x (by omega) (by omega)
  · apply saved.frames.congr
    intro x lower upper
    exact stack x (by omega) upper

theorem InnerStack.congr (inner : InnerStack mem low high task esp0)
    (fields : ∀ x, TssField task x → other x = mem x) : InnerStack other low high task esp0 := by
  refine ⟨Eq.trans ?_ inner.isEsp0, Eq.trans ?_ inner.isSs0, inner.low, inner.high⟩
  · apply ByteMemory.word_congr
    intro x lower upper
    exact fields x ⟨lower, by omega⟩
  · apply ByteMemory.word_congr
    intro x lower upper
    exact fields x ⟨by omega, by omega⟩

theorem MemoryAgrees.congr (agrees : MemoryAgrees L tasks mem a)
    (same : ∀ x, Kept L tasks a x → other x = mem x) : MemoryAgrees L tasks other a := by
  refine ⟨Eq.trans ?_ agrees.current, ?_, ?_, ?_⟩
  · apply ByteMemory.word_congr
    intro x lower upper
    exact same x (.current lower upper)
  · apply agrees.own.congr
    intro x lower upper
    exact same x (.frame lower upper)
  · intro t known different
    apply (agrees.saved t known different).congr
    · intro x inside
      exact same x (.field known different inside)
    · intro x lower upper
      exact same x (.stack known different lower upper)
  · intro t known notIdle
    apply (agrees.inner t known notIdle).congr
    intro x inside
    exact same x (.tss known inside)

@[simp] theorem frames_setFrames (a : Threads) (fs : List ExceptionFrame) :
    (a.setFrames fs).frames = fs := by
  unfold Threads.frames Threads.setFrames Threads.setThread
  simp only [Function.update_self]

/-- Nothing of the running stack below its frames is kept. -/
theorem Kept.off_stack {x : Nat} (apart : L.Apart tasks) (known : a.current ∈ tasks)
    (kept : Kept L tasks a x) :
    x < L.low a.current ∨ bottom (L.high a.current) a.frames ≤ x ∨ L.high a.current ≤ x := by
  cases kept with
  | current first last =>
      have away := (apart.current a.current known).2
      unfold WordApart at away
      omega
  | field isTask _ inside =>
      have away := apart.across _ isTask a.current known
      unfold SwitchField cr3At espAt at inside
      unfold openFileTableAt at away
      omega
  | tss isTask inside =>
      have away := apart.across _ isTask a.current known
      unfold TssField tssAt at inside
      unfold openFileTableAt at away
      omega
  | stack isTask different first last =>
      have away := apart.kernelStacks _ isTask a.current known different
      omega
  | frame first last => exact Or.inr (Or.inl first)

/-- Nor are the fields that a switch fills. -/
theorem Kept.off_field {x : Nat} (apart : L.Apart tasks) (known : a.current ∈ tasks)
    (least : L.low a.current ≤ bottom (L.high a.current) a.frames) (kept : Kept L tasks a x) :
    ¬ SwitchField a.current x := by
  unfold SwitchField cr3At espAt
  cases kept with
  | current first last =>
      have away := (apart.current a.current known).1
      unfold WordApart openFileTableAt at away
      omega
  | field isTask different inside =>
      have away := apart.structures _ isTask a.current known different
      unfold SwitchField cr3At espAt at inside
      unfold openFileTableAt at away
      omega
  | @tss t isTask inside =>
      unfold TssField tssAt at inside
      by_cases same : t = a.current
      · omega
      · have away := apart.structures t isTask a.current known same
        unfold openFileTableAt at away
        omega
  | stack isTask different first last =>
      have away := apart.across a.current known _ isTask
      unfold openFileTableAt at away
      omega
  | frame first last =>
      have away := apart.across a.current known a.current known
      unfold openFileTableAt at away
      omega

theorem MemoryAgrees.withFrames (agrees : MemoryAgrees L tasks mem a)
    (own : FramesOn mem (L.high a.current) fs) : MemoryAgrees L tasks mem (a.setFrames fs) := by
  refine ⟨agrees.current, ?_, ?_, agrees.inner⟩
  · rw [frames_setFrames]
    exact own
  · intro t known different
    have same : (a.setFrames fs).thread t = a.thread t := Function.update_of_ne different _ _
    rw [same]
    exact agrees.saved t known different

/-- The bytes of the running stack may change. -/
theorem MemoryAgrees.withStack (agrees : MemoryAgrees L tasks mem a) (apart : L.Apart tasks)
    (known : a.current ∈ tasks)
    (bytes : ∀ x, x < L.low a.current ∨ L.high a.current ≤ x → other x = mem x)
    (own : FramesOn other (L.high a.current) fs) :
    MemoryAgrees L tasks other (a.setFrames fs) := by
  have bare : MemoryAgrees L tasks mem (a.setFrames []) := agrees.withFrames trivial
  have moved : MemoryAgrees L tasks other (a.setFrames []) := by
    apply bare.congr
    intro x kept
    have off := Kept.off_stack (a := a.setFrames []) apart known kept
    rw [frames_setFrames] at off
    exact bytes x (off.imp_right (Or.elim · id id))
  have back : (a.setFrames []).setFrames fs = a.setFrames fs := by
    unfold Threads.setFrames Threads.setThread
    simp only [Function.update_self, Function.update_idem]
  rw [← back]
  exact moved.withFrames own

/-! ### The steps -/

theorem Agrees.low_bottom (agrees : Agrees L s a) :
    L.low a.current ≤ bottom (L.high a.current) a.frames := by
  by_cases user : a.cpu.User
  · obtain ⟨notIdle, none⟩ := agrees.user user
    have inner := agrees.memory.inner a.current agrees.known notIdle
    have low := inner.low
    have high := inner.high
    rw [none]
    change L.low a.current ≤ L.high a.current
    omega
  · obtain ⟨low, upper⟩ := (agrees.kernel user).1
    exact Nat.le_trans low upper

theorem Agrees.own_idle (agrees : Agrees L s a) (isIdle : a.current = L.idle) :
    ∀ f ∈ a.frames, ¬ f.cpu.User := by
  unfold Threads.frames
  rw [isIdle]
  exact agrees.idle

/-- The idle task keeps to ring 0 when the running task gets other frames. -/
theorem Agrees.idleFrames (agrees : Agrees L s a)
    (frames : a.current = L.idle → ∀ f ∈ fs, ¬ f.cpu.User) :
    ∀ f ∈ ((a.setFrames fs).thread L.idle).frames, ¬ f.cpu.User := by
  unfold Threads.setFrames Threads.setThread
  dsimp only
  by_cases isIdle : a.current = L.idle
  · rw [isIdle, Function.update_self]
    exact frames isIdle
  · rw [Function.update_of_ne (fun same => isIdle same.symm)]
    exact agrees.idle

theorem Agrees.work {cpu : Cpu} {memory : PhysicalMemory} (agrees : Agrees L s a)
    (works : Works L s a cpu memory) :
    Agrees L (s.step L (.work cpu memory)) (a.step (.work cpu memory)) := by
  have same : cpu.User ↔ a.cpu.User := by
    unfold Cpu.User
    rw [works.cs, agrees.cpu]
  refine ⟨rfl, agrees.known, agrees.apart, works.small, ?_, agrees.tss, agrees.idle, ?_, ?_⟩
  · have kept := agrees.memory.congr works.bytes
    exact ⟨kept.current, kept.own, kept.saved, kept.inner⟩
  · intro user
    exact agrees.user (same.mp user)
  · intro kernel
    refine ⟨works.stack kernel, ?_⟩
    rw [← (agrees.kernel (fun user => kernel (same.mpr user))).2, ← agrees.cpu]
    exact works.ss

/-- The stack of a trap out of the running task. -/
structure TrapReady (L : Stacks) (s : SwitchKernel) (a : Threads) (t : Trap) : Prop where
  low : L.low a.current + 84 ≤ s.machine.trapStack s.tr
  top : s.machine.trapStack s.tr ≤ bottom (L.high a.current) a.frames
  frame : s.machine.trapFrame s.tr t = a.trapFrame t
  ss : (s.machine.onTrapStack s.tr).cpu.ss = Threads.kernelSelectorDs

theorem Agrees.trapReady {t : Trap} (agrees : Agrees L s a)
    (room : ¬ s.cpu.User → L.low a.current + 84 ≤ s.cpu.esp) : TrapReady L s a t := by
  have isCpu : s.machine.cpu = a.cpu := agrees.cpu
  by_cases user : a.cpu.User
  · obtain ⟨notIdle, none⟩ := agrees.user user
    have inner := agrees.memory.inner a.current agrees.known notIdle
    have stack : s.machine.trapStack s.tr = a.esp0 a.current := by
      unfold trapStack
      rw [isCpu, if_pos user, agrees.tss notIdle]
      exact inner.isEsp0
    refine ⟨?_, ?_, ?_, ?_⟩
    · rw [stack]
      exact inner.low
    · rw [stack, none]
      exact inner.high
    · unfold trapFrame Threads.trapFrame
      rw [stack, isCpu, if_pos user, if_pos user]
    · unfold onTrapStack
      rw [isCpu, if_pos user, agrees.tss notIdle]
      change BitVec.ofNat 16 (s.memory.mem.word (a.current + tssAt + 8)) = _
      rw [inner.isSs0]
      rfl
  · obtain ⟨⟨low, top⟩, ss⟩ := agrees.kernel user
    have stack : s.machine.trapStack s.tr = a.cpu.esp := by
      unfold trapStack
      rw [isCpu, if_neg user]
    rw [agrees.cpu] at room
    refine ⟨?_, ?_, ?_, ?_⟩
    · rw [stack]
      exact room user
    · rw [stack]
      exact top
    · unfold trapFrame Threads.trapFrame
      rw [stack, isCpu, if_neg user, if_neg user, Nat.sub_zero]
    · unfold onTrapStack
      rw [isCpu, if_neg user, isCpu]
      exact ss

theorem Agrees.trap {t : Trap} (agrees : Agrees L s a)
    (permitted : Permitted L s a (.trap t)) :
    Agrees L (s.step L (.trap t)) (a.step (.trap t)) := by
  obtain ⟨ring0, room⟩ := permitted
  have ready := agrees.trapReady (t := t) room
  have low := ready.low
  have top := ready.top
  have below := bottom_le agrees.memory.own
  have limit := (agrees.apart.small a.current agrees.known).2
  have enough : 84 ≤ s.machine.trapStack s.tr := by omega
  have stop := trapFrame_stop s.machine s.tr t enough
  have trapped := trap_trapped s.machine s.tr t enough
  have length := (a.trapFrame t).words_length
  rw [ready.frame] at stop trapped
  have upward : (a.trapFrame t).stop = (a.trapFrame t).start + 4 * (a.trapFrame t).words.length :=
    rfl
  have size : 4 * (a.trapFrame t).words.length ≤ 76 := by
    rw [length]
    split <;> omega
  have kernel : ¬ (a.step (.trap t)).cpu.User := ring0
  refine ⟨?_, agrees.known, agrees.apart, ?_, ?_, agrees.tss, ?_, ?_, ?_⟩
  · refine trapped.cpu.trans ?_
    rw [ready.ss]
    rfl
  · change (a.trapFrame t).start - 8 < _
    omega
  · have own : FramesOn (s.machine.trap s.tr t).mem (L.high a.current)
        (a.trapFrame t :: a.frames) := by
      refine ⟨⟨by omega, trapped.stacked, by omega, agrees.small, ?_, ?_⟩, ?_⟩
      · intro user
        exact (agrees.user user).2
      · intro user
        have isKernel : ¬ a.cpu.User := user
        have stack : s.machine.trapStack s.tr = a.cpu.esp := by
          unfold trapStack
          rw [show s.machine.cpu = a.cpu from agrees.cpu, if_neg isKernel]
        exact ⟨stack.symm.trans stop.symm, (agrees.kernel isKernel).2⟩
      · apply agrees.memory.own.congr
        intro x lower upper
        exact trapped.bytes x (Or.inr (by omega))
    have agreed := agrees.memory.withStack agrees.apart agrees.known
      (fun x outside => trapped.bytes x (by omega)) own
    exact ⟨agreed.current, agreed.own, agreed.saved, agreed.inner⟩
  · apply agrees.idleFrames
    intro isIdle f member
    rcases List.mem_cons.mp member with rfl | inside
    · exact fun user => (agrees.user user).1 isIdle
    · exact agrees.own_idle isIdle f inside
  · intro user
    exact absurd user kernel
  · intro _
    refine ⟨?_, rfl⟩
    change L.low a.current ≤ (a.trapFrame t).start - 8 ∧
      (a.trapFrame t).start - 8 ≤ bottom (L.high a.current) (a.setFrames _).frames
    rw [frames_setFrames]
    change _ ∧ (a.trapFrame t).start - 8 ≤ (a.trapFrame t).start - 4
    omega

theorem Agrees.answer {frame : Nat} {value : BitVec 32} (agrees : Agrees L s a)
    (permitted : Permitted L s a (.answer frame value)) :
    Agrees L (s.step L (.answer frame value)) (a.step (.answer frame value)) := by
  obtain ⟨ring0, f, fs, isFrames, rfl⟩ := permitted
  rw [agrees.cpu] at ring0
  have answered : a.step (.answer f.start value) = a.setFrames (f.setEax value :: fs) := by
    change a.answer value = _
    unfold Threads.answer
    rw [isFrames]
  have own := agrees.memory.own
  have least := (agrees.kernel ring0).1
  rw [isFrames] at own least
  obtain ⟨⟨room, stacked, stop, others⟩, rest⟩ := own
  have length := f.words_length
  have below := bottom_le rest
  have upward : f.stop = f.start + 4 * f.words.length := rfl
  have fields : f.start + 68 ≤ f.stop := by
    rw [upward]
    split at length <;> omega
  have inStack : a.cpu.esp ≤ f.start - 4 := least.2
  have bytes : ∀ x, x < f.start + 44 ∨ f.start + 48 ≤ x →
      (s.memory.mem.setWord (f.start + 44) value.toNat) x = s.memory.mem x := by
    intro x outside
    exact ByteMemory.setWord_other _ _ (by omega)
  have sameStop : (f.setEax value).stop = f.stop := by
    unfold ExceptionFrame.stop
    rw [ExceptionFrame.setEax_words, List.length_set]
    rfl
  have kept : FramesOn (s.memory.mem.setWord (f.start + 44) value.toNat) (L.high a.current)
      (f.setEax value :: fs) := by
    refine ⟨⟨room, ExceptionFrame.setEax_stacked value stacked, sameStop ▸ stop, others.1,
      others.2.1, ?_⟩,
      ?_⟩
    · intro user
      rw [sameStop]
      exact others.2.2 user
    · apply rest.congr
      intro x lower upper
      exact bytes x (by omega)
  rw [answered]
  refine ⟨agrees.cpu, agrees.known, agrees.apart, agrees.small, ?_, agrees.tss, ?_, ?_, ?_⟩
  · exact agrees.memory.withStack agrees.apart agrees.known (fun x outside => bytes x (by omega))
      kept
  · apply agrees.idleFrames
    intro isIdle g member
    have none := agrees.own_idle isIdle
    rw [isFrames] at none
    rcases List.mem_cons.mp member with rfl | inside
    · exact none f (List.mem_cons_self ..)
    · exact none g (List.mem_cons_of_mem _ inside)
  · intro user
    exact absurd user ring0
  · intro _
    rw [frames_setFrames]
    exact ⟨least, (agrees.kernel ring0).2⟩

theorem Agrees.leave (agrees : Agrees L s a) (permitted : Permitted L s a .leave) :
    Agrees L (s.step L .leave) (a.step .leave) := by
  obtain ⟨ring0, f, fs, isFrames, isEsp⟩ := permitted
  have own := agrees.memory.own
  have idle := agrees.own_idle
  rw [isFrames] at own idle
  obtain ⟨⟨room, stacked, stop, small, user, kernel⟩, rest⟩ := own
  have isKernel : ¬ a.cpu.User := by
    rw [← agrees.cpu]
    exact ring0
  obtain ⟨⟨low, _⟩, ss⟩ := agrees.kernel isKernel
  have back : s.machine.leave =
      { cpu := { f.cpu with cr3 := s.cpu.cr3 }
        mem := s.memory.mem } := by
    refine leave_frame stacked room (Nat.eq_sub_of_add_eq isEsp) ring0 small ?_
    intro inner
    have length := f.words_length
    rw [if_neg inner] at length
    obtain ⟨atStop, isSs⟩ := kernel inner
    unfold ExceptionFrame.stop at atStop
    rw [length] at atStop
    refine ⟨atStop, isSs.trans (ss.symm.trans ?_)⟩
    rw [← agrees.cpu]
    rfl
  have left : a.step .leave = { a.setFrames fs with cpu := { f.cpu with cr3 := a.cpu.cr3 } } := by
    change a.leave = _
    unfold Threads.leave
    rw [isFrames]
  have isCr3 : s.cpu.cr3 = a.cpu.cr3 := by rw [agrees.cpu]
  have frames : ∀ cpu : Cpu, ({ a.setFrames fs with cpu := cpu } : Threads).frames = fs :=
    fun _ => frames_setFrames a fs
  rw [left]
  change Agrees L (s.withMachine s.machine.leave) _
  rw [back, isCr3]
  refine ⟨rfl, agrees.known, agrees.apart, small, ?_, agrees.tss, ?_, ?_, ?_⟩
  · have agreed := agrees.memory.withFrames rest
    exact ⟨agreed.current, agreed.own, agreed.saved, agreed.inner⟩
  · apply agrees.idleFrames
    intro isIdle g inside
    exact idle isIdle g (List.mem_cons_of_mem _ inside)
  · intro isUser
    rw [frames]
    refine ⟨?_, user isUser⟩
    intro isIdle
    exact idle isIdle f (List.mem_cons_self ..) isUser
  · intro isInner
    obtain ⟨atStop, isSs⟩ := kernel isInner
    rw [frames]
    refine ⟨⟨?_, ?_⟩, isSs⟩
    · change L.low a.current ≤ f.cpu.esp
      have upward : f.stop = f.start + 4 * f.words.length := rfl
      rw [agrees.cpu] at isEsp
      omega
    · change f.cpu.esp ≤ _
      rw [atStop]
      exact stop

theorem Agrees.execve {dir : BitVec 32} (agrees : Agrees L s a) :
    Agrees L (s.step L (.execve dir)) (a.step (.execve dir)) := by
  have bytes : ∀ x, Kept L s.tasks a x →
      (s.memory.mem.setWord (s.memory.mem.word L.currentAt + cr3At) dir.toNat) x =
        s.memory.mem x := by
    intro x kept
    have off := kept.off_field agrees.apart agrees.known agrees.low_bottom
    unfold SwitchField at off
    rw [agrees.memory.current]
    exact ByteMemory.setWord_other _ _ (by omega)
  have agreed := agrees.memory.congr bytes
  refine ⟨?_, agrees.known, agrees.apart, agrees.small, ?_, agrees.tss, agrees.idle, agrees.user,
    agrees.kernel⟩
  · change { s.cpu with cr3 := dir } = { a.cpu with cr3 := dir }
    rw [agrees.cpu]
  · exact ⟨agreed.current, agreed.own, agreed.saved, agreed.inner⟩

theorem Agrees.userMode {work : Reg → BitVec 32} {entry stackTop : BitVec 32}
    (agrees : Agrees L s a) (permitted : Permitted L s a (.userMode work entry stackTop)) :
    Agrees L (s.step L (.userMode work entry stackTop))
      (a.step (.userMode work entry stackTop)) := by
  obtain ⟨ring0, notIdle, room⟩ := permitted
  obtain ⟨isCpu, bytes⟩ := switchToUserMode_cpu (m := s.machine) work entry stackTop
    ring0 (Nat.le_trans (Nat.le_add_left 20 _) room)
  have user := inUserMode_user a.cpu work entry stackTop
  have isKernel : ¬ a.cpu.User := by
    rw [← agrees.cpu]
    exact ring0
  obtain ⟨low, upper⟩ := (agrees.kernel isKernel).1
  have below := bottom_le agrees.memory.own
  refine ⟨?_, agrees.known, agrees.apart, stackTop.isLt, ?_, agrees.tss, ?_, ?_, ?_⟩
  · refine isCpu.trans ?_
    rw [show s.machine.cpu = a.cpu from agrees.cpu]
    rfl
  · have agreed := agrees.memory.withStack agrees.apart agrees.known
      (fun x outside => bytes x (by
        change x < s.cpu.esp - 20 ∨ s.cpu.esp ≤ x
        rw [agrees.cpu] at room ⊢
        omega)) (show FramesOn _ _ [] from trivial)
    exact ⟨agreed.current, agreed.own, agreed.saved, agreed.inner⟩
  · apply agrees.idleFrames
    intro _ f member
    cases member
  · intro _
    exact ⟨notIdle, frames_setFrames a []⟩
  · intro kernel
    exact absurd user kernel

/-! ### schedule -/

section Schedule

variable {next : Nat} {work : Reg → BitVec 32} {eip : BitVec 32}

theorem switchMm_bytes (m : Machine) (prev next : Nat) {x : Nat}
    (outside : x < prev + cr3At ∨ prev + cr3At + 4 ≤ x) :
    (m.switchMm prev next).mem x = m.mem x := ByteMemory.setWord_other _ _ outside

/-- What the switch to another task finds. -/
theorem Agrees.switchReady (agrees : Agrees L s a)
    (permitted : Permitted L s a (.schedule next work eip)) (different : a.current ≠ next) :
    SwitchReady (s.machine.switchMm a.current next) L.currentAt a.current next
      (s.memory.mem.word (next + espAt)) (a.thread next).context := by
  obtain ⟨ring0, known, _, room, top⟩ := permitted
  have saved := agrees.memory.saved next known different.symm
  have own := bottom_le agrees.memory.own
  have other := bottom_le saved.frames
  have least := saved.low
  have esp := saved.esp
  have upper := saved.top
  have structures := agrees.apart.structures a.current agrees.known next known different
  have kernelStacks := agrees.apart.kernelStacks a.current agrees.known next known different
  have ownAcross := agrees.apart.across a.current agrees.known a.current agrees.known
  have intoNext := agrees.apart.across a.current agrees.known next known
  have fromNext := agrees.apart.across next known a.current agrees.known
  obtain ⟨currentTask, currentStack⟩ := agrees.apart.current a.current agrees.known
  have currentNext := (agrees.apart.current next known).2
  obtain ⟨smallTask, smallStack⟩ := agrees.apart.small a.current agrees.known
  have smallNext := (agrees.apart.small next known).1
  unfold WordApart openFileTableAt at *
  have bytes : ∀ x, x < a.current + 44 ∨ a.current + 48 ≤ x →
      (s.machine.switchMm a.current next).mem x = s.memory.mem x :=
    fun x outside => switchMm_bytes s.machine a.current next outside
  have word : ∀ y, y + 4 ≤ a.current + 44 ∨ a.current + 48 ≤ y →
      (s.machine.switchMm a.current next).mem.word y = s.memory.mem.word y := by
    intro y outside
    apply ByteMemory.word_congr
    intro x lower upper
    exact bytes x (by omega)
  have isSaved := word (next + espAt) (by unfold espAt; omega)
  have stacked := saved.stacked
  generalize s.memory.mem.word (next + espAt) = b at *
  refine ⟨by omega, by omega, ?_, ?_, ?_, isSaved, ?_, ?_, ?_, ?_, ?_, ?_, ?_, ?_, ?_⟩
  · rw [word _ (by omega)]
    exact agrees.memory.current
  · change s.cpu.esp < _
    omega
  · exact Nat.le_trans (Nat.le_add_left 40 _) room
  · apply stacked.congr
    intro x lower below
    change x < _ + 44 at below
    exact bytes x (by omega)
  · change s.cpu.esp + 4 ≤ _ ∨ _ ≤ s.cpu.esp - 40
    omega
  · change WordApart _ (s.cpu.esp - 40) (s.cpu.esp + 4)
    unfold WordApart
    omega
  · unfold WordApart
    omega
  · change WordApart _ (s.cpu.esp - 40) (s.cpu.esp + 4)
    unfold WordApart espAt
    omega
  · unfold WordApart espAt
    omega
  · change WordApart _ (s.cpu.esp - 40) (s.cpu.esp + 4)
    unfold WordApart espAt
    omega
  · unfold WordApart espAt
    omega
  · unfold WordApart espAt
    omega

/-- The memory that a switch away from a task leaves. -/
structure SwitchedAway (L : Stacks) (s : SwitchKernel) (a : Threads) (next : Nat)
    (work : Reg → BitVec 32) (eip : BitVec 32) (after : Machine) : Prop where
  cpu : after.cpu = ((a.park work eip).resume next).cpu
  current : after.mem.word L.currentAt = next
  others : ∀ t ∈ s.tasks, t ≠ a.current →
    Saved after.mem (L.low t) (L.high t) t (a.thread t)
  parked : Saved after.mem (L.low a.current) (L.high a.current) a.current
    ((a.park work eip).thread a.current)
  inner : ∀ t ∈ s.tasks, t ≠ L.idle →
    InnerStack after.mem (L.low t) (L.high t) t (a.esp0 t)
  bytes : ∀ x, Kept L s.tasks a x → x < L.currentAt ∨ L.currentAt + 4 ≤ x →
    after.mem x = s.memory.mem x
  own : ∀ x, s.cpu.esp ≤ x → x < L.high a.current → after.mem x = s.memory.mem x

theorem Agrees.switchedAway (agrees : Agrees L s a)
    (permitted : Permitted L s a (.schedule next work eip)) (different : a.current ≠ next) :
    SwitchedAway L s a next work eip
      (Instr.run (s.machine.switchMm a.current next)
        (switchToCode L.currentAt a.current next work)) := by
  have switched := switchTo_run work (agrees.switchReady permitted different)
  obtain ⟨ring0, known, isTop, room, top⟩ := permitted
  have saved := agrees.memory.saved next known different.symm
  have own := bottom_le agrees.memory.own
  have ownAcross := agrees.apart.across a.current agrees.known a.current agrees.known
  have structures := agrees.apart.structures a.current agrees.known next known different
  obtain ⟨currentTask, currentStack⟩ := agrees.apart.current a.current agrees.known
  unfold WordApart at currentTask currentStack
  unfold openFileTableAt at ownAcross structures currentTask
  have isEsp : (s.machine.switchMm a.current next).cpu.esp = s.cpu.esp := rfl
  have isMachine : s.machine.mem = s.memory.mem := rfl
  have topKept : (s.machine.switchMm a.current next).top = eip := by
    rw [← isTop]
    unfold Machine.top load
    congr 1
    apply ByteMemory.word_congr
    intro x lower upper
    change s.cpu.esp ≤ x at lower
    change x < s.cpu.esp + 4 at upper
    exact switchMm_bytes _ _ _ (by unfold cr3At; omega)
  have isDir : (s.machine.switchMm a.current next).cpu.cr3 = (a.thread next).dir := by
    change BitVec.ofNat 32 (ByteMemory.word (s.memory.mem.setWord _ _) (next + cr3At)) = _
    rw [ByteMemory.word_setWord_other _ _ (by omega), saved.dir, BitVec.ofNat_toNat,
      BitVec.setWidth_eq]
  have context : Context.ofCpu (s.machine.switchMm a.current next).cpu work eip =
      Context.ofCpu a.cpu work eip := by
    change Context.ofCpu { s.cpu with cr3 := _ } work eip = _
    rw [agrees.cpu]
    rfl
  have writes := switched.bytes
  have stacked := switched.stacked
  have savedAt := switched.saved
  rw [isEsp] at writes stacked savedAt
  rw [topKept, context] at stacked
  have cpu := switched.cpu
  rw [saved.esp] at cpu
  generalize Instr.run (s.machine.switchMm a.current next)
    (switchToCode L.currentAt a.current next work) = after at *
  have bytes : ∀ x, Kept L s.tasks a x → x < L.currentAt ∨ L.currentAt + 4 ≤ x →
      after.mem x = s.memory.mem x := by
    intro x kept off
    have offStack := kept.off_stack agrees.apart agrees.known
    have offField := kept.off_field agrees.apart agrees.known agrees.low_bottom
    unfold SwitchField at offField
    rw [writes x (by unfold SwitchWrites; omega)]
    exact switchMm_bytes _ _ _ (by omega)
  have fieldOff : ∀ t ∈ s.tasks, ∀ x, t ≤ x → x < t + 184 →
      x < L.currentAt ∨ L.currentAt + 4 ≤ x := by
    intro t isTask x lower upper
    have away := (agrees.apart.current t isTask).1
    unfold WordApart openFileTableAt at away
    omega
  have stackOff : ∀ t ∈ s.tasks, ∀ x, L.low t ≤ x → x < L.high t →
      x < L.currentAt ∨ L.currentAt + 4 ≤ x := by
    intro t isTask x lower upper
    have away := (agrees.apart.current t isTask).2
    unfold WordApart at away
    omega
  have live : ∀ x, s.cpu.esp ≤ x → x < L.high a.current → after.mem x = s.memory.mem x := by
    intro x lower upper
    rw [writes x (by unfold SwitchWrites espAt; omega)]
    exact switchMm_bytes _ _ _ (by unfold cr3At; omega)
  refine ⟨?_, switched.current, ?_, ?_, ?_, bytes, live⟩
  · rw [cpu]
    change (a.thread next).context.resume
      { s.cpu with cr3 := (s.machine.switchMm a.current next).cpu.cr3 } _ = _
    have same : (a.park work eip).thread next = a.thread next :=
      Function.update_of_ne different.symm _ _
    rw [isDir, agrees.cpu]
    unfold Threads.resume
    rw [same]
    rfl
  · intro t isTask other
    apply (agrees.memory.saved t isTask other).congr
    · intro x inside
      have field := inside
      unfold SwitchField cr3At espAt at field
      exact bytes x (.field isTask other inside) (fieldOff t isTask x (by omega) (by omega))
    · intro x lower upper
      exact bytes x (.stack isTask other lower upper) (stackOff t isTask x lower upper)
  · have thread : (a.park work eip).thread a.current =
        { a.thread a.current with
          context := Context.ofCpu a.cpu work eip
          esp := a.cpu.esp + 4
          dir := a.cpu.cr3 } := Function.update_self ..
    have fits : s.cpu.esp - 40 + 44 = a.cpu.esp + 4 := by
      rw [← agrees.cpu]
      omega
    rw [thread]
    refine ⟨?_, ?_, ?_, ?_, ?_, ?_⟩
    · rw [savedAt]
      omega
    · rw [savedAt]
      exact fits
    · rw [savedAt]
      exact stacked
    · change a.cpu.esp + 4 ≤ _
      rw [← agrees.cpu]
      exact top
    · apply agrees.memory.own.congr
      intro x lower upper
      have inside : L.low a.current ≤ x := Nat.le_trans agrees.low_bottom lower
      exact bytes x (.frame lower upper) (stackOff _ agrees.known x inside upper)
    · have kept : after.mem.word (a.current + cr3At) =
          (s.machine.switchMm a.current next).mem.word (a.current + cr3At) := by
        apply ByteMemory.word_congr
        intro x lower upper
        unfold cr3At at lower upper
        exact writes x (by unfold SwitchWrites espAt; omega)
      rw [kept]
      change ByteMemory.word (s.memory.mem.setWord _ _) _ = _
      rw [ByteMemory.word_setWord, Nat.mod_eq_of_lt (BitVec.isLt _), ← agrees.cpu]
      rfl
  · intro t isTask notIdle
    apply (agrees.memory.inner t isTask notIdle).congr
    intro x inside
    have field := inside
    unfold TssField tssAt at field
    exact bytes x (.tss isTask inside) (fieldOff t isTask x (by omega) (by omega))

theorem Agrees.schedule (agrees : Agrees L s a)
    (permitted : Permitted L s a (.schedule next work eip)) :
    Agrees L (s.step L (.schedule next work eip)) (a.step (.schedule next work eip)) := by
  have isCurrent := agrees.memory.current
  change Agrees L (s.schedule L next work)
    (if a.current = next then a else (a.park work eip).resume next)
  unfold SwitchKernel.schedule
  dsimp only
  rw [isCurrent]
  by_cases same : a.current = next
  · rw [if_pos same, if_pos same]
    exact agrees
  · rw [if_neg same, if_neg same]
    have switched := agrees.switchedAway permitted same
    obtain ⟨ring0, known, _⟩ := permitted
    have saved := switched.others next known (Ne.symm same)
    have limit := (agrees.apart.small next known).2
    have below := bottom_le saved.frames
    have top := saved.top
    have isKernel : ¬ a.cpu.User := by
      rw [← agrees.cpu]
      exact ring0
    have isNext : (a.park work eip).thread next = a.thread next :=
      Function.update_of_ne (Ne.symm same) _ _
    have others : ∀ t, t ≠ a.current → (a.park work eip).thread t = a.thread t :=
      fun t different => Function.update_of_ne different _ _
    have frames : ((a.park work eip).resume next).frames = (a.thread next).frames := by
      change ((a.park work eip).thread next).frames = _
      rw [isNext]
    have esp : ((a.park work eip).resume next).cpu.esp = (a.thread next).esp := by
      change ((a.park work eip).thread next).esp = _
      rw [isNext]
    refine ⟨switched.cpu, known, agrees.apart, ?_, ?_, fun _ => rfl, ?_, ?_, ?_⟩
    · rw [esp]
      omega
    · refine ⟨switched.current, ?_, ?_, switched.inner⟩
      · rw [frames]
        exact saved.frames
      · intro t isTask different
        change Saved _ _ _ t ((a.park work eip).thread t)
        by_cases prev : t = a.current
        · rw [prev]
          exact switched.parked
        · rw [others t prev]
          exact switched.others t isTask prev
    · change ∀ f ∈ ((a.park work eip).thread L.idle).frames, _
      by_cases isIdle : L.idle = a.current
      · rw [isIdle]
        unfold Threads.park Threads.setThread
        simp only [Function.update_self]
        exact agrees.own_idle isIdle.symm
      · rw [others _ isIdle]
        exact agrees.idle
    · intro user
      exact absurd user isKernel
    · intro _
      rw [frames, esp]
      have low := saved.low
      have gap := saved.esp
      refine ⟨⟨?_, top⟩, (agrees.kernel isKernel).2⟩
      change L.low next ≤ _
      omega

end Schedule

/-! ### task_init -/

section TaskInit

variable {entry : Nat} {dir : BitVec 32}

/-- `task_init` lays a context out that starts at `entry`. -/
structure Laid (s : PhysicalMemory) (task entry : Nat) : Prop where
  esp : (fillTask s task entry).mem.word (task + espAt) = task + taskSize - 44
  stacked : Stacked (fillTask s task entry).mem (task + taskSize - 44)
    ((Context.first (BitVec.ofNat 32 entry)).words task)
  dir : (fillTask s task entry).mem.word (task + cr3At) = s.allocPage.1 % 4294967296
  esp0 : (fillTask s task entry).mem.word (task + tssAt + 4) = task + taskSize - 44
  ss0 : (fillTask s task entry).mem.word (task + tssAt + 8) = 16

theorem createPde_addr (s : PhysicalMemory) : (createPde s).1 = s.allocPage.1 := by
  unfold createPde
  by_cases full : s.allocPage.1 = 0
  · dsimp only
    rw [if_pos full]
    exact full.symm
  · dsimp only
    rw [if_neg full]

theorem pushWords_pushAll (values : List Nat) (m : Machine)
    (small : ∀ v ∈ values, v < 4294967296) :
    pushWords values m.mem m.cpu.esp = (m.pushAll (values.map (BitVec.ofNat 32))).mem := by
  induction values generalizing m with
  | nil => rfl
  | cons v values ih =>
      have isValue : (BitVec.ofNat 32 v).toNat = v := by
        rw [BitVec.toNat_ofNat]
        exact Nat.mod_eq_of_lt (small v (List.mem_cons_self ..))
      have rest := ih (m.push (BitVec.ofNat 32 v)) (fun w member =>
        small w (List.mem_cons_of_mem _ member))
      rw [List.map_cons, pushAll_cons, ← rest]
      change pushWords values (m.mem.setWord _ v) _ = pushWords values (m.mem.setWord _ _) _
      rw [isValue]
      rfl

/-- The words of `task_init` are a context. -/
theorem pushWords_stacked (mem : ByteMemory) {task : Nat} (entrySmall : entry < 4294967296)
    (taskSmall : task < 4294967296) :
    Stacked (pushWords (stackWords entry task) mem (task + taskSize)) (task + taskSize - 44)
      ((Context.first (BitVec.ofNat 32 entry)).words task) := by
  let m : Machine :=
    { cpu := { reg := fun _ => 0, seg := fun _ => 0, esp := task + taskSize, eflags := 0, eip := 0,
               cs := 0, ss := 0, cr3 := 0 }
      mem := mem }
  have small : ∀ v ∈ stackWords entry task, v < 4294967296 := by
    intro v member
    simp only [stackWords, List.mem_cons, List.not_mem_nil, or_false] at member
    omega
  have pushed := pushWords_pushAll (stackWords entry task) m small
  have stacked := pushAll_words ((stackWords entry task).map (BitVec.ofNat 32)) m
    (by
      change 44 ≤ task + 8192
      omega)
  rw [← pushed] at stacked
  exact stacked

theorem fillTask_laid {task : Nat} {s : PhysicalMemory} (entrySmall : entry < 4294967296)
    (taskSmall : task + taskSize < 4294967296)
    (page : ∀ x, (task ≤ x ∧ x < task + 184) ∨
        (task + taskSize - 44 ≤ x ∧ x < task + taskSize) →
      s.allocPage.1 = 0 ∨ x < s.allocPage.1 ∨ s.allocPage.1 + 4096 ≤ x) : Laid s task entry := by
  unfold taskSize at taskSmall page
  have stacked := pushWords_stacked (s.mem.setWord (task + sliceAt) 10) entrySmall
    (by omega : task < 4294967296)
  let low := pushWords (stackWords entry task) (s.mem.setWord (task + sliceAt) 10)
    (task + taskSize)
  let filled := low.setWord (task + espAt) (task + taskSize - 44)
  let made := (createPde (s.setMem filled)).2.mem
  have addr : (createPde (s.setMem filled)).1 = s.allocPage.1 := createPde_addr (s.setMem filled)
  obtain ⟨cr3, mem⟩ : ∃ cr3, (fillTask s task entry).mem =
      ((((made.setWord (task + cr3At) s.allocPage.1).setWord task 0).setWord (task + tssAt + 4)
        (task + taskSize - 44)).setWord (task + tssAt + 8) 16).setWord (task + tssAt + 28) cr3 := by
    rw [← addr]
    exact ⟨_, rfl⟩
  have kept : ∀ x, (task ≤ x ∧ x < task + 184) ∨
      (task + taskSize - 44 ≤ x ∧ x < task + taskSize) → made x = filled x :=
    fun x inside => createPde_outside (page x inside) filled
  change Stacked low _ _ at stacked
  clear_value low
  unfold cr3At tssAt taskSize at mem
  unfold taskSize at kept stacked
  have limit : (task + 8192 - 44) % 4294967296 = task + 8192 - 44 := Nat.mod_eq_of_lt (by omega)
  refine ⟨?_, ?_, ?_, ?_, ?_⟩
  · have same : made.word (task + 56) = filled.word (task + 56) :=
      ByteMemory.word_congr fun x lower upper => kept x (by omega)
    unfold espAt taskSize
    rw [mem, ByteMemory.word_setWord_other _ _ (by omega),
      ByteMemory.word_setWord_other _ _ (by omega), ByteMemory.word_setWord_other _ _ (by omega),
      ByteMemory.word_setWord_other _ _ (by omega), ByteMemory.word_setWord_other _ _ (by omega),
      same]
    exact (ByteMemory.word_setWord _ _ _).trans limit
  · apply stacked.congr
    intro x lower upper
    change x < task + 8192 - 44 + 44 at upper
    rw [mem, ByteMemory.setWord_other _ _ (by omega), ByteMemory.setWord_other _ _ (by omega),
      ByteMemory.setWord_other _ _ (by omega), ByteMemory.setWord_other _ _ (by omega),
      ByteMemory.setWord_other _ _ (by omega), kept x (by omega)]
    exact ByteMemory.setWord_other _ _ (by unfold espAt; omega)
  · unfold cr3At
    rw [mem, ByteMemory.word_setWord_other _ _ (by omega),
      ByteMemory.word_setWord_other _ _ (by omega), ByteMemory.word_setWord_other _ _ (by omega),
      ByteMemory.word_setWord_other _ _ (by omega), ByteMemory.word_setWord]
  · unfold tssAt taskSize
    rw [mem, ByteMemory.word_setWord_other _ _ (by omega),
      ByteMemory.word_setWord_other _ _ (by omega), ByteMemory.word_setWord]
    exact limit
  · unfold tssAt
    rw [mem, ByteMemory.word_setWord_other _ _ (by omega), ByteMemory.word_setWord]

/-- Nothing that is kept lies in a new task. -/
theorem Begins.spared {task x : Nat} (begins : Begins L s a task entry dir)
    (known : a.current ∈ s.tasks)
    (least : L.low a.current ≤ bottom (L.high a.current) a.frames) (kept : Kept L s.tasks a x) :
    Spared s.memory task x := by
  have member : task ∈ task :: s.tasks := List.mem_cons_self ..
  have old : ∀ {t}, t ∈ s.tasks → t ∈ task :: s.tasks := List.mem_cons_of_mem _
  have new : ∀ {t}, t ∈ s.tasks → t ≠ task := by
    rintro t inside rfl
    exact begins.new inside
  have high := begins.high
  have low := begins.low
  have apart := begins.apart
  have away : (x < task ∨ task + openFileTableAt ≤ x) ∧
      (x < task + taskSize - 44 ∨ task + taskSize ≤ x) := by
    unfold openFileTableAt taskSize
    unfold taskSize at high low
    cases kept with
    | current first last =>
        obtain ⟨structure_, stack⟩ := apart.current task member
        unfold WordApart openFileTableAt at structure_
        unfold WordApart at stack
        omega
    | @field t isTask _ inside =>
        have structures := apart.structures t (old isTask) task member (new isTask)
        have across := apart.across t (old isTask) task member
        unfold SwitchField cr3At espAt at inside
        unfold openFileTableAt at structures across
        omega
    | @tss t isTask inside =>
        have structures := apart.structures t (old isTask) task member (new isTask)
        have across := apart.across t (old isTask) task member
        unfold TssField tssAt at inside
        unfold openFileTableAt at structures across
        omega
    | @stack t isTask _ first last =>
        have kernelStacks := apart.kernelStacks t (old isTask) task member (new isTask)
        have across := apart.across task member t (old isTask)
        unfold openFileTableAt at across
        omega
    | frame first last =>
        have kernelStacks := apart.kernelStacks _ (old known) task member (new known)
        have across := apart.across task member _ (old known)
        unfold openFileTableAt at across
        omega
  exact ⟨away.1, away.2, begins.page x (Or.inl kept)⟩

theorem Agrees.taskInit {task : Nat} (agrees : Agrees L s a)
    (begins : Begins L s a task entry dir) :
    Agrees L (s.step L (.taskInit task entry dir)) (a.step (.taskInit task entry dir)) := by
  have new : ∀ {t}, t ∈ s.tasks → t ≠ task := by
    rintro t known rfl
    exact begins.new known
  have high := begins.high
  have low := begins.low
  have limit := (begins.apart.small task (List.mem_cons_self ..)).2
  rw [high] at limit
  have laid : Laid s.memory task entry := by
    apply fillTask_laid begins.entrySmall limit
    intro x inside
    refine begins.page x (Or.inr ?_)
    unfold taskSize at inside ⊢
    omega
  have agreed := agrees.memory.congr fun x kept =>
    fillTask_spared entry (begins.spared agrees.known agrees.low_bottom kept)
  have threads : ∀ {t}, t ≠ task →
      (a.step (.taskInit task entry dir)).thread t = a.thread t :=
    fun different => Function.update_of_ne different _ _
  have inner : ∀ {t}, t ≠ task → (a.step (.taskInit task entry dir)).esp0 t = a.esp0 t :=
    fun different => Function.update_of_ne different _ _
  have isNew : (a.step (.taskInit task entry dir)).thread task =
      { frames := []
        context := Context.first (BitVec.ofNat 32 entry)
        esp := task + taskSize
        dir := dir } := Function.update_self ..
  have isStack : (a.step (.taskInit task entry dir)).esp0 task = task + taskSize - 44 :=
    Function.update_self ..
  have frames : (a.step (.taskInit task entry dir)).frames = a.frames :=
    congrArg Thread.frames (threads (new agrees.known))
  refine ⟨agrees.cpu, List.mem_cons_of_mem _ agrees.known, begins.apart, agrees.small, ?_,
    agrees.tss, ?_, ?_, ?_⟩
  · refine ⟨agreed.current, ?_, ?_, ?_⟩
    · rw [frames]
      exact agreed.own
    · intro t member different
      rcases List.mem_cons.mp member with rfl | known
      · rw [isNew]
        unfold taskSize at high low
        refine ⟨?_, ?_, ?_, ?_, trivial, ?_⟩
        · change _ ≤ (fillTask s.memory t entry).mem.word _
          rw [laid.esp]
          unfold taskSize
          omega
        · change (fillTask s.memory t entry).mem.word _ + 44 = t + 8192
          rw [laid.esp]
          unfold taskSize
          omega
        · change Stacked (fillTask s.memory t entry).mem
            ((fillTask s.memory t entry).mem.word _) _
          rw [laid.esp]
          exact laid.stacked
        · exact Nat.le_of_eq high.symm
        · refine laid.dir.trans ?_
          rw [begins.isDir, BitVec.toNat_ofNat]
      · rw [threads (new known)]
        exact agreed.saved t known different
    · intro t member notIdle
      rcases List.mem_cons.mp member with rfl | known
      · rw [isStack]
        unfold taskSize at high low
        refine ⟨laid.esp0, laid.ss0, ?_, ?_⟩ <;> unfold taskSize <;> omega
      · rw [inner (new known)]
        exact agreed.inner t known notIdle
  · rw [threads (Ne.symm begins.notIdle)]
    exact agrees.idle
  · rw [frames]
    exact agrees.user
  · rw [frames]
    exact agrees.kernel

end TaskInit

/-! ### Runs -/

/-- One event. -/
theorem Agrees.step (agrees : Agrees L s a) {e : KernelEvent} (permitted : Permitted L s a e) :
    Agrees L (s.step L e) (a.step e) := by
  cases e with
  | work cpu memory => exact agrees.work permitted
  | schedule next work eip => exact agrees.schedule permitted
  | taskInit task entry dir => exact agrees.taskInit permitted
  | trap t => exact agrees.trap permitted
  | answer frame value => exact agrees.answer permitted
  | leave => exact agrees.leave permitted
  | execve dir => exact agrees.execve
  | userMode work entry stackTop => exact agrees.userMode permitted

theorem Agrees.run {events : List KernelEvent} (agrees : Agrees L s a)
    (permitted : PermittedRun L s a events) : Agrees L (s.run L events) (a.run events) := by
  induction events generalizing s a with
  | nil => exact agrees
  | cons e events ih => exact ih (agrees.step permitted.1) permitted.2

/-! ### From boot -/

/-- The end of `kernel_init`: the idle task is `current`, on the stack of the boot code.  The
first `task_init` after that is the one of the init task, which does not read `current`. -/
structure SwitchKernel.Booted (L : Stacks) (s : SwitchKernel) : Prop where
  tasks : s.tasks = [L.idle]
  current : s.memory.mem.word L.currentAt = L.idle
  apart : L.Apart s.tasks
  kernel : ¬ s.cpu.User
  ss : s.cpu.ss = Threads.kernelSelectorDs
  stack : L.low L.idle ≤ s.cpu.esp ∧ s.cpu.esp ≤ L.high L.idle

/-- The idle task alone. -/
def Threads.boot (cpu : Cpu) (idle : Nat) : Threads where
  cpu := cpu
  current := idle
  thread := fun _ =>
    { frames := []
      context := Context.first 0
      esp := 0
      dir := 0 }
  esp0 := fun _ => 0

theorem SwitchKernel.Booted.agrees (booted : s.Booted L) :
    Agrees L s (Threads.boot s.cpu L.idle) := by
  have known : L.idle ∈ s.tasks := by
    rw [booted.tasks]
    exact List.mem_singleton_self _
  have limit := (booted.apart.small L.idle known).2
  have least := booted.stack
  refine ⟨rfl, known, booted.apart, ?_, ⟨booted.current, trivial, ?_, ?_⟩, ?_, ?_, ?_, ?_⟩
  · change s.cpu.esp < _
    omega
  · intro t isTask other
    rw [booted.tasks] at isTask
    exact absurd (List.mem_singleton.mp isTask) other
  · intro t isTask other
    rw [booted.tasks] at isTask
    exact absurd (List.mem_singleton.mp isTask) other
  · intro other
    exact absurd rfl other
  · intro f member
    cases member
  · intro user
    exact absurd user booted.kernel
  · intro _
    exact ⟨least, booted.ss⟩

/-- The processor, `current` and the task register are those of the coroutines. -/
structure RunsAs (L : Stacks) (s : SwitchKernel) (a : Threads) : Prop where
  cpu : s.cpu = a.cpu
  current : s.memory.mem.word L.currentAt = a.current
  tr : a.current ≠ L.idle → s.tr = a.current + tssAt

/-- The switches, traps and returns of the kernel on its stacks in memory are those of coroutines
that have no memory, over every run. -/
theorem kernelRun_coroutines {events : List KernelEvent} (booted : s.Booted L)
    (permitted : PermittedRun L s (Threads.boot s.cpu L.idle) events) :
    RunsAs L (s.run L events) ((Threads.boot s.cpu L.idle).run events) := by
  have agrees := booted.agrees.run permitted
  exact ⟨agrees.cpu, agrees.memory.current, agrees.tss⟩

/-! ### A kernel with one task beside the idle task -/

def firstStacks : Stacks where
  currentAt := 1024
  idle := 0
  low := fun t => if t = 0 then 2048 else t + 696
  high := fun t => if t = 0 then 4096 else t + 8192

def firstKernel : SwitchKernel where
  cpu :=
    { reg := fun _ => 0, seg := fun _ => 16, esp := 4000, eflags := 514, eip := 0, cs := 8,
      ss := 16, cr3 := 0 }
  memory :=
    { mem := fun _ => 0
      pages :=
        { nbits := 16
          base := fun byte => if byte = 0 then 1#8 else 0#8 } }
  tr := 0
  tasks := [0]

theorem firstStacks_apart : firstStacks.Apart [8192, 0] := by
  have low0 : firstStacks.low 0 = 2048 := rfl
  have high0 : firstStacks.high 0 = 4096 := rfl
  have low1 : firstStacks.low 8192 = 8888 := rfl
  have high1 : firstStacks.high 8192 = 16384 := rfl
  have current : firstStacks.currentAt = 1024 := rfl
  constructor <;> simp [WordApart, openFileTableAt, low0, high0, low1, high1, current]

theorem firstKernel_booted : firstKernel.Booted firstStacks := by
  refine ⟨rfl, rfl, ?_, by decide, rfl, by decide⟩
  have all := firstStacks_apart
  have member : ∀ t ∈ firstKernel.tasks, t ∈ [8192, 0] := fun t => List.mem_cons_of_mem _
  exact ⟨fun t isTask u isOther => all.structures t (member t isTask) u (member u isOther),
    fun t isTask u isOther => all.kernelStacks t (member t isTask) u (member u isOther),
    fun t isTask u isOther => all.across t (member t isTask) u (member u isOther),
    fun t isTask => all.current t (member t isTask),
    fun t isTask => all.small t (member t isTask)⟩

def firstThreads : Threads := Threads.boot firstKernel.cpu 0

theorem firstKernel_begins :
    Begins firstStacks firstKernel firstThreads 8192 1000 4096 := by
  have page : firstKernel.memory.allocPage.1 = 4096 := by decide +kernel
  refine ⟨by decide, by decide, by decide, firstStacks_apart, rfl, by decide, by decide, ?_, ?_⟩
  · rw [page]
    rfl
  · intro x inside
    rw [page]
    rcases inside with kept | inside
    · cases kept with
      | current lower upper =>
          change x < 1024 + 4 at upper
          omega
      | field known other =>
          exact absurd (List.mem_singleton.mp known) other
      | tss known inside =>
          rw [List.mem_singleton.mp known] at inside
          unfold TssField tssAt at inside
          omega
      | stack known other =>
          exact absurd (List.mem_singleton.mp known) other
      | frame lower upper =>
          change 4096 ≤ x at lower
          change x < 4096 at upper
          omega
    · unfold taskSize at inside
      omega

/-- The init task is made, runs and goes to ring 3. -/
def firstEvents (regs : Reg → BitVec 32) : List KernelEvent :=
  [.taskInit 8192 1000 4096,
    .schedule 8192 (fun _ => 0)
      (firstKernel.step firstStacks (.taskInit 8192 1000 4096)).machine.top,
    .userMode regs 1000 65536]

theorem firstEvents_permitted (regs : Reg → BitVec 32) :
    PermittedRun firstStacks firstKernel firstThreads (firstEvents regs) := by
  have booted : Agrees firstStacks firstKernel firstThreads := firstKernel_booted.agrees
  have made := booted.step (e := .taskInit 8192 1000 4096) firstKernel_begins
  have switches : Permitted firstStacks
      (firstKernel.step firstStacks (.taskInit 8192 1000 4096))
      (firstThreads.step (.taskInit 8192 1000 4096))
      (.schedule 8192 (fun _ => 0)
        (firstKernel.step firstStacks (.taskInit 8192 1000 4096)).machine.top) :=
    ⟨by decide, List.mem_cons_self .., rfl, by decide, by decide⟩
  have isCpu := (made.step switches).cpu
  refine ⟨firstKernel_begins, switches, ⟨?_, ?_, ?_⟩, trivial⟩
  · rw [isCpu]
    decide
  · decide
  · rw [isCpu]
    decide

theorem kernelRun_coroutines_first :
    firstKernel.Booted firstStacks ∧
      PermittedRun firstStacks firstKernel firstThreads (firstEvents fun _ => 0) ∧
      RunsAs firstStacks (firstKernel.run firstStacks (firstEvents fun _ => 0))
        (firstThreads.run (firstEvents fun _ => 0)) :=
  ⟨firstKernel_booted, firstEvents_permitted _,
    kernelRun_coroutines firstKernel_booted (firstEvents_permitted _)⟩

end MangoOS
