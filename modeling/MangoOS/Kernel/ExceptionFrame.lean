/-
The macro exception_handler (kernel/start.S): the exception_frame_t that an interrupt and the
entry code leave on the kernel stack, and the way back.
-/

import MangoOS.Library.StackMachine

namespace MangoOS

open Machine Instr

/-! ### The entry and the exit -/

/-- `exception_handler name num err_code` up to the first instruction of `do_handler_name`;
`returnTo` is the address behind the call. -/
def entryCode (num : BitVec 32) (errCode : Bool) (returnTo : BitVec 32) : List Instr :=
  (if errCode then [] else [pushImm 0]) ++
    ([pushImm num, pusha, pushSeg .ds, pushSeg .es, pushSeg .fs, pushSeg .gs] ++
      [pushEsp, pushImm returnTo])

/-- The rest of the macro, before `iret`. -/
def exitCode : List Instr :=
  [addEsp 4, popSeg .gs, popSeg .fs, popSeg .es, popSeg .ds, popa, addEsp 8]

/-- What brings the processor into a handler. -/
structure Trap where
  gate : Gate
  num : BitVec 32
  /-- The error code of the exceptions that have one. -/
  error : Option (BitVec 32)
  returnTo : BitVec 32

/-- An interrupt, the error code of the processor and the entry code. -/
def Machine.trap (m : Machine) (tss : Nat) (t : Trap) : Machine :=
  let m := m.interrupt tss t.gate
  let m := match t.error with
    | some code => m.push code
    | none => m
  Instr.run m (entryCode t.num t.error.isSome t.returnTo)

/-- The handler has returned. -/
def Machine.leave (m : Machine) : Machine := (Instr.run m exitCode).iret

/-! ### exception_frame_t -/

/-- An `exception_frame_t` at `start`: the processor that was interrupted. -/
structure ExceptionFrame where
  start : Nat
  cpu : Cpu
  num : BitVec 32
  error : BitVec 32

namespace ExceptionFrame

/-- From `gs` up to `eflags`. -/
def fields (f : ExceptionFrame) : List (BitVec 32) :=
  [(f.cpu.seg .gs).setWidth 32, (f.cpu.seg .fs).setWidth 32, (f.cpu.seg .es).setWidth 32,
    (f.cpu.seg .ds).setWidth 32, f.cpu.reg .edi, f.cpu.reg .esi, f.cpu.reg .ebp,
    BitVec.ofNat 32 (f.start + 48), f.cpu.reg .ebx, f.cpu.reg .edx, f.cpu.reg .ecx,
    f.cpu.reg .eax, f.num, f.error, f.cpu.eip, f.cpu.cs.setWidth 32, f.cpu.eflags]

/-- Behind the fields stand the stack pointer and the stack segment of ring 3. -/
def words (f : ExceptionFrame) : List (BitVec 32) :=
  f.fields ++
    if f.cpu.User then [BitVec.ofNat 32 f.cpu.esp, f.cpu.ss.setWidth 32] else []

/-- The end of the frame. -/
def stop (f : ExceptionFrame) : Nat := f.start + 4 * f.words.length

/-- The frame of a trap; `base` is the end of its fields. -/
def ofTrap (cpu : Cpu) (base : Nat) (t : Trap) : ExceptionFrame where
  start := base - 68
  cpu := cpu
  num := t.num
  error := t.error.getD 0

theorem words_length (f : ExceptionFrame) : 4 * f.words.length = if f.cpu.User then 76 else 68 := by
  unfold words
  by_cases user : f.cpu.User
  · rw [if_pos user, if_pos user]
    rfl
  · rw [if_neg user, if_neg user]
    rfl

/-- The processor in the handler; `ss` is the stack segment of ring 0. -/
def handlerCpu (f : ExceptionFrame) (gate : Gate) (ss : BitVec 16) : Cpu :=
  { f.cpu with
    esp := f.start - 8
    eflags := f.cpu.eflags &&& ~~~0x34300
    eip := gate.offset
    cs := gate.selector
    ss := ss }

/-- `frame->eax = value` -/
def setEax (f : ExceptionFrame) (value : BitVec 32) : ExceptionFrame :=
  { f with cpu := { f.cpu with reg := Function.update f.cpu.reg .eax value } }

theorem setEax_words (f : ExceptionFrame) (value : BitVec 32) :
    (f.setEax value).words = f.words.set 11 value := by
  have fields : (f.setEax value).fields = f.fields.set 11 value := rfl
  have short : 11 < f.fields.length := by
    change 11 < 17
    decide
  unfold words
  rw [fields, List.set_append_left _ _ short]
  rfl

theorem setEax_stacked {mem : ByteMemory} {f : ExceptionFrame} (value : BitVec 32)
    (stacked : Stacked mem f.start f.words) :
    Stacked (mem.setWord (f.start + 44) value.toNat) f.start (f.setEax value).words := by
  rw [setEax_words]
  refine stacked.setWord_at (k := 11) ?_ value
  have length := f.words_length
  split at length <;> omega

end ExceptionFrame

/-! ### The way in -/

variable {m : Machine}

theorem pusha_pushes (m : Machine) :
    Instr.exec m pusha =
      m.pushAll [m.cpu.reg .eax, m.cpu.reg .ecx, m.cpu.reg .edx, m.cpu.reg .ebx,
        BitVec.ofNat 32 m.cpu.esp, m.cpu.reg .ebp, m.cpu.reg .esi, m.cpu.reg .edi] := rfl

theorem pushSegs_pushes (m : Machine) :
    Instr.run m [pushSeg .ds, pushSeg .es, pushSeg .fs, pushSeg .gs] =
      m.pushAll [(m.cpu.seg .ds).setWidth 32, (m.cpu.seg .es).setWidth 32,
        (m.cpu.seg .fs).setWidth 32, (m.cpu.seg .gs).setWidth 32] := by
  simp only [run_cons, run_nil, Instr.exec, pushAll_cons, pushAll_nil, push_seg]

theorem entryCode_pushes (m : Machine) (num error : BitVec 32) :
    Instr.run (m.push error)
      [pushImm num, pusha, pushSeg .ds, pushSeg .es, pushSeg .fs, pushSeg .gs] =
      m.pushAll ([error, num] ++ [m.cpu.reg .eax, m.cpu.reg .ecx, m.cpu.reg .edx, m.cpu.reg .ebx,
        BitVec.ofNat 32 (m.cpu.esp - 8), m.cpu.reg .ebp, m.cpu.reg .esi, m.cpu.reg .edi] ++
        [(m.cpu.seg .ds).setWidth 32, (m.cpu.seg .es).setWidth 32, (m.cpu.seg .fs).setWidth 32,
          (m.cpu.seg .gs).setWidth 32]) := by
  have first : Instr.exec (m.push error) (pushImm num) = m.pushAll [error, num] := rfl
  rw [run_cons, run_cons, pusha_pushes, pushSegs_pushes, pushAll_append, pushAll_append, first]
  simp only [pushAll_reg, pushAll_seg, pushAll_esp, List.length_cons, List.length_nil, Nat.zero_add,
    Nat.reduceAdd, Nat.reduceMul]

/-- With the error code pushed by either side the entry code does the same. -/
theorem entryCode_error (m : Machine) (t : Trap) :
    Instr.run (match t.error with
      | some code => m.push code
      | none => m) (entryCode t.num t.error.isSome t.returnTo) =
      Instr.run (m.push (t.error.getD 0))
        ([pushImm t.num, pusha, pushSeg .ds, pushSeg .es, pushSeg .fs, pushSeg .gs] ++
          [pushEsp, pushImm t.returnTo]) := by
  unfold entryCode
  generalize [pushImm t.num, pusha, pushSeg .ds, pushSeg .es, pushSeg .fs, pushSeg .gs] ++
    [pushEsp, pushImm t.returnTo] = rest
  cases t.error with
  | none => exact run_append m [pushImm 0] rest
  | some code => rfl

/-- What a trap pushes: the fields of the frame, their address and the return address. -/
theorem trap_pushes (m : Machine) (tss : Nat) (t : Trap) {base : Nat}
    (isBase : (m.enterRing0 tss).cpu.esp = base) (room : 68 ≤ base) :
    m.trap tss t =
      ((m.enterRing0 tss).pushAll ((ExceptionFrame.ofTrap m.cpu base t).fields.reverse ++
        [BitVec.ofNat 32 (base - 68), t.returnTo])).enterGate t.gate := by
  have saved : m.interrupt tss t.gate =
      ((m.enterRing0 tss).pushAll [m.cpu.eflags, m.cpu.cs.setWidth 32, m.cpu.eip]).enterGate
        t.gate := rfl
  have call : ∀ low : Machine, Instr.run low [pushEsp, pushImm t.returnTo] =
      low.pushAll [BitVec.ofNat 32 low.cpu.esp, t.returnTo] := fun _ => rfl
  have start : base - 68 + 48 = base - 4 * 3 - 8 := by omega
  unfold trap
  dsimp only
  rw [saved, entryCode_error, run_append, entryCode_pushes, call, enterGate_pushAll,
    enterGate_pushAll, enterGate_esp]
  simp only [enterGate_reg, enterGate_seg, enterGate_esp, pushAll_reg, pushAll_seg, pushAll_esp,
    enterRing0_reg, enterRing0_seg, isBase, ← pushAll_append]
  congr 2
  unfold ExceptionFrame.fields ExceptionFrame.ofTrap
  dsimp only
  rw [start]
  simp

/-- Where the frame of the next trap ends. -/
def Machine.trapStack (m : Machine) (tss : Nat) : Nat :=
  if m.cpu.User then m.mem.word (tss + 4) else m.cpu.esp

/-- The processor in front of the pushes of a trap. -/
def Machine.onTrapStack (m : Machine) (tss : Nat) : Machine :=
  if m.cpu.User then
    { m with cpu := { m.cpu with
                      esp := m.mem.word (tss + 4)
                      ss := BitVec.ofNat 16 (m.mem.word (tss + 8)) } }
  else m

/-- The frame of a trap out of `m`. -/
def Machine.trapFrame (m : Machine) (tss : Nat) (t : Trap) : ExceptionFrame :=
  ExceptionFrame.ofTrap m.cpu (m.trapStack tss - if m.cpu.User then 8 else 0) t

theorem onTrapStack_esp (m : Machine) (tss : Nat) :
    (m.onTrapStack tss).cpu.esp = m.trapStack tss := by
  unfold onTrapStack trapStack
  split <;> rfl

theorem onTrapStack_mem (m : Machine) (tss : Nat) : (m.onTrapStack tss).mem = m.mem := by
  unfold onTrapStack
  split <;> rfl

theorem trap_words (m : Machine) (tss : Nat) (t : Trap) (room : 84 ≤ m.trapStack tss) :
    m.trap tss t =
      ((m.onTrapStack tss).pushAll ((m.trapFrame tss t).words.reverse ++
        [BitVec.ofNat 32 (m.trapFrame tss t).start, t.returnTo])).enterGate t.gate := by
  unfold trapFrame
  by_cases user : m.cpu.User
  · have inner : m.enterRing0 tss =
        (m.onTrapStack tss).pushAll [m.cpu.ss.setWidth 32, BitVec.ofNat 32 m.cpu.esp] := by
      unfold enterRing0 onTrapStack
      rw [if_pos user, if_pos user]
      rfl
    have base : (m.enterRing0 tss).cpu.esp = m.trapStack tss - 8 := by
      rw [inner, pushAll_esp, onTrapStack_esp]
      rfl
    have words : (ExceptionFrame.ofTrap m.cpu (m.trapStack tss - 8) t).words.reverse =
        [m.cpu.ss.setWidth 32, BitVec.ofNat 32 m.cpu.esp] ++
          (ExceptionFrame.ofTrap m.cpu (m.trapStack tss - 8) t).fields.reverse := by
      have isUser : (ExceptionFrame.ofTrap m.cpu (m.trapStack tss - 8) t).cpu.User := user
      unfold ExceptionFrame.words
      rw [if_pos isUser, List.reverse_append]
      rfl
    rw [if_pos user, trap_pushes m tss t base (by omega), words, List.append_assoc,
      pushAll_append _ [_, _], inner]
    rfl
  · have same : m.enterRing0 tss = m.onTrapStack tss := by
      unfold enterRing0 onTrapStack
      rw [if_neg user, if_neg user]
    have base : (m.enterRing0 tss).cpu.esp = m.trapStack tss - 0 := by
      rw [same, onTrapStack_esp, Nat.sub_zero]
    have words : (ExceptionFrame.ofTrap m.cpu (m.trapStack tss - 0) t).words =
        (ExceptionFrame.ofTrap m.cpu (m.trapStack tss - 0) t).fields := by
      have isKernel : ¬ (ExceptionFrame.ofTrap m.cpu (m.trapStack tss - 0) t).cpu.User := user
      unfold ExceptionFrame.words
      rw [if_neg isKernel, List.append_nil]
    rw [if_neg user, trap_pushes m tss t base (by omega), words, same]
    rfl

theorem trapFrame_stop (m : Machine) (tss : Nat) (t : Trap) (room : 84 ≤ m.trapStack tss) :
    (m.trapFrame tss t).stop = m.trapStack tss := by
  unfold ExceptionFrame.stop
  rw [ExceptionFrame.words_length]
  unfold trapFrame ExceptionFrame.ofTrap
  dsimp only
  split <;> omega

/-- The frame of a trap lies on the stack, and the handler runs below it. -/
structure Trapped (m after : Machine) (tss : Nat) (f : ExceptionFrame) (t : Trap) : Prop where
  cpu : after.cpu = f.handlerCpu t.gate (m.onTrapStack tss).cpu.ss
  call : Stacked after.mem (f.start - 8) [t.returnTo, BitVec.ofNat 32 f.start]
  stacked : Stacked after.mem f.start f.words
  bytes : ∀ x, x < f.start - 8 ∨ f.stop ≤ x → after.mem x = m.mem x

theorem trap_trapped (m : Machine) (tss : Nat) (t : Trap) (room : 84 ≤ m.trapStack tss) :
    Trapped m (m.trap tss t) tss (m.trapFrame tss t) t := by
  have stop := trapFrame_stop m tss t room
  have length : 4 * ((m.trapFrame tss t).words.reverse ++
      [BitVec.ofNat 32 (m.trapFrame tss t).start, t.returnTo]).length =
      4 * (m.trapFrame tss t).words.length + 8 := by
    rw [List.length_append, List.length_reverse]
    exact Nat.mul_add 4 _ 2
  have small : 4 * (m.trapFrame tss t).words.length ≤ 76 := by
    rw [ExceptionFrame.words_length]
    split <;> omega
  have enough : 4 * ((m.trapFrame tss t).words.reverse ++
      [BitVec.ofNat 32 (m.trapFrame tss t).start, t.returnTo]).length ≤
      (m.onTrapStack tss).cpu.esp := by
    rw [length, onTrapStack_esp]
    omega
  have pushed := pushAll_words _ (m.onTrapStack tss) enough
  unfold ExceptionFrame.stop at stop
  rw [length, onTrapStack_esp, List.reverse_append, List.reverse_reverse] at pushed
  have esp : m.trapStack tss - (4 * (m.trapFrame tss t).words.length + 8) =
      (m.trapFrame tss t).start - 8 := by omega
  refine ⟨?_, ?_, ?_, ?_⟩
  · rw [trap_words m tss t room]
    unfold enterGate
    dsimp only
    rw [pushAll_cpu, length, onTrapStack_esp, esp]
    unfold onTrapStack
    split <;> rfl
  · rw [trap_words m tss t room, ← esp]
    exact (Stacked.append.mp pushed).1
  · rw [trap_words m tss t room]
    have start : m.trapStack tss - (4 * (m.trapFrame tss t).words.length + 8) + 4 * 2 =
        (m.trapFrame tss t).start := by omega
    have part := (Stacked.append.mp pushed).2
    rw [List.length_reverse, List.length_cons, List.length_singleton, start] at part
    exact part
  · intro x outside
    rw [trap_words m tss t room, ← onTrapStack_mem m tss]
    apply pushAll_outside _ _ enough
    rw [length, onTrapStack_esp]
    unfold ExceptionFrame.stop at outside
    omega

/-! ### The way back -/

theorem exitCode_run {f : ExceptionFrame} (stacked : Stacked m.mem f.start f.fields) (room : 4 ≤ f.start)
    (at_ : m.cpu.esp = f.start - 4) :
    Instr.run m exitCode =
      { cpu := { m.cpu with
                 reg := f.cpu.reg
                 seg := f.cpu.seg
                 esp := f.start + 56 }
        mem := m.mem } := by
  have back : m.cpu.esp + 4 = f.start := by omega
  have first : Instr.exec m (addEsp 4) =
      { cpu := { m.cpu with esp := f.start }
        mem := m.mem } := by
    rw [← back]
    rfl
  have word : ∀ {a : Nat} {w : BitVec 32}, m.mem.word a = w.toNat →
      BitVec.ofNat 32 (m.mem.word a) = w := by
    intro a w isWord
    rw [isWord, BitVec.ofNat_toNat, BitVec.setWidth_eq]
  have selectors : ∀ seg : Seg → BitVec 16,
      Function.update (Function.update (Function.update (Function.update seg .gs (f.cpu.seg .gs))
        .fs (f.cpu.seg .fs)) .es (f.cpu.seg .es)) .ds (f.cpu.seg .ds) = f.cpu.seg := by
    intro seg
    funext s
    cases s <;> simp [Function.update]
  obtain ⟨gs, fs, es, ds, edi, esi, ebp, _, ebx, edx, ecx, eax, _⟩ := stacked
  simp only [Nat.add_assoc, Nat.reduceAdd] at gs fs es ds edi esi ebp ebx edx ecx eax
  unfold exitCode
  rw [run_cons, first]
  simp only [run_cons, run_nil, Instr.exec, drop, top, load, setSeg, Nat.add_assoc, Nat.reduceAdd,
    word gs, word fs, word es, word ds, word edi, word esi, word ebp, word ebx, word edx, word ecx,
    word eax, selector_back, selectors]
  congr 2
  funext r
  cases r <;> rfl

/-- The registers come back from the frame, `cr3` apart. -/
theorem leave_frame {f : ExceptionFrame} (stacked : Stacked m.mem f.start f.words) (room : 4 ≤ f.start)
    (at_ : m.cpu.esp = f.start - 4) (ring0 : ¬ m.cpu.User) (small : f.cpu.esp < 4294967296)
    (inner : ¬ f.cpu.User → f.cpu.esp = f.start + 68 ∧ f.cpu.ss = m.cpu.ss) :
    m.leave =
      { cpu := { f.cpu with cr3 := m.cpu.cr3 }
        mem := m.mem } := by
  obtain ⟨fields, outer⟩ := Stacked.append.mp stacked
  have eip := fields.load_at (k := 14) (w := f.cpu.eip) rfl
  have cs := fields.load_at (k := 15) (w := f.cpu.cs.setWidth 32) rfl
  have eflags := fields.load_at (k := 16) (w := f.cpu.eflags) rfl
  let back : Machine :=
    { cpu := { m.cpu with
               reg := f.cpu.reg
               seg := f.cpu.seg
               esp := f.start + 56 }
      mem := m.mem }
  unfold leave
  rw [exitCode_run fields room at_]
  change back.iret = _
  by_cases user : f.cpu.User
  · rw [if_pos user] at outer
    obtain ⟨esp, ss, _⟩ := outer
    have isEsp : m.mem.word (f.start + 68) = f.cpu.esp := by
      refine esp.trans ?_
      rw [BitVec.toNat_ofNat]
      exact Nat.mod_eq_of_lt small
    have isSs : BitVec.ofNat 32 (m.mem.word (f.start + 72)) = f.cpu.ss.setWidth 32 := by
      rw [show m.mem.word (f.start + 72) = _ from ss, BitVec.ofNat_toNat, BitVec.setWidth_eq]
    rw [iret_outer (m := back) f.cpu eip cs eflags ring0 isEsp isSs user]
  · obtain ⟨isEsp, isSs⟩ := inner user
    rw [iret_inner (m := back) f.cpu eip cs eflags user]
    dsimp only [back]
    rw [isEsp, isSs]

theorem iret_mem (m : Machine) : m.iret.mem = m.mem := by
  unfold iret
  dsimp only
  split <;> rfl

theorem leave_mem (m : Machine) : m.leave.mem = m.mem := iret_mem (Instr.run m exitCode)

/-! ### switch_to_user_mode -/

def userSelectorCs : BitVec 16 := 27

def userSelectorDs : BitVec 16 := 35

/-- `switch_to_user_mode(entry, stack_top)`; `work` are the registers with its operands. -/
def Machine.switchToUserMode (m : Machine) (work : Reg → BitVec 32) (entry stackTop : BitVec 32) :
    Machine :=
  let m : Machine :=
    { m with cpu := { m.cpu with
                      seg := fun _ => userSelectorDs
                      reg := Function.update work .eax 0 } }
  (Instr.run m [pushImm (userSelectorDs.setWidth 32), pushImm stackTop, pushImm 0x202,
    pushImm (userSelectorCs.setWidth 32), pushImm entry]).iret

/-- The processor of a program that starts. -/
def Cpu.inUserMode (cpu : Cpu) (work : Reg → BitVec 32) (entry stackTop : BitVec 32) : Cpu :=
  { cpu with
    reg := Function.update work .eax 0
    seg := fun _ => userSelectorDs
    esp := stackTop.toNat
    eflags := 0x202
    eip := entry
    cs := userSelectorCs
    ss := userSelectorDs }

theorem inUserMode_user (cpu : Cpu) (work : Reg → BitVec 32) (entry stackTop : BitVec 32) :
    (cpu.inUserMode work entry stackTop).User := by
  change userSelectorCs.toNat % 4 = 3
  decide

theorem switchToUserMode_cpu (work : Reg → BitVec 32) (entry stackTop : BitVec 32) (ring0 : ¬ m.cpu.User) (room : 20 ≤ m.cpu.esp) :
    (m.switchToUserMode work entry stackTop).cpu = m.cpu.inUserMode work entry stackTop ∧
      ∀ x, x < m.cpu.esp - 20 ∨ m.cpu.esp ≤ x →
        (m.switchToUserMode work entry stackTop).mem x = m.mem x := by
  let ready : Machine :=
    { m with cpu := { m.cpu with
                      seg := fun _ => userSelectorDs
                      reg := Function.update work .eax 0 } }
  let values : List (BitVec 32) := [userSelectorDs.setWidth 32, stackTop, 0x202,
    userSelectorCs.setWidth 32, entry]
  have start : m.switchToUserMode work entry stackTop = (ready.pushAll values).iret := rfl
  have stacked := pushAll_words values ready room
  have cpu := pushAll_cpu ready values
  have outside := fun x => pushAll_outside values ready (x := x) room
  rw [start]
  generalize ready.pushAll values = low at *
  have esp' : low.cpu.esp = ready.cpu.esp - 4 * values.length := by rw [cpu]
  have isEntry := stacked.load_at (k := 0) (w := entry) rfl
  have isCs := stacked.load_at (k := 1) (w := userSelectorCs.setWidth 32) rfl
  have isEflags := stacked.load_at (k := 2) (w := 0x202) rfl
  have isEsp := stacked.load_at (k := 3) (w := stackTop) rfl
  have isSs := stacked.load_at (k := 4) (w := userSelectorDs.setWidth 32) rfl
  rw [← esp'] at isEntry isCs isEflags isEsp isSs
  have kernel : ¬ low.cpu.User := by
    rw [cpu]
    exact ring0
  have word : low.mem.word (low.cpu.esp + 12) = stackTop.toNat := by
    rw [← isEsp, BitVec.toNat_ofNat]
    exact (Nat.mod_eq_of_lt (ByteMemory.word_lt _ _)).symm
  rw [iret_outer (m.cpu.inUserMode work entry stackTop) isEntry isCs isEflags kernel word
    isSs (inUserMode_user m.cpu work entry stackTop)]
  refine ⟨?_, ?_⟩
  · dsimp only
    rw [cpu]
    rfl
  · intro x apart
    exact outside x apart

end MangoOS
