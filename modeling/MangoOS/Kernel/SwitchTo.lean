/-
__switch_to (kernel/sched.c), instruction by instruction.

The compiler puts `push %ebx` in front of the statement and `pop %ebx` and `ret` behind it;
task_init lays out the first stack of a task for that.  The operands of the statement are
addressed through registers, which the compiler loads after that first push.
-/

import MangoOS.Library.StackMachine
import MangoOS.Kernel.ForkFiles

namespace MangoOS

open Machine Instr TaskBytes

/-- `__switch_to(prev, next)`; `currentAt` is the address of the variable `current`, and `work`
the registers once the operands are loaded. -/
def switchToCode (currentAt prev next : Nat) (work : Reg → BitVec 32) : List Instr :=
  [push .ebx, compute work,
    push .ebp, pushfl, push .eax, push .ebx, push .ecx, push .edx, push .esi, push .edi,
    pushMem currentAt, storeEsp (prev + espAt), loadEsp (next + espAt), popMem currentAt,
    pop .edi, pop .esi, pop .edx, pop .ecx, pop .ebx, pop .eax, popfl, pop .ebp,
    pop .ebx, ret]

/-- What a task that is not running goes on with; `inner` is the `%ebx` of the statement. -/
structure Context where
  reg : Reg → BitVec 32
  inner : BitVec 32
  eflags : BitVec 32
  eip : BitVec 32

namespace Context

/-- The registers of a caller that `eip` is the return address of. -/
def ofCpu (cpu : Cpu) (work : Reg → BitVec 32) (eip : BitVec 32) : Context where
  reg := Function.update work .ebx (cpu.reg .ebx)
  inner := work .ebx
  eflags := cpu.eflags
  eip := eip

/-- The words from `task->esp` upwards. -/
def words (c : Context) (task : Nat) : List (BitVec 32) :=
  [BitVec.ofNat 32 task, c.reg .edi, c.reg .esi, c.reg .edx, c.reg .ecx, c.inner, c.reg .eax,
    c.eflags, c.reg .ebp, c.reg .ebx, c.eip]

/-- A new task starts at `entry`, with interrupts on and cleared registers. -/
def first (entry : BitVec 32) : Context where
  reg := fun _ => 0
  inner := 0
  eflags := 514
  eip := entry

/-- The processor goes on with the context and the stack behind it. -/
def resume (c : Context) (cpu : Cpu) (esp : Nat) : Cpu :=
  { cpu with
    reg := c.reg
    esp := esp
    eflags := c.eflags
    eip := c.eip }

/-- What `__switch_to` pushes below the return address. -/
def pushed (c : Context) (task : Nat) : List (BitVec 32) :=
  [c.reg .ebx, c.reg .ebp, c.eflags, c.reg .eax, c.inner, c.reg .ecx, c.reg .edx, c.reg .esi,
    c.reg .edi, BitVec.ofNat 32 task]

theorem pushed_words (c : Context) (task : Nat) :
    (c.pushed task).reverse ++ [c.eip] = c.words task := rfl

/-- The registers that a C function leaves as they were come back when the operands are loaded
into the others. -/
theorem ofCpu_calleeSaved {cpu : Cpu} {work : Reg → BitVec 32} (eip : BitVec 32)
    (kept : ∀ r ∈ [Reg.ebp, .esi, .edi], work r = cpu.reg r) (r : Reg)
    (saved : r ∈ [Reg.ebx, .ebp, .esi, .edi]) : (ofCpu cpu work eip).reg r = cpu.reg r := by
  rcases List.mem_cons.mp saved with rfl | other
  · exact Function.update_self Reg.ebx _ work
  · refine (Function.update_of_ne ?_ _ work).trans (kept r other)
    rintro rfl
    simp at other

end Context

/-- The word at `a` lies apart from the bytes from `b` to `e`. -/
def WordApart (a b e : Nat) : Prop := a + 4 ≤ b ∨ e ≤ a

/-- The memory that a switch from `prev` to `next` works on; `b` is the saved stack pointer of
`next`. -/
structure SwitchReady (m : Machine) (currentAt prev next b : Nat) (c : Context) : Prop where
  prevSmall : prev < 4294967296
  nextSmall : next < 4294967296
  isCurrent : m.mem.word currentAt = prev
  espSmall : m.cpu.esp < 4294967296
  room : 40 ≤ m.cpu.esp
  saved : m.mem.word (next + espAt) = b
  stacked : Stacked m.mem b (c.words next)
  kernelStacks : m.cpu.esp + 4 ≤ b ∨ b + 44 ≤ m.cpu.esp - 40
  currentStack : WordApart currentAt (m.cpu.esp - 40) (m.cpu.esp + 4)
  currentNext : WordApart currentAt b (b + 44)
  prevStack : WordApart (prev + espAt) (m.cpu.esp - 40) (m.cpu.esp + 4)
  prevNext : WordApart (prev + espAt) b (b + 44)
  nextStack : WordApart (next + espAt) (m.cpu.esp - 40) (m.cpu.esp + 4)
  fields : WordApart (prev + espAt) (next + espAt) (next + espAt + 4)
  currentPrev : WordApart currentAt (prev + espAt) (prev + espAt + 4)

/-- The bytes that a switch writes: the stack below the return address, `prev->esp`, `current`. -/
def SwitchWrites (esp currentAt prev x : Nat) : Prop :=
  (esp - 40 ≤ x ∧ x < esp) ∨ (prev + espAt ≤ x ∧ x < prev + espAt + 4) ∨
    (currentAt ≤ x ∧ x < currentAt + 4)

/-- The caller's registers are saved, and those of `next` are in place. -/
structure Switched (m after : Machine) (currentAt prev next b : Nat) (work : Reg → BitVec 32)
    (c : Context) : Prop where
  cpu : after.cpu = c.resume m.cpu (b + 44)
  stacked : Stacked after.mem (m.cpu.esp - 40) ((Context.ofCpu m.cpu work m.top).words prev)
  saved : after.mem.word (prev + espAt) = m.cpu.esp - 40
  current : after.mem.word currentAt = next
  bytes : ∀ x, ¬ SwitchWrites m.cpu.esp currentAt prev x → after.mem x = m.mem x

variable {m : Machine} {currentAt prev next b : Nat} {work : Reg → BitVec 32} {c : Context}

theorem top_stacked (m : Machine) : Stacked m.mem m.cpu.esp [m.top] := by
  refine ⟨?_, trivial⟩
  unfold top load
  rw [BitVec.toNat_ofNat]
  exact (Nat.mod_eq_of_lt (ByteMemory.word_lt _ _)).symm

theorem setRegs_push (m : Machine) (reg : Reg → BitVec 32) (value : BitVec 32) :
    (m.setRegs reg).push value = (m.push value).setRegs reg := rfl

theorem setRegs_pushAll (m : Machine) (reg : Reg → BitVec 32) (values : List (BitVec 32)) :
    (m.setRegs reg).pushAll values = (m.pushAll values).setRegs reg := by
  induction values generalizing m with
  | nil => rfl
  | cons value values ih =>
      rw [pushAll_cons, pushAll_cons, setRegs_push, ih]

theorem switchTo_registers (m : Machine) (work : Reg → BitVec 32) :
    Instr.run m [push .ebx, compute work, push .ebp, pushfl, push .eax, push .ebx, push .ecx,
      push .edx, push .esi, push .edi] =
      (m.pushAll [m.cpu.reg .ebx, work .ebp, m.cpu.eflags, work .eax, work .ebx, work .ecx,
        work .edx, work .esi, work .edi]).setRegs work := by
  rw [pushAll_cons, ← setRegs_pushAll]
  simp only [run_cons, run_nil, Instr.exec, push_reg, push_eflags, pushAll_cons, pushAll_nil,
    setRegs_reg, setRegs_eflags]

/-- The pushes: ten words below the return address. -/
theorem switchTo_pushes (work : Reg → BitVec 32) (ready : SwitchReady m currentAt prev next b c) :
    Instr.run m ([push .ebx, compute work, push .ebp, pushfl, push .eax, push .ebx, push .ecx,
      push .edx, push .esi, push .edi] ++ [pushMem currentAt]) =
      (m.pushAll ((Context.ofCpu m.cpu work m.top).pushed prev)).setRegs work := by
  have room := ready.room
  have apart := ready.currentStack
  unfold WordApart at apart
  have isCurrent : ∀ values : List (BitVec 32), values.length = 9 →
      (m.pushAll values).load currentAt = BitVec.ofNat 32 prev := by
    intro values length
    unfold load
    rw [← ready.isCurrent]
    congr 1
    apply ByteMemory.word_congr
    intro x lower upper
    exact pushAll_outside values m (by omega) (by omega)
  rw [run_append, switchTo_registers, run_cons, run_nil]
  unfold Instr.exec
  dsimp only
  rw [setRegs_load, isCurrent _ rfl]
  rfl

/-- The pops: the words of a saved context, the first into `current`. -/
theorem switchTo_pops (at_ : m.cpu.esp = b) (small : next < 4294967296)
    (stacked : Stacked m.mem b (c.words next)) (apart : WordApart currentAt b (b + 44)) :
    Instr.run m [popMem currentAt, pop .edi, pop .esi, pop .edx, pop .ecx, pop .ebx, pop .eax,
      popfl, pop .ebp, pop .ebx, ret] =
      { cpu := c.resume m.cpu (b + 44)
        mem := m.mem.setWord currentAt next } := by
  have isTop : m.top = BitVec.ofNat 32 next := by
    unfold top load
    rw [at_]
    exact stacked.load
  have value : m.top.toNat = next := by
    rw [isTop, BitVec.toNat_ofNat]
    exact Nat.mod_eq_of_lt small
  have first : Instr.exec m (popMem currentAt) =
      { cpu := { m.cpu with esp := b + 4 }
        mem := m.mem.setWord currentAt next } := by
    unfold Instr.exec drop store
    rw [value, at_]
  have kept : Stacked (m.mem.setWord currentAt next) b (c.words next) := by
    apply stacked.congr
    intro x lower upper
    unfold WordApart at apart
    change x < b + 44 at upper
    exact ByteMemory.setWord_other _ _ (by omega)
  obtain ⟨_, edi, esi, edx, ecx, ebx, eax, eflags, ebp, outer, eip, _⟩ := kept
  have word : ∀ {a : Nat} {w : BitVec 32}, (m.mem.setWord currentAt next).word a = w.toNat →
      BitVec.ofNat 32 ((m.mem.setWord currentAt next).word a) = w := by
    intro a w isWord
    rw [isWord, BitVec.ofNat_toNat, BitVec.setWidth_eq]
  have registers : ∀ reg : Reg → BitVec 32,
      Function.update (Function.update (Function.update (Function.update (Function.update
        (Function.update (Function.update (Function.update reg .edi (c.reg .edi)) .esi (c.reg .esi))
        .edx (c.reg .edx)) .ecx (c.reg .ecx)) .ebx c.inner) .eax (c.reg .eax)) .ebp (c.reg .ebp))
        .ebx (c.reg .ebx) = c.reg := by
    intro reg
    funext r
    cases r <;> simp [Function.update]
  rw [run_cons, first]
  simp only [run_cons, run_nil, Instr.exec, drop, top, load, setReg, word edi, word esi, word edx,
    word ecx, word ebx, word eax, word eflags, word ebp, word outer, word eip, registers]
  rfl

/-- `__switch_to` saves the registers of the caller on its stack and goes on with `next`. -/
theorem switchTo_run (work : Reg → BitVec 32) (ready : SwitchReady m currentAt prev next b c) :
    Switched m (Instr.run m (switchToCode currentAt prev next work)) currentAt prev next b work
      c := by
  have pushes := switchTo_pushes work ready
  have room := ready.room
  have length : ((Context.ofCpu m.cpu work m.top).pushed prev).length = 10 := rfl
  have saved := pushAll_stacked ((Context.ofCpu m.cpu work m.top).pushed prev) m (by omega)
    (top_stacked m)
  rw [show [m.top] = [(Context.ofCpu m.cpu work m.top).eip] from rfl, Context.pushed_words] at saved
  have outside := fun x => pushAll_outside ((Context.ofCpu m.cpu work m.top).pushed prev) m
    (x := x) (by omega)
  have cpu := pushAll_cpu m ((Context.ofCpu m.cpu work m.top).pushed prev)
  rw [length, show 4 * 10 = 40 from rfl] at saved outside cpu
  have parts : switchToCode currentAt prev next work =
      ([push .ebx, compute work, push .ebp, pushfl, push .eax, push .ebx, push .ecx, push .edx,
        push .esi, push .edi] ++ [pushMem currentAt]) ++ ([storeEsp (prev + espAt),
        loadEsp (next + espAt)] ++ [popMem currentAt, pop .edi, pop .esi, pop .edx, pop .ecx,
        pop .ebx, pop .eax, popfl, pop .ebp, pop .ebx, ret]) := rfl
  rw [parts, run_append, pushes, run_append]
  generalize m.pushAll ((Context.ofCpu m.cpu work m.top).pushed prev) = low at *
  have value : (BitVec.ofNat 32 (m.cpu.esp - 40)).toNat = m.cpu.esp - 40 := by
    have small := ready.espSmall
    rw [BitVec.toNat_ofNat]
    omega
  obtain ⟨_, nextSmall, _, espSmall, _, savedNext, stackedNext, kernelStacks, currentStack,
    currentNext, prevStack, prevNext, nextStack, fields, currentPrev⟩ := ready
  have apart := currentNext
  unfold WordApart at currentStack currentNext prevStack prevNext nextStack fields currentPrev
  have middle : Instr.run (low.setRegs work) [storeEsp (prev + espAt), loadEsp (next + espAt)] =
      { cpu := { m.cpu with
                 reg := work
                 esp := b }
        mem := low.mem.setWord (prev + espAt) (m.cpu.esp - 40) } := by
    have next_esp : (low.mem.setWord (prev + espAt) (m.cpu.esp - 40)).word (next + espAt) = b := by
      rw [ByteMemory.word_setWord_other _ _ (by omega), ← savedNext]
      apply ByteMemory.word_congr
      intro x lower upper
      exact outside x (by omega)
    simp only [run_cons, run_nil, Instr.exec, store, setRegs, value, next_esp, cpu]
  have stacked : Stacked (low.mem.setWord (prev + espAt) (m.cpu.esp - 40)) b (c.words next) := by
    apply stackedNext.congr
    intro x lower upper
    change x < b + 44 at upper
    rw [ByteMemory.setWord_other _ _ (by omega)]
    exact outside x (by omega)
  rw [middle, switchTo_pops rfl nextSmall stacked apart]
  refine ⟨rfl, ?_, ?_, ?_, ?_⟩
  · apply saved.congr
    intro x lower upper
    change x < m.cpu.esp - 40 + 44 at upper
    dsimp only
    rw [ByteMemory.setWord_other _ _ (by omega), ByteMemory.setWord_other _ _ (by omega)]
  · dsimp only
    rw [ByteMemory.word_setWord_other _ _ (by omega), ByteMemory.word_setWord]
    omega
  · dsimp only
    rw [ByteMemory.word_setWord]
    exact Nat.mod_eq_of_lt nextSmall
  · intro x untouched
    unfold SwitchWrites at untouched
    dsimp only
    rw [ByteMemory.setWord_other _ _ (by omega), ByteMemory.setWord_other _ _ (by omega)]
    exact outside x (by omega)

end MangoOS
