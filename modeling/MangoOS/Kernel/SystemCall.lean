/-
System calls from the stub of libc/syscall.c through do_handler_syscall (kernel/syscall.c) and
back, on the frames that the entry code leaves.

The compiler loads the operands of the stub; what counts is the registers in front of int $0x80.
-/

import MangoOS.Kernel.ThreadReturns

namespace MangoOS

open Machine TaskBytes

/-! ### The library -/

structure SyscallArgs where
  id : BitVec 32
  arg0 : BitVec 32
  arg1 : BitVec 32
  arg2 : BitVec 32
  arg3 : BitVec 32

def sysSleep : BitVec 32 := 0

def sysFork : BitVec 32 := 1

def sysExecve : BitVec 32 := 2

def sysPrint : BitVec 32 := 100

namespace SyscallArgs

/-- The registers that `sys_call` sets in front of `int $0x80`. -/
def load (args : SyscallArgs) (reg : Reg → BitVec 32) : Reg → BitVec 32
  | .edi => args.arg3
  | .ebp => args.arg2
  | .edx => args.arg1
  | .ecx => args.arg0
  | .eax => args.id
  | r => reg r

end SyscallArgs

/-- `print_msg(fmt, arg)`; `stack` is what the fields hold that no statement sets. -/
def printMsg (stack : SyscallArgs) (fmt arg len : BitVec 32) : SyscallArgs :=
  { stack with
    id := sysPrint
    arg0 := fmt
    arg1 := arg
    arg2 := len }

/-- `sleep(ms)` -/
def libcSleep (stack : SyscallArgs) (ms : BitVec 32) : SyscallArgs :=
  { stack with
    id := sysSleep
    arg0 := ms }

/-- `fork()` -/
def libcFork (stack : SyscallArgs) : SyscallArgs := { stack with id := sysFork }

/-- `execve(name, argv, env)` -/
def libcExecve (stack : SyscallArgs) (name argv env : BitVec 32) : SyscallArgs :=
  { stack with
    id := sysExecve
    arg0 := name
    arg1 := argv
    arg2 := env }

/-! ### The handler -/

/-- A call of one of the functions in `call_table`. -/
inductive SystemCall
  | sysSleep (ms : BitVec 32)
  | sysFork
  | sysExecve (name argv env : BitVec 32)
  | sysPrintf (fmt arg len : BitVec 32)
  deriving DecidableEq

/-- `call_table[id](arg0, arg1, arg2, arg3)`; the other entries are NULL. -/
def callTable (args : SyscallArgs) : Option SystemCall :=
  if args.id = sysSleep then some (.sysSleep args.arg0)
  else if args.id = sysFork then some .sysFork
  else if args.id = sysExecve then some (.sysExecve args.arg0 args.arg1 args.arg2)
  else if args.id = sysPrint then some (.sysPrintf args.arg0 args.arg1 args.arg2)
  else none

/-- The arguments that `do_handler_syscall` takes out of its frame. -/
def frameArgs (mem : ByteMemory) (frame : Nat) : SyscallArgs where
  id := BitVec.ofNat 32 (mem.word (frame + 44))
  arg0 := BitVec.ofNat 32 (mem.word (frame + 40))
  arg1 := BitVec.ofNat 32 (mem.word (frame + 36))
  arg2 := BitVec.ofNat 32 (mem.word (frame + 24))
  arg3 := BitVec.ofNat 32 (mem.word (frame + 16))

/-- `do_handler_syscall(frame)` up to the call; the frame is its first parameter. -/
def doHandlerSyscall (m : Machine) : Option SystemCall :=
  let frame := m.mem.word (m.cpu.esp + 4)
  if (frameArgs m.mem frame).id.toNat < 101 then callTable (frameArgs m.mem frame) else none

/-- The end of `do_handler_syscall`: only a call that was made is answered. -/
def syscallEnd (call : Option SystemCall) (frame : Nat) (ret : BitVec 32) : List KernelEvent :=
  match call with
  | some _ => [.answer frame ret, .leave]
  | none => [.leave]

/-! ### The way of the arguments -/

variable {L : Stacks} {s : SwitchKernel} {a : Threads} {args : SyscallArgs} {t : Trap}

/-- The length of the table excludes no entry. -/
theorem callTable_small (args : SyscallArgs) :
    (if args.id.toNat < 101 then callTable args else none) = callTable args := by
  by_cases small : args.id.toNat < 101
  · exact if_pos small
  · have different : ∀ id : BitVec 32, id.toNat < 101 → args.id ≠ id := by
      rintro id inside rfl
      exact small inside
    rw [if_neg small]
    unfold callTable
    rw [if_neg (different sysSleep (by decide)), if_neg (different sysFork (by decide)),
      if_neg (different sysExecve (by decide)), if_neg (different sysPrint (by decide))]

theorem frameArgs_load {mem : ByteMemory} {f : ExceptionFrame} {reg : Reg → BitVec 32}
    (stacked : Stacked mem f.start f.words) (loaded : f.cpu.reg = args.load reg) :
    frameArgs mem f.start = args := by
  have fields := (Stacked.append.mp stacked).1
  have id := fields.load_at (k := 11) (w := f.cpu.reg .eax) rfl
  have arg0 := fields.load_at (k := 10) (w := f.cpu.reg .ecx) rfl
  have arg1 := fields.load_at (k := 9) (w := f.cpu.reg .edx) rfl
  have arg2 := fields.load_at (k := 6) (w := f.cpu.reg .ebp) rfl
  have arg3 := fields.load_at (k := 4) (w := f.cpu.reg .edi) rfl
  rw [loaded] at id arg0 arg1 arg2 arg3
  unfold frameArgs
  rw [id, arg0, arg1, arg2, arg3]
  rfl

/-- The handler finds the arguments of the stub. -/
theorem Agrees.syscall_called {reg : Reg → BitVec 32} (agrees : Agrees L s a)
    (permitted : Permitted L s a (.trap t)) (loaded : s.cpu.reg = args.load reg) :
    doHandlerSyscall (s.step L (.trap t)).machine = callTable args := by
  have ready := agrees.trapReady (t := t) permitted.2
  have low := ready.low
  have top := ready.top
  have below := bottom_le agrees.memory.own
  have limit := (agrees.apart.small a.current agrees.known).2
  have enough : 84 ≤ s.machine.trapStack s.tr := by omega
  have trapped := trap_trapped s.machine s.tr t enough
  have stop := trapFrame_stop s.machine s.tr t enough
  have length := (s.machine.trapFrame s.tr t).words_length
  have isFrame : (s.machine.trapFrame s.tr t).cpu.reg = args.load reg := loaded
  unfold ExceptionFrame.stop at stop
  generalize s.machine.trapFrame s.tr t = f at *
  have room : 8 ≤ f.start := by split at length <;> omega
  have pointer := trapped.call.2.1
  have found := frameArgs_load trapped.stacked isFrame
  have isStart : (s.machine.trap s.tr t).mem.word
      ((s.machine.trap s.tr t).cpu.esp + 4) = f.start := by
    rw [trapped.cpu]
    refine pointer.trans ?_
    rw [BitVec.toNat_ofNat]
    exact Nat.mod_eq_of_lt (by omega)
  change doHandlerSyscall (s.machine.trap s.tr t) = _
  unfold doHandlerSyscall
  dsimp only
  rw [isStart, found]
  exact callTable_small args

/-- A system call of the library reaches the function of its table entry with the arguments in
their order; the program goes on with the result in `eax`, or with the number of a call that
there is not, and finds everything else as it was. -/
theorem sysCall_returns {events : List KernelEvent} {reg : Reg → BitVec 32} {frame : Nat}
    {ret : BitVec 32} (agrees : Agrees L s a) (loaded : s.cpu.reg = args.load reg)
    (permitted : PermittedRun L s a
      (.trap t :: (events ++ syscallEnd (callTable args) frame ret)))
    (handling : (a.step (.trap t)).Handling a.current a.frames.length events) :
    doHandlerSyscall (s.step L (.trap t)).machine = callTable args ∧
      (s.run L (.trap t :: (events ++ syscallEnd (callTable args) frame ret))).cpu =
        { s.cpu with reg := Function.update s.cpu.reg .eax
                       (if (callTable args).isSome then ret else args.id) } := by
  refine ⟨agrees.syscall_called permitted.1 loaded, ?_⟩
  cases call : callTable args with
  | some made =>
      rw [call] at permitted
      exact syscall_cpu agrees permitted handling
  | none =>
      rw [call] at permitted
      have same : Function.update s.cpu.reg .eax args.id = s.cpu.reg := by
        have isId : s.cpu.reg .eax = args.id := by
          rw [loaded]
          rfl
        rw [← isId]
        exact Function.update_eq_self _ _
      refine (trap_cpu agrees permitted handling).trans ?_
      rw [Option.isSome_none, if_neg Bool.false_ne_true, same]

/-- The init task sleeps. -/
def sleepArgs : SyscallArgs := libcSleep ⟨0, 0, 0, 0, 0⟩ 1000

def sleepRegs : Reg → BitVec 32 := sleepArgs.load fun _ => 0

def sleepTrap : Trap where
  gate := ⟨8, 4660⟩
  num := 0x80
  error := none
  returnTo := 0

def programKernel : SwitchKernel := firstKernel.run firstStacks (firstEvents sleepRegs)

def programThreads : Threads := firstThreads.run (firstEvents sleepRegs)

theorem programKernel_agrees : Agrees firstStacks programKernel programThreads :=
  firstKernel_booted.agrees.run (firstEvents_permitted sleepRegs)

def sleepHandled : KernelEvent :=
  handlerReturns 16264 (programKernel.step firstStacks (.trap sleepTrap))
    (programThreads.step (.trap sleepTrap))

theorem sysCall_returns_sleep :
    doHandlerSyscall (programKernel.step firstStacks (.trap sleepTrap)).machine =
        callTable sleepArgs ∧
      (programKernel.run firstStacks
        (.trap sleepTrap :: ([sleepHandled] ++ syscallEnd (callTable sleepArgs) 16264 7))).cpu =
        { programKernel.cpu with
          reg := Function.update programKernel.cpu.reg .eax
            (if (callTable sleepArgs).isSome then 7 else sleepArgs.id) } := by
  have agrees := programKernel_agrees
  have traps : Permitted firstStacks programKernel programThreads (.trap sleepTrap) := by
    refine ⟨by decide, ?_⟩
    intro kernel
    rw [agrees.cpu] at kernel
    exact absurd (inUserMode_user _ sleepRegs 1000 65536) kernel
  have entered := agrees.step traps
  have handles := handlerReturns_permitted entered (by decide)
    (show _ = [programThreads.trapFrame sleepTrap] from rfl) (by decide)
  have loaded : programKernel.cpu.reg = sleepArgs.load fun _ => 0 := by
    rw [agrees.cpu]
    funext r
    cases r <;> rfl
  have handled : Agrees firstStacks
      ((programKernel.step firstStacks (.trap sleepTrap)).step firstStacks sleepHandled)
      ((programThreads.step (.trap sleepTrap)).step sleepHandled) := entered.step handles.1
  refine sysCall_returns agrees loaded ⟨traps, handles.1, ⟨?_, ?_⟩, ?_, trivial⟩
    ⟨by decide, trivial, rfl, rfl⟩
  · rw [handled.cpu]
    decide
  · exact ⟨programThreads.trapFrame sleepTrap, [], rfl, rfl⟩
  · have answers : Permitted firstStacks
        ((programKernel.step firstStacks (.trap sleepTrap)).step firstStacks sleepHandled)
        ((programThreads.step (.trap sleepTrap)).step sleepHandled) (.answer 16264 7) := by
      refine ⟨?_, programThreads.trapFrame sleepTrap, [], rfl, rfl⟩
      rw [handled.cpu]
      decide
    have answered := handled.step answers
    refine ⟨?_, (programThreads.trapFrame sleepTrap).setEax 7, [], rfl, ?_⟩
    · rw [answered.cpu]
      decide
    · rw [answered.cpu]
      rfl

end MangoOS
