/-
The part of an IA-32 processor that saves and restores registers on a stack.

The stack pointer is a plain number: the stacks lie inside the address space.  Segment registers
are pushed as words and the upper half is dropped when they are popped.
-/

import MangoOS.Library.ByteMemory
import Mathlib.Logic.Function.Basic
import Mathlib.Tactic.Cases

namespace MangoOS

inductive Reg
  | eax | ecx | edx | ebx | ebp | esi | edi
  deriving DecidableEq

inductive Seg
  | ds | es | fs | gs
  deriving DecidableEq

structure Cpu where
  reg : Reg → BitVec 32
  seg : Seg → BitVec 16
  esp : Nat
  eflags : BitVec 32
  eip : BitVec 32
  cs : BitVec 16
  ss : BitVec 16
  cr3 : BitVec 32

/-- The code segment is one of ring 3. -/
def Cpu.User (cpu : Cpu) : Prop := cpu.cs.toNat % 4 = 3

instance (cpu : Cpu) : Decidable cpu.User := inferInstanceAs (Decidable (_ = _))

structure Machine where
  cpu : Cpu
  mem : ByteMemory

namespace Machine

def load (m : Machine) (a : Nat) : BitVec 32 := BitVec.ofNat 32 (m.mem.word a)

def store (m : Machine) (a : Nat) (value : BitVec 32) : Machine :=
  { m with mem := m.mem.setWord a value.toNat }

def push (m : Machine) (value : BitVec 32) : Machine where
  cpu := { m.cpu with esp := m.cpu.esp - 4 }
  mem := m.mem.setWord (m.cpu.esp - 4) value.toNat

/-- The word on the stack. -/
def top (m : Machine) : BitVec 32 := m.load m.cpu.esp

def drop (m : Machine) (bytes : Nat) : Machine :=
  { m with cpu := { m.cpu with esp := m.cpu.esp + bytes } }

@[simp] theorem push_reg (m : Machine) (value : BitVec 32) :
    (m.push value).cpu.reg = m.cpu.reg := rfl

@[simp] theorem push_seg (m : Machine) (value : BitVec 32) :
    (m.push value).cpu.seg = m.cpu.seg := rfl

@[simp] theorem push_esp (m : Machine) (value : BitVec 32) :
    (m.push value).cpu.esp = m.cpu.esp - 4 := rfl

@[simp] theorem push_eflags (m : Machine) (value : BitVec 32) :
    (m.push value).cpu.eflags = m.cpu.eflags := rfl

def setReg (m : Machine) (r : Reg) (value : BitVec 32) : Machine :=
  { m with cpu := { m.cpu with reg := Function.update m.cpu.reg r value } }

def setRegs (m : Machine) (reg : Reg → BitVec 32) : Machine :=
  { m with cpu := { m.cpu with reg := reg } }

@[simp] theorem setRegs_reg (m : Machine) (reg : Reg → BitVec 32) :
    (m.setRegs reg).cpu.reg = reg := rfl

@[simp] theorem setRegs_eflags (m : Machine) (reg : Reg → BitVec 32) :
    (m.setRegs reg).cpu.eflags = m.cpu.eflags := rfl

@[simp] theorem setRegs_load (m : Machine) (reg : Reg → BitVec 32) (a : Nat) :
    (m.setRegs reg).load a = m.load a := rfl

def setSeg (m : Machine) (s : Seg) (value : BitVec 16) : Machine :=
  { m with cpu := { m.cpu with seg := Function.update m.cpu.seg s value } }

end Machine

inductive Instr
  | push (r : Reg)
  | pop (r : Reg)
  | pushSeg (s : Seg)
  | popSeg (s : Seg)
  | pushImm (value : BitVec 32)
  | pushMem (a : Nat)
  | popMem (a : Nat)
  | pushEsp
  | addEsp (bytes : Nat)
  /-- `mov %esp, a` -/
  | storeEsp (a : Nat)
  /-- `mov a, %esp` -/
  | loadEsp (a : Nat)
  | pushfl
  | popfl
  | pusha
  | popa
  | ret
  /-- Instructions that only set registers. -/
  | compute (reg : Reg → BitVec 32)

namespace Instr

open Machine

def exec (m : Machine) : Instr → Machine
  | .push r => m.push (m.cpu.reg r)
  | .pop r => (m.drop 4).setReg r m.top
  | .pushSeg s => m.push ((m.cpu.seg s).setWidth 32)
  | .popSeg s => (m.drop 4).setSeg s (m.top.setWidth 16)
  | .pushImm value => m.push value
  | .pushMem a => m.push (m.load a)
  | .popMem a => (m.drop 4).store a m.top
  | .pushEsp => m.push (BitVec.ofNat 32 m.cpu.esp)
  | .addEsp bytes => m.drop bytes
  | .storeEsp a => m.store a (BitVec.ofNat 32 m.cpu.esp)
  | .loadEsp a => { m with cpu := { m.cpu with esp := m.mem.word a } }
  | .pushfl => m.push m.cpu.eflags
  | .popfl => { m.drop 4 with cpu := { (m.drop 4).cpu with eflags := m.top } }
  | .pusha =>
      let esp := BitVec.ofNat 32 m.cpu.esp
      let reg := m.cpu.reg
      let m := (((m.push (reg .eax)).push (reg .ecx)).push (reg .edx)).push (reg .ebx)
      (((m.push esp).push (reg .ebp)).push (reg .esi)).push (reg .edi)
  | .popa =>
      -- the saved stack pointer is skipped
      let esp := m.cpu.esp
      { m.drop 32 with
        cpu := { (m.drop 32).cpu with
          reg := fun
            | .edi => m.load esp
            | .esi => m.load (esp + 4)
            | .ebp => m.load (esp + 8)
            | .ebx => m.load (esp + 16)
            | .edx => m.load (esp + 20)
            | .ecx => m.load (esp + 24)
            | .eax => m.load (esp + 28) } }
  | .ret => { m.drop 4 with cpu := { (m.drop 4).cpu with eip := m.top } }
  | .compute reg => m.setRegs reg

def run (m : Machine) (code : List Instr) : Machine := code.foldl exec m

theorem run_append (m : Machine) (first second : List Instr) :
    run m (first ++ second) = run (run m first) second := List.foldl_append

theorem run_cons (m : Machine) (i : Instr) (code : List Instr) :
    run m (i :: code) = run (exec m i) code := rfl

theorem run_nil (m : Machine) : run m [] = m := rfl

end Instr

/-! ### Interrupts -/

/-- What an entry of the interrupt descriptor table says about the handler. -/
structure Gate where
  selector : BitVec 16
  offset : BitVec 32

namespace Machine

/-- The stack of ring 0: from ring 3 it is the one that the task state segment at `tss` names. -/
def enterRing0 (m : Machine) (tss : Nat) : Machine :=
  if m.cpu.User then
    let inner : Machine :=
      { m with cpu := { m.cpu with
                        esp := m.mem.word (tss + 4)
                        ss := BitVec.ofNat 16 (m.mem.word (tss + 8)) } }
    (inner.push (m.cpu.ss.setWidth 32)).push (BitVec.ofNat 32 m.cpu.esp)
  else m

theorem enterRing0_reg (m : Machine) (tss : Nat) : (m.enterRing0 tss).cpu.reg = m.cpu.reg := by
  unfold enterRing0
  split <;> rfl

theorem enterRing0_seg (m : Machine) (tss : Nat) : (m.enterRing0 tss).cpu.seg = m.cpu.seg := by
  unfold enterRing0
  split <;> rfl

/-- Control goes to the handler; VM, RF, NT, IF and TF are cleared. -/
def enterGate (m : Machine) (gate : Gate) : Machine :=
  { m with
    cpu := { m.cpu with
             eflags := m.cpu.eflags &&& ~~~0x34300
             cs := gate.selector
             eip := gate.offset } }

@[simp] theorem enterGate_reg (m : Machine) (gate : Gate) :
    (m.enterGate gate).cpu.reg = m.cpu.reg := rfl

@[simp] theorem enterGate_seg (m : Machine) (gate : Gate) :
    (m.enterGate gate).cpu.seg = m.cpu.seg := rfl

@[simp] theorem enterGate_esp (m : Machine) (gate : Gate) :
    (m.enterGate gate).cpu.esp = m.cpu.esp := rfl

theorem enterGate_push (m : Machine) (gate : Gate) (value : BitVec 32) :
    (m.enterGate gate).push value = (m.push value).enterGate gate := rfl

/-- An interrupt through an interrupt gate, before an error code. -/
def interrupt (m : Machine) (tss : Nat) (gate : Gate) : Machine :=
  let saved := (((m.enterRing0 tss).push m.cpu.eflags).push (m.cpu.cs.setWidth 32)).push m.cpu.eip
  saved.enterGate gate

/-- `iret`, which takes the stack of ring 3 back as well when it returns there. -/
def iret (m : Machine) : Machine :=
  let esp := m.cpu.esp
  let back : Cpu :=
    { m.cpu with
      esp := esp + 12
      eip := m.load esp
      cs := (m.load (esp + 4)).setWidth 16
      eflags := m.load (esp + 8) }
  if back.User ∧ ¬ m.cpu.User then
    { m with cpu := { back with
                      esp := m.mem.word (esp + 12)
                      ss := (m.load (esp + 16)).setWidth 16 } }
  else { m with cpu := back }

/-- A selector comes back from the word that it was pushed as. -/
theorem selector_back (s : BitVec 16) : (s.setWidth 32).setWidth 16 = s := by
  apply BitVec.eq_of_toNat_eq
  simp only [BitVec.toNat_setWidth]
  have small := s.isLt
  omega

section Iret

variable {m : Machine} (cpu : Cpu) (eip : m.load m.cpu.esp = cpu.eip)
  (cs : m.load (m.cpu.esp + 4) = cpu.cs.setWidth 32) (eflags : m.load (m.cpu.esp + 8) = cpu.eflags)

include eip cs eflags

theorem iret_outer (ring0 : ¬ m.cpu.User) (esp : m.mem.word (m.cpu.esp + 12) = cpu.esp)
    (ss : m.load (m.cpu.esp + 16) = cpu.ss.setWidth 32) (user : cpu.User) :
    m.iret =
      { m with cpu := { m.cpu with
                        esp := cpu.esp
                        eflags := cpu.eflags
                        eip := cpu.eip
                        cs := cpu.cs
                        ss := cpu.ss } } := by
  unfold iret
  simp only [eip, cs, eflags, selector_back]
  rw [if_pos ⟨user, ring0⟩, esp, ss, selector_back]

theorem iret_inner (kernel : ¬ cpu.User) :
    m.iret =
      { m with cpu := { m.cpu with
                        esp := m.cpu.esp + 12
                        eflags := cpu.eflags
                        eip := cpu.eip
                        cs := cpu.cs } } := by
  unfold iret
  simp only [eip, cs, eflags, selector_back]
  rw [if_neg (fun both => kernel both.1)]

end Iret

end Machine

/-! ### Words on a stack -/

/-- The words `ws` lie in memory from `a` upwards. -/
def Stacked (mem : ByteMemory) : (a : Nat) → (ws : List (BitVec 32)) → Prop
  | _, [] => True
  | a, w :: ws => mem.word a = w.toNat ∧ Stacked mem (a + 4) ws

namespace Stacked

variable {mem other : ByteMemory} {a : Nat} {w : BitVec 32} {ws rest : List (BitVec 32)}

theorem congr (stacked : Stacked mem a ws)
    (same : ∀ x, a ≤ x → x < a + 4 * ws.length → other x = mem x) : Stacked other a ws := by
  induction ws generalizing a with
  | nil => trivial
  | cons w ws ih =>
      rw [List.length_cons] at same
      refine ⟨?_, ih stacked.2 (fun x lower upper => same x (by omega) (by omega))⟩
      rw [← stacked.1]
      exact ByteMemory.word_congr (fun x lower upper => same x lower (by omega))

theorem append : Stacked mem a (ws ++ rest) ↔
    Stacked mem a ws ∧ Stacked mem (a + 4 * ws.length) rest := by
  induction ws generalizing a with
  | nil => exact ⟨fun stacked => ⟨trivial, stacked⟩, fun both => both.2⟩
  | cons w ws ih =>
      rw [List.cons_append, List.length_cons]
      have shift : a + 4 + 4 * ws.length = a + 4 * (ws.length + 1) := by omega
      constructor
      · rintro ⟨first, others⟩
        obtain ⟨left, right⟩ := ih.mp others
        exact ⟨⟨first, left⟩, shift ▸ right⟩
      · rintro ⟨⟨first, left⟩, right⟩
        exact ⟨first, ih.mpr ⟨left, shift ▸ right⟩⟩

/-- A word written below. -/
theorem setWord_below (stacked : Stacked mem a ws) {b value : Nat} (below : b + 4 ≤ a) :
    Stacked (mem.setWord b value) a ws := by
  apply stacked.congr
  intro x lower _
  exact ByteMemory.setWord_other _ _ (by omega)

/-- The `k`-th word is written. -/
theorem setWord_at (stacked : Stacked mem a ws) {k : Nat} (inside : k < ws.length)
    (value : BitVec 32) :
    Stacked (mem.setWord (a + 4 * k) value.toNat) a (ws.set k value) := by
  induction ws generalizing a k with
  | nil => cases inside
  | cons first ws ih =>
      cases k with
      | zero =>
          refine ⟨?_, stacked.2.setWord_below (Nat.le_refl _)⟩
          exact (ByteMemory.word_setWord _ _ _).trans (Nat.mod_eq_of_lt value.isLt)
      | succ k =>
          have next := ih stacked.2 (k := k) (Nat.lt_of_succ_lt_succ inside)
          rw [show a + 4 + 4 * k = a + 4 * (k + 1) by omega] at next
          refine ⟨?_, next⟩
          rw [ByteMemory.word_setWord_other _ _ (by omega)]
          exact stacked.1

theorem load (stacked : Stacked mem a (w :: ws)) : BitVec.ofNat 32 (mem.word a) = w := by
  rw [stacked.1, BitVec.ofNat_toNat, BitVec.setWidth_eq]

/-- The `k`-th word of a stack. -/
theorem load_at (stacked : Stacked mem a ws) {k : Nat} (isWord : ws[k]? = some w) :
    BitVec.ofNat 32 (mem.word (a + 4 * k)) = w := by
  induction ws generalizing a k with
  | nil => cases isWord
  | cons first ws ih =>
      cases k with
      | zero =>
          obtain rfl := Option.some.inj isWord
          exact stacked.load
      | succ k =>
          have next := ih stacked.2 (k := k) isWord
          rw [show a + 4 + 4 * k = a + 4 * (k + 1) by omega] at next
          exact next

end Stacked

/-! ### Pushing one word after the other -/

def Machine.pushAll (m : Machine) (values : List (BitVec 32)) : Machine :=
  values.foldl Machine.push m

namespace Machine

theorem pushAll_cons (m : Machine) (value : BitVec 32) (values : List (BitVec 32)) :
    m.pushAll (value :: values) = (m.push value).pushAll values := rfl

theorem pushAll_nil (m : Machine) : m.pushAll [] = m := rfl

theorem pushAll_append (m : Machine) (first second : List (BitVec 32)) :
    m.pushAll (first ++ second) = (m.pushAll first).pushAll second := List.foldl_append

theorem enterGate_pushAll (m : Machine) (gate : Gate) (values : List (BitVec 32)) :
    (m.enterGate gate).pushAll values = (m.pushAll values).enterGate gate := by
  induction values generalizing m with
  | nil => rfl
  | cons value values ih =>
      rw [pushAll_cons, pushAll_cons, enterGate_push, ih]

variable {m : Machine} {ws : List (BitVec 32)}

theorem pushAll_cpu (m : Machine) (values : List (BitVec 32)) :
    (m.pushAll values).cpu = { m.cpu with esp := m.cpu.esp - 4 * values.length } := by
  induction values generalizing m with
  | nil => rfl
  | cons value values ih =>
      change ((m.push value).pushAll values).cpu = _
      rw [ih, List.length_cons]
      unfold push
      dsimp only
      congr 1
      omega

theorem pushAll_esp (m : Machine) (values : List (BitVec 32)) :
    (m.pushAll values).cpu.esp = m.cpu.esp - 4 * values.length := by
  rw [pushAll_cpu]

theorem pushAll_reg (m : Machine) (values : List (BitVec 32)) :
    (m.pushAll values).cpu.reg = m.cpu.reg := by
  rw [pushAll_cpu]

theorem pushAll_seg (m : Machine) (values : List (BitVec 32)) :
    (m.pushAll values).cpu.seg = m.cpu.seg := by
  rw [pushAll_cpu]

/-- What is pushed lies on the stack, the last word at its top. -/
theorem pushAll_stacked (values : List (BitVec 32)) (m : Machine)
    (room : 4 * values.length ≤ m.cpu.esp) (stacked : Stacked m.mem m.cpu.esp ws) :
    Stacked (m.pushAll values).mem (m.cpu.esp - 4 * values.length) (values.reverse ++ ws) := by
  induction values generalizing m ws with
  | nil => exact stacked
  | cons value values ih =>
      rw [List.length_cons] at room
      have pushed : Stacked (m.push value).mem (m.push value).cpu.esp (value :: ws) := by
        refine ⟨?_, ?_⟩
        · exact (ByteMemory.word_setWord _ _ _).trans (Nat.mod_eq_of_lt value.isLt)
        · have whole : m.cpu.esp - 4 + 4 = m.cpu.esp := by omega
          change Stacked (m.mem.setWord _ _) (m.cpu.esp - 4 + 4) ws
          rw [whole]
          exact stacked.setWord_below (by omega)
      have below : 4 * values.length ≤ (m.push value).cpu.esp := by
        change 4 * values.length ≤ m.cpu.esp - 4
        omega
      have rest := ih (m.push value) below pushed
      have start : (m.push value).cpu.esp - 4 * values.length =
          m.cpu.esp - 4 * (value :: values).length := by
        change m.cpu.esp - 4 - _ = _
        rw [List.length_cons]
        omega
      rw [start] at rest
      rw [List.reverse_cons, List.append_assoc]
      exact rest

/-- The pushed words alone. -/
theorem pushAll_words (values : List (BitVec 32)) (m : Machine)
    (room : 4 * values.length ≤ m.cpu.esp) :
    Stacked (m.pushAll values).mem (m.cpu.esp - 4 * values.length) values.reverse := by
  have stacked := pushAll_stacked values m room (show Stacked m.mem m.cpu.esp [] from trivial)
  rw [List.append_nil] at stacked
  exact stacked

theorem pushAll_outside (values : List (BitVec 32)) (m : Machine)
    (room : 4 * values.length ≤ m.cpu.esp) {x : Nat}
    (outside : x < m.cpu.esp - 4 * values.length ∨ m.cpu.esp ≤ x) :
    (m.pushAll values).mem x = m.mem x := by
  induction values generalizing m with
  | nil => rfl
  | cons value values ih =>
      rw [List.length_cons] at room outside
      have below : 4 * values.length ≤ (m.push value).cpu.esp := by
        change 4 * values.length ≤ m.cpu.esp - 4
        omega
      change ((m.push value).pushAll values).mem x = m.mem x
      rw [ih (m.push value) below (by
        change x < m.cpu.esp - 4 - 4 * values.length ∨ m.cpu.esp - 4 ≤ x
        omega)]
      exact ByteMemory.setWord_other _ _ (by omega)

end Machine

end MangoOS
