/-
Descriptor tables of an IA-32 processor in protected mode: the fields of an entry, and the checks
that the processor makes when it loads the task register, takes an interrupt or returns from one.
-/

import MangoOS.Library.StackMachine
import Mathlib.Tactic.ByCases

namespace MangoOS

/-- An entry of a descriptor table. -/
abbrev SegmentEntry := BitVec 64

namespace SegmentEntry

def base (d : SegmentEntry) : BitVec 32 := d.extractLsb' 56 8 ++ d.extractLsb' 16 24

/-- The last offset of the segment. -/
def limit (d : SegmentEntry) : Nat :=
  let field := (d.extractLsb' 48 4 ++ d.extractLsb' 0 16).toNat
  if d.getLsbD 55 then field * 4096 + 4095 else field

/-- Bit 4 is clear in system segments and gates. -/
def type (d : SegmentEntry) : BitVec 5 := d.extractLsb' 40 5

def dpl (d : SegmentEntry) : BitVec 2 := d.extractLsb' 45 2

def present (d : SegmentEntry) : Bool := d.getLsbD 47

/-- Instructions and stack are of 32 bits. -/
def wide (d : SegmentEntry) : Bool := d.getLsbD 54

/-! Gates have an offset in place of the base. -/

def gateSelector (d : SegmentEntry) : BitVec 16 := d.extractLsb' 16 16

def gateOffset (d : SegmentEntry) : BitVec 32 := d.extractLsb' 48 16 ++ d.extractLsb' 0 16

/-- A code segment that is not conforming. -/
def Code (d : SegmentEntry) : Prop := d.type &&& 0b11100 = 0b11000

/-- A data segment that can be written. -/
def Writable (d : SegmentEntry) : Prop := d.type &&& 0b11010 = 0b10010

instance (d : SegmentEntry) : Decidable d.Code := inferInstanceAs (Decidable (_ = _))

instance (d : SegmentEntry) : Decidable d.Writable := inferInstanceAs (Decidable (_ = _))

/-- A segment of a ring over the whole address space. -/
structure Flat (d : SegmentEntry) (ring : BitVec 2) : Prop where
  base : d.base = 0
  limit : d.limit = 4294967295
  dpl : d.dpl = ring
  present : d.present
  wide : d.wide

end SegmentEntry

/-- The requested privilege level of a selector. -/
def rpl (selector : BitVec 16) : BitVec 2 := selector.extractLsb' 0 2

/-- The entry of the global table that a selector names; bit 2 names the local table. -/
def selected (gdt : Nat → SegmentEntry) (selector : BitVec 16) : Option SegmentEntry :=
  if selector.getLsbD 2 ∨ selector.toNat / 8 = 0 then none else some (gdt (selector.toNat / 8))

/-- `ltr`: the base of a task state segment that is not busy, which becomes busy. -/
def loadTaskRegister (gdt : Nat → SegmentEntry) (selector : BitVec 16) :
    Option (BitVec 32 × (Nat → SegmentEntry)) :=
  match selected gdt selector with
  | none => none
  | some d =>
      if d.present ∧ d.type = 9 then
        some (d.base, Function.update gdt (selector.toNat / 8) (d ||| 0x20000000000))
      else none

/-- An interrupt in a ring; only `int` compares the ring with that of the gate. -/
def takeInterrupt (gdt idt : Nat → SegmentEntry) (ring : BitVec 2) (software : Bool)
    (vector : BitVec 8) : Option Gate :=
  let d := idt vector.toNat
  if d.present ∧ d.type = 14 ∧ (software → ring ≤ d.dpl) then
    match selected gdt d.gateSelector with
    | none => none
    | some code =>
        if code.Code ∧ code.present ∧ code.dpl ≤ ring then some ⟨d.gateSelector, d.gateOffset⟩
        else none
  else none

/-- The segments with which `iret` goes to an outer ring. -/
def CanReturn (gdt : Nat → SegmentEntry) (cs ss : BitVec 16) : Prop :=
  ∃ code stack, selected gdt cs = some code ∧ selected gdt ss = some stack ∧
    (code.Code ∧ code.present ∧ code.dpl = rpl cs) ∧
    (stack.Writable ∧ stack.present ∧ stack.dpl = rpl cs ∧ rpl ss = rpl cs)

end MangoOS
