/-
Two 8259 interrupt controllers in cascade, the second on line 2 of the first: initialisation, the
fully nested mode, and the end of an interrupt.  Requests are latched edges.  Rotation, the special
mask mode and the reading of other registers than the mask are not modelled.
-/

import Mathlib.Data.Bool.Basic
import Mathlib.Tactic.ByContra

namespace MangoOS

namespace InterruptChips

/-- The line of the highest priority. -/
def lowest (lines : BitVec 8) : Option Nat := (List.range 8).find? lines.getLsbD

def setLine (lines : BitVec 8) (i : Nat) : BitVec 8 := lines ||| (1#8 <<< i)

def clearLine (lines : BitVec 8) (i : Nat) : BitVec 8 := lines &&& ~~~(1#8 <<< i)

/-- The initialisation word that the chip waits for. -/
inductive Stage
  | icw2 (single needs4 : Bool)
  | icw3 (needs4 : Bool)
  | icw4
  | ready
  deriving DecidableEq

structure Chip where
  irr : BitVec 8
  isr : BitVec 8
  imr : BitVec 8
  base : BitVec 8
  /-- The lines with a second chip, or the line of the first chip. -/
  wiring : BitVec 8
  autoEnd : Bool
  stage : Stage
  deriving DecidableEq

namespace Chip

/-- The end of the interrupt of the highest priority. -/
def endInterrupt (c : Chip) : Chip :=
  match lowest c.isr with
  | none => c
  | some i => { c with isr := clearLine c.isr i }

def writeCommand (c : Chip) (value : BitVec 8) : Chip :=
  if value.getLsbD 4 then
    { c with
      irr := 0
      imr := 0
      autoEnd := false
      stage := .icw2 (value.getLsbD 1) (value.getLsbD 0) }
  else if value &&& 0xf8 = 0x20 then c.endInterrupt
  else c

def afterIcw3 (needs4 : Bool) : Stage := if needs4 then .icw4 else .ready

def writeData (c : Chip) (value : BitVec 8) : Chip :=
  match c.stage with
  | .icw2 single needs4 =>
      { c with
        base := value &&& 0xf8
        stage := if single then afterIcw3 needs4 else .icw3 needs4 }
  | .icw3 needs4 =>
      { c with
        wiring := value
        stage := afterIcw3 needs4 }
  | .icw4 =>
      { c with
        autoEnd := value.getLsbD 1
        stage := .ready }
  | .ready => { c with imr := value }

/-- The requests that are not masked. -/
def requests (c : Chip) : BitVec 8 := c.irr &&& ~~~c.imr

/-- The line to interrupt with: nothing in service has its priority or a higher one. -/
def pending (c : Chip) : Option Nat :=
  match lowest (c.requests ||| c.isr) with
  | none => none
  | some i => if c.isr.getLsbD i then none else some i

def request (c : Chip) (i : Nat) : Chip := { c with irr := setLine c.irr i }

/-- The processor has accepted the interrupt of a line. -/
def accept (c : Chip) (i : Nat) : Chip :=
  { c with
    irr := clearLine c.irr i
    isr := if c.autoEnd then c.isr else setLine c.isr i }

end Chip

structure Cascade where
  master : Chip
  slave : Chip
  deriving DecidableEq

namespace Cascade

def request (p : Cascade) (line : Nat) : Cascade :=
  if line < 8 then { p with master := p.master.request line }
  else { p with slave := p.slave.request (line - 8) }

/-- The first chip with the output of the second on its line 2. -/
def wired (p : Cascade) : Chip :=
  { p.master with
    irr := if p.slave.pending.isSome then setLine p.master.irr 2 else clearLine p.master.irr 2 }

/-- The vector that the processor reads, when the pair interrupts it. -/
def acknowledge (p : Cascade) : Option (BitVec 8 × Cascade) :=
  match p.wired.pending with
  | none => none
  | some i =>
      let accepted := { p with master := p.master.accept i }
      match p.slave.pending with
      | none => some (p.master.base + BitVec.ofNat 8 i, accepted)
      | some j =>
          if i = 2 ∧ p.master.wiring.getLsbD 2 ∧ p.slave.wiring = 2 then
            some (p.slave.base + BitVec.ofNat 8 j, { accepted with slave := p.slave.accept j })
          else some (p.master.base + BitVec.ofNat 8 i, accepted)

end Cascade

/-! ### Lines -/

theorem lowest_eq_some {lines : BitVec 8} {i : Nat} :
    lowest lines = some i ↔
      i < 8 ∧ lines.getLsbD i = true ∧ ∀ j, j < i → lines.getLsbD j = false := by
  unfold lowest
  rw [List.find?_range_eq_some]
  simp only [Bool.not_eq_true']
  constructor
  · rintro ⟨isSet, small, before⟩
    exact ⟨List.mem_range.mp small, isSet, before⟩
  · rintro ⟨small, isSet, before⟩
    exact ⟨isSet, List.mem_range.mpr small, before⟩

theorem getLsbD_setLine (lines : BitVec 8) {i : Nat} (small : i < 8) (j : Nat) :
    (setLine lines i).getLsbD j = (lines.getLsbD j || decide (j = i)) := by
  unfold setLine
  rw [BitVec.getLsbD_or, BitVec.getLsbD_shiftLeft, BitVec.getLsbD_one]
  grind

theorem getLsbD_clearLine (lines : BitVec 8) (i j : Nat) :
    (clearLine lines i).getLsbD j = (lines.getLsbD j && decide (j ≠ i)) := by
  unfold clearLine
  rw [BitVec.getLsbD_and, BitVec.getLsbD_not, BitVec.getLsbD_shiftLeft, BitVec.getLsbD_one]
  by_cases small : j < 8
  · grind
  · rw [BitVec.getLsbD_of_ge lines j (by omega)]
    rfl

namespace Chip

/-- Fully nested: the first line that asks or is in service decides. -/
theorem pending_eq_some {c : Chip} {i : Nat} :
    c.pending = some i ↔ i < 8 ∧ c.requests.getLsbD i = true ∧ c.isr.getLsbD i = false ∧
      ∀ j, j < i → c.requests.getLsbD j = false ∧ c.isr.getLsbD j = false := by
  unfold pending
  constructor
  · intro found
    cases first : lowest (c.requests ||| c.isr) with
    | none =>
        rw [first] at found
        cases found
    | some k =>
        rw [first] at found
        dsimp only at found
        by_cases served : c.isr.getLsbD k = true
        · rw [if_pos served] at found
          cases found
        · rw [if_neg served] at found
          cases found
          obtain ⟨small, isSet, before⟩ := lowest_eq_some.mp first
          have idle := Bool.eq_false_iff.mpr served
          rw [BitVec.getLsbD_or, idle, Bool.or_false] at isSet
          refine ⟨small, isSet, idle, fun j less => ?_⟩
          have clear := before j less
          rw [BitVec.getLsbD_or] at clear
          exact Bool.or_eq_false_iff.mp clear
  · rintro ⟨small, asks, idle, before⟩
    have first : lowest (c.requests ||| c.isr) = some i := by
      refine lowest_eq_some.mpr ⟨small, ?_, fun j less => ?_⟩
      · rw [BitVec.getLsbD_or, asks, Bool.true_or]
      · rw [BitVec.getLsbD_or, (before j less).1, (before j less).2]
        rfl
    rw [first]
    dsimp only
    rw [idle, if_neg Bool.false_ne_true]

theorem requests_getLsbD (c : Chip) {i : Nat} (small : i < 8) :
    c.requests.getLsbD i = (c.irr.getLsbD i && !c.imr.getLsbD i) := by
  unfold requests
  rw [BitVec.getLsbD_and, BitVec.getLsbD_not]
  simp [small]

theorem endInterrupt_first {c : Chip} {i : Nat} (first : lowest c.isr = some i) :
    c.endInterrupt = { c with isr := clearLine c.isr i } := by
  unfold endInterrupt
  rw [first]

theorem writeData_ready {c : Chip} (ready : c.stage = .ready) (value : BitVec 8) :
    c.writeData value = { c with imr := value } := by
  unfold writeData
  rw [ready]

theorem accept_isr {c : Chip} (manual : c.autoEnd = false) (i : Nat) :
    (c.accept i).isr = setLine c.isr i := by
  change (if c.autoEnd then c.isr else setLine c.isr i) = _
  rw [manual, if_neg Bool.false_ne_true]

end Chip

namespace Cascade

theorem acknowledge_master {p : Cascade} {i : Nat} (found : p.wired.pending = some i)
    (own : i ≠ 2) :
    p.acknowledge =
      some (p.master.base + BitVec.ofNat 8 i, { p with master := p.master.accept i }) := by
  unfold acknowledge
  rw [found]
  dsimp only
  cases p.slave.pending with
  | none => rfl
  | some j =>
      dsimp only
      rw [if_neg (fun all => own all.1)]

theorem acknowledge_slave {p : Cascade} {j : Nat} (found : p.wired.pending = some 2)
    (behind : p.slave.pending = some j) (wired : p.master.wiring.getLsbD 2 = true)
    (line : p.slave.wiring = 2) :
    p.acknowledge = some (p.slave.base + BitVec.ofNat 8 j,
      { master := p.master.accept 2, slave := p.slave.accept j }) := by
  unfold acknowledge
  rw [found, behind]
  dsimp only
  rw [if_pos ⟨rfl, wired, line⟩]

theorem wired_irr (p : Cascade) {i : Nat} (own : i ≠ 2) :
    p.wired.irr.getLsbD i = p.master.irr.getLsbD i := by
  unfold wired
  cases p.slave.pending with
  | none =>
      change (clearLine p.master.irr 2).getLsbD i = _
      rw [getLsbD_clearLine, decide_eq_true own, Bool.and_true]
  | some j =>
      change (setLine p.master.irr 2).getLsbD i = _
      rw [getLsbD_setLine _ (by decide), decide_eq_false own, Bool.or_false]

theorem wired_irr_slave (p : Cascade) : p.wired.irr.getLsbD 2 = p.slave.pending.isSome := by
  unfold wired
  cases p.slave.pending with
  | none =>
      change (clearLine p.master.irr 2).getLsbD 2 = false
      rw [getLsbD_clearLine]
      exact Bool.and_false _
  | some j =>
      change (setLine p.master.irr 2).getLsbD 2 = true
      rw [getLsbD_setLine _ (by decide)]
      exact Bool.or_true _

end Cascade

end InterruptChips

end MangoOS
