/-
The interrupt controllers under init_8259 (kernel/arch.c), enable_8259, disable_8259 and pic_done
(kernel/irq.c), with the handlers of the timer and of the disk.

The gates clear the interrupt flag.  The timer handler acknowledges its interrupt before anything
else can run; the disk handler may call schedule before it does, so that other tasks run and other
interrupts come in between.
-/

import MangoOS.Library.InterruptChips
import MangoOS.Device.DeviceTable

namespace MangoOS

open InterruptChips

/-! ### Ports -/

def outb (p : Cascade) (port : BitVec 16) (value : BitVec 8) : Cascade :=
  if port = 0x20 then { p with master := p.master.writeCommand value }
  else if port = 0x21 then { p with master := p.master.writeData value }
  else if port = 0xa0 then { p with slave := p.slave.writeCommand value }
  else if port = 0xa1 then { p with slave := p.slave.writeData value }
  else p

/-- The data ports read as the masks. -/
def inb (p : Cascade) (port : BitVec 16) : BitVec 8 :=
  if port = 0x21 then p.master.imr else p.slave.imr

structure PortWrite where
  port : BitVec 16
  value : BitVec 8
  deriving DecidableEq

def PortWrite.run (p : Cascade) (w : PortWrite) : Cascade := outb p w.port w.value

/-! ### The kernel's functions -/

/-- `init_8259` -/
def init8259 (p : Cascade) : Cascade :=
  [⟨0x20, 0x11⟩, ⟨0x21, 0x20⟩, ⟨0x21, 1#8 <<< 2⟩, ⟨0x21, 1⟩,
    ⟨0xa0, 0x11⟩, ⟨0xa1, 0x28⟩, ⟨0xa1, 1#8 <<< 1⟩, ⟨0xa1, 1⟩,
    ⟨0x21, 0xff &&& ~~~(1#8 <<< 2)⟩, ⟨0xa1, 0xff⟩].foldl PortWrite.run p

/-- What `enable_8259` or `disable_8259` writes, from the mask that it has read. -/
def maskWrite (p : Cascade) (num : Int) (on : Bool) : Option PortWrite :=
  let change (mask : BitVec 8) (line : Nat) :=
    if on then mask &&& ~~~(1#8 <<< line) else mask ||| (1#8 <<< line)
  if num < 0x20 ∨ num > 0x30 then none
  else
    let line := (num - 0x20).toNat
    if line < 8 then some ⟨0x21, change (inb p 0x21) line⟩
    else some ⟨0xa1, change (inb p 0xa1) (line - 8)⟩

/-- `pic_done` -/
def picDone (p : Cascade) (num : Int) : Cascade :=
  let p := if num - 0x20 ≥ 8 then outb p 0xa0 (1#8 <<< 5) else p
  outb p 0x20 (1#8 <<< 5)

/-- The masks alone. -/
def maskRegisters (p : Cascade) : DeviceTable.Pic where
  master := p.master.imr
  slave := p.slave.imr

/-- A call that nothing interrupts changes the masks like the model without chips. -/
theorem maskWrite_pic {p : Cascade} (masterReady : p.master.stage = .ready)
    (slaveReady : p.slave.stage = .ready) (num : Int) (on : Bool) :
    maskRegisters (((maskWrite p num on).map (PortWrite.run p)).getD p) =
      if on then DeviceTable.enable8259 (maskRegisters p) num
      else DeviceTable.disable8259 (maskRegisters p) num := by
  unfold maskWrite DeviceTable.enable8259 DeviceTable.disable8259
  by_cases outside : num < 0x20 ∨ num > 0x30
  · rw [if_pos outside, if_pos outside, if_pos outside, ite_self]
    rfl
  · rw [if_neg outside, if_neg outside, if_neg outside]
    dsimp only
    by_cases first : (num - 0x20).toNat < 8
    · rw [if_pos first, if_pos first, if_pos first]
      simp only [Option.map_some, Option.getD_some, PortWrite.run, outb, Chip.writeData,
        masterReady]
      cases on <;> rfl
    · rw [if_neg first, if_neg first, if_neg first]
      simp only [Option.map_some, Option.getD_some, PortWrite.run, outb, Chip.writeData,
        slaveReady]
      cases on <;> rfl

/-! ### Interrupts in any order -/

structure IrqSystem where
  chips : Cascade
  /-- The disk handlers that have not come to `pic_done`. -/
  handlers : Nat
  /-- The writes of calls that have read a mask. -/
  writes : List PortWrite
  /-- `do_default_handler` has stopped the processor. -/
  halted : Bool

inductive IrqEvent
  /-- A device raises its line. -/
  | request (line : Nat)
  /-- The processor takes the interrupt that the controllers offer. -/
  | interrupt
  /-- A disk handler comes to `pic_done`. -/
  | diskDone
  | readMask (num : Int) (on : Bool)
  | writeMask (w : PortWrite)

namespace IrqSystem

/-- The handler of a vector. -/
def handle (s : IrqSystem) (vector : BitVec 8) : IrqSystem :=
  if vector = 0x20 then { s with chips := picDone s.chips 0x20 }
  else if vector = 0x2E then { s with handlers := s.handlers + 1 }
  else { s with halted := true }

def step (s : IrqSystem) : IrqEvent → IrqSystem
  | .request line => { s with chips := s.chips.request line }
  | .interrupt =>
      match s.chips.acknowledge with
      | none => s
      | some (vector, chips) => { s with chips := chips }.handle vector
  | .diskDone =>
      { s with
        chips := picDone s.chips 0x2E
        handlers := s.handlers - 1 }
  | .readMask num on => { s with writes := (maskWrite s.chips num on).toList ++ s.writes }
  | .writeMask w =>
      { s with
        chips := w.run s.chips
        writes := s.writes.erase w }

/-- The calls of the source: `init_8253`, `disk_open` and `disk_close`. -/
def Permitted (s : IrqSystem) : IrqEvent → Prop
  | .request line => line < 16 ∧ line ≠ 2
  | .interrupt => True
  | .diskDone => 0 < s.handlers
  | .readMask num on => (num = 0x20 ∧ on = true) ∨ num = 0x2E
  | .writeMask w => w ∈ s.writes

/-- The timer's interrupt is over before the next event. -/
def timerServed (s : IrqSystem) : IrqSystem :=
  { s with
    chips := { s.chips with
      master := { s.chips.master with irr := clearLine s.chips.master.irr 0 } } }

def diskStarted (s : IrqSystem) : IrqSystem :=
  { s with
    chips := { master := s.chips.master.accept 2, slave := s.chips.slave.accept 6 }
    handlers := 1 }

/-- The state after `init_8259`. -/
def start (chips : Cascade) : IrqSystem where
  chips := init8259 chips
  handlers := 0
  writes := []
  halted := false

end IrqSystem

inductive IrqRun (s : IrqSystem) : IrqSystem → Prop
  | refl : IrqRun s s
  | step {t : IrqSystem} {event : IrqEvent} (before : IrqRun s t) (permitted : t.Permitted event) :
      IrqRun s (t.step event)

/-! ### What is in service -/

/-- The words of `init_8259`. -/
structure Programmed (c : Chip) (base wiring : BitVec 8) : Prop where
  base : c.base = base
  wiring : c.wiring = wiring
  autoEnd : c.autoEnd = false
  stage : c.stage = .ready

structure Serving (s : IrqSystem) : Prop where
  master : Programmed s.chips.master 0x20 4
  slave : Programmed s.chips.slave 0x28 2
  masterMask : s.chips.master.imr = 0xfb ∨ s.chips.master.imr = 0xfa
  slaveMask : s.chips.slave.imr = 0xff ∨ s.chips.slave.imr = 0xbf
  service : (s.handlers = 0 ∧ s.chips.master.isr = 0 ∧ s.chips.slave.isr = 0) ∨
    (s.handlers = 1 ∧ s.chips.master.isr = 4 ∧ s.chips.slave.isr = 0x40)
  writes : ∀ w ∈ s.writes, w = ⟨0x21, 0xfa⟩ ∨ w = ⟨0xa1, 0xff⟩ ∨ w = ⟨0xa1, 0xbf⟩
  running : s.halted = false

theorem master_lines : ∀ i, i < 8 →
    ((0xfb : BitVec 8).getLsbD i = false → i = 2) ∧
      ((0xfa : BitVec 8).getLsbD i = false → i = 0 ∨ i = 2) := by decide

theorem slave_lines : ∀ i, i < 8 →
    (0xff : BitVec 8).getLsbD i ≠ false ∧ ((0xbf : BitVec 8).getLsbD i = false → i = 6) := by
  decide

namespace Serving

variable {s : IrqSystem}

theorem slave_pending (serving : Serving s) {j : Nat} (asks : s.chips.slave.pending = some j) :
    j = 6 ∧ s.handlers = 0 := by
  obtain ⟨small, wants, idle, _⟩ := Chip.pending_eq_some.mp asks
  rw [Chip.requests_getLsbD _ small, Bool.and_eq_true, Bool.not_eq_true'] at wants
  have six : j = 6 := by
    rcases serving.slaveMask with mask | mask
    · exact absurd (mask ▸ wants.2) (slave_lines j small).1
    · exact (slave_lines j small).2 (mask ▸ wants.2)
  subst six
  rcases serving.service with ⟨none, _, _⟩ | ⟨_, _, busy⟩
  · exact ⟨rfl, none⟩
  · rw [busy] at idle
    cases idle

theorem wired_pending (serving : Serving s) {i : Nat} (asks : s.chips.wired.pending = some i) :
    (i = 0 ∧ s.chips.master.irr.getLsbD 0 = true ∧ s.chips.master.imr = 0xfa) ∨
      (i = 2 ∧ s.chips.slave.pending = some 6 ∧ s.handlers = 0) := by
  obtain ⟨small, wants, _, _⟩ := Chip.pending_eq_some.mp asks
  rw [Chip.requests_getLsbD _ small, Bool.and_eq_true, Bool.not_eq_true'] at wants
  obtain ⟨line, unmasked⟩ := wants
  change s.chips.master.imr.getLsbD i = false at unmasked
  have second : i = 2 → s.chips.slave.pending = some 6 ∧ s.handlers = 0 := by
    rintro rfl
    rw [Cascade.wired_irr_slave] at line
    obtain ⟨j, behind⟩ := Option.isSome_iff_exists.mp line
    obtain ⟨six, none⟩ := serving.slave_pending behind
    exact ⟨six ▸ behind, none⟩
  rcases serving.masterMask with mask | mask
  · rw [mask] at unmasked
    have two := (master_lines i small).1 unmasked
    exact Or.inr ⟨two, second two⟩
  · rw [mask] at unmasked
    rcases (master_lines i small).2 unmasked with zero | two
    · subst zero
      rw [Cascade.wired_irr _ (by decide)] at line
      exact Or.inl ⟨rfl, line, mask⟩
    · exact Or.inr ⟨two, second two⟩

/-- The command of `pic_done` reaches the timer, which has the highest priority. -/
theorem timer_step (serving : Serving s) (asks : s.chips.wired.pending = some 0) :
    s.step .interrupt = s.timerServed := by
  have taken := Cascade.acknowledge_master asks (by decide)
  rw [serving.master.base] at taken
  have first : lowest (s.chips.master.accept 0).isr = some 0 ∧
      clearLine (s.chips.master.accept 0).isr 0 = s.chips.master.isr := by
    rw [Chip.accept_isr serving.master.autoEnd]
    rcases serving.service with ⟨_, idle, _⟩ | ⟨_, busy, _⟩
    · rw [idle]
      decide
    · rw [busy]
      decide
  have back : picDone { s.chips with master := s.chips.master.accept 0 } 0x20 =
      s.timerServed.chips := by
    change { s.chips with master := (s.chips.master.accept 0).endInterrupt } = _
    rw [Chip.endInterrupt_first first.1, first.2]
    rfl
  unfold IrqSystem.step
  dsimp only
  rw [taken]
  change { s with chips := picDone _ 0x20 } = _
  rw [back]
  rfl

theorem disk_step (serving : Serving s) (asks : s.chips.wired.pending = some 2)
    (behind : s.chips.slave.pending = some 6) : s.step .interrupt = s.diskStarted := by
  have linked : s.chips.master.wiring.getLsbD 2 = true := by
    rw [serving.master.wiring]
    rfl
  have taken := Cascade.acknowledge_slave asks behind linked serving.slave.wiring
  rw [serving.slave.base] at taken
  obtain ⟨_, none⟩ := serving.slave_pending behind
  unfold IrqSystem.step
  dsimp only
  rw [taken]
  change { s with
    chips := _
    handlers := s.handlers + 1 } = _
  rw [none]
  rfl

theorem interrupt_cases (serving : Serving s) :
    s.step .interrupt = s ∨
      (s.step .interrupt = s.timerServed ∧ s.chips.wired.pending = some 0) ∨
      (s.step .interrupt = s.diskStarted ∧ s.chips.slave.pending = some 6 ∧ s.handlers = 0) := by
  cases found : s.chips.wired.pending with
  | none =>
      have quiet : s.chips.acknowledge = none := by
        unfold Cascade.acknowledge
        rw [found]
      unfold IrqSystem.step
      dsimp only
      rw [quiet]
      exact Or.inl rfl
  | some i =>
      rcases serving.wired_pending found with ⟨rfl, _, _⟩ | ⟨rfl, behind, none⟩
      · exact Or.inr (Or.inl ⟨serving.timer_step found, rfl⟩)
      · exact Or.inr (Or.inr ⟨serving.disk_step found behind, behind, none⟩)

/-- `pic_done` of the disk handler ends its two interrupts and no other. -/
theorem diskDone_chips (serving : Serving s) (unfinished : 0 < s.handlers) :
    picDone s.chips 0x2E =
      { master := { s.chips.master with isr := 0 }, slave := { s.chips.slave with isr := 0 } } := by
  rcases serving.service with ⟨none, _, _⟩ | ⟨_, masterBusy, slaveBusy⟩
  · omega
  · have master : lowest s.chips.master.isr = some 2 ∧ clearLine s.chips.master.isr 2 = 0 := by
      rw [masterBusy]
      decide
    have slave : lowest s.chips.slave.isr = some 6 ∧ clearLine s.chips.slave.isr 6 = 0 := by
      rw [slaveBusy]
      decide
    have ends : picDone s.chips 0x2E =
        { master := s.chips.master.endInterrupt, slave := s.chips.slave.endInterrupt } := rfl
    rw [ends, Chip.endInterrupt_first master.1, master.2, Chip.endInterrupt_first slave.1, slave.2]

/-- Two calls may change the same mask at the same time: each of them writes a legal one. -/
theorem maskWrite_legal (serving : Serving s) {num : Int} {on : Bool}
    (permitted : (num = 0x20 ∧ on = true) ∨ num = 0x2E) {w : PortWrite}
    (computed : maskWrite s.chips num on = some w) :
    w = ⟨0x21, 0xfa⟩ ∨ w = ⟨0xa1, 0xff⟩ ∨ w = ⟨0xa1, 0xbf⟩ := by
  rcases permitted with ⟨rfl, rfl⟩ | rfl
  · have timer : maskWrite s.chips 0x20 true =
        some ⟨0x21, s.chips.master.imr &&& ~~~(1#8 <<< 0)⟩ := rfl
    rw [timer] at computed
    cases computed
    rcases serving.masterMask with mask | mask <;> rw [mask] <;> exact Or.inl rfl
  · cases on with
    | true =>
        have opens : maskWrite s.chips 0x2E true =
            some ⟨0xa1, s.chips.slave.imr &&& ~~~(1#8 <<< 6)⟩ := rfl
        rw [opens] at computed
        cases computed
        rcases serving.slaveMask with mask | mask <;> rw [mask] <;> exact Or.inr (Or.inr rfl)
    | false =>
        have closes : maskWrite s.chips 0x2E false =
            some ⟨0xa1, s.chips.slave.imr ||| (1#8 <<< 6)⟩ := rfl
        rw [closes] at computed
        cases computed
        rcases serving.slaveMask with mask | mask <;> rw [mask] <;> exact Or.inr (Or.inl rfl)

theorem request_serving (serving : Serving s) (line : Nat) : Serving (s.step (.request line)) := by
  unfold IrqSystem.step Cascade.request
  dsimp only
  by_cases first : line < 8
  · rw [if_pos first]
    exact ⟨⟨serving.master.base, serving.master.wiring, serving.master.autoEnd,
      serving.master.stage⟩, serving.slave, serving.masterMask, serving.slaveMask,
      serving.service, serving.writes, serving.running⟩
  · rw [if_neg first]
    exact ⟨serving.master, ⟨serving.slave.base, serving.slave.wiring, serving.slave.autoEnd,
      serving.slave.stage⟩, serving.masterMask, serving.slaveMask, serving.service,
      serving.writes, serving.running⟩

theorem timerServed_serving (serving : Serving s) : Serving s.timerServed :=
  ⟨⟨serving.master.base, serving.master.wiring, serving.master.autoEnd, serving.master.stage⟩,
    serving.slave, serving.masterMask, serving.slaveMask, serving.service, serving.writes,
    serving.running⟩

theorem diskStarted_serving (serving : Serving s) (none : s.handlers = 0) :
    Serving s.diskStarted := by
  rcases serving.service with ⟨_, master, slave⟩ | ⟨one, _, _⟩
  · refine ⟨⟨serving.master.base, serving.master.wiring, serving.master.autoEnd,
      serving.master.stage⟩, ⟨serving.slave.base, serving.slave.wiring, serving.slave.autoEnd,
      serving.slave.stage⟩, serving.masterMask, serving.slaveMask, Or.inr ⟨rfl, ?_, ?_⟩,
      serving.writes, serving.running⟩
    · refine (Chip.accept_isr serving.master.autoEnd 2).trans ?_
      rw [master]
      rfl
    · refine (Chip.accept_isr serving.slave.autoEnd 6).trans ?_
      rw [slave]
      rfl
  · omega

theorem diskDone_serving (serving : Serving s) (unfinished : 0 < s.handlers) :
    Serving (s.step .diskDone) := by
  unfold IrqSystem.step
  dsimp only
  rw [serving.diskDone_chips unfinished]
  have one : s.handlers = 1 := by
    rcases serving.service with ⟨none, _⟩ | ⟨one, _⟩ <;> omega
  exact ⟨⟨serving.master.base, serving.master.wiring, serving.master.autoEnd,
    serving.master.stage⟩, ⟨serving.slave.base, serving.slave.wiring, serving.slave.autoEnd,
    serving.slave.stage⟩, serving.masterMask, serving.slaveMask,
    Or.inl ⟨by rw [one], rfl, rfl⟩, serving.writes, serving.running⟩

theorem write_master (serving : Serving s) (mask : BitVec 8) :
    PortWrite.run s.chips ⟨0x21, mask⟩ =
      { s.chips with master := { s.chips.master with imr := mask } } := by
  change { s.chips with master := s.chips.master.writeData mask } = _
  rw [Chip.writeData_ready serving.master.stage]

theorem write_slave (serving : Serving s) (mask : BitVec 8) :
    PortWrite.run s.chips ⟨0xa1, mask⟩ =
      { s.chips with slave := { s.chips.slave with imr := mask } } := by
  change { s.chips with slave := s.chips.slave.writeData mask } = _
  rw [Chip.writeData_ready serving.slave.stage]

theorem writeMask_serving (serving : Serving s) {w : PortWrite} (computed : w ∈ s.writes) :
    Serving (s.step (.writeMask w)) := by
  have left : ∀ v ∈ s.writes.erase w, v = ⟨0x21, 0xfa⟩ ∨ v = ⟨0xa1, 0xff⟩ ∨ v = ⟨0xa1, 0xbf⟩ :=
    fun v found => serving.writes v (List.mem_of_mem_erase found)
  have master := serving.master
  have slave := serving.slave
  unfold IrqSystem.step
  dsimp only
  rcases serving.writes w computed with timer | closed | opened
  · rw [timer, serving.write_master, ← timer]
    exact ⟨⟨master.base, master.wiring, master.autoEnd, master.stage⟩, slave, Or.inr rfl,
      serving.slaveMask, serving.service, left, serving.running⟩
  · rw [closed, serving.write_slave, ← closed]
    exact ⟨master, ⟨slave.base, slave.wiring, slave.autoEnd, slave.stage⟩, serving.masterMask,
      Or.inl rfl, serving.service, left, serving.running⟩
  · rw [opened, serving.write_slave, ← opened]
    exact ⟨master, ⟨slave.base, slave.wiring, slave.autoEnd, slave.stage⟩, serving.masterMask,
      Or.inr rfl, serving.service, left, serving.running⟩

theorem step (serving : Serving s) {event : IrqEvent} (permitted : s.Permitted event) :
    Serving (s.step event) := by
  cases event with
  | request line => exact serving.request_serving line
  | interrupt =>
      rcases serving.interrupt_cases with same | ⟨timer, _⟩ | ⟨disk, _, none⟩
      · rw [same]
        exact serving
      · rw [timer]
        exact serving.timerServed_serving
      · rw [disk]
        exact serving.diskStarted_serving none
  | diskDone => exact serving.diskDone_serving permitted
  | readMask num on =>
      refine ⟨serving.master, serving.slave, serving.masterMask, serving.slaveMask,
        serving.service, ?_, serving.running⟩
      intro w found
      rcases List.mem_append.mp found with new | old
      · exact serving.maskWrite_legal permitted (Option.mem_toList.mp new)
      · exact serving.writes w old
  | writeMask w => exact serving.writeMask_serving permitted

theorem start {chips : Cascade} (quietMaster : chips.master.isr = 0)
    (quietSlave : chips.slave.isr = 0) : Serving (IrqSystem.start chips) :=
  ⟨⟨rfl, rfl, rfl, rfl⟩, ⟨rfl, rfl, rfl, rfl⟩, Or.inl rfl, Or.inl rfl,
    Or.inl ⟨rfl, quietMaster, quietSlave⟩, fun _ impossible => (List.not_mem_nil impossible).elim,
    rfl⟩

theorem run {t : IrqSystem} (serving : Serving s) (run : IrqRun s t) : Serving t := by
  induction run with
  | refl => exact serving
  | step _ permitted ih => exact ih.step permitted

/-! ### Which interrupt is next -/

theorem acknowledge_cases (serving : Serving s) {vector : BitVec 8} {chips : Cascade}
    (taken : s.chips.acknowledge = some (vector, chips)) :
    vector = 0x20 ∨ (vector = 0x2E ∧ s.handlers = 0) := by
  cases found : s.chips.wired.pending with
  | none =>
      unfold Cascade.acknowledge at taken
      rw [found] at taken
      cases taken
  | some i =>
      rcases serving.wired_pending found with ⟨rfl, _, _⟩ | ⟨rfl, behind, none⟩
      · rw [Cascade.acknowledge_master found (by decide), serving.master.base] at taken
        cases taken
        exact Or.inl rfl
      · have linked : s.chips.master.wiring.getLsbD 2 = true := by
          rw [serving.master.wiring]
          rfl
        rw [Cascade.acknowledge_slave found behind linked serving.slave.wiring,
          serving.slave.base] at taken
        cases taken
        exact Or.inr ⟨rfl, none⟩

/-- The timer interrupts the disk handler as well. -/
theorem timer_pending (serving : Serving s) (enabled : s.chips.master.imr.getLsbD 0 = false)
    (asks : s.chips.master.irr.getLsbD 0 = true) : s.chips.wired.pending = some 0 := by
  refine Chip.pending_eq_some.mpr ⟨by decide, ?_, ?_, fun j less => absurd less (Nat.not_lt_zero j)⟩
  · rw [Chip.requests_getLsbD _ (by decide), Cascade.wired_irr _ (by decide), asks]
    change (true && !s.chips.master.imr.getLsbD 0) = true
    rw [enabled]
    rfl
  · change s.chips.master.isr.getLsbD 0 = false
    rcases serving.service with ⟨_, idle, _⟩ | ⟨_, busy, _⟩
    · rw [idle]
      rfl
    · rw [busy]
      rfl

theorem disk_pending (serving : Serving s) (none : s.handlers = 0)
    (enabled : s.chips.slave.imr.getLsbD 6 = false)
    (asks : s.chips.slave.irr.getLsbD 6 = true) : s.chips.slave.pending = some 6 := by
  have idle : s.chips.slave.isr = 0 := by
    rcases serving.service with ⟨_, _, idle⟩ | ⟨one, _, _⟩
    · exact idle
    · omega
  have mask : s.chips.slave.imr = 0xbf := by
    rcases serving.slaveMask with mask | mask
    · rw [mask] at enabled
      cases enabled
    · exact mask
  refine Chip.pending_eq_some.mpr ⟨by decide, ?_, ?_, fun j less => ⟨?_, ?_⟩⟩
  · rw [Chip.requests_getLsbD _ (by decide), asks, enabled]
    rfl
  · rw [idle]
    exact BitVec.getLsbD_zero
  · have masked : ∀ j, j < 6 → (0xbf : BitVec 8).getLsbD j = true := by decide
    rw [Chip.requests_getLsbD _ (by omega), mask, masked j less]
    exact Bool.and_false _
  · rw [idle]
    exact BitVec.getLsbD_zero

theorem cascade_pending (serving : Serving s) (none : s.handlers = 0)
    (behind : s.chips.slave.pending = some 6) (timer : s.chips.master.irr.getLsbD 0 = false) :
    s.chips.wired.pending = some 2 := by
  have idle : s.chips.wired.isr = 0 := by
    rcases serving.service with ⟨_, idle, _⟩ | ⟨one, _, _⟩
    · exact idle
    · omega
  have open_ : s.chips.wired.imr.getLsbD 2 = false ∧ s.chips.wired.imr.getLsbD 1 = true := by
    change s.chips.master.imr.getLsbD 2 = false ∧ s.chips.master.imr.getLsbD 1 = true
    rcases serving.masterMask with mask | mask <;> rw [mask] <;> decide
  refine Chip.pending_eq_some.mpr ⟨by decide, ?_, ?_, fun j less => ⟨?_, ?_⟩⟩
  · rw [Chip.requests_getLsbD _ (by decide), Cascade.wired_irr_slave, behind, open_.1]
    rfl
  · rw [idle]
    exact BitVec.getLsbD_zero
  · rw [Chip.requests_getLsbD _ (by omega)]
    have two : j = 0 ∨ j = 1 := by omega
    rcases two with rfl | rfl
    · rw [Cascade.wired_irr _ (by decide), timer]
      rfl
    · rw [open_.2]
      exact Bool.and_false _
  · rw [idle]
    exact BitVec.getLsbD_zero

/-- No call masks the timer again. -/
theorem enabled_run {t : IrqSystem} (serving : Serving s)
    (enabled : s.chips.master.imr.getLsbD 0 = false) (run : IrqRun s t) :
    t.chips.master.imr.getLsbD 0 = false := by
  induction run with
  | refl => exact enabled
  | @step t event before permitted ih =>
      have state := serving.run before
      cases event with
      | request line =>
          unfold IrqSystem.step Cascade.request
          dsimp only
          split <;> exact ih
      | interrupt =>
          rcases state.interrupt_cases with same | ⟨timer, _⟩ | ⟨disk, _, _⟩
          · rw [same]
            exact ih
          · rw [timer]
            exact ih
          · rw [disk]
            exact ih
      | diskDone =>
          unfold IrqSystem.step
          dsimp only
          rw [state.diskDone_chips permitted]
          exact ih
      | readMask num on => exact ih
      | writeMask w =>
          unfold IrqSystem.step
          dsimp only
          rcases state.writes w permitted with timer | closed | opened
          · rw [timer, state.write_master]
            change (0xfa : BitVec 8).getLsbD 0 = false
            rfl
          · rw [closed, state.write_slave]
            exact ih
          · rw [opened, state.write_slave]
            exact ih

end Serving

/-! ### Every run -/

section Runs

variable {chips : Cascade} {s t : IrqSystem}

/-- In service are the lines of the disk handler that has not come to `pic_done`, and no
interrupt reaches the default handler. -/
theorem service_exact (quietMaster : chips.master.isr = 0) (quietSlave : chips.slave.isr = 0)
    (run : IrqRun (IrqSystem.start chips) s) :
    s.halted = false ∧ s.handlers ≤ 1 ∧
      s.chips.master.isr = (if s.handlers = 0 then 0 else 4) ∧
      s.chips.slave.isr = (if s.handlers = 0 then 0 else 0x40) ∧
      ∀ vector after, s.chips.acknowledge = some (vector, after) →
        vector = 0x20 ∨ (vector = 0x2E ∧ s.handlers = 0) := by
  have serving := (Serving.start quietMaster quietSlave).run run
  refine ⟨serving.running, ?_, ?_, ?_, fun vector after => serving.acknowledge_cases⟩
  all_goals rcases serving.service with ⟨none, master, slave⟩ | ⟨one, master, slave⟩
  · omega
  · omega
  · rw [if_pos none, master]
  · rw [if_neg (by omega), master]
  · rw [if_pos none, slave]
  · rw [if_neg (by omega), slave]

/-- Once `init_8253` has enabled the timer, each of its requests is the next to be taken, and its
`pic_done` leaves everything else in service; a request of the disk waits for the timer and for
the handler before it, and no longer. -/
theorem requests_served (quietMaster : chips.master.isr = 0) (quietSlave : chips.slave.isr = 0)
    (before : IrqRun (IrqSystem.start chips) s)
    (enabled : s.chips.master.imr.getLsbD 0 = false) (run : IrqRun s t) :
    (t.chips.master.irr.getLsbD 0 = true → t.step .interrupt = t.timerServed) ∧
      (t.chips.master.irr.getLsbD 0 = false → t.handlers = 0 →
        t.chips.slave.imr.getLsbD 6 = false → t.chips.slave.irr.getLsbD 6 = true →
        t.step .interrupt = t.diskStarted) := by
  have first := (Serving.start quietMaster quietSlave).run before
  have serving := first.run run
  have stays := first.enabled_run enabled run
  constructor
  · intro asks
    exact serving.timer_step (serving.timer_pending stays asks)
  · intro timer none diskEnabled asks
    have behind := serving.disk_pending none diskEnabled asks
    exact serving.disk_step (serving.cascade_pending none behind timer) behind

end Runs

/-! The timer is enabled and asks, and then the disk. -/

def idleChip : Chip := ⟨0, 0, 0, 0, 0, false, .ready⟩

def timerOn : IrqSystem :=
  ((IrqSystem.start ⟨idleChip, idleChip⟩).step (.readMask 0x20 true)).step
    (.writeMask ⟨0x21, 0xfa⟩)

def bothAsk : IrqSystem := (timerOn.step (.request 14)).step (.request 0)

theorem timerOn_run : IrqRun (IrqSystem.start ⟨idleChip, idleChip⟩) timerOn := by
  refine (IrqRun.refl.step ?_).step ?_
  · exact Or.inl ⟨rfl, rfl⟩
  · change _ ∈ ([⟨0x21, 0xfa⟩] : List PortWrite)
    exact List.mem_singleton.mpr rfl

theorem bothAsk_run : IrqRun timerOn bothAsk := by
  refine (IrqRun.refl.step ?_).step ?_
  · exact ⟨by decide, by decide⟩
  · exact ⟨by decide, by decide⟩

theorem service_exact_timer :
    timerOn.halted = false ∧ timerOn.handlers ≤ 1 ∧
      timerOn.chips.master.isr = (if timerOn.handlers = 0 then 0 else 4) ∧
      timerOn.chips.slave.isr = (if timerOn.handlers = 0 then 0 else 0x40) ∧
      ∀ vector after, timerOn.chips.acknowledge = some (vector, after) →
        vector = 0x20 ∨ (vector = 0x2E ∧ timerOn.handlers = 0) :=
  service_exact rfl rfl timerOn_run

theorem requests_served_both :
    (bothAsk.chips.master.irr.getLsbD 0 = true → bothAsk.step .interrupt = bothAsk.timerServed) ∧
      (bothAsk.chips.master.irr.getLsbD 0 = false → bothAsk.handlers = 0 →
        bothAsk.chips.slave.imr.getLsbD 6 = false → bothAsk.chips.slave.irr.getLsbD 6 = true →
        bothAsk.step .interrupt = bothAsk.diskStarted) :=
  requests_served rfl rfl timerOn_run (by decide) bothAsk_run

end MangoOS
