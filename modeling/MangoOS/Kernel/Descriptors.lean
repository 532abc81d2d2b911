/-
The descriptor tables of the kernel (kernel/arch.c) and irq_install (kernel/irq.c), read back the
way the processor reads them.
-/

import MangoOS.Library.Segments
import MangoOS.Kernel.ForkFiles

namespace MangoOS

/-! ### The entries -/

/-- `gdt_desc_t` -/
structure GdtDesc where
  llimit : BitVec 16
  lbase : BitVec 16
  mbase : BitVec 8
  attr : BitVec 16
  hbase : BitVec 8

/-- `gate_desc_t` -/
structure GateDesc where
  loffset : BitVec 16
  selector : BitVec 16
  attr : BitVec 16
  hoffset : BitVec 16

/-- The packed structures in memory. -/
def GdtDesc.bits (d : GdtDesc) : SegmentEntry :=
  d.hbase ++ d.attr ++ d.mbase ++ d.lbase ++ d.llimit

def GateDesc.bits (d : GateDesc) : SegmentEntry :=
  d.hoffset ++ d.attr ++ d.selector ++ d.loffset

/-- The entry that `set_gdt_desc` writes. -/
def setGdtDesc (base limit : BitVec 32) (attr : BitVec 16) : GdtDesc :=
  -- the limit counts pages when it does not fit
  let large := limit > 0xfffff
  let attr := if large then attr ||| 0x8000 else attr
  let limit := if large then limit / 0x1000 else limit
  { llimit := limit.setWidth 16
    lbase := base.setWidth 16
    mbase := (base >>> 16).setWidth 8
    attr := attr ||| (((limit >>> 16) &&& 0xf) <<< 8).setWidth 16
    hbase := (base >>> 24).setWidth 8 }

/-- The entry that `set_gate_desc` writes. -/
def setGateDesc (selector : BitVec 16) (offset : BitVec 32) (attr : BitVec 16) : GateDesc where
  loffset := offset.setWidth 16
  selector := selector
  attr := attr
  hoffset := (offset >>> 16).setWidth 16

/-! ### The tables -/

def kernelSelectorCs : BitVec 16 := 8

def tssSelector : BitVec 16 := 40

/-- Present, 32-bit, readable code or writable data. -/
def codeAttr (ring : BitVec 16) : BitVec 16 := 0x80 ||| (ring <<< 5) ||| 0x10 ||| 0x0A ||| 0x4000

def dataAttr (ring : BitVec 16) : BitVec 16 := 0x80 ||| (ring <<< 5) ||| 0x10 ||| 0x2 ||| 0x4000

/-- `sizeof(tss_t)` -/
def tssSize : BitVec 32 := 104

/-- The entry that `set_tss_desc` writes. -/
def setTssDesc (tss : BitVec 32) : GdtDesc := setGdtDesc tss tssSize (0x80 ||| 9)

/-- `init_gdt`; the user segments also set bit 5 by itself. -/
def initGdt (tss : BitVec 32) : Nat → SegmentEntry
  | 1 => (setGdtDesc 0 0xffffffff (codeAttr 0)).bits
  | 2 => (setGdtDesc 0 0xffffffff (dataAttr 0)).bits
  | 3 => (setGdtDesc 0 0xffffffff (0x20 ||| codeAttr 3)).bits
  | 4 => (setGdtDesc 0 0xffffffff (0x20 ||| dataAttr 3)).bits
  | 5 => (setTssDesc tss).bits
  | _ => (setGdtDesc 0 0 0).bits

/-- The attributes of an interrupt gate. -/
def gateAttr (ring : BitVec 16) : BitVec 16 := 0x8000 ||| (ring <<< 13) ||| 0xE00

structure Tables where
  gdt : Nat → SegmentEntry
  idt : Nat → SegmentEntry
  /-- The base of the segment in the task register, when there is one. -/
  tr : Option (BitVec 32)

def idtTableSize : Int := 256

/-- `irq_install`; the number goes on as a `ushort`. -/
def irqInstall (t : Tables) (num : Int) (handler : BitVec 32) : Int × Tables :=
  if num > idtTableSize then (-1, t)
  else
    let attr := if num = 0x80 then gateAttr 3 else gateAttr 0
    let entry := (setGateDesc kernelSelectorCs handler attr).bits
    (0, { t with idt := Function.update t.idt (BitVec.ofInt 16 num).toNat entry })

/-- The handlers that `init_idt` installs. -/
def exceptionHandlers : List Int :=
  [0, 1, 2, 3, 4, 5, 6, 7, 8, 10, 11, 12, 13, 14, 16, 17, 18, 19, 20, 21]

/-- `arch_init`: `handler` is the address of the entry code for a vector. -/
def archInit (tss fallback : BitVec 32) (handler : Int → BitVec 32) : Tables :=
  exceptionHandlers.foldl (fun t num => (irqInstall t num (handler num)).2)
    { gdt := initGdt tss
      idt := fun _ => (setGateDesc kernelSelectorCs fallback (gateAttr 0)).bits
      tr := none }

/-- `switch_tss` for two different tasks; `ltr` raises an exception when the segment is busy. -/
def switchTss (t : Tables) (tss : BitVec 32) : Option Tables :=
  match loadTaskRegister (Function.update t.gdt 5 (setTssDesc tss).bits) tssSelector with
  | none => none
  | some (base, gdt) =>
      some { t with
        gdt := gdt
        tr := some base }

/-! ### What the processor reads back -/

theorem gdt_base (d : GdtDesc) : d.bits.base = d.hbase ++ d.mbase ++ d.lbase := by
  unfold SegmentEntry.base GdtDesc.bits
  ext i small
  simp only [BitVec.getElem_append, BitVec.getElem_extractLsb', BitVec.getLsbD_append]
  grind

/-- The three parts of the base. -/
theorem base_parts (base : BitVec 32) :
    (base >>> 24).setWidth 8 ++ (base >>> 16).setWidth 8 ++ base.setWidth 16 = base := by
  ext i small
  simp
  grind

theorem setGdtDesc_base (base limit : BitVec 32) (attr : BitVec 16) :
    (setGdtDesc base limit attr).bits.base = base :=
  (gdt_base _).trans (base_parts base)

theorem gate_selector (d : GateDesc) : d.bits.gateSelector = d.selector := by
  unfold SegmentEntry.gateSelector GateDesc.bits
  ext i small
  simp only [BitVec.getElem_extractLsb', BitVec.getLsbD_append]
  grind

theorem gate_offset (d : GateDesc) : d.bits.gateOffset = d.hoffset ++ d.loffset := by
  unfold SegmentEntry.gateOffset GateDesc.bits
  ext i small
  simp only [BitVec.getElem_append, BitVec.getElem_extractLsb', BitVec.getLsbD_append]
  grind

theorem setGateDesc_offset (selector : BitVec 16) (offset : BitVec 32) (attr : BitVec 16) :
    (setGateDesc selector offset attr).bits.gateOffset = offset := by
  refine (gate_offset _).trans ?_
  unfold setGateDesc
  ext i small
  simp
  grind

theorem gdt_type (d : GdtDesc) : d.bits.type = d.attr.extractLsb' 0 5 := by
  unfold SegmentEntry.type GdtDesc.bits
  ext i small
  simp only [BitVec.getElem_extractLsb', BitVec.getLsbD_append]
  grind

theorem gdt_present (d : GdtDesc) : d.bits.present = d.attr.getLsbD 7 := by
  unfold SegmentEntry.present GdtDesc.bits
  simp only [BitVec.getLsbD_append]
  rfl

theorem gdt_limit (d : GdtDesc) :
    d.bits.limit =
      let field := (d.attr.extractLsb' 8 4 ++ d.llimit).toNat
      if d.attr.getLsbD 15 then field * 4096 + 4095 else field := by
  have field : d.bits.extractLsb' 48 4 ++ d.bits.extractLsb' 0 16 =
      d.attr.extractLsb' 8 4 ++ d.llimit := by
    unfold GdtDesc.bits
    ext i small
    simp only [BitVec.getElem_append, BitVec.getElem_extractLsb', BitVec.getLsbD_append]
    grind
  have pages : d.bits.getLsbD 55 = d.attr.getLsbD 15 := by
    unfold GdtDesc.bits
    simp only [BitVec.getLsbD_append]
    rfl
  unfold SegmentEntry.limit
  rw [field, pages]

theorem gate_type (d : GateDesc) : d.bits.type = d.attr.extractLsb' 8 5 := by
  unfold SegmentEntry.type GateDesc.bits
  ext i small
  simp only [BitVec.getElem_extractLsb', BitVec.getLsbD_append]
  grind

theorem gate_dpl (d : GateDesc) : d.bits.dpl = d.attr.extractLsb' 13 2 := by
  unfold SegmentEntry.dpl GateDesc.bits
  ext i small
  simp only [BitVec.getElem_extractLsb', BitVec.getLsbD_append]
  grind

theorem gate_present (d : GateDesc) : d.bits.present = d.attr.getLsbD 15 := by
  unfold SegmentEntry.present GateDesc.bits
  simp only [BitVec.getLsbD_append]
  rfl

/-- The bits of the limit that the attributes carry. -/
theorem nibble_bit (limit : BitVec 32) {i : Nat} (small : i < 4) :
    ((((limit >>> 16) &&& 0xf) <<< 8).setWidth 16).getLsbD (8 + i) =
      limit.getLsbD (16 + i) := by
  have ones : (0xf : BitVec 32).getLsbD i = true := by
    have four : i = 0 ∨ i = 1 ∨ i = 2 ∨ i = 3 := by omega
    rcases four with rfl | rfl | rfl | rfl <;> rfl
  rw [BitVec.getLsbD_setWidth, BitVec.getLsbD_shiftLeft, BitVec.getLsbD_and,
    BitVec.getLsbD_ushiftRight, show 8 + i - 8 = i by omega, ones]
  have inside : 8 + i < 16 ∧ 8 + i < 32 ∧ ¬ 8 + i < 8 := by omega
  simp [inside]

/-- The limit in its two fields, when it fits. -/
theorem limit_fields {attr : BitVec 16} (limit : BitVec 32)
    (clear : ∀ i, 8 ≤ i → i < 12 → attr.getLsbD i = false) :
    (attr ||| (((limit >>> 16) &&& 0xf) <<< 8).setWidth 16).extractLsb' 8 4 ++
      limit.setWidth 16 = limit.setWidth 20 := by
  ext i small
  rw [BitVec.getElem_append, BitVec.getElem_setWidth]
  by_cases low : i < 16
  · rw [dif_pos low, BitVec.getElem_setWidth]
  · rw [dif_neg low, BitVec.getElem_extractLsb', BitVec.getLsbD_or,
      clear (8 + (i - 16)) (by omega) (by omega), Bool.false_or, nibble_bit limit (by omega),
      show 16 + (i - 16) = i by omega]

theorem clear_bit {attr mask : BitVec 16} (clear : attr &&& mask = 0) {i : Nat}
    (inside : mask.getLsbD i = true) : attr.getLsbD i = false := by
  have bit := congrArg (fun x : BitVec 16 => x.getLsbD i) clear
  simp only [BitVec.getLsbD_and, inside, Bool.and_true] at bit
  exact bit.trans BitVec.getLsbD_zero

/-- The bits of the granularity and of the limit stay apart. -/
theorem granularity_bit (attr : BitVec 16) (limit : BitVec 32) :
    (attr ||| (((limit >>> 16) &&& 0xf) <<< 8).setWidth 16).getLsbD 15 = attr.getLsbD 15 := by
  have zero : (0xf : BitVec 32).getLsbD 7 = false := rfl
  rw [BitVec.getLsbD_or, BitVec.getLsbD_setWidth, BitVec.getLsbD_shiftLeft, BitVec.getLsbD_and,
    show 15 - 8 = 7 from rfl, zero]
  simp

/-- The limit comes back, rounded up to the end of its page when it counts pages. -/
theorem setGdtDesc_limit (base limit : BitVec 32) {attr : BitVec 16}
    (clear : attr &&& 0x8f00 = 0) :
    (setGdtDesc base limit attr).bits.limit =
      if limit > 0xfffff then limit.toNat / 4096 * 4096 + 4095 else limit.toNat := by
  have low : ∀ i, 8 ≤ i → i < 12 → attr.getLsbD i = false := by
    intro i lower upper
    have four : i = 8 ∨ i = 9 ∨ i = 10 ∨ i = 11 := by omega
    rcases four with rfl | rfl | rfl | rfl <;> exact clear_bit clear rfl
  rw [gdt_limit]
  by_cases large : limit > 0xfffff
  · have kept : ∀ i, 8 ≤ i → i < 12 → (attr ||| 0x8000).getLsbD i = false := by
      intro i lower upper
      have four : i = 8 ∨ i = 9 ∨ i = 10 ∨ i = 11 := by omega
      rw [BitVec.getLsbD_or, low i lower upper]
      rcases four with rfl | rfl | rfl | rfl <;> rfl
    have pages : (attr ||| 0x8000).getLsbD 15 = true := by
      rw [BitVec.getLsbD_or]
      exact Bool.or_true _
    have small : limit.toNat / 4096 < 1048576 := by
      have bound := limit.isLt
      omega
    rw [if_pos large]
    simp only [setGdtDesc, if_pos large, granularity_bit, pages, if_true, limit_fields _ kept]
    rw [BitVec.toNat_setWidth, BitVec.toNat_udiv, show BitVec.toNat (0x1000 : BitVec 32) = 4096
      from rfl, Nat.mod_eq_of_lt small]
  · have bytes : attr.getLsbD 15 = false := clear_bit clear rfl
    have small : limit.toNat < 1048576 := by
      have bound : ¬ 1048575 < limit.toNat := large
      omega
    rw [if_neg large]
    simp only [setGdtDesc, if_neg large, granularity_bit, bytes, Bool.false_eq_true, if_false,
      limit_fields _ low]
    rw [BitVec.toNat_setWidth, Nat.mod_eq_of_lt small]

end MangoOS
