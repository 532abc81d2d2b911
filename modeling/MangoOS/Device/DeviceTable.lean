/-
The device table (device/dev.c) over the disk driver's `open` and `close`
(device/disk.c) and the mask bits of the 8259 (kernel/irq.c): who has a device open.

The gate that `disk_open` installs for its interrupt is the same at every call and is left out.
-/

import MangoOS.Library.Words
import Mathlib.Logic.Function.Basic

namespace MangoOS

namespace DeviceTable

def maxDevices : Nat := 128

def enodev : Int := 10

def enopart : Int := 12

/-! ### The interrupt controller -/

/-- The mask registers, ports 0x21 and 0xA1. -/
structure Pic where
  master : BitVec 8
  slave : BitVec 8
  deriving DecidableEq

def enable8259 (pic : Pic) (num : Int) : Pic :=
  if num < 0x20 ∨ num > 0x30 then pic
  else
    let line := (num - 0x20).toNat
    if line < 8 then { pic with master := pic.master &&& ~~~(1#8 <<< line) }
    else { pic with slave := pic.slave &&& ~~~(1#8 <<< (line - 8)) }

def disable8259 (pic : Pic) (num : Int) : Pic :=
  if num < 0x20 ∨ num > 0x30 then pic
  else
    let line := (num - 0x20).toNat
    if line < 8 then { pic with master := pic.master ||| (1#8 <<< line) }
    else { pic with slave := pic.slave ||| (1#8 <<< (line - 8)) }

/-! ### The disk driver -/

/-- `part_info_t`. -/
structure PartInfo where
  type : Int
  beginSec : Nat
  count : Nat
  deriving DecidableEq

/-- `minor & 0xF`. -/
def partIndex (minor : Int) : Nat := (minor % 16).toNat

/-- `disk_open` on a device with a minor number; `part` is `part_info` and what follows it. -/
def diskOpen (part : Nat → PartInfo) (minor : Int) (pic : Pic) : Int × Pic :=
  if (part (partIndex minor)).count = 0 then (-enopart, pic) else (0, enable8259 pic 0x2E)

def diskClose (pic : Pic) : Pic := disable8259 pic 0x2E

/-! ### The table -/

/-- The `open` and `close` of `dev_op_t`. -/
structure DevOp where
  openDevice : (Nat → PartInfo) → Int → Pic → Int × Pic
  closeDevice : Pic → Pic

/-- `dev_type_t`. -/
structure DevType where
  major : Int
  op : DevOp

/-- `device_t`; a slot that was never used has no type, and major number 0. -/
structure Slot where
  type : Option DevType
  minor : Int
  param : Nat
  openCount : Int

def Slot.major (dev : Slot) : Int :=
  match dev.type with
  | some type => type.major
  | none => 0

def devDisk : DevType where
  major := 1
  op := { openDevice := diskOpen, closeDevice := diskClose }

def supportTable : List DevType := [devDisk]

end DeviceTable

open DeviceTable in
/-- `dev_table`, with the partitions and the interrupt controller that the driver uses. -/
structure DeviceTable where
  slot : Nat → Slot
  part : Nat → PartInfo
  pic : Pic

namespace DeviceTable

def setSlot (s : DeviceTable) (id : Nat) (dev : Slot) : DeviceTable :=
  { s with slot := Function.update s.slot id dev }

/-- What the scan of `dev_open` ends with. -/
inductive Scan
  | found (id : Nat)
  | missing (freeIndex : Option Nat)
  deriving DecidableEq

/-- The scan from slot `i` on. -/
def scanFrom (slot : Nat → Slot) (major minor : Int) :
    (left i : Nat) → (freeIndex : Option Nat) → Scan
  | 0, _, freeIndex => .missing freeIndex
  | left + 1, i, freeIndex =>
      if (slot i).openCount ≠ 0 then
        if (slot i).major = major ∧ (slot i).minor = minor then .found i
        else scanFrom slot major minor left (i + 1) freeIndex
      else scanFrom slot major minor left (i + 1) (freeIndex.or (some i))

/-- The search for a driver: the first one with this major number, else the last one. -/
def searchType (major : Int) : List DevType → Option DevType → Option DevType
  | [], devType => devType
  | type :: rest, _ => if major = type.major then some type else searchType major rest (some type)

def devOpen (s : DeviceTable) (major minor : Int) (param : Nat) : Int × DeviceTable :=
  match scanFrom s.slot major minor maxDevices 0 none with
  | .found id =>
      (id, s.setSlot id { s.slot id with openCount := int32 ((s.slot id).openCount + 1) })
  | .missing none => (-enodev, s)
  | .missing (some freeIndex) =>
      match searchType major supportTable none with
      | none => (-enodev, s)
      | some devType =>
          let dev : Slot :=
            { s.slot freeIndex with type := some devType, minor := minor, param := param }
          let (err, pic) := devType.op.openDevice s.part minor s.pic
          if err = 0 then
            (freeIndex, { s.setSlot freeIndex { dev with openCount := 1 } with pic := pic })
          else (-enodev, { s.setSlot freeIndex dev with pic := pic })

/-- `dev_close`, and whether it called the driver's `close`. -/
def devClose (s : DeviceTable) (id : Nat) : Bool × DeviceTable :=
  let dev := s.slot id
  let openCount := int32 (dev.openCount - 1)
  let closed := s.setSlot id { dev with openCount := openCount }
  match dev.type with
  | some type =>
      if openCount = 0 then (true, { closed with pic := type.op.closeDevice s.pic })
      else (false, closed)
  | none => (false, closed)

/-! ### What the operations do -/

variable {s : DeviceTable} {major minor : Int}

@[simp] theorem setSlot_slot (id other : Nat) (dev : Slot) :
    (s.setSlot id dev).slot other = if other = id then dev else s.slot other :=
  Function.update_apply s.slot id dev other

@[simp] theorem setSlot_part (id : Nat) (dev : Slot) : (s.setSlot id dev).part = s.part := rfl
@[simp] theorem setSlot_pic (id : Nat) (dev : Slot) : (s.setSlot id dev).pic = s.pic := rfl

/-- An open slot of this device. -/
def Shows (s : DeviceTable) (major minor : Int) (id : Nat) : Prop :=
  (s.slot id).openCount ≠ 0 ∧ (s.slot id).major = major ∧ (s.slot id).minor = minor

/-- The scan ends at an open slot of the device, or there is none. -/
theorem scanFrom_spec (left i : Nat) (freeIndex : Option Nat)
    (isFree : ∀ id, freeIndex = some id → id < i ∧ (s.slot id).openCount = 0) :
    (∃ id, scanFrom s.slot major minor left i freeIndex = .found id ∧ id < i + left ∧
      s.Shows major minor id) ∨
    (∃ last, scanFrom s.slot major minor left i freeIndex = .missing last ∧
      (∀ id, i ≤ id → id < i + left → ¬ s.Shows major minor id) ∧
      ∀ id, last = some id → id < i + left ∧ (s.slot id).openCount = 0) := by
  induction left generalizing i freeIndex with
  | zero => exact Or.inr ⟨freeIndex, rfl, fun id lower upper => by omega, isFree⟩
  | succ left ih =>
      rw [scanFrom]
      by_cases isOpen : (s.slot i).openCount ≠ 0
      · rw [if_pos isOpen]
        by_cases same : (s.slot i).major = major ∧ (s.slot i).minor = minor
        · rw [if_pos same]
          exact Or.inl ⟨i, rfl, by omega, isOpen, same⟩
        · rw [if_neg same]
          have free := fun id held =>
            And.intro (Nat.lt_succ_of_lt (isFree id held).1) (isFree id held).2
          rcases ih (i + 1) freeIndex free with
            ⟨id, found, upper, shows⟩ | ⟨last, missing, none, lastFree⟩
          · exact Or.inl ⟨id, found, by omega, shows⟩
          · refine Or.inr ⟨last, missing, ?_, fun id held => ?_⟩
            · intro id lower upper shows
              cases decEq id i with
              | isTrue here => exact same (here ▸ shows.2)
              | isFalse later => exact none id (by omega) (by omega) shows
            · have bounds := lastFree id held
              exact ⟨by omega, bounds.2⟩
      · rw [if_neg isOpen]
        have free : ∀ id, freeIndex.or (some i) = some id →
            id < i + 1 ∧ (s.slot id).openCount = 0 := by
          intro id held
          cases freeIndex with
          | none =>
              obtain rfl := Option.some.inj held
              exact ⟨by omega, not_not.mp isOpen⟩
          | some before =>
              have bounds := isFree id held
              exact ⟨by omega, bounds.2⟩
        rcases ih (i + 1) (freeIndex.or (some i)) free with
          ⟨id, found, upper, shows⟩ | ⟨last, missing, none, lastFree⟩
        · exact Or.inl ⟨id, found, by omega, shows⟩
        · refine Or.inr ⟨last, missing, ?_, fun id held => ?_⟩
          · intro id lower upper shows
            cases decEq id i with
            | isTrue here => exact isOpen (here ▸ shows.1)
            | isFalse later => exact none id (by omega) (by omega) shows
          · have bounds := lastFree id held
            exact ⟨by omega, bounds.2⟩

theorem searchType_supportTable (major : Int) :
    searchType major supportTable none = some devDisk := by
  change (if major = devDisk.major then some devDisk else some devDisk) = some devDisk
  exact ite_self (some devDisk)

/-- A slot that now belongs to the disk driver, whose partition is known to be there. -/
def opened (s : DeviceTable) (id : Nat) (minor : Int) (param : Nat) : DeviceTable :=
  { s.setSlot id { type := some devDisk, minor := minor, param := param, openCount := 1 } with
    pic := enable8259 s.pic 0x2E }

theorem devOpen_cases (s : DeviceTable) (major minor : Int) (param : Nat) :
    (∃ id, scanFrom s.slot major minor maxDevices 0 none = .found id ∧ id < maxDevices ∧
      s.Shows major minor id ∧
      s.devOpen major minor param = ((id : Int),
        s.setSlot id { s.slot id with openCount := int32 ((s.slot id).openCount + 1) })) ∨
    (∀ id, id < maxDevices → ¬ s.Shows major minor id) ∧
      (scanFrom s.slot major minor maxDevices 0 none = .missing none ∧
        s.devOpen major minor param = (-enodev, s) ∨
      ∃ id, scanFrom s.slot major minor maxDevices 0 none = .missing (some id) ∧
        id < maxDevices ∧ (s.slot id).openCount = 0 ∧
        ((s.part (partIndex minor)).count = 0 ∧
          s.devOpen major minor param = (-enodev, s.setSlot id
            { type := some devDisk, minor := minor, param := param, openCount := 0 }) ∨
        (s.part (partIndex minor)).count ≠ 0 ∧
          s.devOpen major minor param = ((id : Int), s.opened id minor param))) := by
  unfold devOpen
  rcases @scanFrom_spec s major minor maxDevices 0 none
    (fun id impossible => by cases impossible) with
    ⟨id, found, upper, shows⟩ | ⟨last, missing, none, lastFree⟩
  · rw [found]
    exact Or.inl ⟨id, rfl, by omega, shows, rfl⟩
  · rw [missing]
    refine Or.inr ⟨fun id upper => none id (Nat.zero_le id) (by omega), ?_⟩
    cases last with
    | none => exact Or.inl ⟨rfl, rfl⟩
    | some id =>
        obtain ⟨upper, free⟩ := lastFree id rfl
        refine Or.inr ⟨id, rfl, by omega, free, ?_⟩
        dsimp only
        rw [searchType_supportTable]
        by_cases empty : (s.part (partIndex minor)).count = 0
        · have refused : devDisk.op.openDevice s.part minor s.pic = (-enopart, s.pic) :=
            if_pos empty
          refine Or.inl ⟨empty, ?_⟩
          simp only [refused]
          rw [if_neg (by decide), free]
          rfl
        · have opens : devDisk.op.openDevice s.part minor s.pic = (0, enable8259 s.pic 0x2E) :=
            if_neg empty
          refine Or.inr ⟨empty, ?_⟩
          simp only [opens]
          rfl

/-- `dev_close` counts one slot down, whatever its driver does. -/
theorem devClose_openCount (s : DeviceTable) (id other : Nat) :
    ((s.devClose id).2.slot other).openCount =
      if other = id then int32 ((s.slot id).openCount - 1) else (s.slot other).openCount := by
  have counted (pic : Pic) :
      (({ s.setSlot id { s.slot id with openCount := int32 ((s.slot id).openCount - 1) } with
          pic := pic } : DeviceTable).slot other).openCount =
        if other = id then int32 ((s.slot id).openCount - 1) else (s.slot other).openCount := by
    change ((s.setSlot id _).slot other).openCount = _
    rw [setSlot_slot]
    split <;> rfl
  unfold devClose
  dsimp only
  split
  · split
    · exact counted _
    · exact counted _
  · exact counted _

end DeviceTable

end MangoOS
