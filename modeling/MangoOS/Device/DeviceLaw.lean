/-
Runs over the device table (device/dev.c) with the handles that are out: what the
open counts say about them, and which calls keep it so.
-/

import MangoOS.Device.DeviceTable
import Mathlib.Algebra.Group.Nat.Defs

namespace MangoOS

namespace DeviceTable

/-- A table and, for each slot, how many handles for it were given and not closed. -/
structure Users where
  dev : DeviceTable
  handles : Nat → Nat

inductive DeviceCall
  | open (major minor : Int) (param : Nat)
  | close (id : Nat)

def Users.step (u : Users) : DeviceCall → Users
  | .open major minor param =>
      let (id, dev) := u.dev.devOpen major minor param
      ⟨dev, if 0 ≤ id then Function.update u.handles id.toNat (u.handles id.toNat + 1)
        else u.handles⟩
  | .close id => ⟨(u.dev.devClose id).2, Function.update u.handles id (u.handles id - 1)⟩

/-- Only handles that are out are closed. -/
def Users.Legal (u : Users) : DeviceCall → Prop
  | .open _ _ _ => True
  | .close id => 0 < u.handles id

inductive DeviceRun (allowed : Users → DeviceCall → Prop) : Users → Prop
  | start (u : Users) : (∀ id, (u.dev.slot id).openCount = 0) → (∀ id, u.handles id = 0) →
      (u.dev.pic.slave.getLsbD 6 = true) → DeviceRun allowed u
  | call {u : Users} (call : DeviceCall) : DeviceRun allowed u → u.Legal call →
      allowed u call → DeviceRun allowed (u.step call)

/-! ### What is kept -/

/-- The open count of a slot is the number of its handles. -/
def Users.Counted (u : Users) : Prop :=
  ∀ id, (u.dev.slot id).openCount = u.handles id ∧ (maxDevices ≤ id → u.handles id = 0)

/-- An open slot belongs to a driver, which has opened its device. -/
def Users.Served (u : Users) : Prop :=
  ∀ id, (u.dev.slot id).openCount ≠ 0 → (u.dev.slot id).type = some devDisk ∧
    (u.dev.part (partIndex (u.dev.slot id).minor)).count ≠ 0

/-- No device is open in two slots. -/
def Users.Unique (u : Users) : Prop :=
  ∀ i j, 0 < (u.dev.slot i).openCount → 0 < (u.dev.slot j).openCount →
    (u.dev.slot i).major = (u.dev.slot j).major →
    (u.dev.slot i).minor = (u.dev.slot j).minor → i = j

/-- Some driver has exactly this major number, and it opens this device. -/
def Supported (s : DeviceTable) (major minor : Int) : Prop :=
  ∃ type, type ∈ supportTable ∧ type.major = major ∧
    (type.op.openDevice s.part minor s.pic).1 = 0

/-- What a call has to do besides keeping the account. -/
def Users.Answers (u : Users) : DeviceCall → Prop
  | .open major minor param =>
      (0 ≤ (u.dev.devOpen major minor param).1 → u.dev.Supported major minor) ∧
        ((u.dev.devOpen major minor param).1 < 0 → ∀ id,
          ((u.dev.devOpen major minor param).2.slot id).openCount = (u.dev.slot id).openCount ∧
          ((u.dev.slot id).openCount ≠ 0 →
            (u.dev.devOpen major minor param).2.slot id = u.dev.slot id))
  | .close id => (u.dev.devClose id).1 = true ↔ u.handles id = 1

def Users.Accounted (u : Users) : Prop := u.Unique ∧ u.Counted

def Users.Keeps (u : Users) (call : DeviceCall) : Prop :=
  (u.step call).Accounted ∧ u.Answers call

/-- An `int` can count one handle more. -/
def Users.Fits (u : Users) : DeviceCall → Prop
  | .open major minor _ => ∀ id,
      scanFrom u.dev.slot major minor maxDevices 0 none = .found id → u.handles id < 2 ^ 31 - 1
  | .close _ => True

/-- Where a slot is free for the device, some driver has its major number or its partition is
not there. -/
def Users.Meets (u : Users) : DeviceCall → Prop
  | .open major minor param =>
      u.Fits (.open major minor param) ∧ ∀ id,
        scanFrom u.dev.slot major minor maxDevices 0 none = .missing (some id) →
        (∃ type, type ∈ supportTable ∧ type.major = major) ∨
          (u.dev.part (partIndex minor)).count = 0
  | .close _ => True

variable {u : Users} {id : Nat}

theorem Users.Counted.openCount (counted : u.Counted) (id : Nat) :
    (u.dev.slot id).openCount = u.handles id := (counted id).1

theorem Users.Counted.inside (counted : u.Counted) (out : 0 < u.handles id) : id < maxDevices := by
  by_contra above
  have none := (counted id).2 (Nat.le_of_not_lt above)
  omega

/-- What the step does to the number of handles, by the way `dev_open` ends. -/
theorem Users.step_given {major minor : Int} {param : Nat} {dev : DeviceTable}
    (given : u.dev.devOpen major minor param = ((id : Int), dev)) :
    u.step (.open major minor param) =
      ⟨dev, Function.update u.handles id (u.handles id + 1)⟩ := by
  simp only [step, given]
  rw [if_pos (Int.natCast_nonneg id), Int.toNat_natCast]

theorem Users.step_refused {major minor : Int} {param : Nat} {dev : DeviceTable}
    (refused : u.dev.devOpen major minor param = (-enodev, dev)) :
    u.step (.open major minor param) = ⟨dev, u.handles⟩ := by
  simp only [step, refused]
  rfl

/-! ### Closing -/

/-- Closing a handle that is out counts one handle less. -/
theorem devClose_spec {s : DeviceTable} {type : DevType} (served : (s.slot id).type = some type)
    (fits : -2147483648 < (s.slot id).openCount) (upper : (s.slot id).openCount < 2147483648) :
    s.devClose id = if (s.slot id).openCount = 1 then
        (true, { s.setSlot id { s.slot id with openCount := 0 } with
          pic := type.op.closeDevice s.pic })
      else (false, s.setSlot id { s.slot id with openCount := (s.slot id).openCount - 1 }) := by
  have exact : int32 ((s.slot id).openCount - 1) = (s.slot id).openCount - 1 :=
    int32_of_range (by omega) (by omega)
  unfold devClose
  simp only [exact, served]
  by_cases last : (s.slot id).openCount = 1
  · rw [if_pos last, if_pos (by omega), last]
    rfl
  · rw [if_neg last, if_neg (by omega)]

/-- Every handle that is out is of an `int` and of a slot with a driver. -/
structure Users.Sound (u : Users) : Prop where
  counted : u.Counted
  served : u.Served
  small : ∀ id, u.handles id < 2 ^ 31

theorem Users.Sound.devClose (sound : u.Sound) (out : 0 < u.handles id) :
    u.dev.devClose id = if u.handles id = 1 then
        (true, { u.dev.setSlot id { u.dev.slot id with openCount := 0 } with
          pic := diskClose u.dev.pic })
      else (false, u.dev.setSlot id
        { u.dev.slot id with openCount := (u.dev.slot id).openCount - 1 }) := by
  have count := sound.counted.openCount id
  have small := sound.small id
  have disk := (sound.served id (by omega)).1
  rw [devClose_spec disk (by omega) (by omega)]
  by_cases last : u.handles id = 1
  · rw [if_pos last, if_pos (by omega)]
    rfl
  · rw [if_neg last, if_neg (by omega)]

theorem Users.Sound.close_slot (sound : u.Sound) (out : 0 < u.handles id) (other : Nat) :
    ((u.step (.close id)).dev.slot other) =
      if other = id then { u.dev.slot id with openCount := (u.dev.slot id).openCount - 1 }
      else u.dev.slot other := by
  have count := sound.counted.openCount id
  change (u.dev.devClose id).2.slot other = _
  rw [sound.devClose out]
  by_cases last : u.handles id = 1
  · rw [if_pos last]
    have zero : (u.dev.slot id).openCount - 1 = 0 := by omega
    rw [zero]
    exact setSlot_slot id other _
  · rw [if_neg last]
    exact setSlot_slot id other _

theorem Users.Sound.close_part (sound : u.Sound) (out : 0 < u.handles id) :
    (u.step (.close id)).dev.part = u.dev.part := by
  change (u.dev.devClose id).2.part = _
  rw [sound.devClose out]
  by_cases last : u.handles id = 1
  · rw [if_pos last]
    rfl
  · rw [if_neg last]
    rfl

/-- A slot and the number of its handles change together. -/
theorem Users.Sound.recount (sound : u.Sound) {dev : DeviceTable} {slot : Slot} {n : Nat}
    (slots : ∀ other, dev.slot other = if other = id then slot else u.dev.slot other)
    (part : dev.part = u.dev.part) (counts : slot.openCount = n)
    (beyond : maxDevices ≤ id → n = 0)
    (served : slot.openCount ≠ 0 → slot.type = some devDisk ∧
      (u.dev.part (partIndex slot.minor)).count ≠ 0) (small : n < 2 ^ 31) :
    Users.Sound ⟨dev, Function.update u.handles id n⟩ := by
  constructor
  · intro other
    dsimp only
    rw [slots, Function.update_apply]
    cases decEq other id with
    | isTrue same =>
        rw [if_pos same, if_pos same, same]
        exact ⟨counts, beyond⟩
    | isFalse different =>
        rw [if_neg different, if_neg different]
        exact sound.counted other
  · intro other
    dsimp only
    rw [slots, part]
    cases decEq other id with
    | isTrue same =>
        rw [if_pos same]
        exact served
    | isFalse different =>
        rw [if_neg different]
        exact sound.served other
  · intro other
    dsimp only
    rw [Function.update_apply]
    cases decEq other id with
    | isTrue same =>
        rw [if_pos same]
        exact small
    | isFalse different =>
        rw [if_neg different]
        exact sound.small other

theorem Users.Sound.close (sound : u.Sound) (out : 0 < u.handles id) :
    (u.step (.close id)).Sound := by
  have count := sound.counted.openCount id
  have inside := sound.counted.inside out
  have small := sound.small id
  apply sound.recount (sound.close_slot out) (sound.close_part out)
  · dsimp only
    omega
  · intro above
    omega
  · intro _
    exact sound.served id (by omega)
  · omega

/-! ### Opening -/

theorem Users.Sound.found (sound : u.Sound) (inside : id < maxDevices)
    (isOpen : (u.dev.slot id).openCount ≠ 0) (fits : u.handles id < 2 ^ 31 - 1) :
    Users.Sound ⟨u.dev.setSlot id
        { u.dev.slot id with openCount := int32 ((u.dev.slot id).openCount + 1) },
      Function.update u.handles id (u.handles id + 1)⟩ := by
  have count := sound.counted.openCount id
  have exact : int32 ((u.dev.slot id).openCount + 1) = (u.dev.slot id).openCount + 1 :=
    int32_of_range (by omega) (by omega)
  rw [exact]
  apply sound.recount (fun other => setSlot_slot id other _) rfl
  · dsimp only
    omega
  · intro above
    omega
  · exact fun _ => sound.served id isOpen
  · omega

/-- A slot that is not open may change in everything but its count. -/
theorem Users.Sound.refused (sound : u.Sound) {dev : Slot} (closed : (u.dev.slot id).openCount = 0)
    (still : dev.openCount = 0) : Users.Sound ⟨u.dev.setSlot id dev, u.handles⟩ := by
  have count := sound.counted.openCount id
  rw [← Function.update_eq_self id u.handles]
  apply sound.recount (fun other => setSlot_slot id other _) rfl
  · omega
  · exact (sound.counted id).2
  · exact fun isOpen => absurd still isOpen
  · exact sound.small id

theorem Users.Sound.opened (sound : u.Sound) {minor : Int} {param : Nat} (inside : id < maxDevices)
    (closed : (u.dev.slot id).openCount = 0)
    (valid : (u.dev.part (partIndex minor)).count ≠ 0) :
    Users.Sound ⟨u.dev.opened id minor param,
      Function.update u.handles id (u.handles id + 1)⟩ := by
  have slots : ∀ other, (u.dev.opened id minor param).slot other =
      if other = id then { type := some devDisk, minor := minor, param := param, openCount := 1 }
      else u.dev.slot other := fun other => setSlot_slot id other _
  have none := sound.counted.openCount id
  apply sound.recount slots rfl
  · dsimp only
    omega
  · intro above
    omega
  · exact fun _ => ⟨rfl, valid⟩
  · omega

/-! ### Runs -/

/-- The account stays right in every call that no `int` is too small for. -/
theorem Users.Sound.step (sound : u.Sound) {call : DeviceCall} (legal : u.Legal call)
    (fits : u.Fits call) : (u.step call).Sound := by
  cases call with
  | «open» major minor param =>
      rcases u.dev.devOpen_cases major minor param with
        ⟨id, found, inside, shows, given⟩ | ⟨_, ⟨_, refused⟩ |
          ⟨id, _, inside, closed, ⟨_, refused⟩ | ⟨valid, given⟩⟩⟩
      · rw [step_given given]
        exact sound.found inside shows.1 (fits id found)
      · rw [step_refused refused]
        exact sound
      · rw [step_refused refused]
        exact sound.refused closed rfl
      · rw [step_given given]
        exact sound.opened inside closed valid
  | close id => exact sound.close legal

theorem DeviceRun.sound {allowed : Users → DeviceCall → Prop} (run : DeviceRun allowed u)
    (fits : ∀ u call, allowed u call → u.Fits call) : u.Sound := by
  induction run with
  | start u free none _ =>
      refine ⟨fun id => ?_, fun id isOpen => absurd (free id) isOpen, fun id => ?_⟩
      · rw [free id, none id]
        exact ⟨rfl, fun _ => rfl⟩
      · rw [none id]
        decide
  | @call u call _ legal meets ih => exact ih.step legal (fits u call meets)

/-! ### One slot for a device -/

theorem Users.Unique.mono (unique : u.Unique) {after : Users}
    (keeps : ∀ id, 0 < (after.dev.slot id).openCount → 0 < (u.dev.slot id).openCount ∧
      (after.dev.slot id).major = (u.dev.slot id).major ∧
      (after.dev.slot id).minor = (u.dev.slot id).minor) : after.Unique := by
  intro i j iOpen jOpen major minor
  obtain ⟨iBefore, iMajor, iMinor⟩ := keeps i iOpen
  obtain ⟨jBefore, jMajor, jMinor⟩ := keeps j jOpen
  exact unique i j iBefore jBefore (iMajor.symm.trans (major.trans jMajor))
    (iMinor.symm.trans (minor.trans jMinor))

theorem Users.Unique.close (unique : u.Unique) (sound : u.Sound) (out : 0 < u.handles id) :
    (u.step (.close id)).Unique := by
  apply unique.mono
  intro other isOpen
  rw [sound.close_slot out] at isOpen ⊢
  cases decEq other id with
  | isTrue same =>
      have count := sound.counted.openCount id
      rw [if_pos same]
      subst same
      exact ⟨by omega, rfl, rfl⟩
  | isFalse different =>
      rw [if_neg different] at isOpen ⊢
      exact ⟨isOpen, rfl, rfl⟩

theorem Users.Unique.setSlot (unique : u.Unique) {dev : Slot} (handles : Nat → Nat)
    (keeps : 0 < dev.openCount → 0 < (u.dev.slot id).openCount ∧
      dev.major = (u.dev.slot id).major ∧ dev.minor = (u.dev.slot id).minor) :
    Users.Unique ⟨u.dev.setSlot id dev, handles⟩ := by
  apply unique.mono
  intro other isOpen
  dsimp only at isOpen ⊢
  rw [setSlot_slot] at isOpen ⊢
  cases decEq other id with
  | isTrue same =>
      subst same
      rw [if_pos rfl] at isOpen ⊢
      exact keeps isOpen
  | isFalse different =>
      rw [if_neg different] at isOpen ⊢
      exact ⟨isOpen, rfl, rfl⟩

theorem Users.Unique.opened (unique : u.Unique) (sound : u.Sound) {minor : Int} {param : Nat}
    (fresh : ∀ other, other < maxDevices → ¬ u.dev.Shows devDisk.major minor other)
    (handles : Nat → Nat) : Users.Unique ⟨u.dev.opened id minor param, handles⟩ := by
  have slots : ∀ other, (u.dev.opened id minor param).slot other =
      if other = id then { type := some devDisk, minor := minor, param := param, openCount := 1 }
      else u.dev.slot other := fun other => setSlot_slot id other _
  have absent : ∀ other, 0 < (u.dev.slot other).openCount →
      ¬ ((u.dev.slot other).major = devDisk.major ∧ (u.dev.slot other).minor = minor) := by
    intro other isOpen same
    have count := sound.counted.openCount other
    exact fresh other (sound.counted.inside (by omega)) ⟨by omega, same⟩
  intro i j iOpen jOpen major minor
  dsimp only at iOpen jOpen major minor
  rw [slots] at iOpen jOpen major minor
  rw [slots j] at major minor
  cases decEq i id with
  | isTrue iHere =>
      cases decEq j id with
      | isTrue jHere => exact iHere.trans jHere.symm
      | isFalse jOther =>
          rw [if_pos iHere, if_neg jOther] at major minor
          rw [if_neg jOther] at jOpen
          exact absurd ⟨major.symm, minor.symm⟩ (absent j jOpen)
  | isFalse iOther =>
      rw [if_neg iOther] at iOpen
      cases decEq j id with
      | isTrue jHere =>
          rw [if_neg iOther, if_pos jHere] at major minor
          exact absurd ⟨major, minor⟩ (absent i iOpen)
      | isFalse jOther =>
          rw [if_neg iOther, if_neg jOther] at major minor
          rw [if_neg jOther] at jOpen
          exact unique i j iOpen jOpen major minor

/-! ### What a call answers -/

theorem Users.Sound.supported (sound : u.Sound) {major minor : Int}
    (shows : u.dev.Shows major minor id) : u.dev.Supported major minor := by
  obtain ⟨isOpen, isMajor, isMinor⟩ := shows
  obtain ⟨disk, valid⟩ := sound.served id isOpen
  rw [isMinor] at valid
  have slotMajor : (u.dev.slot id).major = devDisk.major := by
    unfold Slot.major
    rw [disk]
  refine ⟨devDisk, List.mem_singleton.mpr rfl, slotMajor.symm.trans isMajor, ?_⟩
  exact congrArg Prod.fst (if_neg valid)

theorem supported_iff {s : DeviceTable} {major minor : Int}
    (valid : (s.part (partIndex minor)).count ≠ 0) :
    s.Supported major minor ↔ ∃ type, type ∈ supportTable ∧ type.major = major := by
  constructor
  · intro ⟨type, member, same, _⟩
    exact ⟨type, member, same⟩
  · intro ⟨type, member, same⟩
    have disk := List.mem_singleton.mp member
    refine ⟨type, member, same, ?_⟩
    rw [disk]
    exact congrArg Prod.fst (if_neg valid)

theorem Users.Sound.open_iff (sound : u.Sound) (unique : u.Unique) (major minor : Int)
    (param : Nat) :
    u.Keeps (.open major minor param) ↔ u.Meets (.open major minor param) := by
  unfold Keeps Answers Meets Fits
  dsimp only
  have refusal : ¬ (0 : Int) ≤ -enodev := by decide
  rcases u.dev.devOpen_cases major minor param with
    ⟨id, found, inside, shows, given⟩ | ⟨fresh, ⟨missing, refused⟩ |
      ⟨id, missing, inside, closed, ⟨empty, refused⟩ | ⟨valid, given⟩⟩⟩
  · have count := sound.counted.openCount id
    have bounds := int32_bounds ((u.dev.slot id).openCount + 1)
    have isOpen := shows.1
    rw [step_given given, given, found]
    constructor
    · intro ⟨accounted, _⟩
      refine ⟨fun other same => ?_, fun other impossible => (by cases impossible)⟩
      cases same
      have counted := accounted.2.openCount id
      dsimp only at counted
      rw [setSlot_slot, if_pos rfl, Function.update_self] at counted
      dsimp only at counted
      omega
    · intro ⟨fits, _⟩
      refine ⟨⟨unique.setSlot _ ?_, (sound.found inside isOpen (fits id rfl)).counted⟩, ?_, ?_⟩
      · exact fun _ => ⟨by omega, rfl, rfl⟩
      · exact fun _ => sound.supported shows
      · intro impossible
        dsimp only at impossible
        omega
  · rw [step_refused refused, refused, missing]
    refine iff_of_true ⟨⟨unique, sound.counted⟩, ?_, fun _ id => ⟨rfl, fun _ => rfl⟩⟩ ⟨?_, ?_⟩
    · exact fun impossible => absurd impossible refusal
    · exact fun id impossible => by cases impossible
    · exact fun id impossible => by cases impossible
  · rw [step_refused refused, refused, missing]
    refine iff_of_true ⟨⟨unique.setSlot _ ?_, (sound.refused closed rfl).counted⟩, ?_, ?_⟩ ⟨?_, ?_⟩
    · exact fun isOpen => absurd isOpen (Int.lt_irrefl 0)
    · exact fun impossible => absurd impossible refusal
    · intro _ other
      dsimp only
      rw [setSlot_slot]
      cases decEq other id with
      | isTrue same =>
          subst same
          rw [if_pos rfl, closed]
          exact ⟨rfl, fun impossible => absurd rfl impossible⟩
      | isFalse different =>
          rw [if_neg different]
          exact ⟨rfl, fun _ => rfl⟩
    · exact fun id impossible => by cases impossible
    · exact fun _ _ => Or.inr empty
  · rw [step_given given, given, missing]
    constructor
    · intro ⟨_, answers, _⟩
      refine ⟨fun other impossible => (by cases impossible), fun other _ => Or.inl ?_⟩
      exact (supported_iff valid).mp (answers (Int.natCast_nonneg id))
    · intro ⟨_, driver⟩
      have known := (driver id rfl).resolve_right valid
      obtain ⟨type, member, isMajor⟩ := known
      have disk := List.mem_singleton.mp member
      rw [disk] at isMajor
      subst isMajor
      refine ⟨⟨unique.opened sound fresh _, (sound.opened inside closed valid).counted⟩, ?_, ?_⟩
      · exact fun _ => (supported_iff valid).mpr ⟨devDisk, List.mem_singleton.mpr rfl, rfl⟩
      · intro impossible
        dsimp only at impossible
        omega

theorem Users.Sound.close_keeps (sound : u.Sound) (unique : u.Unique) (out : 0 < u.handles id) :
    u.Keeps (.close id) := by
  refine ⟨⟨unique.close sound out, (sound.close out).counted⟩, ?_⟩
  change (u.dev.devClose id).1 = true ↔ u.handles id = 1
  rw [sound.devClose out]
  by_cases last : u.handles id = 1
  · rw [if_pos last]
    exact iff_of_true rfl last
  · rw [if_neg last]
    exact iff_of_false Bool.false_ne_true last

theorem Users.Sound.keeps_iff (sound : u.Sound) (unique : u.Unique) {call : DeviceCall}
    (legal : u.Legal call) : u.Keeps call ↔ u.Meets call := by
  cases call with
  | «open» major minor param => exact sound.open_iff unique major minor param
  | close id => exact iff_of_true (sound.close_keeps unique legal) trivial

theorem Users.Meets.fits {call : DeviceCall} (meets : u.Meets call) : u.Fits call := by
  cases call with
  | «open» major minor param => exact meets.1
  | close id => trivial

theorem DeviceRun.unique (run : DeviceRun Users.Meets u) : u.Unique := by
  induction run with
  | start u free _ _ =>
      intro i j isOpen
      rw [free i] at isOpen
      exact absurd isOpen (Int.lt_irrefl 0)
  | @call u call before legal meets ih =>
      have sound := before.sound (fun _ _ => Users.Meets.fits)
      exact ((sound.keeps_iff ih legal).mpr meets).1.1

/-- Where every call so far has met its condition the device table accounts for the handles, and
the next call keeps it so and answers right if and only if it meets its own. -/
theorem deviceRun_accounted (run : DeviceRun Users.Meets u) :
    u.Accounted ∧ ∀ call, u.Legal call → (u.Keeps call ↔ u.Meets call) := by
  have sound := run.sound (fun _ _ => Users.Meets.fits)
  exact ⟨⟨run.unique, sound.counted⟩, fun _ legal => sound.keeps_iff run.unique legal⟩

/-! ### Two handles for one partition -/

/-- After boot, with one partition on the disk. -/
def bootUsers : Users where
  dev :=
    { slot := fun _ => { type := none, minor := 0, param := 0, openCount := 0 }
      part := fun index => if index = 1 then ⟨0x83, 2048, 4096⟩ else ⟨0, 0, 0⟩
      pic := ⟨0xFB, 0xFF⟩ }
  handles := fun _ => 0

theorem bootUsers_run (allowed : Users → DeviceCall → Prop) : DeviceRun allowed bootUsers :=
  .start bootUsers (fun _ => rfl) (fun _ => rfl) rfl

/-- The partition is opened, and once more. -/
theorem deviceRun_accounted_twice :
    (bootUsers.step (.open 1 1 0)).Accounted ∧
      (bootUsers.step (.open 1 1 0)).Keeps (.open 1 1 0) := by
  have first : bootUsers.Meets (.open 1 1 0) := by
    have missing : scanFrom bootUsers.dev.slot 1 1 maxDevices 0 none = .missing (some 0) := by
      decide +kernel
    refine ⟨fun id found => ?_, fun _ _ => Or.inl ⟨devDisk, List.mem_singleton.mpr rfl, rfl⟩⟩
    rw [missing] at found
    cases found
  have found : scanFrom (bootUsers.step (.open 1 1 0)).dev.slot 1 1 maxDevices 0 none =
      .found 0 := by decide +kernel
  have run : DeviceRun Users.Meets (bootUsers.step (.open 1 1 0)) :=
    (bootUsers_run Users.Meets).call (.open 1 1 0) trivial first
  obtain ⟨accounted, keeps⟩ := deviceRun_accounted run
  refine ⟨accounted, (keeps (.open 1 1 0) trivial).mpr ⟨fun id isFound => ?_, fun id missing => ?_⟩⟩
  · rw [found] at isFound
    cases isFound
    decide +kernel
  · rw [found] at missing
    cases missing

/-- A device of a major number that no driver has is opened as a partition of the disk, which is
then open in two slots. -/
theorem deviceRun_accounted_not :
    ¬ (∀ u, DeviceRun (fun _ _ => True) u →
      u.Accounted ∧ ∀ call, u.Legal call → u.Answers call) ∧
    DeviceRun (fun _ _ => True) (bootUsers.step (.open 1 1 0)) ∧
    ¬ (bootUsers.step (.open 1 1 0)).Answers (.open 2 1 0) ∧
    ¬ ((bootUsers.step (.open 1 1 0)).step (.open 2 1 0)).Unique := by
  have run : DeviceRun (fun _ _ => True) (bootUsers.step (.open 1 1 0)) :=
    (bootUsers_run _).call (.open 1 1 0) trivial trivial
  have wrong : ¬ (bootUsers.step (.open 1 1 0)).Answers (.open 2 1 0) := by
    intro ⟨supported, _⟩
    obtain ⟨type, member, isMajor, _⟩ := supported (by decide +kernel)
    rw [List.mem_singleton.mp member] at isMajor
    exact absurd isMajor (by decide)
  refine ⟨fun all => wrong ((all _ run).2 _ trivial), run, wrong, ?_⟩
  intro unique
  have same := unique 0 1 (by decide +kernel) (by decide +kernel) (by decide +kernel)
    (by decide +kernel)
  exact absurd same (by decide)

end DeviceTable

end MangoOS
