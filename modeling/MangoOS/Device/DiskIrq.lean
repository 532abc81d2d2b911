/-
The disk interrupt (device/disk.c, kernel/irq.c): when IRQ 0x2E is unmasked, and which
calls on the device table leave it masked under an open partition.
-/

import MangoOS.Device.DeviceLaw

namespace MangoOS

namespace DeviceTable

/-- IRQ 0x2E is line 6 of the second chip. -/
def Pic.Unmasked (pic : Pic) : Prop := pic.slave.getLsbD 6 = false

variable {u : Users} {id : Nat}

theorem enable8259_unmasked (pic : Pic) : (enable8259 pic 0x2E).Unmasked := by
  change (pic.slave &&& ~~~(1#8 <<< 6)).getLsbD 6 = false
  rw [BitVec.getLsbD_and]
  exact Bool.and_eq_false_iff.mpr (Or.inr (by decide))

theorem disable8259_masked (pic : Pic) : ¬ (disable8259 pic 0x2E).Unmasked := by
  change ¬ (pic.slave ||| (1#8 <<< 6)).getLsbD 6 = false
  rw [BitVec.getLsbD_or]
  exact fun unmasked => Bool.noConfusion
    ((Bool.or_eq_true_iff.mpr (Or.inr (by decide))).symm.trans unmasked)

def Users.SomeOpen (u : Users) : Prop := ∃ id, id < maxDevices ∧ 0 < (u.dev.slot id).openCount

/-- The interrupt is on while some partition is open, and off otherwise. -/
def Users.IrqRight (u : Users) : Prop := u.dev.pic.Unmasked ↔ u.SomeOpen

/-- A last handle is closed only when no other slot is open. -/
def Users.Alone (u : Users) : DeviceCall → Prop
  | .open _ _ _ => True
  | .close id => u.handles id = 1 → ∀ other, other ≠ id → (u.dev.slot other).openCount = 0

def Users.FitsAlone (u : Users) (call : DeviceCall) : Prop := u.Fits call ∧ u.Alone call

theorem Users.Sound.someOpen (sound : u.Sound) (isOpen : (u.dev.slot id).openCount ≠ 0) :
    u.SomeOpen := by
  have count := sound.counted.openCount id
  exact ⟨id, sound.counted.inside (by omega), by omega⟩

theorem Users.Sound.open_irq (sound : u.Sound) (right : u.IrqRight) {major minor : Int}
    {param : Nat} (fits : u.Fits (.open major minor param)) :
    (u.step (.open major minor param)).IrqRight := by
  rcases u.dev.devOpen_cases major minor param with
    ⟨id, found, inside, shows, given⟩ | ⟨_, ⟨_, refused⟩ |
      ⟨id, _, inside, closed, ⟨_, refused⟩ | ⟨_, given⟩⟩⟩
  · rw [step_given given]
    have count := sound.counted.openCount id
    have isOpen := shows.1
    have still : 0 < ((u.dev.setSlot id { u.dev.slot id with
        openCount := int32 ((u.dev.slot id).openCount + 1) }).slot id).openCount := by
      have exact := fits id found
      rw [setSlot_slot, if_pos rfl, int32_of_range (by omega) (by omega)]
      dsimp only
      omega
    exact iff_of_true (right.mpr (sound.someOpen isOpen)) ⟨id, inside, still⟩
  · rw [step_refused refused]
    exact right
  · rw [step_refused refused]
    refine right.trans (exists_congr fun other => and_congr_right fun _ => ?_)
    dsimp only
    rw [setSlot_slot]
    cases decEq other id with
    | isTrue same => rw [if_pos same, same, closed]
    | isFalse different => rw [if_neg different]
  · rw [step_given given]
    refine iff_of_true (enable8259_unmasked u.dev.pic) ⟨id, inside, ?_⟩
    have first : ((u.dev.opened id minor param).slot id).openCount = 1 := by
      unfold DeviceTable.opened
      change ((u.dev.setSlot id _).slot id).openCount = 1
      rw [setSlot_slot, if_pos rfl]
    dsimp only
    omega

theorem Users.Sound.close_irq (sound : u.Sound) (right : u.IrqRight) (out : 0 < u.handles id) :
    (u.step (.close id)).IrqRight ↔ u.Alone (.close id) := by
  have slots := sound.close_slot out
  have count := sound.counted.openCount id
  have pic : (u.step (.close id)).dev.pic =
      if u.handles id = 1 then diskClose u.dev.pic else u.dev.pic := by
    change (u.dev.devClose id).2.pic = _
    rw [sound.devClose out]
    by_cases last : u.handles id = 1
    · rw [if_pos last, if_pos last]
    · rw [if_neg last, if_neg last]
      rfl
  unfold IrqRight Alone
  dsimp only
  rw [pic]
  by_cases last : u.handles id = 1
  · have masked := disable8259_masked u.dev.pic
    rw [if_pos last]
    constructor
    · intro same _ other different
      by_contra isOpen
      have otherCount := sound.counted.openCount other
      refine masked (same.mpr ⟨other, sound.counted.inside (by omega), ?_⟩)
      rw [slots, if_neg different]
      omega
    · intro alone
      refine iff_of_false masked ?_
      intro ⟨other, _, isOpen⟩
      rw [slots] at isOpen
      cases decEq other id with
      | isTrue same =>
          rw [if_pos same] at isOpen
          dsimp only at isOpen
          omega
      | isFalse different =>
          rw [if_neg different, alone last other different] at isOpen
          exact Int.lt_irrefl 0 isOpen
  · rw [if_neg last]
    refine iff_of_true ?_ (fun first => absurd first last)
    have isOpen : (u.dev.slot id).openCount ≠ 0 := by omega
    refine iff_of_true (right.mpr (sound.someOpen isOpen)) ?_
    refine ⟨id, sound.counted.inside out, ?_⟩
    rw [slots, if_pos rfl]
    dsimp only
    omega

theorem Users.Sound.irq_iff (sound : u.Sound) (right : u.IrqRight) {call : DeviceCall}
    (legal : u.Legal call) (fits : u.Fits call) : (u.step call).IrqRight ↔ u.Alone call := by
  cases call with
  | «open» major minor param => exact iff_of_true (sound.open_irq right fits) trivial
  | close id => exact sound.close_irq right legal

theorem DeviceRun.irq (run : DeviceRun Users.FitsAlone u) : u.IrqRight := by
  induction run with
  | start u free _ masked =>
      refine iff_of_false (fun unmasked => ?_) (fun ⟨id, _, isOpen⟩ => ?_)
      · exact Bool.noConfusion (masked.symm.trans unmasked)
      · rw [free id] at isOpen
        exact Int.lt_irrefl 0 isOpen
  | @call u call before legal meets ih =>
      have sound := before.sound (fun _ _ => And.left)
      exact (sound.irq_iff ih legal meets.1).mpr meets.2

/-- Where every call so far has met its condition the disk interrupt is unmasked exactly while
some device is open, and the next call keeps it so if and only if it closes no last handle
under another open device. -/
theorem deviceRun_irq (run : DeviceRun Users.FitsAlone u) :
    u.IrqRight ∧ ∀ call, u.Legal call → u.Fits call →
      ((u.step call).IrqRight ↔ u.Alone call) := by
  have sound := run.sound (fun _ _ => And.left)
  exact ⟨run.irq, fun _ legal fits => sound.irq_iff run.irq legal fits⟩

/-! ### Two partitions -/

/-- After boot, with two partitions on the disk. -/
def twoPartitions : Users :=
  { bootUsers with dev := { bootUsers.dev with part := fun _ => ⟨0x83, 2048, 4096⟩ } }

/-- The first partition is opened, and closed again. -/
theorem deviceRun_irq_once :
    (twoPartitions.step (.open 1 1 0)).IrqRight ∧
      ((twoPartitions.step (.open 1 1 0)).step (.close 0)).IrqRight := by
  have start : DeviceRun Users.FitsAlone twoPartitions :=
    .start twoPartitions (fun _ => rfl) (fun _ => rfl) rfl
  have missing : scanFrom twoPartitions.dev.slot 1 1 maxDevices 0 none = .missing (some 0) := by
    decide +kernel
  have first : twoPartitions.Fits (.open 1 1 0) := by
    intro id found
    rw [missing] at found
    cases found
  have run : DeviceRun Users.FitsAlone (twoPartitions.step (.open 1 1 0)) :=
    start.call (.open 1 1 0) trivial ⟨first, trivial⟩
  obtain ⟨right, keeps⟩ := deviceRun_irq run
  have out : 0 < (twoPartitions.step (.open 1 1 0)).handles 0 := by decide +kernel
  refine ⟨right, (keeps (.close 0) out trivial).mpr ?_⟩
  intro _ other different
  have slots : (twoPartitions.step (.open 1 1 0)).dev.slot other =
      twoPartitions.dev.slot other := Function.update_of_ne different _ _
  rw [slots]
  rfl

/-- Two partitions are open and one is closed: the other waits for an interrupt that is masked. -/
theorem deviceRun_irq_not :
    ¬ (∀ u, DeviceRun (fun _ _ => True) u → u.IrqRight) ∧
    (((twoPartitions.step (.open 1 1 0)).step (.open 1 2 0)).step (.close 0)).SomeOpen ∧
    ¬ (((twoPartitions.step (.open 1 1 0)).step (.open 1 2 0)).step
      (.close 0)).dev.pic.Unmasked := by
  have start : DeviceRun (fun _ _ => True) twoPartitions :=
    .start twoPartitions (fun _ => rfl) (fun _ => rfl) rfl
  have out : 0 < ((twoPartitions.step (.open 1 1 0)).step (.open 1 2 0)).handles 0 := by
    decide +kernel
  have run : DeviceRun (fun _ _ => True)
      (((twoPartitions.step (.open 1 1 0)).step (.open 1 2 0)).step (.close 0)) :=
    ((start.call (.open 1 1 0) trivial trivial).call (.open 1 2 0) trivial trivial).call (.close 0)
      out trivial
  have isOpen : (((twoPartitions.step (.open 1 1 0)).step (.open 1 2 0)).step
      (.close 0)).SomeOpen := ⟨1, by decide, by decide +kernel⟩
  have masked : ¬ (((twoPartitions.step (.open 1 1 0)).step (.open 1 2 0)).step
      (.close 0)).dev.pic.Unmasked := by
    unfold Pic.Unmasked
    decide +kernel
  exact ⟨fun all => masked ((all _ run).mpr isOpen), isOpen, masked⟩

end DeviceTable

end MangoOS
