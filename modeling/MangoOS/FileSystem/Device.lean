/-
Sector transfers of one partition (device/disk.c through device/dev.c).

The disk decides how far each transfer gets, so a failed one has still moved
the sectors before the error.
-/

import MangoOS.Library.Region

namespace MangoOS

def sectorSize : Nat := 512

def enodisk : Int := 11

structure Device where
  bytes : ByteMemory
  /-- How many sectors the disk gets through in its transfer number `k`. -/
  served : Nat → Nat
  transfers : Nat

namespace Device

/-- The bytes from a sector on. -/
def sectors (device : Device) (begin : Nat) : Region :=
  fun x => device.bytes (begin * sectorSize + x.toNat)

/-- What `disk_read` and `disk_write` return after `moved` of `count` sectors. -/
def outcome (moved count : Nat) : Int := if moved < count then -enodisk else count

/-- `dev_read`: the result and the buffer. -/
def devRead (device : Device) (begin : Nat) (buf : Region) (count : Nat) :
    Int × Region × Device :=
  let moved := min (device.served device.transfers) count
  (outcome moved count, buf.copy 0 (device.sectors begin) 0 (moved * sectorSize : Nat),
    { device with transfers := device.transfers + 1 })

def devWrite (device : Device) (begin : Nat) (buf : Region) (count : Nat) : Int × Device :=
  let moved := min (device.served device.transfers) count
  (outcome moved count,
    { device with
      bytes := fun a =>
        if begin * sectorSize ≤ a ∧ a < (begin + moved) * sectorSize then
          buf ((a : Int) - (begin * sectorSize : Nat))
        else device.bytes a
      transfers := device.transfers + 1 })

/-- The disk never reports an error; no transfer is longer than 8 sectors. -/
def Reliable (device : Device) : Prop := ∀ k, 8 ≤ device.served k

variable {device : Device} {begin count : Nat} {buf : Region}

theorem outcome_whole (count : Nat) : outcome count count = count :=
  if_neg (Nat.lt_irrefl count)

theorem Reliable.devRead_eq (reliable : device.Reliable) (short : count ≤ 8) :
    device.devRead begin buf count =
      ((count : Int), buf.copy 0 (device.sectors begin) 0 (count * sectorSize : Nat),
        { device with transfers := device.transfers + 1 }) := by
  have whole : min (device.served device.transfers) count = count := by
    have served := reliable device.transfers
    omega
  unfold devRead
  simp only [whole, outcome_whole]

theorem Reliable.devWrite_fst (reliable : device.Reliable) (begin : Nat) (buf : Region)
    (short : count ≤ 8) :
    (device.devWrite begin buf count).1 = count := by
  have whole : min (device.served device.transfers) count = count := by
    have served := reliable device.transfers
    omega
  unfold devWrite
  rw [whole]
  exact outcome_whole count

@[simp] theorem devWrite_served :
    (device.devWrite begin buf count).2.served = device.served := rfl

theorem Reliable.devWrite (reliable : device.Reliable) :
    (device.devWrite begin buf count).2.Reliable := reliable

/-- A complete transfer leaves the buffer's bytes in its sectors. -/
theorem Reliable.devWrite_inside (reliable : device.Reliable) (short : count ≤ 8) {a : Nat}
    (lower : begin * sectorSize ≤ a) (upper : a < (begin + count) * sectorSize) :
    (device.devWrite begin buf count).2.bytes a = buf ((a : Int) - (begin * sectorSize : Nat)) := by
  have whole : min (device.served device.transfers) count = count := by
    have served := reliable device.transfers
    omega
  unfold Device.devWrite
  rw [whole]
  exact if_pos ⟨lower, upper⟩

/-- A transfer, complete or not, stays inside its sectors. -/
theorem devWrite_outside {a : Nat}
    (outside : a < begin * sectorSize ∨ (begin + count) * sectorSize ≤ a) :
    (device.devWrite begin buf count).2.bytes a = device.bytes a := by
  have short : min (device.served device.transfers) count ≤ count := Nat.min_le_right _ _
  have scaled := Nat.mul_le_mul_right sectorSize (Nat.add_le_add_left short begin)
  exact if_neg (by omega)

end Device

end MangoOS
