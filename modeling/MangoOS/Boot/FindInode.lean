/-
`find_inode` and `compare` of the two boot stages (boot/boot.S, boot/loader.S).

The first stage runs in 16 bits and the second in 32.  Both load parts of a
register: what is left in the rest of it belongs to the sum that leads to the
next entry.
-/

import MangoOS.Library.ByteMemory

namespace MangoOS

namespace Boot

/-- Addresses of the two stages wrap around at these. -/
def segment16 : Nat := 65536

def segment32 : Nat := 4294967296

/-- A register after its low part, of values below `size`, was loaded. -/
def setLow (size register value : Nat) : Nat := register - register % size + value

section Memory

variable (width : Nat) (mem : ByteMemory)

def byteAt (a : Nat) : Nat := (mem (a % width)).toNat

def wordAt (a : Nat) : Nat := byteAt width mem a + 256 * byteAt width mem (a + 1)

def longAt (a : Nat) : Nat := wordAt width mem a + 65536 * wordAt width mem (a + 2)

/-- `compare_loop` with what it leaves in `ax` or `eax`. -/
def compareLoop : (rounds si bx : Nat) → Nat
  | 0, _, _ => 0
  | rounds + 1, si, bx =>
      if byteAt width mem si ≠ byteAt width mem bx then 1
      else compareLoop rounds (si + 1) (bx + 1)

/-- `compare`; `loop` counts down before it compares with 0. -/
def compare (length si bx : Nat) : Nat :=
  compareLoop width mem (if length = 0 then width else length) si bx

end Memory

/-- `find_inode` of boot.S from `search_loop` on, with what it returns in `bx`.  The length of the
name and its address are those on the stack. -/
def searchLoop16 (mem : ByteMemory) (length name : Nat) : (fuel di : Nat) → Option Nat
  | 0, _ => none
  | fuel + 1, di =>
      let ax := wordAt segment16 mem di
      if ax = 0 then some 0
      else
        let cl := byteAt segment16 mem (di + 6)
        if cl ≠ length % 256 then
          let ax := setLow 256 0 (byteAt segment16 mem (di + 4))
          searchLoop16 mem length name fuel ((di + ax) % segment16)
        else
          let ax := compare segment16 mem length name (di + 8)
          if ax % 256 ≠ 0 then some 0 else some (wordAt segment16 mem di)

def findInode16 (fuel : Nat) (mem : ByteMemory) (length name : Nat) : Option Nat :=
  searchLoop16 mem length name fuel 0x8000

/-- `next_dir` of loader.S: only the low half of `eax` is loaded. -/
def nextDir32 (mem : ByteMemory) (eax edi : Nat) : Nat :=
  (edi + setLow 65536 eax (wordAt segment32 mem (edi + 4))) % segment32

/-- `find_inode` of loader.S from `search_loop` on, with what it returns in `eax`. -/
def searchLoop32 (mem : ByteMemory) (length name : Nat) : (fuel edi : Nat) → Option Nat
  | 0, _ => none
  | fuel + 1, edi =>
      let eax := longAt segment32 mem edi
      if eax = 0 then some 0
      else
        let cl := byteAt segment32 mem (edi + 6)
        if cl ≠ length % 256 then
          searchLoop32 mem length name fuel (nextDir32 mem eax edi)
        else
          let eax := compare segment32 mem length name (edi + 8)
          if eax ≠ 0 then searchLoop32 mem length name fuel (nextDir32 mem eax edi)
          else some (longAt segment32 mem edi)

def findInode32 (fuel : Nat) (mem : ByteMemory) (length name : Nat) : Option Nat :=
  searchLoop32 mem length name fuel 0x20000

/-! ### Reading memory -/

section Memory

variable {width : Nat} {mem : ByteMemory} {a b : Nat}

theorem byteAt_congr (same : a % width = b % width) (k : Nat) :
    byteAt width mem (a + k) = byteAt width mem (b + k) := by
  have place : (a + k) % width = (b + k) % width := by
    rw [Nat.add_mod, same, ← Nat.add_mod]
  unfold byteAt
  rw [place]

theorem byteAt_lt (width : Nat) (mem : ByteMemory) (a : Nat) : byteAt width mem a < 256 :=
  (mem (a % width)).isLt

theorem wordAt_congr (same : a % width = b % width) (k : Nat) :
    wordAt width mem (a + k) = wordAt width mem (b + k) := by
  unfold wordAt
  rw [byteAt_congr same k, Nat.add_assoc, byteAt_congr same (k + 1), Nat.add_assoc]

theorem wordAt_lt (width : Nat) (mem : ByteMemory) (a : Nat) : wordAt width mem a < 65536 := by
  have low := byteAt_lt width mem a
  have high := byteAt_lt width mem (a + 1)
  unfold wordAt
  omega

theorem longAt_congr (same : a % width = b % width) :
    longAt width mem a = longAt width mem b := by
  unfold longAt
  rw [← Nat.add_zero a, ← Nat.add_zero b, wordAt_congr same 0, Nat.add_zero, Nat.add_zero,
    wordAt_congr same 2]

theorem wordAt_eq_longAt (a : Nat) : wordAt width mem a = longAt width mem a % 65536 := by
  have low := wordAt_lt width mem a
  unfold longAt
  omega

/-- A text lies at an address. -/
def HoldsText (width : Nat) (mem : ByteMemory) : (a : Nat) → List (BitVec 8) → Prop
  | _, [] => True
  | a, c :: text => byteAt width mem a = c.toNat ∧ HoldsText width mem (a + 1) text

instance HoldsText.decidable (width : Nat) (mem : ByteMemory) :
    ∀ (a : Nat) (text : List (BitVec 8)), Decidable (HoldsText width mem a text)
  | _, [] => inferInstanceAs (Decidable True)
  | a, c :: text =>
      have := HoldsText.decidable width mem (a + 1) text
      inferInstanceAs (Decidable (byteAt width mem a = c.toNat ∧ HoldsText width mem (a + 1) text))

theorem HoldsText.congr {text : List (BitVec 8)} (holds : HoldsText width mem a text)
    (same : a % width = b % width) : HoldsText width mem b text := by
  induction text generalizing a b with
  | nil => exact trivial
  | cons c text ih =>
      have here : byteAt width mem a = byteAt width mem b := byteAt_congr same 0
      have next : (a + 1) % width = (b + 1) % width := by
        rw [Nat.add_mod, same, ← Nat.add_mod]
      exact ⟨here.symm.trans holds.1, ih holds.2 next⟩

theorem compareLoop_text {text other : List (BitVec 8)} {si bx : Nat}
    (left : HoldsText width mem si text) (right : HoldsText width mem bx other)
    (same : text.length = other.length) :
    compareLoop width mem text.length si bx = if text = other then 0 else 1 := by
  induction text generalizing other si bx with
  | nil =>
      rw [List.length_nil] at same
      rw [List.length_eq_zero_iff.mp same.symm]
      rfl
  | cons c text ih =>
      cases other with
      | nil => cases same
      | cons d other =>
          rw [List.length_cons, List.length_cons, Nat.succ.injEq] at same
          rw [List.length_cons, compareLoop, left.1, right.1, ih left.2 right.2 same]
          by_cases equal : c = d
          · subst equal
            rw [if_neg (fun different => different rfl)]
            simp only [List.cons.injEq, true_and]
          · have values : c.toNat ≠ d.toNat := fun both => equal (BitVec.eq_of_toNat_eq both)
            have texts : c :: text ≠ d :: other := fun both => equal (List.cons.inj both).1
            rw [if_pos values, if_neg texts]

theorem compare_text {text other : List (BitVec 8)} {si bx : Nat}
    (left : HoldsText width mem si text) (right : HoldsText width mem bx other)
    (same : text.length = other.length) (nonempty : text ≠ []) :
    compare width mem text.length si bx = if text = other then 0 else 1 := by
  have positive : text.length ≠ 0 := fun zero => nonempty (List.length_eq_zero_iff.mp zero)
  unfold compare
  rw [if_neg positive]
  exact compareLoop_text left right same

end Memory

end Boot

end MangoOS
