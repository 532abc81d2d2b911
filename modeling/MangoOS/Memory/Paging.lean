/-
Two-level page tables in flat physical memory (mm/page.c, trans_vtop of
kernel/task.c) and the address translation the processor makes of them.
-/

import MangoOS.Memory.Bitmap
import MangoOS.Library.ByteMemory
import Mathlib.Tactic.Cases

namespace MangoOS

def userMemoryBegin : Nat := 1073741824

def pdeIndex (addr : Nat) : Nat := addr / 4194304

def pteIndex (addr : Nat) : Nat := addr / 4096 % 1024

/-- `align_down(value, PAGE_SIZE)`. -/
def alignDown (value : Nat) : Nat := value - value % pageSize

/-- The `present` bit of a directory or table entry. -/
def present (value : Nat) : Bool := value % 2 == 1

def pdeValue (mem : ByteMemory) (pde i : Nat) : Nat := mem.word (pde + 4 * i)

/-- The entry `j` of the table that the directory entry `i` points at. -/
def pteValue (mem : ByteMemory) (pde i j : Nat) : Nat :=
  mem.word (alignDown (pdeValue mem pde i) + 4 * j)

def transVtop (mem : ByteMemory) (pde vaddr : Nat) : Nat :=
  if pdeValue mem pde (pdeIndex vaddr) = 0 then 0
  else alignDown (pteValue mem pde (pdeIndex vaddr) (pteIndex vaddr)) + vaddr % pageSize

/-- The processor's translation: the physical address of a mapped virtual one. -/
def translate (mem : ByteMemory) (pde vaddr : Nat) : Option Nat :=
  if present (pdeValue mem pde (pdeIndex vaddr)) ∧
      present (pteValue mem pde (pdeIndex vaddr) (pteIndex vaddr)) then
    some (alignDown (pteValue mem pde (pdeIndex vaddr) (pteIndex vaddr)) + vaddr % pageSize)
  else none

/-- The bytes the translation of `vaddr` reads: its directory and its table entry. -/
def Supports (mem : ByteMemory) (pde vaddr x : Nat) : Prop :=
  (pde + 4 * pdeIndex vaddr ≤ x ∧ x < pde + 4 * pdeIndex vaddr + 4) ∨
    (alignDown (pdeValue mem pde (pdeIndex vaddr)) + 4 * pteIndex vaddr ≤ x ∧
      x < alignDown (pdeValue mem pde (pdeIndex vaddr)) + 4 * pteIndex vaddr + 4)

variable {mem other : ByteMemory} {pde vaddr p : Nat}

/-- For a mapped address the kernel computes what the processor does. -/
theorem transVtop_of_translate (mapped : translate mem pde vaddr = some p) :
    transVtop mem pde vaddr = p := by
  unfold translate at mapped
  split at mapped
  case isTrue both =>
      cases mapped
      unfold transVtop
      rw [if_neg]
      intro zero
      rw [zero] at both
      cases both.1
  case isFalse missing => cases mapped

/-- The translation depends on the bytes of its two entries only. -/
theorem translate_congr (same : ∀ x, Supports mem pde vaddr x → other x = mem x) :
    translate other pde vaddr = translate mem pde vaddr := by
  have directory : pdeValue other pde (pdeIndex vaddr) = pdeValue mem pde (pdeIndex vaddr) := by
    apply ByteMemory.word_congr
    intro x lower upper
    exact same x (Or.inl ⟨lower, upper⟩)
  have table : pteValue other pde (pdeIndex vaddr) (pteIndex vaddr) =
      pteValue mem pde (pdeIndex vaddr) (pteIndex vaddr) := by
    unfold pteValue
    rw [directory]
    apply ByteMemory.word_congr
    intro x lower upper
    exact same x (Or.inr ⟨lower, upper⟩)
  unfold translate
  rw [directory, table]

/-- Addresses of one page go to one frame, at their own offset. -/
theorem translate_add {k : Nat} (inPage : vaddr % pageSize + k < pageSize)
    (mapped : translate mem pde vaddr = some p) : translate mem pde (vaddr + k) = some (p + k) := by
  unfold pageSize at inPage
  have directory : pdeIndex (vaddr + k) = pdeIndex vaddr := by
    unfold pdeIndex
    omega
  have table : pteIndex (vaddr + k) = pteIndex vaddr := by
    unfold pteIndex
    omega
  have offset : (vaddr + k) % pageSize = vaddr % pageSize + k := by
    unfold pageSize
    omega
  unfold translate at mapped ⊢
  rw [directory, table, offset]
  split at mapped
  case isTrue both =>
      cases mapped
      rw [if_pos both, Nat.add_assoc]
  case isFalse missing => cases mapped

end MangoOS
