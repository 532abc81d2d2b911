/-
What the page tables are for: every address space is a memory of its own.

`PrivateStep` says what a call may do to these memories; the calls on physical memory, its page
bitmap and its tables refine it.
-/

import MangoOS.Memory.SpaceLaw

namespace MangoOS

open PhysicalMemory

/-- A memory for each address space: the byte at each user address that is mapped. -/
structure PrivateMemories where
  live : Finset Nat
  read : Nat → Nat → Option (BitVec 8)

/-- What every call but its own does to a memory. -/
def PrivateMemories.Others (before after : PrivateMemories) (d : Nat) : Prop :=
  ∀ e v, e ≠ d → after.read e v = before.read e v

/-- The memories after a call.  Where alloc_vpages maps its range is left open here. -/
def PrivateStep (before after : PrivateMemories) : SpaceCall → Prop
  | .createPde =>
      (after.live = before.live ∧ after.read = before.read) ∨
        ∃ d, d ∉ before.live ∧ after.live = insert d before.live ∧
          (∀ v, after.read d v = none) ∧ before.Others after d
  | .allocVpages d addr size =>
      after.live = before.live ∧ before.Others after d ∧
        ∀ v, ¬ Meets addr size v → after.read d v = before.read d v
  | .copyMemory parent d =>
      after.live = before.live ∧ before.Others after d ∧
        ∀ v, after.read d v = before.read parent v
  | .destroyPde d => after.live = before.live.erase d ∧ before.Others after d
  | .store d v value | .copyToUser d v value =>
      after.live = before.live ∧ before.Others after d ∧
        after.read d = Function.update (before.read d) v
          ((before.read d v).map fun _ => BitVec.ofNat 8 value)
  | .write .. | .allocPages .. | .freePages .. =>
      after.live = before.live ∧ after.read = before.read

namespace SpaceCall

/-- The address space that a call is for. -/
def target : SpaceCall → Option Nat
  | .allocVpages pde .. | .copyMemory _ pde | .destroyPde pde | .store pde .. |
    .copyToUser pde .. => some pde
  | .createPde | .write .. | .allocPages .. | .freePages .. => none

end SpaceCall

namespace SpaceSystem

def view (s : SpaceSystem) : PrivateMemories where
  live := s.dirs
  read d v :=
    if d ∈ s.dirs ∧ UserAddress v then
      (translate s.memory.mem d v).map s.memory.mem
    else none

variable {kernel : Nat → Prop} {s after : SpaceSystem} {call : SpaceCall} {d e v p : Nat}

theorem view_dead (absent : d ∉ s.dirs) (v : Nat) : s.view.read d v = none :=
  if_neg (fun both => absent both.1)

theorem view_user (member : d ∈ s.dirs) (user : UserAddress v) :
    s.view.read d v = (translate s.memory.mem d v).map s.memory.mem := if_pos ⟨member, user⟩

theorem view_low (low : ¬ UserAddress v) : s.view.read d v = none :=
  if_neg (fun both => low both.2)

/-- The same translation to the same byte is the same view. -/
theorem view_same (dirs : d ∈ after.dirs ↔ d ∈ s.dirs)
    (same : d ∈ s.dirs → UserAddress v →
      translate after.memory.mem d v = translate s.memory.mem d v ∧
        ∀ p, translate s.memory.mem d v = some p → after.memory.mem p = s.memory.mem p) :
    after.view.read d v = s.view.read d v := by
  by_cases member : d ∈ s.dirs
  · by_cases user : UserAddress v
    · obtain ⟨mapped, byte⟩ := same member user
      rw [view_user (dirs.mpr member) user, view_user member user, mapped]
      cases isMapped : translate s.memory.mem d v with
      | none => rfl
      | some p => exact congrArg some (byte p isMapped)
    · rw [view_low user, view_low user]
  · rw [view_dead member, view_dead (fun live => member (dirs.mp live))]

/-! ### The bytes a call changes -/

/-- A page that was free, of no address space, or of the one that the call is for. -/
def Touches (kernel : Nat → Prop) (s : SpaceSystem) (call : SpaceCall) (p : Nat) : Prop :=
  ¬ s.memory.Used p ∨ s.Outside kernel p ∨
    ∃ d role, call.target = some d ∧
      Holds (s.Outside kernel) s.dirs s.memory.mem (.space d role) p

theorem touches_skeleton (member : d ∈ s.dirs) (isTarget : call.target = some d)
    (inside : Skeleton s.memory.mem d p) : s.Touches kernel call p := by
  obtain ⟨role, _, held⟩ := SpacesSound.skeleton_holds (s.Outside kernel) member inside
  exact Or.inr (Or.inr ⟨d, role, isTarget, held⟩)

theorem touches_byte (member : d ∈ s.dirs) (isTarget : call.target = some d)
    (user : UserAddress v)
    (mapped : translate s.memory.mem d v = some p) {mem : ByteMemory} {x value : Nat}
    (kept : mem x = s.memory.mem x) (changed : mem.setByte p value x ≠ s.memory.mem x) :
    s.Touches kernel call (x / pageSize) := by
  have isByte : x = p := by
    by_contra different
    apply changed
    rw [ByteMemory.setByte_other _ _ different, kept]
  rw [isByte]
  exact Or.inr (Or.inr ⟨d, _, isTarget, SpacesSound.translate_held _ member user mapped⟩)

theorem run_bytes (sound : s.Sound kernel) (allowed : s.Allowed kernel call) {x : Nat}
    (changed : (s.run call).memory.mem x ≠ s.memory.mem x) :
    s.Touches kernel call (x / pageSize) := by
  have spaces := sound.spaces
  cases call with
  | createPde =>
      left
      rcases createPde_cases spaces.booted with failed | ⟨c, made⟩
      · apply absurd _ changed
        change (MangoOS.createPde s.memory).2.mem x = _
        rw [failed]
      · intro isUsed
        exact changed (made.grows.byte isUsed id)
  | allocVpages pde addr size =>
      obtain ⟨member, user, counted, fits, clean⟩ := allowed
      by_cases isUsed : s.memory.Used (x / pageSize)
      · apply touches_skeleton member rfl
        by_contra elsewhere
        exact changed (allocVpages_byte spaces member (pdeIndex_user user.1 user.2) counted fits
          isUsed elsewhere)
      · exact Or.inl isUsed
  | copyMemory ppde pde =>
      obtain ⟨parent, child, different, empty, done, clean⟩ := allowed
      have ready := spaces.forkReady parent child different empty
      rcases (copyMemory_copied ready done).grows.bytes x changed with inChild | ⟨isFree, _⟩
      · exact touches_skeleton child rfl (Or.inl inChild.page)
      · exact Or.inl isFree
  | destroyPde pde =>
      have aligned := spaces.aligned pde allowed
      have destroyed := destroyPde_exact s.memory aligned (spacePages_nodup spaces allowed)
      exact touches_skeleton allowed rfl (userHalf_skeleton aligned (destroyed.bytes x changed))
  | store pde vaddr value =>
      obtain ⟨member, user⟩ := allowed
      unfold run at changed
      dsimp only at changed
      split at changed
      case h_1 p mapped =>
          by_cases kept : markDirty s.memory.mem pde vaddr x = s.memory.mem x
          · exact touches_byte member rfl user mapped kept changed
          · exact Or.inr
              (Or.inr ⟨pde, _, rfl, SpacesSound.markDirty_bytes _ member user mapped kept⟩)
      case h_2 => exact absurd rfl changed
  | copyToUser pde vaddr value =>
      obtain ⟨member, user, mapped⟩ := allowed
      exact touches_byte member rfl user (transVtop_mapped mapped) rfl changed
  | write addr value =>
      right
      left
      have isAddr : x = addr := by
        by_contra different
        exact changed (ByteMemory.setByte_other _ _ different)
      rw [isAddr]
      exact allowed.1
  | allocPages count => exact absurd rfl changed
  | freePages addr count => exact absurd rfl changed

theorem run_store_dirs (s : SpaceSystem) (pde vaddr value : Nat) :
    (s.run (.store pde vaddr value)).dirs = s.dirs := by
  unfold run
  dsimp only
  split
  · rfl
  · rfl

/-- A directory stays until it is taken down. -/
theorem run_dirs (member : d ∈ s.dirs) (notTarget : call.target ≠ some d) :
    d ∈ (s.run call).dirs := by
  cases call with
  | createPde =>
      unfold run
      dsimp only
      split
      · exact member
      · exact Finset.mem_insert_of_mem member
  | destroyPde pde =>
      refine Finset.mem_erase.mpr ⟨?_, member⟩
      rintro rfl
      exact notTarget rfl
  | store pde vaddr value =>
      rw [run_store_dirs]
      exact member
  | allocVpages | copyMemory | copyToUser | write | allocPages | freePages => exact member

/-- A call for another address space changes no page of this one. -/
theorem run_apart (sound : s.Sound kernel) (allowed : s.Allowed kernel call)
    (notTarget : call.target ≠ some d) {x : Nat} {role : Role}
    (held : Holds (s.Outside kernel) s.dirs s.memory.mem (.space d role) (x / pageSize)) :
    (s.run call).memory.mem x = s.memory.mem x := by
  by_contra changed
  rcases run_bytes sound allowed changed with isFree | isOutside | ⟨e, other, isTarget, otherHeld⟩
  · exact isFree (sound.spaces.used held)
  · exact sound.spaces.apart held isOutside
  · have unique := sound.spaces.booked.one held otherHeld
    rw [(PageUse.space.inj unique).1] at notTarget
    exact notTarget isTarget

/-- What a call for another address space leaves of this one: everything. -/
theorem run_others (sound : s.Sound kernel) (allowed : s.Allowed kernel call)
    (member : d ∈ s.dirs) (notTarget : call.target ≠ some d) (user : UserAddress v) :
    translate (s.run call).memory.mem d v = translate s.memory.mem d v ∧
      ∀ p, translate s.memory.mem d v = some p →
        (s.run call).memory.mem p = s.memory.mem p :=
  sound.spaces.space_same member (fun _ _ held => run_apart sound allowed notTarget held) user

theorem view_others (sound : s.Sound kernel) (allowed : s.Allowed kernel call)
    (notTarget : call.target ≠ some e) (dirs : e ∈ (s.run call).dirs ↔ e ∈ s.dirs) (v : Nat) :
    (s.run call).view.read e v = s.view.read e v :=
  view_same dirs (fun member user => run_others sound allowed member notTarget user)

/-! ### The call's own address space -/

/-- A byte stored through a translation is stored at that address and no other. -/
theorem view_store (sound : s.Sound kernel) (member : d ∈ s.dirs) (user : UserAddress v)
    (mapped : translate s.memory.mem d v = some p) {mem : ByteMemory} {value : Nat}
    (kept : ∀ w q, UserAddress w → translate s.memory.mem d w = some q →
      mem q = s.memory.mem q)
    (translations : ∀ w, UserAddress w → translate (mem.setByte p value) d w =
      translate s.memory.mem d w) (isAfter : after.memory.mem = mem.setByte p value)
    (dirs : after.dirs = s.dirs) :
    after.view.read d = Function.update (s.view.read d) v
      ((s.view.read d v).map fun _ => BitVec.ofNat 8 value) := by
  have afterMember : d ∈ after.dirs := dirs ▸ member
  funext w
  by_cases otherUser : UserAddress w
  · rw [view_user afterMember otherUser, isAfter, translations w otherUser]
    by_cases here : w = v
    · rw [here, Function.update_self, view_user member user, mapped]
      exact congrArg some (ByteMemory.setByte_same mem p value)
    · rw [Function.update_of_ne here, view_user member otherUser]
      cases otherMapped : translate s.memory.mem d w with
      | none => rfl
      | some q =>
          apply congrArg some
          rw [← kept w q otherUser otherMapped]
          apply ByteMemory.setByte_other
          rintro rfl
          exact here (sound.spaces.translate_alone member member otherUser user otherMapped
            mapped).2
  · have notHere : w ≠ v := by
      rintro rfl
      exact otherUser user
    rw [view_low otherUser, Function.update_of_ne notHere, view_low otherUser]

theorem storeByte_translate (sound : s.Sound kernel) (member : d ∈ s.dirs) (user : UserAddress v)
    (mapped : translate s.memory.mem d v = some p) (value : Nat) {w : Nat}
    (otherUser : UserAddress w) :
    translate (s.memory.mem.setByte p value) d w = translate s.memory.mem d w := by
  have aligned := sound.spaces.aligned d member
  have held := SpacesSound.translate_held (s.Outside kernel) member user mapped
  have agree : ∀ x, Skeleton s.memory.mem d (x / pageSize) →
      s.memory.mem.setByte p value x = s.memory.mem x := by
    intro x inside
    apply ByteMemory.setByte_other
    rintro rfl
    exact sound.spaces.scribble_use held (Or.inr ⟨d, _, _, rfl⟩) member inside
  have isUser := pdeIndex_user otherUser.1 otherUser.2
  have entry := pde_same aligned agree isUser.2
  by_cases isPresent : present (pdeValue s.memory.mem d (pdeIndex w)) = true
  · unfold translate
    rw [entry, pte_same aligned agree isUser (pteIndex_lt w) isPresent]
  · unfold translate
    rw [entry, if_neg (fun both => isPresent both.1), if_neg (fun both => isPresent both.1)]

/-- The child of a fork reads what the parent reads. -/
theorem view_copy {ppde pde : Nat} (sound : s.Sound kernel)
    (allowed : s.Allowed kernel (.copyMemory ppde pde)) (v : Nat) :
    (s.run (.copyMemory ppde pde)).view.read pde v = s.view.read ppde v := by
  obtain ⟨parent, child, different, empty, done, clean⟩ := allowed
  have ready := sound.spaces.forkReady parent child different empty
  have copied := copyMemory_copied ready done
  have cleanTables : TablesClean s.memory ppde := by
    intro i j isUser small isPresent _
    exact clean i isUser isPresent j small
  obtain ⟨sameMapped, bytes, _, _, _⟩ := copied.exact ready cleanTables
  by_cases user : UserAddress v
  · rw [view_user (s := s.run _) child user, view_user parent user]
    have mappedIff := sameMapped v user.1 user.2
    change (translate (MangoOS.copyMemory s.memory ppde pde).2.mem pde v).map _ = _
    cases before : translate s.memory.mem ppde v with
    | none =>
        cases later : translate (MangoOS.copyMemory s.memory ppde pde).2.mem pde v with
        | none => rfl
        | some q =>
            rw [before, later] at mappedIff
            cases mappedIff.mp rfl
    | some p =>
        cases later : translate (MangoOS.copyMemory s.memory ppde pde).2.mem pde v with
        | none =>
            rw [before, later] at mappedIff
            cases mappedIff.mpr rfl
        | some q => exact congrArg some (bytes v p q user.1 user.2 before later)
  · rw [view_low user, view_low user]

/-- Outside its range alloc_vpages leaves an address space as it is. -/
theorem view_alloc {pde addr size : Nat} (sound : s.Sound kernel)
    (allowed : s.Allowed kernel (.allocVpages pde addr size)) (outside : ¬ Meets addr size v) :
    (s.run (.allocVpages pde addr size)).view.read pde v = s.view.read pde v := by
  obtain ⟨member, user, counted, fits, clean⟩ := allowed
  have isUser := pdeIndex_user user.1 user.2
  refine view_same ?_ ?_
  · exact Iff.rfl
  intro _ vUser
  have elsewhere : ¬ (pdeIndex v = pdeIndex addr ∧ pteIndex addr ≤ pteIndex v ∧
      pteIndex v < pteIndex addr + vpagesCount size) := by
    rintro ⟨sameTable, lower, upper⟩
    apply outside
    have meets := meets_run (j := pteIndex v - pteIndex addr) (by omega) fits
    obtain ⟨k, inside, samePage⟩ := meets
    refine ⟨k, inside, samePage.trans ?_⟩
    rw [← sameTable, show pteIndex addr + (pteIndex v - pteIndex addr) = pteIndex v by omega]
    have high := vUser.2
    unfold slotAddress pdeIndex pteIndex pageSize
    omega
  refine ⟨allocVpages_translate sound.spaces member isUser counted fits clean
    (pdeIndex_user vUser.1 vUser.2) elsewhere, ?_⟩
  intro p mapped
  have held := SpacesSound.translate_held (s.Outside kernel) member vUser mapped
  exact allocVpages_byte sound.spaces member isUser counted fits (sound.spaces.used held)
    (sound.spaces.scribble_use held (Or.inr ⟨pde, _, _, rfl⟩) member)

/-- Every allowed call on physical memory is a call on private memories. -/
theorem run_private (sound : s.Sound kernel) (allowed : s.Allowed kernel call) :
    PrivateStep s.view (s.run call).view call := by
  have others : ∀ d, call.target = some d → (∀ e, e ≠ d → (e ∈ (s.run call).dirs ↔ e ∈ s.dirs)) →
      s.view.Others (s.run call).view d := by
    intro d isTarget dirs e v different
    apply view_others sound allowed _ (dirs e different) v
    rw [isTarget]
    exact fun same => different (Option.some.inj same).symm
  have spaces := sound.spaces
  cases call with
  | createPde =>
      rcases createPde_cases spaces.booted with failed | ⟨c, made⟩
      · left
        have unchanged : s.run .createPde = s := by
          unfold run
          simp only [failed, if_pos]
        rw [unchanged]
        exact ⟨rfl, rfl⟩
      · right
        have dirs : (s.run .createPde).dirs = insert (c * pageSize) s.dirs := by
          unfold run
          dsimp only
          rw [if_neg made.addr_ne, made.addr]
        have fresh : c * pageSize ∉ s.dirs := by
          intro member
          have used := spaces.directory_used member
          rw [Nat.mul_div_cancel c (by decide)] at used
          exact made.took.fresh used
        refine ⟨c * pageSize, fresh, dirs, ?_, ?_⟩
        · intro v
          by_cases user : UserAddress v
          · have member : c * pageSize ∈ (s.run .createPde).dirs :=
              dirs ▸ Finset.mem_insert_self _ _
            rw [view_user member user]
            change (translate (MangoOS.createPde s.memory).2.mem (c * pageSize) v).map _ = none
            unfold translate
            rw [made.empty _ (pdeIndex_user user.1 user.2), if_neg (fun both => by cases both.1)]
            rfl
          · exact view_low user
        · intro e v different
          apply view_others sound allowed (by exact fun same => by cases same) _ v
          rw [dirs, Finset.mem_insert, or_iff_right different]
  | allocVpages pde addr size =>
      exact ⟨rfl, others pde rfl (fun e _ => Iff.rfl), fun v => view_alloc sound allowed⟩
  | copyMemory ppde pde =>
      exact ⟨rfl, others pde rfl (fun e _ => Iff.rfl), view_copy sound allowed⟩
  | destroyPde pde =>
      refine ⟨rfl, others pde rfl ?_⟩
      intro e different
      exact ⟨Finset.mem_of_mem_erase, fun member => Finset.mem_erase.mpr ⟨different, member⟩⟩
  | store pde vaddr value =>
      obtain ⟨member, user⟩ := allowed
      cases mapped : translate s.memory.mem pde vaddr with
      | none =>
          have unchanged : s.run (.store pde vaddr value) = s := by
            unfold run
            simp only [mapped]
          rw [unchanged]
          refine ⟨rfl, fun _ _ _ => rfl, ?_⟩
          rw [view_user member user, mapped]
          exact (Function.update_eq_self_iff.mpr (by
            rw [view_user member user, mapped]
            rfl)).symm
      | some p =>
          have result : s.run (.store pde vaddr value) =
              { s with
                memory := s.memory.setMem
                  ((markDirty s.memory.mem pde vaddr).setByte p value) } := by
            unfold run
            simp only [mapped]
          have dirtySound := spaces.markDirty_sound member user mapped
          have dirtyMapped := fun {w} =>
            spaces.markDirty_translate member user mapped (w := w) member
          have marked := sound.spaces_only
            { s with memory := s.memory.setMem (markDirty s.memory.mem pde vaddr) } rfl dirtySound
          refine ⟨by rw [result]; rfl, ?_, ?_⟩
          · apply others pde rfl
            intro e _
            rw [result]
          · apply view_store sound member user mapped _ _ (congrArg (·.memory.mem) result)
              (congrArg (·.dirs) result)
            · intro w q otherUser otherMapped
              by_contra changed
              have table := SpacesSound.markDirty_bytes (s.Outside kernel) member user
                mapped changed
              have frame := SpacesSound.translate_held (s.Outside kernel) member otherUser
                otherMapped
              have clash := spaces.booked.one table frame
              cases clash
            · intro w otherUser
              rw [← dirtyMapped otherUser]
              exact storeByte_translate marked member user ((dirtyMapped user).trans mapped) value
                otherUser
  | copyToUser pde vaddr value =>
      obtain ⟨member, user, isMapped⟩ := allowed
      have mapped := transVtop_mapped isMapped
      refine ⟨rfl, others pde rfl (fun e _ => Iff.rfl), ?_⟩
      exact view_store sound member user mapped (fun _ _ _ _ => rfl)
        (fun w otherUser => storeByte_translate sound member user mapped value otherUser) rfl rfl
  | write addr value =>
      refine ⟨rfl, ?_⟩
      funext e v
      exact view_others sound allowed (by exact fun same => by cases same) Iff.rfl v
  | allocPages count => exact ⟨rfl, rfl⟩
  | freePages addr count => exact ⟨rfl, rfl⟩

end SpaceSystem

/-! ### Runs -/

/-- After boot: no address space yet, and the kernel's pages are taken. -/
structure SpaceSystem.Started (kernel : Nat → Prop) (s : SpaceSystem) : Prop where
  dirs : s.dirs = ∅
  lent : s.lent = ∅
  bounded : s.memory.pages.nbits ≤ 1048576
  taken : ∀ p, kernel p → s.memory.Used p
  null : kernel 0
  kernelDir : kernel (kernelPageDir / pageSize)

inductive AddressRun (kernel : Nat → Prop) : SpaceSystem → List SpaceCall → SpaceSystem → Prop
  | nil (s : SpaceSystem) : AddressRun kernel s [] s
  | cons {s after : SpaceSystem} {call : SpaceCall} {calls : List SpaceCall}
      (allowed : s.Allowed kernel call) (rest : AddressRun kernel (s.run call) calls after) :
      AddressRun kernel s (call :: calls) after

inductive PrivateRun : PrivateMemories → List SpaceCall → PrivateMemories → Prop
  | nil (m : PrivateMemories) : PrivateRun m [] m
  | cons {before middle after : PrivateMemories} {call : SpaceCall} {calls : List SpaceCall}
      (step : PrivateStep before middle call) (rest : PrivateRun middle calls after) :
      PrivateRun before (call :: calls) after

variable {kernel : Nat → Prop} {first s after : SpaceSystem} {calls later : List SpaceCall}
  {d : Nat}

theorem SpaceSystem.Started.sound (started : s.Started kernel) : s.Sound kernel := by
  refine ⟨⟨⟨started.bounded, started.taken 0 started.null⟩, ⟨?_, ?_⟩, Or.inl started.null,
    Or.inl started.kernelDir, ?_, ?_, ?_, ?_⟩, started.null, started.kernelDir, ?_⟩
  · rintro (_ | ⟨d, role⟩) (_ | ⟨e, other⟩) p held otherHeld
    · rfl
    · exact absurd (started.dirs ▸ otherHeld.1) (Finset.notMem_empty e)
    · exact absurd (started.dirs ▸ held.1) (Finset.notMem_empty d)
    · exact absurd (started.dirs ▸ held.1) (Finset.notMem_empty d)
  · rintro (_ | ⟨d, role⟩) p held
    · rcases held with isKernel | isLent
      · exact started.taken p isKernel
      · exact absurd (started.lent ▸ isLent) (Finset.notMem_empty p)
    · exact absurd (started.dirs ▸ held.1) (Finset.notMem_empty d)
  · exact fun d member => absurd (started.dirs ▸ member) (Finset.notMem_empty d)
  · exact fun d member => absurd (started.dirs ▸ member) (Finset.notMem_empty d)
  · exact fun d member => absurd (started.dirs ▸ member) (Finset.notMem_empty d)
  · exact fun d member => absurd (started.dirs ▸ member) (Finset.notMem_empty d)
  · exact fun p isLent => absurd (started.lent ▸ isLent) (Finset.notMem_empty p)

namespace AddressRun

theorem sound (run : AddressRun kernel s calls after) (sound : s.Sound kernel) :
    after.Sound kernel := by
  induction run with
  | nil s => exact sound
  | cons allowed rest ih => exact ih (sound.run allowed)

/-- Physical memory, its bitmap and its tables refine memories of their own. -/
theorem refines (run : AddressRun kernel s calls after) (sound : s.Sound kernel) :
    PrivateRun s.view calls after.view := by
  induction run with
  | nil s => exact PrivateRun.nil s.view
  | cons allowed rest ih =>
      exact PrivateRun.cons (SpaceSystem.run_private sound allowed) (ih (sound.run allowed))

end AddressRun

/-- What the rest of the system leaves of an address space. -/
structure Untouched (s after : SpaceSystem) (d : Nat) : Prop where
  live : d ∈ after.dirs
  translations : ∀ v, UserAddress v →
    translate after.memory.mem d v = translate s.memory.mem d v
  bytes : ∀ v p, UserAddress v → translate s.memory.mem d v = some p →
    after.memory.mem p = s.memory.mem p

theorem Untouched.trans {middle : SpaceSystem} (one : Untouched s middle d)
    (two : Untouched middle after d) : Untouched s after d := by
  refine ⟨two.live, ?_, ?_⟩
  · intro v user
    rw [two.translations v user, one.translations v user]
  · intro v p user mapped
    rw [two.bytes v p user ((one.translations v user).trans mapped), one.bytes v p user mapped]

theorem AddressRun.untouched (run : AddressRun kernel s calls after) (sound : s.Sound kernel)
    (member : d ∈ s.dirs) (others : ∀ call, call ∈ calls → call.target ≠ some d) :
    Untouched s after d := by
  induction run with
  | nil s => exact ⟨member, fun _ _ => rfl, fun _ _ _ _ => rfl⟩
  | @cons s after call calls allowed rest ih =>
      have notTarget := others call (List.mem_cons_self ..)
      have stays : d ∈ (s.run call).dirs := SpaceSystem.run_dirs member notTarget
      have step : Untouched s (s.run call) d :=
        ⟨stays, fun v user => (SpaceSystem.run_others sound allowed member notTarget user).1,
          fun v p user => (SpaceSystem.run_others sound allowed member notTarget user).2 p⟩
      exact step.trans (ih (sound.run allowed) stays
        (fun other inRest => others other (List.mem_cons_of_mem _ inRest)))

/-- A frame that a program sees: taken, not the kernel's or a caller's of alloc_pages, without
entries of any directory, and at one user page of one address space. -/
structure FrameAlone (kernel : Nat → Prop) (s : SpaceSystem) (d v p : Nat) : Prop where
  taken : s.memory.Used (p / pageSize)
  apart : ¬ s.Outside kernel (p / pageSize)
  noEntries : ∀ e, e ∈ s.dirs → ¬ Skeleton s.memory.mem e (p / pageSize)
  one : ∀ e w q, e ∈ s.dirs → UserAddress w → translate s.memory.mem e w = some q →
    q / pageSize = p / pageSize → e = d ∧ w / pageSize = v / pageSize

theorem SpaceSystem.Sound.frame_alone (sound : s.Sound kernel) (member : d ∈ s.dirs) {v p : Nat}
    (user : UserAddress v) (mapped : translate s.memory.mem d v = some p) :
    FrameAlone kernel s d v p := by
  have held := SpacesSound.translate_held (s.Outside kernel) member user mapped
  refine ⟨sound.spaces.used held, sound.spaces.apart held, ?_, ?_⟩
  · exact fun e eMember => sound.spaces.scribble_use held (Or.inr ⟨d, _, _, rfl⟩) eMember
  · intro e w q eMember otherUser otherMapped same
    have other := SpacesSound.translate_held (s.Outside kernel) eMember otherUser otherMapped
    rw [same] at other
    have unique := sound.spaces.booked.one other held
    obtain ⟨sameDir, sameRole⟩ := PageUse.space.inj unique
    obtain ⟨sameTable, sameSlot⟩ := Role.frame.inj sameRole
    have high := user.2
    have otherHigh := otherUser.2
    refine ⟨sameDir, ?_⟩
    unfold pdeIndex pteIndex at *
    unfold pageSize
    omega

/-! ### A system with two programs -/

/-- Cleared memory in which the kernel has page 0 and its directory. -/
def clearedSystem : SpaceSystem where
  memory :=
    { mem := fun _ => 0
      pages :=
        { nbits := 1024
          base := fun byte => if byte = 0 ∨ byte = 64 then 1#8 else 0#8 } }
  dirs := ∅
  lent := ∅

def clearedKernel (p : Nat) : Prop := p = 0 ∨ p = 512

theorem clearedSystem_started : clearedSystem.Started clearedKernel := by
  refine ⟨rfl, rfl, by decide, ?_, Or.inl rfl, Or.inr rfl⟩
  rintro p (rfl | rfl)
  · decide
  · decide

theorem clearedSystem_took : clearedSystem.memory.Took 1 := by
  have addr : clearedSystem.memory.allocPage.1 = 4096 := by decide +kernel
  rcases allocPage_cases clearedSystem_started.sound.spaces.booted with ⟨full, _⟩ | ⟨f, took⟩
  · rw [addr] at full
    cases full
  · have isPage := took.addr
    rw [addr] at isPage
    have isOne : f = 1 := by
      unfold pageSize at isPage
      omega
    exact isOne ▸ took

/-- The first address space, in page 1. -/
theorem clearedSystem_create :
    clearedSystem.run .createPde =
      { memory := clearedSystem.memory.allocPage.2.setMem (fillPde (fun _ => 0) 4096)
        dirs := {4096}
        lent := ∅ } := by
  have made := createPde_took clearedSystem_took
  unfold SpaceSystem.run
  dsimp only
  rw [made]
  rfl

/-- A program is made, gets a page and writes to it. -/
def firstProgram : List SpaceCall :=
  [.createPde, .allocVpages 4096 1073741824 4096, .store 4096 1073741824 7]

def firstStarted : SpaceSystem :=
  ((clearedSystem.run .createPde).run (.allocVpages 4096 1073741824 4096)).run
    (.store 4096 1073741824 7)

theorem firstProgram_run : AddressRun clearedKernel clearedSystem firstProgram firstStarted := by
  have member : 4096 ∈ (clearedSystem.run .createPde).dirs := by
    rw [clearedSystem_create]
    exact Finset.mem_singleton_self 4096
  refine .cons trivial (.cons ⟨member, by decide, by decide, by decide, ?_⟩
    (.cons ⟨member, by decide⟩ (.nil _)))
  intro _ _ j small isPresent
  rw [clearedSystem_create] at isPresent
  have next : (clearedSystem.memory.allocPage.2.setMem (fillPde (fun _ => 0) 4096)).allocPage.1 =
      8192 := by
    decide +kernel
  have zero : (fillPde (fun _ => 0) 4096).word (8192 + 4 * j) =
      ByteMemory.word (fun _ => 0) (8192 + 4 * j) := by
    apply ByteMemory.word_congr
    intro x lower upper
    apply fillPde_outside (c := 1)
    unfold pageSize
    omega
  dsimp only at isPresent
  rw [next, setMem_mem, zero] at isPresent
  cases isPresent

/-- Calls that are not for the first program. -/
def otherCalls : List SpaceCall := [.createPde, .allocPages 2, .write 0 5]

theorem otherCalls_run :
    AddressRun clearedKernel firstStarted otherCalls
      (((firstStarted.run .createPde).run (.allocPages 2)).run (.write 0 5)) :=
  .cons trivial (.cons (by decide : 1 ≤ 2) (.cons ⟨Or.inl (Or.inl rfl), by decide⟩ (.nil _)))

theorem firstStarted_live : 4096 ∈ firstStarted.dirs := by
  have member : 4096 ∈ (clearedSystem.run .createPde).dirs := by
    rw [clearedSystem_create]
    exact Finset.mem_singleton_self 4096
  unfold firstStarted
  rw [SpaceSystem.run_store_dirs]
  exact member

set_option maxRecDepth 100000 in
theorem firstStarted_mapped :
    translate firstStarted.memory.mem 4096 1073741824 = some 12288 := by
  decide +kernel

/-! ### What holds from boot on -/

/-- From boot on, whatever the calls, the programs' memories are memories of their own. -/
theorem addressRun_private (started : first.Started kernel) (run : AddressRun kernel first calls s) :
    PrivateRun first.view calls s.view := run.refines started.sound

theorem addressRun_private_firstProgram :
    PrivateRun clearedSystem.view firstProgram firstStarted.view :=
  addressRun_private clearedSystem_started firstProgram_run

/-- Calls for other address spaces, however many and in whatever order, leave a program its
translations and every byte of its memory. -/
theorem addressRun_untouched (started : first.Started kernel) (run : AddressRun kernel first calls s)
    (member : d ∈ s.dirs) (on : AddressRun kernel s later after)
    (others : ∀ call, call ∈ later → call.target ≠ some d) : Untouched s after d :=
  on.untouched (run.sound started.sound) member others

theorem addressRun_untouched_firstProgram :
    Untouched firstStarted
      (((firstStarted.run .createPde).run (.allocPages 2)).run (.write 0 5)) 4096 :=
  addressRun_untouched clearedSystem_started firstProgram_run firstStarted_live otherCalls_run
    (by decide)

/-- At any time a frame belongs to one user page of one address space. -/
theorem addressRun_frames (started : first.Started kernel) (run : AddressRun kernel first calls s) :
    ∀ d v p, d ∈ s.dirs → UserAddress v → translate s.memory.mem d v = some p →
      FrameAlone kernel s d v p :=
  fun _ _ _ member user mapped =>
    (run.sound started.sound).frame_alone member user mapped

theorem addressRun_frames_firstProgram :
    FrameAlone clearedKernel firstStarted 4096 1073741824 12288 :=
  addressRun_frames clearedSystem_started firstProgram_run 4096 1073741824 12288 firstStarted_live
    (by decide) firstStarted_mapped

/-- At any time all address spaces have the kernel at the addresses where the kernel's own
directory has it. -/
theorem addressRun_kernelHalf (started : first.Started kernel)
    (run : AddressRun kernel first calls s) : ∀ d v, d ∈ s.dirs → v < userMemoryBegin →
      translate s.memory.mem d v = translate s.memory.mem kernelPageDir v :=
  fun _ _ member low => (run.sound started.sound).spaces.translate_kernel member low

theorem addressRun_kernelHalf_firstProgram :
    translate firstStarted.memory.mem 4096 1048576 =
      translate firstStarted.memory.mem kernelPageDir 1048576 :=
  addressRun_kernelHalf clearedSystem_started firstProgram_run 4096 1048576 firstStarted_live
    (by decide)

end MangoOS
