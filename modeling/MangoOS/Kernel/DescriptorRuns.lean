/-
Every run of irq_install (kernel/irq.c) and switch_tss (kernel/sched.c) after arch_init
(kernel/arch.c): which interrupts the processor takes, and the segments that it finds.
-/

import MangoOS.Kernel.Descriptors

namespace MangoOS

inductive DescriptorCall
  | irqInstall (num : Int) (handler : BitVec 32)
  | switchTss (tss : BitVec 32)

namespace DescriptorCall

/-- `irq_install` writes behind the table for number 256, and for some negative numbers. -/
def Inside : DescriptorCall → Prop
  | .irqInstall num _ => 0 ≤ num ∧ num ≠ idtTableSize
  | .switchTss _ => True

def step (t : Tables) : DescriptorCall → Option Tables
  | .irqInstall num handler => some (MangoOS.irqInstall t num handler).2
  | .switchTss tss => MangoOS.switchTss t tss

def run (t : Tables) (calls : List DescriptorCall) : Option Tables := calls.foldlM step t

def tss : DescriptorCall → Option (BitVec 32)
  | .irqInstall _ _ => none
  | .switchTss tss => some tss

end DescriptorCall

/-- What the tables are for. -/
structure Interrupts where
  handler : BitVec 8 → BitVec 32
  /-- The handler of `int 0x80` is installed. -/
  systemCalls : Bool
  /-- The task state segment in use. -/
  tss : Option (BitVec 32)

namespace Interrupts

/-- After `arch_init`. -/
def first (fallback : BitVec 32) (handler : Int → BitVec 32) : Interrupts where
  handler vector :=
    if (vector.toNat : Int) ∈ exceptionHandlers then handler vector.toNat else fallback
  systemCalls := false
  tss := none

def install (a : Interrupts) (num : Int) (handler : BitVec 32) : Interrupts :=
  { a with
    handler := Function.update a.handler (BitVec.ofInt 8 num) handler
    systemCalls := a.systemCalls || num = 0x80 }

def step (a : Interrupts) : DescriptorCall → Interrupts
  | .irqInstall num handler => if num < idtTableSize then a.install num handler else a
  | .switchTss tss => { a with tss := some tss }

def run (a : Interrupts) (calls : List DescriptorCall) : Interrupts := calls.foldl step a

/-- Ring 0 and the devices interrupt with every vector, a user program only with `int 0x80`. -/
def take (a : Interrupts) (ring : BitVec 2) (software : Bool) (vector : BitVec 8) : Option Gate :=
  if software ∧ ring ≠ 0 ∧ ¬ (vector = 0x80 ∧ a.systemCalls) then none
  else some ⟨kernelSelectorCs, a.handler vector⟩

/-- The privilege level of a gate. -/
def ring (a : Interrupts) (vector : BitVec 8) : BitVec 16 :=
  if vector = 0x80 ∧ a.systemCalls then 3 else 0

@[simp] theorem install_handler (a : Interrupts) (num : Int) (handler : BitVec 32) :
    (a.install num handler).handler =
      Function.update a.handler (BitVec.ofInt 8 num) handler := rfl

@[simp] theorem install_systemCalls (a : Interrupts) (num : Int) (handler : BitVec 32) :
    (a.install num handler).systemCalls = (a.systemCalls || num = 0x80) := rfl

end Interrupts

/-- The tables hold what they are for. -/
structure TablesHold (t : Tables) (a : Interrupts) : Prop where
  gates : ∀ vector, t.idt vector.toNat =
    (setGateDesc kernelSelectorCs (a.handler vector) (gateAttr (a.ring vector))).bits
  segments : ∀ i, i < 5 → t.gdt i = initGdt 0 i
  tr : t.tr = a.tss
  busy : ∀ tss, a.tss = some tss → t.gdt 5 = (setTssDesc tss).bits ||| 0x20000000000

/-! ### One call -/

section Calls

variable {t : Tables} {a : Interrupts}

theorem vector_index {num : Int} (lower : 0 ≤ num) (upper : num < 256) :
    (BitVec.ofInt 16 num).toNat = (BitVec.ofInt 8 num).toNat := by
  rw [BitVec.toNat_ofInt, BitVec.toNat_ofInt]
  omega

theorem TablesHold.install (state : TablesHold t a) {num : Int} (lower : 0 ≤ num)
    (upper : num < idtTableSize) (handler : BitVec 32) :
    TablesHold (irqInstall t num handler).2 (a.install num handler) := by
  have accepted : ¬ num > idtTableSize := by omega
  have index := vector_index lower upper
  have same : ∀ vector : BitVec 8, vector = 0x80 → vector = BitVec.ofInt 8 num → num = 0x80 := by
    intro vector isCall isNum
    have value := congrArg BitVec.toNat (isNum.symm.trans isCall)
    rw [BitVec.toNat_ofInt, show (0x80 : BitVec 8).toNat = 128 from rfl] at value
    unfold idtTableSize at upper
    omega
  unfold irqInstall
  rw [if_neg accepted]
  refine ⟨?_, state.segments, state.tr, state.busy⟩
  intro vector
  by_cases here : vector = BitVec.ofInt 8 num
  · subst here
    change Function.update t.idt _ _ _ = _
    rw [← index, Function.update_self, Interrupts.install_handler, Function.update_self]
    unfold Interrupts.ring
    rw [Interrupts.install_systemCalls]
    by_cases isCall : num = 0x80
    · subst isCall
      simp
    · have other : BitVec.ofInt 8 num ≠ 0x80 := fun equal => isCall (same _ equal rfl)
      rw [if_neg isCall, if_neg (fun both => other both.1)]
  · have elsewhere : vector.toNat ≠ (BitVec.ofInt 16 num).toNat := by
      rw [index]
      exact fun equal => here (BitVec.eq_of_toNat_eq equal)
    change Function.update t.idt _ _ _ = _
    rw [Function.update_of_ne elsewhere, state.gates, Interrupts.install_handler,
      Function.update_of_ne here]
    unfold Interrupts.ring
    rw [Interrupts.install_systemCalls]
    by_cases isCall : vector = 0x80
    · have notCall : num ≠ 0x80 := by
        rintro rfl
        exact here isCall
      simp [notCall]
    · rw [if_neg (fun both => isCall both.1), if_neg (fun both => isCall both.1)]

theorem setTssDesc_attr (tss : BitVec 32) : (setTssDesc tss).attr = 0x89 := by
  have fits : ¬ tssSize > 0xfffff := by decide
  unfold setTssDesc setGdtDesc
  simp only [if_neg fits]
  decide

/-- `ltr` finds a segment that is not busy, whatever the last switch has left. -/
theorem loadTaskRegister_tss (gdt : Nat → SegmentEntry) (tss : BitVec 32) :
    loadTaskRegister (Function.update gdt 5 (setTssDesc tss).bits) tssSelector =
      some (tss, Function.update gdt 5 ((setTssDesc tss).bits ||| 0x20000000000)) := by
  have entry : selected (Function.update gdt 5 (setTssDesc tss).bits) tssSelector =
      some (setTssDesc tss).bits := rfl
  have present : (setTssDesc tss).bits.present = true := by
    rw [gdt_present, setTssDesc_attr]
    rfl
  have type : (setTssDesc tss).bits.type = 9 := by
    rw [gdt_type, setTssDesc_attr]
    rfl
  unfold loadTaskRegister
  rw [entry]
  dsimp only
  rw [if_pos ⟨present, type⟩, setTssDesc, setGdtDesc_base,
    show tssSelector.toNat / 8 = 5 from rfl, Function.update_idem]

theorem TablesHold.switchTss (state : TablesHold t a) (tss : BitVec 32) :
    ∃ t', switchTss t tss = some t' ∧ TablesHold t' { a with tss := some tss } := by
  unfold MangoOS.switchTss
  rw [loadTaskRegister_tss]
  refine ⟨_, rfl, state.gates, ?_, rfl, ?_⟩
  · intro i low
    change Function.update t.gdt 5 _ i = _
    rw [Function.update_of_ne (by omega), state.segments i low]
  · intro other equal
    rw [← Option.some.inj equal]
    exact Function.update_self 5 _ t.gdt

theorem TablesHold.step (state : TablesHold t a) {call : DescriptorCall} (inside : call.Inside) :
    ∃ t', call.step t = some t' ∧ TablesHold t' (a.step call) := by
  cases call with
  | irqInstall num handler =>
      refine ⟨_, rfl, ?_⟩
      unfold Interrupts.step
      dsimp only
      by_cases small : num < idtTableSize
      · rw [if_pos small]
        exact state.install inside.1 small handler
      · have rejected : num > idtTableSize := by
          have other := inside.2
          omega
        unfold irqInstall
        rw [if_neg small, if_pos rejected]
        exact state
  | switchTss tss => exact state.switchTss tss

theorem TablesHold.run (state : TablesHold t a) {calls : List DescriptorCall}
    (inside : ∀ call ∈ calls, call.Inside) :
    ∃ t', DescriptorCall.run t calls = some t' ∧ TablesHold t' (a.run calls) := by
  induction calls generalizing t a with
  | nil => exact ⟨t, rfl, state⟩
  | cons call calls ih =>
      obtain ⟨t₁, stepped, state₁⟩ := state.step (inside call List.mem_cons_self)
      obtain ⟨t₂, ran, state₂⟩ :=
        ih state₁ (fun other found => inside other (List.mem_cons_of_mem _ found))
      refine ⟨t₂, ?_, state₂⟩
      unfold DescriptorCall.run
      rw [List.foldlM_cons, stepped]
      exact ran

end Calls

/-! ### arch_init -/

theorem tablesHold_handlers {t : Tables} {a : Interrupts} (handler : Int → BitVec 32)
    (state : TablesHold t a) (nums : List Int) (vectors : ∀ num ∈ nums, 0 ≤ num ∧ num < 32) :
    TablesHold (nums.foldl (fun t num => (irqInstall t num (handler num)).2) t)
      (nums.foldl (fun a num => a.install num (handler num)) a) := by
  induction nums generalizing t a with
  | nil => exact state
  | cons num nums ih =>
      obtain ⟨lower, upper⟩ := vectors num List.mem_cons_self
      have small : num < idtTableSize := by
        unfold idtTableSize
        omega
      exact ih (state.install lower small (handler num))
        (fun other found => vectors other (List.mem_cons_of_mem _ found))

theorem install_fold (handler : Int → BitVec 32) (nums : List Int)
    (vectors : ∀ num ∈ nums, 0 ≤ num ∧ num < 32) (a : Interrupts) :
    nums.foldl (fun a num => a.install num (handler num)) a =
      { a with
        handler := fun vector =>
          if (vector.toNat : Int) ∈ nums then handler vector.toNat else a.handler vector } := by
  induction nums generalizing a with
  | nil => simp
  | cons num nums ih =>
      obtain ⟨lower, upper⟩ := vectors num List.mem_cons_self
      have other : decide (num = 0x80) = false := decide_eq_false (by omega)
      rw [List.foldl_cons, ih (fun n found => vectors n (List.mem_cons_of_mem _ found))]
      unfold Interrupts.install
      rw [other, Bool.or_false]
      congr
      funext vector
      have index : vector = BitVec.ofInt 8 num ↔ (vector.toNat : Int) = num := by
        rw [← BitVec.toNat_inj, BitVec.toNat_ofInt]
        omega
      by_cases later : (vector.toNat : Int) ∈ nums
      · rw [if_pos later, if_pos (List.mem_cons_of_mem _ later)]
      · rw [if_neg later]
        by_cases here : (vector.toNat : Int) = num
        · rw [if_pos (by simp [here]), here]
          change Function.update a.handler _ _ vector = _
          rw [index.mpr here, Function.update_self]
        · rw [if_neg (by simp [here, later])]
          exact Function.update_of_ne (fun equal => here (index.mp equal)) ..

theorem tablesHold_first (tss fallback : BitVec 32) (handler : Int → BitVec 32) :
    TablesHold (archInit tss fallback handler) (Interrupts.first fallback handler) := by
  have start : TablesHold
      { gdt := initGdt tss
        idt := fun _ => (setGateDesc kernelSelectorCs fallback (gateAttr 0)).bits
        tr := none }
      { handler := fun _ => fallback
        systemCalls := false
        tss := none } := by
    refine ⟨?_, ?_, rfl, ?_⟩
    · intro vector
      simp [Interrupts.ring]
    · intro i low
      have five : i = 0 ∨ i = 1 ∨ i = 2 ∨ i = 3 ∨ i = 4 := by omega
      rcases five with rfl | rfl | rfl | rfl | rfl <;> rfl
    · intro tss none
      cases none
  have vectors : ∀ num ∈ exceptionHandlers, 0 ≤ num ∧ num < 32 := by decide
  have filled := tablesHold_handlers handler start exceptionHandlers vectors
  rw [install_fold handler exceptionHandlers vectors] at filled
  exact filled

/-! ### What the processor does with the tables -/

theorem kernelCs_code : (initGdt 0 1).Code ∧ (initGdt 0 1).present = true ∧
    (initGdt 0 1).dpl = 0 := by decide

section Decoded

variable {t : Tables} {a : Interrupts}

theorem TablesHold.take (state : TablesHold t a) (ring : BitVec 2) (software : Bool)
    (vector : BitVec 8) :
    takeInterrupt t.gdt t.idt ring software vector = a.take ring software vector := by
  have code : selected t.gdt kernelSelectorCs = some (initGdt 0 1) := by
    rw [← state.segments 1 (by decide)]
    rfl
  obtain ⟨isCode, codePresent, codeRing⟩ := kernelCs_code
  have inner : (initGdt 0 1).dpl ≤ ring := by
    rw [codeRing]
    exact Nat.zero_le ring.toNat
  unfold takeInterrupt
  rw [state.gates]
  dsimp only
  rw [gate_present, gate_type, gate_dpl, gate_selector, setGateDesc_offset]
  dsimp only [setGateDesc]
  rw [code]
  dsimp only
  rw [if_pos ⟨isCode, codePresent, inner⟩]
  unfold Interrupts.take Interrupts.ring
  by_cases user : vector = 0x80 ∧ a.systemCalls
  · have every : ring ≤ (gateAttr 3).extractLsb' 13 2 := by
      have bound := ring.isLt
      change ring.toNat ≤ 3
      omega
    rw [if_pos user, if_neg (fun both => both.2.2 user)]
    exact if_pos ⟨rfl, rfl, fun _ => every⟩
  · rw [if_neg user]
    have zero : ring ≤ (gateAttr 0).extractLsb' 13 2 ↔ ring = 0 := by
      change ring.toNat ≤ 0 ↔ _
      rw [Nat.le_zero, ← BitVec.toNat_inj]
      rfl
    by_cases refused : software = true ∧ ring ≠ 0
    · rw [if_pos ⟨refused.1, refused.2, user⟩]
      exact if_neg (fun all => refused.2 (zero.mp (all.2.2 refused.1)))
    · rw [if_neg (fun both => refused ⟨both.1, both.2.1⟩)]
      refine if_pos ⟨rfl, rfl, fun isSoftware => zero.mpr ?_⟩
      by_contra nonzero
      exact refused ⟨isSoftware, nonzero⟩

theorem Interrupts.run_tss (a : Interrupts) (calls : List DescriptorCall) :
    (a.run calls).tss = (calls.filterMap DescriptorCall.tss).getLast?.or a.tss := by
  induction calls generalizing a with
  | nil => rfl
  | cons call calls ih =>
      refine (ih (a.step call)).trans ?_
      cases call with
      | irqInstall num handler =>
          have kept : (a.step (.irqInstall num handler)).tss = a.tss := by
            unfold Interrupts.step
            dsimp only
            split <;> rfl
          rw [kept]
          rfl
      | switchTss tss =>
          change _ = (tss :: calls.filterMap DescriptorCall.tss).getLast?.or a.tss
          rw [List.getLast?_cons]
          cases (calls.filterMap DescriptorCall.tss).getLast? <;> rfl

/-- A segment in use is busy, and the fields of its task state segment lie inside. -/
theorem busy_tss (tss : BitVec 32) :
    ((setTssDesc tss).bits ||| 0x20000000000).base = tss ∧
      ((setTssDesc tss).bits ||| 0x20000000000).type = 11 ∧
        ((setTssDesc tss).bits ||| 0x20000000000).limit = 104 := by
  refine ⟨?_, ?_, ?_⟩
  · refine Eq.trans ?_ (setGdtDesc_base tss tssSize (0x80 ||| 9))
    unfold SegmentEntry.base setTssDesc
    rw [BitVec.extractLsb'_or, BitVec.extractLsb'_or]
    simp
  · have type : (setTssDesc tss).bits.type = 9 := by
      rw [gdt_type, setTssDesc_attr]
      rfl
    unfold SegmentEntry.type at type ⊢
    rw [BitVec.extractLsb'_or, type]
    rfl
  · have clear : (0x80 ||| 9 : BitVec 16) &&& 0x8f00 = 0 := by decide
    refine Eq.trans ?_ (setGdtDesc_limit tss tssSize clear)
    unfold SegmentEntry.limit setTssDesc
    rw [BitVec.extractLsb'_or, BitVec.extractLsb'_or, BitVec.getLsbD_or]
    simp

/-- The segments of both rings. -/
theorem flat_segments : (initGdt 0 1).Flat 0 ∧ (initGdt 0 2).Flat 0 ∧
    (initGdt 0 3).Flat 3 ∧ (initGdt 0 4).Flat 3 :=
  ⟨⟨by decide, by decide, by decide, by decide, by decide⟩,
    ⟨by decide, by decide, by decide, by decide, by decide⟩,
    ⟨by decide, by decide, by decide, by decide, by decide⟩,
    ⟨by decide, by decide, by decide, by decide, by decide⟩⟩

/-- The user selectors that `switch_to_user_mode` pushes. -/
theorem canReturn_user (gdt : Nat → SegmentEntry) (code : gdt 3 = initGdt 0 3)
    (stack : gdt 4 = initGdt 0 4) : CanReturn gdt 27 35 := by
  refine ⟨initGdt 0 3, initGdt 0 4, ?_, ?_, by decide, by decide⟩
  · rw [← code]
    rfl
  · rw [← stack]
    rfl

end Decoded

/-! ### Every run -/

/-- Both ways into the kernel stay what the calls so far have made them. -/
theorem interrupts_taken (tss fallback : BitVec 32) (handler : Int → BitVec 32)
    {calls : List DescriptorCall} (inside : ∀ call ∈ calls, call.Inside) :
    ∃ t, DescriptorCall.run (archInit tss fallback handler) calls = some t ∧
      ∀ ring software vector, takeInterrupt t.gdt t.idt ring software vector =
        ((Interrupts.first fallback handler).run calls).take ring software vector := by
  obtain ⟨t, ran, state⟩ := (tablesHold_first tss fallback handler).run inside
  exact ⟨t, ran, state.take⟩

/-- `ltr` never finds a busy segment; no call changes a segment of either ring. -/
theorem segments_stay (tss fallback : BitVec 32) (handler : Int → BitVec 32)
    {calls : List DescriptorCall} (inside : ∀ call ∈ calls, call.Inside) :
    ∃ t, DescriptorCall.run (archInit tss fallback handler) calls = some t ∧
      t.tr = (calls.filterMap DescriptorCall.tss).getLast? ∧
      (∀ base, t.tr = some base →
        (t.gdt 5).base = base ∧ (t.gdt 5).type = 11 ∧ (t.gdt 5).limit = 104) ∧
      ((t.gdt 1).Flat 0 ∧ (t.gdt 2).Flat 0 ∧ (t.gdt 3).Flat 3 ∧ (t.gdt 4).Flat 3) ∧
      CanReturn t.gdt 27 35 := by
  obtain ⟨t, ran, state⟩ := (tablesHold_first tss fallback handler).run inside
  refine ⟨t, ran, ?_, ?_, ?_, ?_⟩
  · rw [state.tr, Interrupts.run_tss]
    exact Option.or_none
  · intro base loaded
    rw [state.busy base (state.tr ▸ loaded)]
    exact busy_tss base
  · rw [state.segments 1 (by decide), state.segments 2 (by decide), state.segments 3 (by decide),
      state.segments 4 (by decide)]
    exact flat_segments
  · exact canReturn_user t.gdt (state.segments 3 (by decide)) (state.segments 4 (by decide))

/-- `irq_init`, the start of a task, and a number that `irq_install` rejects. -/
def firstCalls : List DescriptorCall :=
  [.irqInstall 0x80 0x12345, .switchTss 0x200000, .irqInstall 300 0, .switchTss 0x300000]

theorem firstCalls_inside : ∀ call ∈ firstCalls, call.Inside := by
  unfold firstCalls
  simp [DescriptorCall.Inside, idtTableSize]

theorem interrupts_taken_first :
    ∃ t, DescriptorCall.run (archInit 0x100000 0x500 (fun _ => 0x600)) firstCalls = some t ∧
      ∀ ring software vector, takeInterrupt t.gdt t.idt ring software vector =
        ((Interrupts.first 0x500 (fun _ => 0x600)).run firstCalls).take ring software vector :=
  interrupts_taken 0x100000 0x500 (fun _ => 0x600) firstCalls_inside

theorem segments_stay_first :
    ∃ t, DescriptorCall.run (archInit 0x100000 0x500 (fun _ => 0x600)) firstCalls = some t ∧
      t.tr = (firstCalls.filterMap DescriptorCall.tss).getLast? ∧
      (∀ base, t.tr = some base →
        (t.gdt 5).base = base ∧ (t.gdt 5).type = 11 ∧ (t.gdt 5).limit = 104) ∧
      ((t.gdt 1).Flat 0 ∧ (t.gdt 2).Flat 0 ∧ (t.gdt 3).Flat 3 ∧ (t.gdt 4).Flat 3) ∧
      CanReturn t.gdt 27 35 :=
  segments_stay 0x100000 0x500 (fun _ => 0x600) firstCalls_inside

end MangoOS
