/-
do_fork (kernel/task.c) on the kernel, the descriptor tables, the heap and the page
tables together.

The bytes of the heap are kept apart from those of the pages: a chunk of the heap and a
page of an address space never share a byte.  The new task_t keeps in its descriptor
table whatever its memory held.
-/

import MangoOS.Kernel.Reachable
import MangoOS.FileSystem.FileTable
import MangoOS.Memory.ForkCopy
import MangoOS.Memory.HeapState

namespace MangoOS

open PhysicalMemory Intrusive

/-- `cr3 t` is the directory of the task at address `t`. -/
structure ForkState where
  kernel : Kernel
  files : FileTable
  heap : Heap
  memory : PhysicalMemory
  cr3 : Nat → Nat

namespace ForkState

/-- `alloc_task`, which may ask `alloc_pages(8)` for a new chunk. -/
def allocTask (fuel : Nat) (s : ForkState) : Option (Nat × ForkState) :=
  let chunk := allocPages s.memory.pages 8
  (s.heap.kmalloc fuel (2 * pageSize) chunk.1).map fun result =>
    (result.payload,
      { s with
        heap := result.heap
        memory := if result.asked then ⟨s.memory.mem, chunk.2⟩ else s.memory })

/-- `task_init`: the task gets a directory and goes on both queues. -/
def taskInit (s : ForkState) (t : Nat) (entry : UInt32) : ForkState :=
  let made := createPde s.memory
  { s with
    kernel := s.kernel.taskInit t entry
    memory := made.2
    cr3 := Function.update s.cr3 t made.1 }

def copyOpenFiles (s : ForkState) (child : Nat) : ForkState :=
  { s with files := s.files.copyOpenFiles s.kernel.current child (s.files.table child) }

/-- The end of `do_fork`, given what `copy_memory` did. -/
def forkReturn (s : ForkState) (child : Nat) (copied : Int × PhysicalMemory) : Int × ForkState :=
  if copied.1 < 0 then
    (-1, { s with memory := copied.2, kernel := s.kernel.setState child .zombie })
  else
    ((((s.kernel.setState child .running).task child).pid : Int),
      { s with memory := copied.2, kernel := s.kernel.setState child .running })

/-- The state in which `do_fork` calls `copy_memory`. -/
def prepared (s : ForkState) (child : Nat) (eip : UInt32) : ForkState :=
  (s.taskInit child eip).copyOpenFiles child

/-- What `do_fork` does with the answer of `alloc_task`: the test `child < 0` is never true
of a pointer, so that NULL is taken for a task. -/
def forkInto (s : ForkState) (child : Nat) (eip : UInt32) : Int × ForkState :=
  (s.prepared child eip).forkReturn child
    (copyMemory (s.prepared child eip).memory
      ((s.prepared child eip).cr3 (s.prepared child eip).kernel.current)
      ((s.prepared child eip).cr3 child))

def doFork (fuel : Nat) (s : ForkState) (eip : UInt32) : Option (Int × ForkState) :=
  (s.allocTask fuel).map fun (child, s) => s.forkInto child eip

/-- The child is ready and has a directory with a complete copy of the parent's memory. -/
structure Forked (s : ForkState) (tasks : List Nat) (child : Nat) (out : Int × ForkState) :
    Prop where
  nonnull : child ≠ 0
  pid : out.1 = (out.2.kernel.task child).pid
  ready : ∃ place, Represents out.2.kernel.links place (tasks ++ [child]) ∧
    child ∈ place.on .ready
  directory : out.2.cr3 child ≠ 0
  copy : CompleteCopy s.memory.mem out.2.memory.mem (s.cr3 s.kernel.current) (out.2.cr3 child)

/-- The call failed and left no trace. -/
structure Undone (s : ForkState) (place : Placement Queue Nat) (tasks : List Nat)
    (out : Int × ForkState) : Prop where
  failed : out.1 = -1
  queues : Represents out.2.kernel.links place tasks
  refs : out.2.files.ref = s.files.ref
  pages : ∀ p, out.2.memory.Used p → s.memory.Used p

/-- All or nothing, seen from the state in which alloc_task has answered. -/
def AllOrNothing (s : ForkState) (place : Placement Queue Nat) (tasks : List Nat) (child : Nat)
    (out : Int × ForkState) : Prop :=
  s.Forked tasks child out ∨ s.Undone place tasks out

/-- The pages a fork of the current task needs: the directory, the tables and the frames. -/
def pagesNeeded (s : ForkState) : Nat :=
  1 + copyAllocations s.memory.mem (s.cr3 s.kernel.current)

/-- A current task with an address space; the new task_t is not among the tasks. -/
structure CanFork (s : ForkState) (place : Placement Queue Nat) (tasks : List Nat)
    (child : Nat) : Prop where
  parent : ParentReady s.memory (s.cr3 s.kernel.current)
  rep : Represents s.kernel.links place tasks
  current : s.kernel.current ∈ tasks
  fresh : child ∉ tasks
  unplaced : ¬ place.Placed child

variable {s begun : ForkState} {place : Placement Queue Nat} {tasks : List Nat} {child : Nat}

theorem taskInit_links (k : Kernel) (t : Nat) (entry : UInt32) :
    (k.taskInit t entry).links =
      queueInsertTail (queueInsertTail k.links .taskQueue (.q t)) (.head .ready) (.rq t) := by
  unfold Kernel.taskInit
  split <;> rfl

theorem forkReturn_failed (s : ForkState) (child : Nat) {copied : Int × PhysicalMemory}
    (negative : copied.1 < 0) :
    s.forkReturn child copied =
      (-1, { s with memory := copied.2, kernel := s.kernel.setState child .zombie }) :=
  if_pos negative

theorem forkReturn_done (s : ForkState) (child : Nat) {copied : Int × PhysicalMemory}
    (nonnegative : ¬ copied.1 < 0) :
    s.forkReturn child copied =
      ((((s.kernel.setState child .running).task child).pid : Int),
        { s with memory := copied.2, kernel := s.kernel.setState child .running }) :=
  if_neg nonnegative

theorem forkReturn_links (s : ForkState) (child : Nat) (copied : Int × PhysicalMemory) :
    (s.forkReturn child copied).2.kernel.links = s.kernel.links := by
  by_cases negative : copied.1 < 0
  · rw [forkReturn_failed s child negative]
    rfl
  · rw [forkReturn_done s child negative]
    rfl

theorem forkReturn_cr3 (s : ForkState) (child : Nat) (copied : Int × PhysicalMemory) :
    (s.forkReturn child copied).2.cr3 = s.cr3 := by
  by_cases negative : copied.1 < 0
  · rw [forkReturn_failed s child negative]
  · rw [forkReturn_done s child negative]

theorem forkReturn_memory (s : ForkState) (child : Nat) (copied : Int × PhysicalMemory) :
    (s.forkReturn child copied).2.memory = copied.2 := by
  by_cases negative : copied.1 < 0
  · rw [forkReturn_failed s child negative]
  · rw [forkReturn_done s child negative]

theorem prepared_links (s : ForkState) (child : Nat) (eip : UInt32) :
    (s.prepared child eip).kernel.links = (s.kernel.taskInit child eip).links := rfl

theorem prepared_memory (s : ForkState) (child : Nat) (eip : UInt32) :
    (s.prepared child eip).memory = (createPde s.memory).2 := rfl

theorem prepared_child (s : ForkState) (child : Nat) (eip : UInt32) :
    (s.prepared child eip).cr3 child = (createPde s.memory).1 := Function.update_self ..

theorem prepared_parent (s : ForkState) {child : Nat} (different : s.kernel.current ≠ child)
    (eip : UInt32) :
    (s.prepared child eip).cr3 (s.prepared child eip).kernel.current = s.cr3 s.kernel.current := by
  have current : (s.prepared child eip).kernel.current = s.kernel.current :=
    taskInit_current s.kernel child eip
  rw [current]
  exact Function.update_of_ne different ..

theorem CanFork.queued (can : s.CanFork place tasks child) (eip : UInt32) :
    Represents (s.forkInto child eip).2.kernel.links (place.append .ready child can.unplaced)
      (tasks ++ [child]) := by
  unfold forkInto
  rw [forkReturn_links, prepared_links, taskInit_links]
  exact (can.rep.register can.fresh).append can.unplaced .ready

theorem CanFork.forkInto_eq (can : s.CanFork place tasks child) (eip : UInt32) :
    s.forkInto child eip = (s.prepared child eip).forkReturn child
      (copyMemory (createPde s.memory).2 (s.cr3 s.kernel.current) (createPde s.memory).1) := by
  have different : s.kernel.current ≠ child := fun same => can.fresh (same ▸ can.current)
  unfold forkInto
  rw [prepared_memory, prepared_child, prepared_parent s different]

theorem copyMemory_result (m : PhysicalMemory) (ppde pde : Nat) :
    (copyMemory m ppde pde).1 = 0 ∨ (copyMemory m ppde pde).1 = -1 := by
  unfold copyMemory
  by_cases complete : (copyMemoryLoop m ppde pde userStartIndex (1024 - userStartIndex)).1 = true
  · rw [if_pos complete]
    exact Or.inl rfl
  · rw [if_neg complete]
    exact Or.inr rfl

theorem CanFork.not_undone (can : s.CanFork place tasks child) (eip : UInt32) :
    ¬ s.Undone place tasks (s.forkInto child eip) := by
  intro undone
  have same := undone.queues.tasks_eq (can.queued eip)
  have longer := congrArg List.length same
  rw [List.length_append, List.length_singleton] at longer
  omega

theorem supplied_pagesNeeded (s : ForkState) :
    Supplied s.memory.pages s.pagesNeeded ↔
      s.memory.allocPage.1 ≠ 0 ∧ Supplied (allocPages s.memory.pages 1).2
        (copyAllocations s.memory.mem (s.cr3 s.kernel.current)) := by
  unfold pagesNeeded
  rw [Nat.add_comm, supplied_succ, allocPage_addr]

theorem CanFork.forked (can : s.CanFork place tasks child) (eip : UInt32) (nonnull : child ≠ 0)
    (supplied : Supplied s.memory.pages s.pagesNeeded) :
    s.Forked tasks child (s.forkInto child eip) := by
  rw [supplied_pagesNeeded] at supplied
  obtain ⟨c, made⟩ := createPde_made can.parent.booted supplied.1
  have done := (can.parent.fork_done made).mpr supplied.2
  have complete := can.parent.fork_complete made done
  have queued := can.queued eip
  rw [can.forkInto_eq eip] at queued ⊢
  constructor
  · exact nonnull
  · rw [forkReturn_done _ _ (by rw [done]; decide)]
  · exact ⟨_, queued, (place.mem_append .ready .ready child child can.unplaced).mpr
      (Or.inr ⟨rfl, rfl⟩)⟩
  · rw [forkReturn_cr3, prepared_child]
    exact made.addr_ne
  · rw [forkReturn_cr3, prepared_child, forkReturn_memory]
    exact complete

theorem CanFork.of_forked (can : s.CanFork place tasks child) (eip : UInt32)
    (forked : s.Forked tasks child (s.forkInto child eip)) :
    child ≠ 0 ∧ Supplied s.memory.pages s.pagesNeeded := by
  refine ⟨forked.nonnull, ?_⟩
  have directory := forked.directory
  have pid := forked.pid
  rw [can.forkInto_eq eip] at directory pid
  rw [forkReturn_cr3, prepared_child] at directory
  rcases createPde_cases can.parent.booted with failed | ⟨c, made⟩
  · rw [failed] at directory
    exact False.elim (directory rfl)
  · rw [supplied_pagesNeeded]
    refine ⟨made.took.addr_ne, (can.parent.fork_done made).mp ?_⟩
    rcases copyMemory_result (createPde s.memory).2 (s.cr3 s.kernel.current)
        (createPde s.memory).1 with done | failed
    · exact done
    · rw [forkReturn_failed _ _ (by rw [failed]; decide)] at pid
      exact False.elim (by omega)

/-- alloc_task leaves the parent as it is. -/
structure Begun (s begun : ForkState) : Prop where
  kernel : begun.kernel = s.kernel
  cr3 : begun.cr3 = s.cr3
  memory : begun.memory = s.memory ∨
    begun.memory = ⟨s.memory.mem, (allocPages s.memory.pages 8).2⟩

theorem allocTask_some {fuel : Nat} {result : Heap.Kmalloc}
    (called : s.heap.kmalloc fuel (2 * pageSize) (allocPages s.memory.pages 8).1 = some result) :
    s.allocTask fuel = some (result.payload,
      { s with
        heap := result.heap
        memory := if result.asked then ⟨s.memory.mem, (allocPages s.memory.pages 8).2⟩
          else s.memory }) := by
  simp only [allocTask, called, Option.map_some]

theorem allocTask_begun {fuel : Nat} (allocated : s.allocTask fuel = some (child, begun)) :
    s.Begun begun := by
  obtain ⟨result, _, isResult⟩ := Option.map_eq_some_iff.mp allocated
  cases isResult
  refine ⟨rfl, rfl, ?_⟩
  change (if result.asked then _ else _) = _ ∨ (if result.asked then _ else _) = _
  split
  · exact Or.inr rfl
  · exact Or.inl rfl

theorem Begun.canFork (started : s.Begun begun) (can : s.CanFork place tasks child) :
    begun.CanFork place tasks child := by
  have grows : Grows (fun _ => False) s.memory begun.memory := by
    rcases started.memory with same | asked
    · rw [same]
      exact Grows.refl _ _
    · rw [asked]
      exact Grows.alloc _ can.parent.booted (by omega : 1 ≤ 8) rfl rfl
  have parent := (can.parent.grow grows (fun _ _ impossible => impossible)).1
  constructor
  · rw [started.kernel, started.cr3]
    exact parent
  · rw [started.kernel]
    exact can.rep
  · rw [started.kernel]
    exact can.current
  · exact can.fresh
  · exact can.unplaced

theorem allocTask_ends {chunks free : List Nat} {blocks : Set Nat}
    (well : s.heap.WellFormed chunks blocks free) :
    ∃ fuel child begun, s.allocTask fuel = some (child, begun) := by
  have limit : 2 * pageSize + memHsize ≤ chunkSize := by decide
  have enough : free.length < free.length + 1 := Nat.lt_succ_self _
  rcases Heap.kmalloc_spec well limit (allocPages s.memory.pages 8).1 enough with
    ⟨a, after, _, _, _, _, found, _, _⟩ | ⟨_, missed⟩
  · exact ⟨_, _, _, allocTask_some found⟩
  · by_cases full : (allocPages s.memory.pages 8).1 = 0
    · rw [if_pos full] at missed
      exact ⟨_, _, _, allocTask_some missed⟩
    · rw [if_neg full] at missed
      exact ⟨_, _, _, allocTask_some missed⟩

/-- do_fork is all or nothing exactly when alloc_task finds a block and there is a page for
the directory, for each table and for each frame. -/
theorem doFork_allOrNothing_iff (s begun : ForkState) (fuel child : Nat) (eip : UInt32)
    (place : Placement Queue Nat) (tasks : List Nat)
    (allocated : s.allocTask fuel = some (child, begun)) (can : s.CanFork place tasks child) :
    ∃ out, s.doFork fuel eip = some out ∧
      (begun.AllOrNothing place tasks child out ↔
        child ≠ 0 ∧ Supplied begun.memory.pages begun.pagesNeeded) := by
  have canBegun := (allocTask_begun allocated).canFork can
  refine ⟨begun.forkInto child eip, ?_, ?_⟩
  · unfold doFork
    rw [allocated]
    rfl
  · constructor
    · rintro (forked | undone)
      · exact canBegun.of_forked eip forked
      · exact False.elim (canBegun.not_undone eip undone)
    · rintro ⟨nonnull, supplied⟩
      exact Or.inl (canBegun.forked eip nonnull supplied)

/-! ### One task that forks -/

/-- The task at 4096 runs, with one page of user memory; `nbits` pages of memory. -/
def sample (nbits : Int) : ForkState where
  kernel := { Boot.zeroed.memory.taskInit 4096 4096 with current := 4096 }
  files := { ref := fun _ => 0, tasks := {4096}, table := fun _ _ => none }
  heap := Heap.zeroed.memInit 65536
  memory := forkSample false nbits
  cr3 := fun _ => 4096

theorem sample_canFork {nbits : Int} (small : nbits ≤ 16) :
    ∃ place, (sample nbits).CanFork place [4096] 65553 := by
  have empty : Represents Boot.zeroed.memory.links (Placement.empty Queue Nat) [] := by
    constructor
    · intro queue
      exact (Ring.nil_iff _ _).mpr ⟨rfl, rfl⟩
    · exact (Ring.nil_iff _ _).mpr ⟨rfl, rfl⟩
  have unplaced : ¬ (Placement.empty Queue Nat).Placed 4096 := by
    rintro ⟨queue, member⟩
    cases member
  refine ⟨(Placement.empty Queue Nat).append .ready 4096 unplaced, ?_, ?_, ?_, ?_, ?_⟩
  · exact forkSample_ready false small
  · change Represents (Boot.zeroed.memory.taskInit 4096 4096).links _ ([] ++ [4096])
    rw [taskInit_links]
    exact (empty.register (by decide)).append unplaced .ready
  · exact List.mem_singleton_self 4096
  · decide
  · rintro ⟨queue, member⟩
    rcases (Placement.mem_append _ _ _ _ _ _).mp member with old | ⟨_, same⟩
    · cases old
    · omega

theorem sample_allocated {nbits : Int} (sizes : nbits = 16 ∨ nbits = 5) :
    ∃ begun, (sample nbits).allocTask 1 = some (65553, begun) ∧ (sample nbits).Begun begun ∧
      begun.memory = (sample nbits).memory := by
  have called : ((sample nbits).heap.kmalloc 1 (2 * pageSize)
      (allocPages (sample nbits).memory.pages 8).1).map
        (fun result => (result.payload, result.asked)) = some (65553, false) := by
    rcases sizes with rfl | rfl
    · decide +kernel
    · decide +kernel
  obtain ⟨result, found, parts⟩ := Option.map_eq_some_iff.mp called
  have payload : result.payload = 65553 := congrArg Prod.fst parts
  have asked : result.asked = false := congrArg Prod.snd parts
  have allocated := allocTask_some found
  rw [payload, asked] at allocated
  exact ⟨_, allocated, allocTask_begun allocated, rfl⟩

theorem doFork_allOrNothing_sixteen :
    ∃ place, ∃ begun : ForkState, ∃ out, (sample 16).doFork 1 8192 = some out ∧
      (begun.AllOrNothing place [4096] 65553 out ↔
        65553 ≠ 0 ∧ Supplied begun.memory.pages begun.pagesNeeded) := by
  obtain ⟨place, can⟩ := sample_canFork (Int.le_refl 16)
  obtain ⟨begun, allocated, _⟩ := sample_allocated (Or.inl rfl)
  obtain ⟨out, forked, exactly⟩ :=
    doFork_allOrNothing_iff (sample 16) begun 1 65553 8192 place [4096] allocated can
  exact ⟨place, begun, out, forked, exactly⟩

/-- There is a page for the child's directory but none for its table: do_fork answers -1
with the child on the ready queue. -/
theorem doFork_outOfPages :
    ∃ place, ∃ begun : ForkState, ∃ out, (sample 5).CanFork place [4096] 65553 ∧
      (sample 5).allocTask 1 = some (65553, begun) ∧ (sample 5).doFork 1 8192 = some out ∧
      ¬ begun.AllOrNothing place [4096] 65553 out := by
  obtain ⟨place, can⟩ := sample_canFork (by decide : (5 : Int) ≤ 16)
  obtain ⟨begun, allocated, started, memory⟩ := sample_allocated (Or.inr rfl)
  have canBegun := started.canFork can
  have called : (sample 5).doFork 1 8192 = some (begun.forkInto 65553 8192) := by
    unfold doFork
    rw [allocated]
    rfl
  refine ⟨place, begun, _, can, allocated, called, ?_⟩
  rintro (forked | undone)
  · have supplied := (canBegun.of_forked 8192 forked).2
    have needed : begun.pagesNeeded = 3 := by
      unfold pagesNeeded
      rw [memory, started.cr3, started.kernel]
      change 1 + copyAllocations (forkMemory false) 4096 = 3
      rw [forkMemory_allocations]
    rw [needed, memory] at supplied
    have second : (allocPages (allocPages (sample 5).memory.pages 1).2 1).1 = 0 := by decide +kernel
    exact supplied.2.1 second
  · exact canBegun.not_undone 8192 undone

end ForkState

end MangoOS
