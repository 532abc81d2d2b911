/-
The bytes of a new task_t: alloc_task, task_init and copy_open_files (kernel/task.c).

kmalloc does not clear what it returns, and copy_open_files skips the slots that are NULL
in the parent.
-/

import MangoOS.Memory.ForkCopy
import Mathlib.Data.List.Count

namespace MangoOS

namespace TaskBytes

/-! ### The layout of task_t and file_t -/

def pidAt : Nat := 4

def nameAt : Nat := 8

def sliceAt : Nat := 40

def cr3At : Nat := 44

def espAt : Nat := 56

def qAt : Nat := 60

def rqAt : Nat := 68

def tssAt : Nat := 76

def openFileTableAt : Nat := 184

/-- The structure and the kernel stack behind it. -/
def taskSize : Nat := 8192

def openMaxFiles : Nat := 128

def refAt : Nat := 28

def fileSize : Nat := 36

/-- `task->open_file_table[fd]`; 0 is NULL. -/
def openFile (mem : ByteMemory) (task fd : Nat) : Nat :=
  mem.word (task + openFileTableAt + 4 * fd)

/-- `file->ref`. -/
def refOf (mem : ByteMemory) (file : Nat) : Nat := mem.word (file + refAt)

/-! ### Operations -/

def kstrcpyLoop : (fuel : Nat) → ByteMemory → (dest src : Nat) → Option ByteMemory
  | 0, _, _, _ => none
  | fuel + 1, mem, dest, src =>
      if mem src ≠ 0#8 then
        kstrcpyLoop fuel (mem.setByte dest (mem src).toNat) (dest + 1) (src + 1)
      else some (mem.setByte dest 0)

def kstrcpy (fuel : Nat) (mem : ByteMemory) (dest src : Nat) : Option ByteMemory :=
  if dest = 0 ∨ src = 0 then some mem else kstrcpyLoop fuel mem dest src

/-- `*(--pesp) = value` for every value. -/
def pushWords : (values : List Nat) → ByteMemory → (pesp : Nat) → ByteMemory
  | [], mem, _ => mem
  | value :: values, mem, pesp => pushWords values (mem.setWord (pesp - 4) value) (pesp - 4)

/-- What `task_init` leaves on the kernel stack for `__switch_to`. -/
def stackWords (entry task : Nat) : List Nat := [entry, 0, 0, 514, 0, 0, 0, 0, 0, 0, task]

/-- `queue_insert_tail`; `prev` is the first word of a `queue_t`, `next` the second. -/
def queueInsertTailAt (mem : ByteMemory) (head q : Nat) : ByteMemory :=
  let mem := mem.setWord (q + 4) head
  let mem := mem.setWord q (mem.word head)
  let mem := mem.setWord (mem.word head + 4) q
  mem.setWord head q

/-- The part of `task_init` between the name and the queues. -/
def fillTask (s : PhysicalMemory) (task entry : Nat) : PhysicalMemory :=
  let mem := s.mem.setWord (task + sliceAt) 10
  let mem := pushWords (stackWords entry task) mem (task + taskSize)
  let pesp := task + taskSize - 4 * (stackWords entry task).length
  let mem := mem.setWord (task + espAt) pesp
  let made := createPde (s.setMem mem)
  let mem := made.2.mem.setWord (task + cr3At) made.1
  let mem := mem.setWord task 0
  let mem := mem.setWord (task + tssAt + 4) pesp
  let mem := mem.setWord (task + tssAt + 8) 16
  made.2.setMem (mem.setWord (task + tssAt + 28) (mem.word (task + cr3At)))

/-- `task_init` with the next `pid`, on the bytes; `idle_task` is kept elsewhere. -/
def taskInit (fuel : Nat) (s : PhysicalMemory) (task name entry pid taskQueue readyTaskQueue : Nat) :
    Option PhysicalMemory :=
  (kstrcpy fuel (s.mem.setWord (task + pidAt) pid) (task + nameAt) name).map fun mem =>
    let s := fillTask (s.setMem mem) task entry
    let mem := queueInsertTailAt s.mem taskQueue (task + qAt)
    s.setMem (queueInsertTailAt mem readyTaskQueue (task + rqAt))

def fileIncRef (mem : ByteMemory) (file : Nat) : ByteMemory :=
  mem.setWord (file + refAt) (refOf mem file + 1)

/-- The loop of `copy_open_files` from slot `fd` on. -/
def copyFilesLoop (parent child : Nat) : (left fd : Nat) → ByteMemory → ByteMemory
  | 0, _, mem => mem
  | left + 1, fd, mem =>
      let file := openFile mem parent fd
      if file ≠ 0 then
        let mem := fileIncRef mem file
        copyFilesLoop parent child left (fd + 1)
          (mem.setWord (child + openFileTableAt + 4 * fd) (openFile mem parent fd))
      else copyFilesLoop parent child left (fd + 1) mem

/-- `copy_open_files`, with `parent` the current task. -/
def copyOpenFiles (mem : ByteMemory) (parent child : Nat) : ByteMemory :=
  copyFilesLoop parent child openMaxFiles 0 mem

/-- `do_fork` from `task_init` to `copy_open_files`, when `alloc_task` has returned `child`. -/
def forkFiles (fuel : Nat) (s : PhysicalMemory) (parent child entry pid taskQueue readyTaskQueue eip
    esp : Nat) : Option ByteMemory :=
  (taskInit fuel s child (parent + nameAt) entry pid taskQueue readyTaskQueue).map fun s =>
    let mem := s.mem.setWord (child + tssAt + 32) eip
    let mem := mem.setWord (child + tssAt + 56) esp
    copyOpenFiles mem parent child

/-! ### What task_init leaves alone -/

section Frame

variable {mem : ByteMemory} {x : Nat}

theorem kstrcpyLoop_frame {dest src len : Nat} (fuel : Nat) (enough : len < fuel)
    (apart : src + len < dest ∨ dest + len < src)
    (ends : mem (src + len) = 0#8) :
    ∃ after, kstrcpyLoop fuel mem dest src = some after ∧
      ∀ x, x < dest ∨ dest + len < x → after x = mem x := by
  induction fuel generalizing mem dest src len with
  | zero => omega
  | succ fuel ih =>
      rw [kstrcpyLoop]
      by_cases more : mem src ≠ 0#8
      · obtain ⟨rest, rfl⟩ : ∃ rest, len = rest + 1 := by
          cases len with
          | zero => exact False.elim (more ends)
          | succ rest => exact ⟨rest, rfl⟩
        rw [if_pos more]
        have still : (mem.setByte dest (mem src).toNat) (src + 1 + rest) = 0#8 := by
          rw [ByteMemory.setByte_other _ _ (by omega), ← ends]
          congr 1
          omega
        obtain ⟨after, copied, frame⟩ := ih (by omega : rest < fuel)
          (by omega : src + 1 + rest < dest + 1 ∨ dest + 1 + rest < src + 1) still
        refine ⟨after, copied, ?_⟩
        intro x outside
        rw [frame x (by omega), ByteMemory.setByte_other _ _ (by omega)]
      · rw [if_neg more]
        refine ⟨_, rfl, ?_⟩
        intro x outside
        exact ByteMemory.setByte_other _ _ (by omega)

theorem pushWords_outside (values : List Nat) (mem : ByteMemory) (pesp : Nat)
    (room : 4 * values.length ≤ pesp) (outside : x < pesp - 4 * values.length ∨ pesp ≤ x) :
    pushWords values mem pesp x = mem x := by
  induction values generalizing mem pesp with
  | nil => rfl
  | cons value values ih =>
      rw [List.length_cons] at room outside
      rw [pushWords, ih _ _ (by omega) (by omega)]
      exact ByteMemory.setWord_other _ _ (by omega)

/-- The links of the new node, of the head and of the node that was the last one. -/
theorem queueInsertTailAt_outside {head q : Nat} (apart : head + 4 ≤ q ∨ q + 8 ≤ head)
    (node : x < q ∨ q + 8 ≤ x) (first : x < head ∨ head + 4 ≤ x)
    (last : x < mem.word head + 4 ∨ mem.word head + 8 ≤ x) :
    queueInsertTailAt mem head q x = mem x := by
  have tail : ((mem.setWord (q + 4) head).setWord q
      ((mem.setWord (q + 4) head).word head)).word head = mem.word head := by
    rw [ByteMemory.word_setWord_other _ _ (by omega), ByteMemory.word_setWord_other _ _ (by omega)]
  unfold queueInsertTailAt
  simp only [tail]
  rw [ByteMemory.setWord_other _ _ (by omega), ByteMemory.setWord_other _ _ (by omega),
    ByteMemory.setWord_other _ _ (by omega), ByteMemory.setWord_other _ _ (by omega)]

theorem createPde_outside {s : PhysicalMemory}
    (outside : s.allocPage.1 = 0 ∨ x < s.allocPage.1 ∨ s.allocPage.1 + 4096 ≤ x)
    (mem : ByteMemory) : (createPde (s.setMem mem)).2.mem x = mem x := by
  have samePage : (s.setMem mem).allocPage.1 = s.allocPage.1 := rfl
  unfold createPde
  by_cases full : s.allocPage.1 = 0
  · simp only [samePage, if_pos full, PhysicalMemory.allocPage_mem, PhysicalMemory.setMem_mem]
  · simp only [samePage, if_neg full, PhysicalMemory.setMem_mem, fillPde]
    rw [createPdeLoop_outside _ _ _ _ (by omega), kmemset_outside _ _ _ _ (by
      rw [Int.toNat_natCast]
      unfold pageSize
      omega)]

/-- The fields in front of the descriptor table, the kernel stack and the new directory. -/
structure Spared (s : PhysicalMemory) (task x : Nat) : Prop where
  fields : x < task ∨ task + openFileTableAt ≤ x
  stack : x < task + taskSize - 44 ∨ task + taskSize ≤ x
  page : s.allocPage.1 = 0 ∨ x < s.allocPage.1 ∨ s.allocPage.1 + 4096 ≤ x

theorem fillTask_spared {s : PhysicalMemory} {task : Nat} (entry : Nat) (spared : Spared s task x) :
    (fillTask s task entry).mem x = s.mem x := by
  have fields := spared.fields
  have stack := spared.stack
  unfold openFileTableAt at fields
  unfold taskSize at stack
  simp only [fillTask, PhysicalMemory.setMem_mem, cr3At, espAt, tssAt, sliceAt, taskSize]
  rw [ByteMemory.setWord_other _ _ (by omega), ByteMemory.setWord_other _ _ (by omega),
    ByteMemory.setWord_other _ _ (by omega), ByteMemory.setWord_other _ _ (by omega),
    ByteMemory.setWord_other _ _ (by omega), createPde_outside spared.page,
    ByteMemory.setWord_other _ _ (by omega),
    pushWords_outside _ _ _ (by change 44 ≤ task + 8192; omega) (by
      change x < task + 8192 - 44 ∨ task + 8192 ≤ x
      omega),
    ByteMemory.setWord_other _ _ (by omega)]

/-- The queues lie apart from the new task, its directory and each other. -/
structure QueuesApart (s : PhysicalMemory) (task taskQueue readyTaskQueue : Nat) : Prop where
  taskHead : ∀ x, taskQueue ≤ x → x < taskQueue + 4 → Spared s task x
  readyHead : ∀ x, readyTaskQueue ≤ x → x < readyTaskQueue + 4 → Spared s task x
  heads : taskQueue + 4 ≤ readyTaskQueue ∨ readyTaskQueue + 4 ≤ taskQueue
  tail : s.mem.word taskQueue + 8 ≤ readyTaskQueue ∨
    readyTaskQueue ≤ s.mem.word taskQueue

/-- A word that is spared lies in front of the fields or behind them. -/
theorem word_apart {s : PhysicalMemory} {task head q : Nat}
    (spared : ∀ x, head ≤ x → x < head + 4 → Spared s task x) (lower : task + 4 ≤ q)
    (upper : q + 8 ≤ task + openFileTableAt) : head + 4 ≤ q ∨ q + 8 ≤ head := by
  have first := (spared head (Nat.le_refl head) (by omega)).fields
  have last := (spared (head + 3) (by omega) (by omega)).fields
  unfold openFileTableAt at first last upper
  omega

/-- A byte of neither the new directory nor the links that the queues change. -/
structure Elsewhere (s : PhysicalMemory) (taskQueue readyTaskQueue x : Nat) : Prop where
  page : s.allocPage.1 = 0 ∨ x < s.allocPage.1 ∨ s.allocPage.1 + 4096 ≤ x
  taskHead : x < taskQueue ∨ taskQueue + 4 ≤ x
  taskTail : x < s.mem.word taskQueue + 4 ∨ s.mem.word taskQueue + 8 ≤ x
  readyHead : x < readyTaskQueue ∨ readyTaskQueue + 4 ≤ x
  readyTail : x < s.mem.word readyTaskQueue + 4 ∨ s.mem.word readyTaskQueue + 8 ≤ x

theorem taskInit_unwritten {s : PhysicalMemory} {task name taskQueue readyTaskQueue len : Nat}
    (fuel entry pid : Nat) (enough : len < fuel) (short : len < 32)
    (apart : name + len < task ∨ task + taskSize ≤ name) (ends : s.mem (name + len) = 0#8)
    (queues : QueuesApart s task taskQueue readyTaskQueue) :
    ∃ after, taskInit fuel s task name entry pid taskQueue readyTaskQueue = some after ∧
      ∀ x, x < task ∨ task + openFileTableAt ≤ x →
        x < task + taskSize - 44 ∨ task + taskSize ≤ x →
        Elsewhere s taskQueue readyTaskQueue x → after.mem x = s.mem x := by
  unfold taskSize at apart
  have still : (s.mem.setWord (task + pidAt) pid) (name + len) = 0#8 := by
    unfold pidAt
    rw [ByteMemory.setWord_other _ _ (by omega), ends]
  have named : ∃ mem, kstrcpy fuel (s.mem.setWord (task + pidAt) pid) (task + nameAt) name =
      some mem ∧ ∀ x, x < task ∨ task + openFileTableAt ≤ x → mem x = s.mem x := by
    unfold kstrcpy
    by_cases missing : task + nameAt = 0 ∨ name = 0
    · rw [if_pos missing]
      refine ⟨_, rfl, ?_⟩
      intro x outside
      unfold pidAt
      unfold openFileTableAt at outside
      exact ByteMemory.setWord_other _ _ (by omega)
    · rw [if_neg missing]
      unfold nameAt
      obtain ⟨mem, copied, frame⟩ :=
        kstrcpyLoop_frame fuel enough (by omega : name + len < task + 8 ∨ task + 8 + len < name)
          still
      refine ⟨mem, copied, ?_⟩
      intro x outside
      unfold openFileTableAt at outside
      rw [frame x (by omega)]
      unfold pidAt
      exact ByteMemory.setWord_other _ _ (by omega)
  obtain ⟨mem, copied, frame⟩ := named
  have filled : ∀ x, Spared s task x → (fillTask (s.setMem mem) task entry).mem x = s.mem x := by
    intro x spared
    have samePage : Spared (s.setMem mem) task x := ⟨spared.fields, spared.stack, spared.page⟩
    rw [fillTask_spared entry samePage]
    exact frame x spared.fields
  generalize isFilled : fillTask (s.setMem mem) task entry = filling at filled
  have firstTail : filling.mem.word taskQueue = s.mem.word taskQueue := by
    apply ByteMemory.word_congr
    intro x lower upper
    exact filled x (queues.taskHead x lower upper)
  have node : ∀ {head : Nat}, (∀ x, head ≤ x → x < head + 4 → Spared s task x) →
      (head + 4 ≤ task + qAt ∨ task + qAt + 8 ≤ head) ∧
        (head + 4 ≤ task + rqAt ∨ task + rqAt + 8 ≤ head) := by
    intro head spared
    constructor
    · exact word_apart spared (by unfold qAt; omega) (by unfold qAt openFileTableAt; omega)
    · exact word_apart spared (by unfold rqAt; omega) (by unfold rqAt openFileTableAt; omega)
  have taskNode := (node queues.taskHead).1
  have readyNodes := node queues.readyHead
  have tail := queues.tail
  have heads := queues.heads
  have secondTail : (queueInsertTailAt filling.mem taskQueue (task + qAt)).word readyTaskQueue =
      s.mem.word readyTaskQueue := by
    apply ByteMemory.word_congr
    intro x lower upper
    rw [queueInsertTailAt_outside taskNode (by omega) (by omega) (by rw [firstTail]; omega)]
    exact filled x (queues.readyHead x lower upper)
  refine ⟨filling.setMem (queueInsertTailAt (queueInsertTailAt filling.mem taskQueue (task + qAt))
    readyTaskQueue (task + rqAt)), ?_, ?_⟩
  · unfold taskInit
    rw [copied, Option.map_some, isFilled]
  · intro x fields stack elsewhere
    have spared : Spared s task x := ⟨fields, stack, elsewhere.page⟩
    have taskTail := elsewhere.taskTail
    have readyTail := elsewhere.readyTail
    unfold openFileTableAt at fields
    rw [PhysicalMemory.setMem_mem, queueInsertTailAt_outside readyNodes.2
        (by unfold rqAt; omega) elsewhere.readyHead (by rw [secondTail]; exact readyTail),
      queueInsertTailAt_outside taskNode (by unfold qAt; omega) elsewhere.taskHead
        (by rw [firstTail]; exact taskTail)]
    exact filled x spared

end Frame

/-! ### copy_open_files -/

section Copy

variable {parent child : Nat} {isFile : Nat → Prop}

/-- The tables of two tasks and the `ref` fields of all files lie apart. -/
structure TablesApart (parent child : Nat) (isFile : Nat → Prop) : Prop where
  tasks : parent + taskSize ≤ child ∨ child + taskSize ≤ parent
  files : ∀ file, isFile file →
    (file + fileSize ≤ parent ∨ parent + taskSize ≤ file) ∧
      (file + fileSize ≤ child ∨ child + taskSize ≤ file)
  distinct : ∀ file other, isFile file → isFile other → file ≠ other →
    file + fileSize ≤ other ∨ other + fileSize ≤ file

/-- How many of the `left` slots from `fd` on point to a file. -/
def pointers (mem : ByteMemory) (task fd left file : Nat) : Nat :=
  (List.range' fd left).countP fun k => openFile mem task k = file

/-- A slot that is not NULL: its file gets a reference and the child its pointer. -/
structure Shared (mem next : ByteMemory) (parent child fd : Nat) (isFile : Nat → Prop) : Prop where
  sources : ∀ k, k < openMaxFiles → openFile next parent k = openFile mem parent k
  targets : ∀ k, k < openMaxFiles → openFile next child k =
    if k = fd then openFile mem parent fd else openFile mem child k
  refs : ∀ file, isFile file → refOf next file =
    (refOf mem file + if openFile mem parent fd = file then 1 else 0) % 4294967296

theorem fileIncRef_openFile {file task k : Nat} (mem : ByteMemory) (small : k < openMaxFiles)
    (apart : file + fileSize ≤ task ∨ task + taskSize ≤ file) :
    openFile (fileIncRef mem file) task k = openFile mem task k := by
  unfold openMaxFiles at small
  unfold fileSize taskSize at apart
  unfold openFile fileIncRef openFileTableAt refAt
  exact ByteMemory.word_setWord_other _ _ (by omega)

theorem shares (apart : TablesApart parent child isFile) (mem : ByteMemory) {fd : Nat}
    (inside : fd < openMaxFiles) (known : isFile (openFile mem parent fd)) :
    Shared mem ((fileIncRef mem (openFile mem parent fd)).setWord
      (child + openFileTableAt + 4 * fd)
      (openFile (fileIncRef mem (openFile mem parent fd)) parent fd)) parent child fd isFile := by
  obtain ⟨fromParent, fromChild⟩ := apart.files _ known
  have tasks := apart.tasks
  have same : ∀ {task k : Nat}, k < openMaxFiles →
      (openFile mem parent fd + fileSize ≤ task ∨ task + taskSize ≤ openFile mem parent fd) →
      openFile (fileIncRef mem (openFile mem parent fd)) task k = openFile mem task k :=
    fun small away => fileIncRef_openFile mem small away
  rw [same inside fromParent]
  refine ⟨?_, ?_, ?_⟩
  · intro k small
    rw [← same small fromParent]
    unfold openFile openFileTableAt
    unfold openMaxFiles at small inside
    unfold taskSize at tasks
    exact ByteMemory.word_setWord_other _ _ (by omega)
  · intro k small
    by_cases first : k = fd
    · rw [if_pos first, first]
      have word := ByteMemory.word_lt mem (parent + openFileTableAt + 4 * fd)
      change ByteMemory.word (ByteMemory.setWord _ (child + openFileTableAt + 4 * fd) _)
        (child + openFileTableAt + 4 * fd) = _
      rw [ByteMemory.word_setWord]
      exact Nat.mod_eq_of_lt word
    · rw [if_neg first, ← same small fromChild]
      exact ByteMemory.word_setWord_other _ _ (by omega)
  · intro file isKnown
    have outside : refOf ((fileIncRef mem (openFile mem parent fd)).setWord
        (child + openFileTableAt + 4 * fd) (openFile mem parent fd)) file =
        refOf (fileIncRef mem (openFile mem parent fd)) file := by
      have away := (apart.files file isKnown).2
      unfold refOf refAt openFileTableAt
      unfold openMaxFiles at inside
      unfold fileSize taskSize at away
      exact ByteMemory.word_setWord_other _ _ (by omega)
    rw [outside]
    by_cases points : openFile mem parent fd = file
    · rw [if_pos points, points]
      exact ByteMemory.word_setWord _ _ _
    · have away := apart.distinct _ _ known isKnown points
      have small : refOf mem file < 4294967296 := ByteMemory.word_lt mem (file + refAt)
      rw [if_neg points, Nat.add_zero, Nat.mod_eq_of_lt small]
      unfold refOf fileIncRef refAt
      unfold fileSize at away
      exact ByteMemory.word_setWord_other _ _ (by omega)

/-- What the loop has done with the slots from `fd` on. -/
structure Copied (mem after : ByteMemory) (parent child fd left : Nat) (isFile : Nat → Prop) :
    Prop where
  sources : ∀ k, k < openMaxFiles → openFile after parent k = openFile mem parent k
  targets : ∀ k, k < openMaxFiles → openFile after child k =
    if (fd ≤ k ∧ k < fd + left) ∧ openFile mem parent k ≠ 0 then openFile mem parent k
    else openFile mem child k
  refs : ∀ file, isFile file →
    refOf after file = (refOf mem file + pointers mem parent fd left file) % 4294967296

theorem pointers_succ (mem : ByteMemory) (task fd left file : Nat) :
    pointers mem task fd (left + 1) file =
      pointers mem task (fd + 1) left file + if openFile mem task fd = file then 1 else 0 := by
  unfold pointers
  rw [List.range'_succ, List.countP_cons]
  simp only [decide_eq_true_eq]

theorem pointers_congr {mem next : ByteMemory} {task fd left file : Nat}
    (inside : fd + left ≤ openMaxFiles)
    (same : ∀ k, k < openMaxFiles → openFile next task k = openFile mem task k) :
    pointers next task fd left file = pointers mem task fd left file := by
  unfold pointers
  apply List.countP_congr
  intro k member
  obtain ⟨lower, upper⟩ := List.mem_range'_1.mp member
  rw [same k (by omega)]

theorem copyFilesLoop_copied (apart : TablesApart parent child isFile) (null : ¬ isFile 0)
    (left fd : Nat)
    (mem : ByteMemory) (inside : fd + left ≤ openMaxFiles)
    (points : ∀ k, k < openMaxFiles → openFile mem parent k ≠ 0 →
      isFile (openFile mem parent k)) :
    Copied mem (copyFilesLoop parent child left fd mem) parent child fd left isFile := by
  induction left generalizing fd mem with
  | zero =>
      refine ⟨fun k _ => rfl, ?_, ?_⟩
      · intro k _
        rw [if_neg (by omega)]
        rfl
      · intro file _
        change refOf mem file = (refOf mem file + 0) % 4294967296
        have small := ByteMemory.word_lt mem (file + refAt)
        unfold refOf
        omega
  | succ left ih =>
      rw [copyFilesLoop]
      by_cases empty : openFile mem parent fd = 0
      · simp only [empty, ne_eq, not_true_eq_false, if_false]
        obtain ⟨sources, targets, refs⟩ := ih (fd + 1) mem (by omega) points
        refine ⟨sources, ?_, ?_⟩
        · intro k small
          rw [targets k small]
          by_cases first : k = fd
          · rw [if_neg (by omega), if_neg (by rw [first]; exact fun both => both.2 empty)]
          · have range : (fd + 1 ≤ k ∧ k < fd + 1 + left) ↔ (fd ≤ k ∧ k < fd + (left + 1)) := by
              omega
            exact if_congr (and_congr range Iff.rfl) rfl rfl
        · intro file known
          have notNull : ¬ openFile mem parent fd = file := by
            rw [empty]
            intro same
            exact null (same ▸ known)
          rw [refs file known, pointers_succ, if_neg notNull]
          rfl
      · simp only [ne_eq, empty, not_false_eq_true, if_true]
        have shared := shares apart mem (by omega) (points fd (by omega) empty)
        generalize (fileIncRef mem (openFile mem parent fd)).setWord
          (child + openFileTableAt + 4 * fd)
          (openFile (fileIncRef mem (openFile mem parent fd)) parent fd) = next at shared ⊢
        obtain ⟨sources, targets, refs⟩ := ih (fd + 1) next (by omega) (by
          intro k small given
          rw [shared.sources k small] at given ⊢
          exact points k small given)
        refine ⟨?_, ?_, ?_⟩
        · intro k small
          rw [sources k small, shared.sources k small]
        · intro k small
          rw [targets k small, shared.targets k small, shared.sources k small]
          by_cases first : k = fd
          · rw [if_neg (by omega), if_pos first, if_pos (by rw [first]; exact ⟨by omega, empty⟩),
              first]
          · have range : (fd + 1 ≤ k ∧ k < fd + 1 + left) ↔ (fd ≤ k ∧ k < fd + (left + 1)) := by
              omega
            rw [if_neg first]
            exact if_congr (and_congr range Iff.rfl) rfl rfl
        · intro file known
          rw [refs file known, shared.refs file known, pointers_succ,
            pointers_congr (by omega) shared.sources]
          omega

end Copy

/-! ### From alloc_task to copy_open_files -/

section Fork

variable {s : PhysicalMemory} {parent child taskQueue readyTaskQueue fuel : Nat}
  {isFile : Nat → Prop}

/-- The objects of a fork lie apart: the memory of the child, the table of the parent, the
files, the new directory and the queues.  The parent points to files. -/
structure ForkApart (s : PhysicalMemory) (parent child taskQueue readyTaskQueue : Nat)
    (isFile : Nat → Prop) : Prop where
  tables : TablesApart parent child isFile
  null : ¬ isFile 0
  points : ∀ fd, fd < openMaxFiles → openFile s.mem parent fd ≠ 0 →
    isFile (openFile s.mem parent fd)
  queues : QueuesApart s child taskQueue readyTaskQueue
  child : ∀ x, child ≤ x → x < child + taskSize → Elsewhere s taskQueue readyTaskQueue x
  parent : ∀ x, parent + openFileTableAt ≤ x → x < parent + openFileTableAt + 4 * openMaxFiles →
    Elsewhere s taskQueue readyTaskQueue x
  files : ∀ file, isFile file → ∀ x, file ≤ x → x < file + fileSize →
    Elsewhere s taskQueue readyTaskQueue x

/-- The child's table is the parent's, and every file has a reference more for every slot of
the parent that points to it. -/
structure Duplicates (mem after : ByteMemory) (parent child : Nat) (isFile : Nat → Prop) :
    Prop where
  slots : ∀ fd, fd < openMaxFiles → openFile after child fd = openFile mem parent fd
  refs : ∀ file, isFile file → refOf after file =
    (refOf mem file + pointers mem parent 0 openMaxFiles file) % 4294967296

/-- What `do_fork` has done to the tables: a slot that is NULL in the parent keeps what the
memory of the child held. -/
theorem forkFiles_copied (apart : ForkApart s parent child taskQueue readyTaskQueue isFile)
    {len : Nat} (short : len < 32) (named : s.mem (parent + nameAt + len) = 0#8)
    (enough : 32 ≤ fuel) (entry pid eip esp : Nat) :
    ∃ after, forkFiles fuel s parent child entry pid taskQueue readyTaskQueue eip esp =
        some after ∧
      (∀ fd, fd < openMaxFiles → openFile after child fd =
        if openFile s.mem parent fd ≠ 0 then openFile s.mem parent fd
        else openFile s.mem child fd) ∧
      ∀ file, isFile file → refOf after file =
        (refOf s.mem file + pointers s.mem parent 0 openMaxFiles file) % 4294967296 := by
  have tasks := apart.tables.tasks
  have away : parent + nameAt + len < child ∨ child + taskSize ≤ parent + nameAt := by
    unfold nameAt
    unfold taskSize at tasks ⊢
    omega
  obtain ⟨begun, init, frame⟩ :=
    taskInit_unwritten fuel entry pid (by omega) short away named apart.queues
  have kept : ∀ x, x < child ∨ child + openFileTableAt ≤ x →
      x < child + taskSize - 44 ∨ child + taskSize ≤ x →
      Elsewhere s taskQueue readyTaskQueue x →
      ((begun.mem.setWord (child + tssAt + 32) eip).setWord (child + tssAt + 56) esp) x =
        s.mem x := by
    intro x fields stack elsewhere
    have early := frame x fields stack elsewhere
    unfold openFileTableAt at fields
    unfold tssAt
    rw [ByteMemory.setWord_other _ _ (by omega), ByteMemory.setWord_other _ _ (by omega), early]
  simp only [forkFiles, copyOpenFiles, init, Option.map_some]
  refine ⟨_, rfl, ?_⟩
  generalize (begun.mem.setWord (child + tssAt + 32) eip).setWord (child + tssAt + 56) esp = mem
    at kept ⊢
  have sameChild : ∀ fd, fd < openMaxFiles → openFile mem child fd = openFile s.mem child fd := by
    intro fd small
    unfold openMaxFiles at small
    apply ByteMemory.word_congr
    intro x lower upper
    have block := apart.child x
    unfold openFileTableAt at lower upper
    unfold openFileTableAt taskSize at *
    exact kept x (by omega) (by omega) (block (by omega) (by omega))
  have sameParent : ∀ fd, fd < openMaxFiles →
      openFile mem parent fd = openFile s.mem parent fd := by
    intro fd small
    apply ByteMemory.word_congr
    intro x lower upper
    have elsewhere := apart.parent x
    unfold openMaxFiles at small elsewhere
    unfold openFileTableAt taskSize at *
    exact kept x (by omega) (by omega) (elsewhere (by omega) (by omega))
  have sameRef : ∀ file, isFile file → refOf mem file = refOf s.mem file := by
    intro file known
    apply ByteMemory.word_congr
    intro x lower upper
    have elsewhere := apart.files file known x
    have outside := (apart.tables.files file known).2
    unfold refAt at lower upper
    unfold fileSize openFileTableAt taskSize at *
    exact kept x (by omega) (by omega) (elsewhere (by omega) (by omega))
  obtain ⟨sources, targets, refs⟩ :=
    copyFilesLoop_copied apart.tables apart.null openMaxFiles 0 mem (by omega) (by
      intro fd small given
      rw [sameParent fd small] at given ⊢
      exact apart.points fd small given)
  constructor
  · intro fd small
    rw [targets fd small, sameParent fd small, sameChild fd small]
    have range : (0 ≤ fd ∧ fd < 0 + openMaxFiles) ∧ openFile s.mem parent fd ≠ 0 ↔
        openFile s.mem parent fd ≠ 0 := ⟨fun both => both.2, fun given => ⟨by omega, given⟩⟩
    exact if_congr range rfl rfl
  · intro file known
    rw [refs file known, sameRef file known, pointers_congr (by omega) sameParent]

/-- The table is duplicated if and only if the memory of the child happens to hold NULL
wherever the table of the parent does. -/
theorem forkFiles_duplicates_iff
    (apart : ForkApart s parent child taskQueue readyTaskQueue isFile)
    {len : Nat} (short : len < 32) (named : s.mem (parent + nameAt + len) = 0#8)
    (enough : 32 ≤ fuel) (entry pid eip esp : Nat) :
    (∃ after, forkFiles fuel s parent child entry pid taskQueue readyTaskQueue eip esp =
        some after ∧ Duplicates s.mem after parent child isFile) ↔
      ∀ fd, fd < openMaxFiles → openFile s.mem parent fd = 0 → openFile s.mem child fd = 0 := by
  obtain ⟨after, returned, slots, refs⟩ :=
    forkFiles_copied apart short named enough entry pid eip esp
  constructor
  · rintro ⟨result, isResult, duplicates⟩ fd small empty
    rw [returned, Option.some.injEq] at isResult
    have copied := slots fd small
    rw [if_neg (not_not.mpr empty), isResult, duplicates.slots fd small, empty] at copied
    exact copied.symm
  · intro clear
    refine ⟨after, returned, ?_, refs⟩
    intro fd small
    rw [slots fd small]
    by_cases empty : openFile s.mem parent fd = 0
    · rw [if_neg (not_not.mpr empty), clear fd small empty, empty]
    · rw [if_pos empty]

end Fork

/-! ### A task with one open file -/

/-- The parent at 65536 has a file at 196608 in its first slot, the queues at 262144 and
262160 are empty; slot 5 of the child's memory at 131072 holds `stale`. -/
def oneOpenFile (stale : BitVec 8) : PhysicalMemory where
  mem := fun x =>
    if x = 65722 then 3 else if x = 131276 then stale
    else if x = 262146 ∨ x = 262150 ∨ x = 262162 ∨ x = 262166 then 4
    else if x = 262160 ∨ x = 262164 then 16 else 0
  pages := (forkSample false 16).pages

theorem oneOpenFile_page (stale : BitVec 8) : (oneOpenFile stale).allocPage.1 = 16384 := by
  have samePage : (oneOpenFile stale).allocPage.1 = (forkSample false 16).allocPage.1 := rfl
  rw [samePage]
  decide +kernel

theorem oneOpenFile_queues (stale : BitVec 8) :
    (oneOpenFile stale).mem.word 262144 = 262144 ∧
      (oneOpenFile stale).mem.word 262160 = 262160 := by
  constructor
  · simp [ByteMemory.word, oneOpenFile]
  · simp [ByteMemory.word, oneOpenFile]

theorem oneOpenFile_first (stale : BitVec 8) :
    openFile (oneOpenFile stale).mem 65536 0 = 196608 := by
  simp [openFile, openFileTableAt, ByteMemory.word, oneOpenFile]

theorem oneOpenFile_byte {stale : BitVec 8} {x : Nat} (first : x ≠ 65722) (slot : x ≠ 131276)
    (low : x < 262146) : (oneOpenFile stale).mem x = 0#8 := by
  unfold oneOpenFile
  simp only [if_neg first, if_neg slot]
  rw [if_neg (by omega), if_neg (by omega)]
  rfl

/-- The files, the tables and the memory of the child lie below the queues. -/
theorem oneOpenFile_elsewhere {stale : BitVec 8} {x : Nat} (lower : 20480 ≤ x) (upper : x < 262144) :
    Elsewhere (oneOpenFile stale) 262144 262160 x := by
  obtain ⟨taskTail, readyTail⟩ := oneOpenFile_queues stale
  have page := oneOpenFile_page stale
  refine ⟨?_, Or.inl upper, ?_, Or.inl (by omega), ?_⟩
  · rw [page]
    exact Or.inr (Or.inr (by omega))
  · rw [taskTail]
    exact Or.inl (by omega)
  · rw [readyTail]
    exact Or.inl (by omega)

theorem oneOpenFile_apart (stale : BitVec 8) :
    ForkApart (oneOpenFile stale) 65536 131072 262144 262160 (fun file => file = 196608) := by
  obtain ⟨taskTail, readyTail⟩ := oneOpenFile_queues stale
  have page := oneOpenFile_page stale
  have head : ∀ x, 262144 ≤ x → Spared (oneOpenFile stale) 131072 x := by
    intro x lower
    refine ⟨?_, ?_, ?_⟩
    · unfold openFileTableAt
      omega
    · unfold taskSize
      omega
    · rw [page]
      exact Or.inr (Or.inr (by omega))
  refine ⟨⟨?_, ?_, ?_⟩, ?_, ?_, ⟨?_, ?_, ?_, ?_⟩, ?_, ?_, ?_⟩
  · decide
  · rintro file rfl
    decide
  · rintro file other rfl rfl different
    exact absurd rfl different
  · decide
  · intro fd small given
    cases fd with
    | zero => exact oneOpenFile_first stale
    | succ fd =>
        unfold openMaxFiles at small
        have null : openFile (oneOpenFile stale).mem 65536 (fd + 1) = 0 := by
          unfold openFile openFileTableAt ByteMemory.word
          rw [oneOpenFile_byte (by omega) (by omega) (by omega),
            oneOpenFile_byte (by omega) (by omega) (by omega),
            oneOpenFile_byte (by omega) (by omega) (by omega),
            oneOpenFile_byte (by omega) (by omega) (by omega)]
          rfl
        exact absurd null given
  · intro x lower upper
    exact head x lower
  · intro x lower upper
    exact head x (by omega)
  · decide
  · rw [taskTail]
    exact Or.inl (by decide)
  · intro x lower upper
    unfold taskSize at upper
    exact oneOpenFile_elsewhere (by omega) (by omega)
  · intro x lower upper
    unfold openFileTableAt openMaxFiles at *
    exact oneOpenFile_elsewhere (by omega) (by omega)
  · rintro file rfl x lower upper
    unfold fileSize at upper
    exact oneOpenFile_elsewhere (by omega) (by omega)

/-- The memory of the child is clear. -/
theorem forkFiles_duplicates_clear :
    (∃ after, forkFiles 32 (oneOpenFile 0) 65536 131072 4096 1 262144 262160 8192 12288 =
        some after ∧ Duplicates (oneOpenFile 0).mem after 65536 131072 fun file => file = 196608) ↔
      ∀ fd, fd < openMaxFiles → openFile (oneOpenFile 0).mem 65536 fd = 0 →
        openFile (oneOpenFile 0).mem 131072 fd = 0 :=
  forkFiles_duplicates_iff (oneOpenFile_apart 0) (by decide : 0 < 32) (by rfl) (by decide) _ _ _ _

/-- It still holds a word in slot 5, which the child takes for an open file. -/
theorem forkFiles_stale :
    ¬ ∀ (s : PhysicalMemory) (parent child taskQueue readyTaskQueue len fuel entry pid eip esp : Nat)
        (isFile : Nat → Prop), ForkApart s parent child taskQueue readyTaskQueue isFile →
      len < 32 → s.mem (parent + nameAt + len) = 0#8 → 32 ≤ fuel →
      ∃ after, forkFiles fuel s parent child entry pid taskQueue readyTaskQueue eip esp =
        some after ∧ Duplicates s.mem after parent child isFile := by
  intro duplicates
  obtain ⟨after, returned, ⟨slots, _⟩⟩ := duplicates (oneOpenFile 1) 65536 131072 262144 262160 0 32
    4096 1 8192 12288 _ (oneOpenFile_apart 1) (by decide) rfl (by decide)
  obtain ⟨result, isResult, copied, _⟩ := forkFiles_copied (oneOpenFile_apart 1)
    (by decide : 0 < 32) rfl (Nat.le_refl 32) 4096 1 8192 12288
  rw [returned, Option.some.injEq] at isResult
  have slot := copied 5 (by decide)
  rw [← isResult, slots 5 (by decide)] at slot
  revert slot
  decide +kernel

end TaskBytes

end MangoOS
