/-
copy_args_envs (kernel/task.c): argv and env on the stack of a new program.

The loops over the two tables test `i` and count `envc` or `argc`; they leave the tables
instead of ending.
-/

import Mathlib.Algebra.Order.Ring.Int
import MangoOS.Memory.UserCopy

namespace MangoOS

/-- How a call stops without a result. -/
inductive Halt
  /-- A table is read or written behind its last entry. -/
  | outOfBounds
  | outOfFuel
  deriving DecidableEq

/-- The entries of `table_arg` and of `table_env`. -/
def argTableSize : Nat := 512

/-- The locals of `copy_args_envs`: where `argc` lies, and what the tables hold before
anything is written to them. -/
structure ArgLocals where
  argc : Nat
  tableArg : Nat → Nat
  tableEnv : Nat → Nat

/-- `kstrlen` with `len` characters counted. -/
def kstrlen (mem : ByteMemory) : (fuel p len : Nat) → Except Halt Nat
  | 0, _, _ => .error .outOfFuel
  | fuel + 1, p, len => if mem p ≠ 0#8 then kstrlen mem fuel (p + 1) (len + 1) else .ok len

/-- What the loops over the strings leave. -/
structure Pushed where
  count : Nat
  mem : ByteMemory
  stackTop : Nat
  table : Nat → Nat

/-- `stack_top -= size`. -/
def lowered (stackTop size : Nat) : Nat := uint32 ((stackTop : Int) - size)

/-- The loop that copies the strings of `vector` to the stack, from string `s.count` on; the
NULL behind the last one goes into the table, too. -/
def pushStrings (newPde vector : Nat) : (fuel : Nat) → Pushed → Except Halt Pushed
  | 0, _ => .error .outOfFuel
  | fuel + 1, s =>
      let string := s.mem.word (vector + 4 * s.count)
      if string ≠ 0 then
        match kstrlen s.mem fuel string 0 with
        | .error halt => .error halt
        | .ok len =>
            let stackTop := lowered s.stackTop (len + 1)
            let mem := (copyToUserN s.mem newPde stackTop string (len + 1)).2.mem
            if s.count < argTableSize then
              pushStrings newPde vector fuel
                { count := s.count + 1
                  mem := mem
                  stackTop := stackTop
                  table := Function.update s.table s.count stackTop }
            else .error .outOfBounds
      else if s.count < argTableSize then
        .ok { s with table := Function.update s.table s.count 0 }
      else .error .outOfBounds

/-- `for (int i=0; i<=envc; envc++)`, and the same with `argc`. -/
def pushTable (newPde : Nat) : (fuel i : Nat) → Pushed → Except Halt Pushed
  | 0, _, _ => .error .outOfFuel
  | fuel + 1, i, s =>
      if i ≤ s.count then
        if s.count < argTableSize then
          let stackTop := lowered s.stackTop 4
          let mem := (copyToUserN s.mem newPde stackTop (s.table s.count) 4).2.mem
          pushTable newPde fuel i
            { s with count := s.count + 1, mem := mem, stackTop := stackTop }
        else .error .outOfBounds
      else .ok s

/-- The last push, of the number of arguments. -/
def pushArgc (locals : ArgLocals) (mem : ByteMemory) (newPde stackTop argc : Nat) :
    Nat × ByteMemory :=
  let stackTop := lowered stackTop 4
  let mem := mem.setWord locals.argc argc
  (stackTop, (copyToUserN mem newPde stackTop locals.argc 4).2.mem)

def copyArgsEnvs (locals : ArgLocals) (fuel : Nat) (mem : ByteMemory) (newPde argv env : Nat) :
    Except Halt (Nat × ByteMemory) :=
  let stackTop := 4294967295
  if argv = 0 then .ok (pushArgc locals mem newPde stackTop 0)
  else do
    let args ← pushStrings newPde argv fuel
      { count := 0, mem := mem, stackTop := stackTop, table := locals.tableArg }
    let envs ← pushStrings newPde env fuel
      { count := 0, mem := args.mem, stackTop := args.stackTop, table := locals.tableEnv }
    let envTable ← pushTable newPde fuel 0 envs
    let argTable ← pushTable newPde fuel 0
      { args with mem := envTable.mem, stackTop := envTable.stackTop }
    .ok (pushArgc locals argTable.mem newPde argTable.stackTop argTable.count)

/-! ### What the program finds on its stack -/

/-- The `uint` at a user address. -/
def userWord (mem : ByteMemory) (pde addr value : Nat) : Prop :=
  ∀ k, k < 4 → ∃ p, translate mem pde (addr + k) = some p ∧
    mem p = BitVec.ofNat 8 (value / 256 ^ k)

/-- A string with its end at a user address. -/
def userString (mem : ByteMemory) (pde addr : Nat) (string : List (BitVec 8)) : Prop :=
  ∀ (k : Nat) (byte : BitVec 8), (string ++ [0#8])[k]? = some byte →
    ∃ p, translate mem pde (addr + k) = some p ∧ mem p = byte

/-- A NULL-terminated table of pointers to the strings at a user address. -/
structure UserTable (mem : ByteMemory) (pde addr : Nat) (pointers : List Nat)
    (strings : List (List (BitVec 8))) : Prop where
  length : pointers.length = strings.length
  entries : ∀ (k value : Nat), (pointers ++ [0])[k]? = some value → userWord mem pde (addr + 4 * k) value
  targets : ∀ (k pointer : Nat) (string : List (BitVec 8)), pointers[k]? = some pointer →
    strings[k]? = some string → userString mem pde pointer string

/-- The ranges of the strings behind a table's pointers. -/
def stringRanges (pointers : List Nat) (strings : List (List (BitVec 8))) : List (Nat × Nat) :=
  List.zipWith (fun pointer string => (pointer, string.length + 1)) pointers strings

/-- The number of arguments, the two tables behind it and the strings, each in its place. -/
structure Decodes (mem : ByteMemory) (pde top : Nat) (args envs : List (List (BitVec 8)))
    (argPointers envPointers : List Nat) : Prop where
  argc : userWord mem pde top args.length
  argTable : UserTable mem pde (top + 4) argPointers args
  envTable : UserTable mem pde (top + 4 + 4 * (args.length + 1)) envPointers envs
  apart : ((top, 4) :: (top + 4, 4 * (args.length + 1)) ::
      (top + 4 + 4 * (args.length + 1), 4 * (envs.length + 1)) ::
      (stringRanges argPointers args ++ stringRanges envPointers envs)).Pairwise
    fun left right => left.1 + left.2 ≤ right.1 ∨ right.1 + right.2 ≤ left.1

/-- `copy_args_envs` returns and its result decodes to the strings. -/
def PassesArguments (locals : ArgLocals) (mem : ByteMemory) (newPde argv env : Nat)
    (args envs : List (List (BitVec 8))) : Prop :=
  ∃ fuel top after argPointers envPointers,
    copyArgsEnvs locals fuel mem newPde argv env = .ok (top, after) ∧
      Decodes after newPde top args envs argPointers envPointers

/-! ### The loops over the tables -/

variable {newPde i : Nat}

theorem pushTable_step {s : Pushed} (more : i ≤ s.count) (inside : s.count < argTableSize)
    (fuel : Nat) :
    ∃ next : Pushed, next.count = s.count + 1 ∧
      pushTable newPde (fuel + 1) i s = pushTable newPde fuel i next := by
  refine ⟨{ s with
    count := s.count + 1
    mem := (copyToUserN s.mem newPde (lowered s.stackTop 4) (s.table s.count) 4).2.mem
    stackTop := lowered s.stackTop 4 }, rfl, ?_⟩
  rw [pushTable, if_pos more, if_pos inside]

theorem pushTable_never (fuel : Nat) (s : Pushed) (more : i ≤ s.count) (after : Pushed) :
    pushTable newPde fuel i s ≠ .ok after := by
  induction fuel generalizing s with
  | zero =>
      intro returned
      cases returned
  | succ fuel ih =>
      by_cases inside : s.count < argTableSize
      · obtain ⟨next, isCount, round⟩ : ∃ next : Pushed, next.count = s.count + 1 ∧
            pushTable newPde (fuel + 1) i s = pushTable newPde fuel i next :=
          pushTable_step more inside fuel
        rw [round]
        exact ih next (by omega)
      · rw [pushTable, if_pos more, if_neg inside]
        intro returned
        cases returned

theorem pushTable_leaves (fuel : Nat) (s : Pushed) (more : i ≤ s.count)
    (enough : argTableSize < s.count + fuel) (inside : s.count ≤ argTableSize) :
    pushTable newPde fuel i s = .error .outOfBounds := by
  induction fuel generalizing s with
  | zero => omega
  | succ fuel ih =>
      by_cases last : s.count < argTableSize
      · obtain ⟨next, isCount, round⟩ : ∃ next : Pushed, next.count = s.count + 1 ∧
            pushTable newPde (fuel + 1) i s = pushTable newPde fuel i next :=
          pushTable_step more last fuel
        rw [round]
        exact ih next (by omega) (by omega) (by omega)
      · rw [pushTable, if_pos more, if_neg last]

/-- The loop over the strings ends with the NULL in the table. -/
theorem pushStrings_count {vector : Nat} (fuel : Nat) (s after : Pushed)
    (pushed : pushStrings newPde vector fuel s = .ok after) : after.count < argTableSize := by
  induction fuel generalizing s with
  | zero => cases pushed
  | succ fuel ih =>
      rw [pushStrings] at pushed
      by_cases more : s.mem.word (vector + 4 * s.count) ≠ 0
      · rw [if_pos more] at pushed
        cases length : kstrlen s.mem fuel (s.mem.word (vector + 4 * s.count)) 0 with
        | error halt =>
            rw [length] at pushed
            cases pushed
        | ok len =>
            rw [length] at pushed
            by_cases inside : s.count < argTableSize
            · simp only [if_pos inside] at pushed
              exact ih _ pushed
            · simp only [if_neg inside] at pushed
              cases pushed
      · rw [if_neg more] at pushed
        by_cases inside : s.count < argTableSize
        · rw [if_pos inside, Except.ok.injEq] at pushed
          rw [← pushed]
          exact inside
        · rw [if_neg inside] at pushed
          cases pushed

section Call

variable {argv : Nat} {locals : ArgLocals} {fuel : Nat} {mem : ByteMemory} {env : Nat}
  {args envs : Pushed}

/-- A call gets as far as the loop over `table_env`, or it stops before. -/
theorem copyArgsEnvs_cases (given : argv ≠ 0) :
    (∃ halt, copyArgsEnvs locals fuel mem newPde argv env = .error halt) ∨
      ∃ args envs envTable,
        pushStrings newPde argv fuel
            { count := 0, mem := mem, stackTop := 4294967295, table := locals.tableArg } =
          .ok args ∧
        pushStrings newPde env fuel
            { count := 0, mem := args.mem, stackTop := args.stackTop, table := locals.tableEnv } =
          .ok envs ∧
        pushTable newPde fuel 0 envs = .ok envTable := by
  unfold copyArgsEnvs
  rw [if_neg given]
  cases pushedArgs : pushStrings newPde argv fuel
      { count := 0, mem := mem, stackTop := 4294967295, table := locals.tableArg } with
  | error halt => exact Or.inl ⟨halt, rfl⟩
  | ok args =>
      cases pushedEnvs : pushStrings newPde env fuel
          { count := 0, mem := args.mem, stackTop := args.stackTop, table := locals.tableEnv } with
      | error halt =>
          left
          refine ⟨halt, ?_⟩
          change (pushStrings newPde env fuel _ >>= _) = _
          rw [pushedEnvs]
          rfl
      | ok envs =>
          cases pushedTable : pushTable newPde fuel 0 envs with
          | error halt =>
              left
              refine ⟨halt, ?_⟩
              change (pushStrings newPde env fuel _ >>= _) = _
              rw [pushedEnvs]
              change (pushTable newPde fuel 0 envs >>= _) = _
              rw [pushedTable]
              rfl
          | ok envTable => exact Or.inr ⟨args, envs, envTable, rfl, pushedEnvs, pushedTable⟩

/-- With the strings on the stack, the call runs over the end of `table_env`. -/
theorem copyArgsEnvs_leaves (given : argv ≠ 0) (enough : argTableSize < fuel)
    (pushedArgs : pushStrings newPde argv fuel
      { count := 0, mem := mem, stackTop := 4294967295, table := locals.tableArg } = .ok args)
    (pushedEnvs : pushStrings newPde env fuel
      { count := 0, mem := args.mem, stackTop := args.stackTop, table := locals.tableEnv } =
        .ok envs) :
    copyArgsEnvs locals fuel mem newPde argv env = .error .outOfBounds := by
  have inside := pushStrings_count fuel _ envs pushedEnvs
  have leaves : pushTable newPde fuel 0 envs = .error .outOfBounds :=
    pushTable_leaves fuel envs (Nat.zero_le _) (by omega) (Nat.le_of_lt inside)
  unfold copyArgsEnvs
  rw [if_neg given, pushedArgs]
  change (pushStrings newPde env fuel _ >>= _) = _
  rw [pushedEnvs]
  change (pushTable newPde fuel 0 envs >>= _) = _
  rw [leaves]
  rfl

end Call

/-- Whatever the strings are, the call does not return. -/
theorem copyArgsEnvs_stays {argv : Nat} (given : argv ≠ 0) (locals : ArgLocals) (fuel : Nat)
    (mem : ByteMemory) (newPde env : Nat) (result : Nat × ByteMemory) :
    copyArgsEnvs locals fuel mem newPde argv env ≠ .ok result := by
  intro returned
  rcases copyArgsEnvs_cases given with ⟨halt, halts⟩ | ⟨args, envs, envTable, _, _, pushed⟩
  · rw [halts] at returned
    cases returned
  · exact pushTable_never fuel envs (Nat.zero_le _) envTable pushed

/-- No call with arguments passes them. -/
theorem passesArguments_never {argv : Nat} (given : argv ≠ 0) (locals : ArgLocals)
    (mem : ByteMemory) (newPde env : Nat) (args envs : List (List (BitVec 8))) :
    ¬ PassesArguments locals mem newPde argv env args envs := by
  rintro ⟨fuel, top, after, argPointers, envPointers, returned, _⟩
  exact copyArgsEnvs_stays given locals fuel mem newPde env (top, after) returned

/-- A NULL-terminated vector of strings. -/
structure StringsAt (mem : ByteMemory) (vector : Nat) (strings : List (List (BitVec 8))) :
    Prop where
  entries : ∀ (k : Nat) (string : List (BitVec 8)), strings[k]? = some string →
    mem.word (vector + 4 * k) ≠ 0 ∧
      ∀ (j : Nat) (byte : BitVec 8), (string ++ [0#8])[j]? = some byte →
        mem (mem.word (vector + 4 * k) + j) = byte ∧ (byte = 0#8 ↔ j = string.length)
  last : mem.word (vector + 4 * strings.length) = 0

/-- The bytes the arguments take on the new stack. -/
def argsSize (args envs : List (List (BitVec 8))) : Nat :=
  4 + 4 * (args.length + 1) + 4 * (envs.length + 1) +
    ((args ++ envs).map fun string => string.length + 1).sum

/-- A directory at 4096 whose table at 12288 maps the last page to 20480. -/
def lastPageMapped : ByteMemory := fun x =>
  if x = 8188 then 0x07 else if x = 8189 then 0x30
  else if x = 16380 then 0x07 else if x = 16381 then 0x50 else 0

/-- Tables of NULL pointers. -/
def clearLocals : ArgLocals where
  argc := 28672
  tableArg := fun _ => 0
  tableEnv := fun _ => 0

theorem passesArguments_never_empty :
    ¬ PassesArguments clearLocals lastPageMapped 4096 24576 24580 [] [] :=
  passesArguments_never (by decide) clearLocals lastPageMapped 4096 24580 [] []

/-- Not even empty vectors are passed. -/
theorem copyArgsEnvs_empty :
    ¬ ∀ (locals : ArgLocals) (mem : ByteMemory) (newPde argv env : Nat)
        (args envs : List (List (BitVec 8))), argv ≠ 0 → env ≠ 0 → StringsAt mem argv args →
      StringsAt mem env envs → args.length < 512 → envs.length < 512 →
      RangeMapped mem newPde (4294967295 - argsSize args envs) (argsSize args envs) →
      PassesArguments locals mem newPde argv env args envs := by
  intro passes
  have nothing : ∀ (k : Nat) (string : List (BitVec 8)),
      ([] : List (List (BitVec 8)))[k]? ≠ some string := by
    intro k string found
    cases found
  have mapped : RangeMapped lastPageMapped 4096 (4294967295 - argsSize [] []) (argsSize [] []) :=
    ⟨by decide, by decide +kernel⟩
  obtain ⟨fuel, top, after, argPointers, envPointers, returned, _⟩ :=
    passes clearLocals lastPageMapped 4096 24576 24580 [] [] (by decide)
      (by decide) ⟨fun k string found => absurd found (nothing k string), by decide⟩
      ⟨fun k string found => absurd found (nothing k string), by decide⟩
      (by decide) (by decide) mapped
  exact copyArgsEnvs_stays (by decide) _ fuel lastPageMapped 4096 24580 (top, after) returned

end MangoOS
