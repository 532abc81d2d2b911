/-
`load_kernel` of boot/loader.S with `read_blocks`, `read_disk` and `read_sec`.

The loader, its data and its stack lie below 0x10000.  A transfer over them, or a division that
faults, has no result.  The wait for the drive is left out.
-/

import MangoOS.Boot.DirSearch
import MangoOS.Device.DiskCommand
import MangoOS.Library.Overlay
import MangoOS.Memory.BootPaging

namespace MangoOS

namespace Boot

/-- What the data port yields after the command for a sector: its 512 bytes, then anything. -/
abbrev Sectors := Nat → ByteMemory

/-- The memory and the drive, and the variables of `load_kernel`. -/
structure Loader where
  mem : ByteMemory
  drive : DiskCommand.Drive
  blockSize : Nat
  inodeSize : Nat
  sectorNum : Nat
  startBlock : Nat
  partStart : Nat

/-- Addresses that are not the loader's. -/
def Loadable (edi count : Nat) : Prop := 0x10000 ≤ edi ∧ edi + count ≤ segment32

instance (edi count : Nat) : Decidable (Loadable edi count) := inferInstanceAs (Decidable (_ ∧ _))

/-- `div` of `dx:ax` by a word: quotient and remainder. -/
def div16 (dx ax bx : Nat) : Option (Nat × Nat) :=
  let dividend := 65536 * dx + ax
  if bx = 0 ∨ 65536 ≤ dividend / bx then none else some (dividend / bx, dividend % bx)

def signed16 (word : Nat) : Int := if word < 32768 then word else word - 65536

/-- `dx` and `ax` after `imul` of `ax` by a word. -/
def imul16 (ax word : Nat) : Nat × Nat :=
  let product := (signed16 ax * signed16 word % 4294967296).toNat
  (product / 65536, product % 65536)

/-! ### Sectors -/

def readSecWrites (ebx : Nat) : List DiskCommand.PortWrite :=
  [ ⟨0x1F6, 0xE0⟩,
    ⟨0x1F2, 0⟩,
    ⟨0x1F3, ebx / 2 ^ 24 % 256⟩,
    ⟨0x1F4, 0⟩,
    ⟨0x1F5, 0⟩,
    ⟨0x1F2, 1⟩,
    ⟨0x1F3, ebx % 256⟩,
    ⟨0x1F4, ebx / 2 ^ 8 % 256⟩,
    ⟨0x1F5, ebx / 2 ^ 16 % 256⟩,
    ⟨0x1F7, 0x24⟩ ]

/-- `read_data` from word `n` on. -/
def readData (data : ByteMemory) : (rounds n edi : Nat) → ByteMemory → ByteMemory
  | 0, _, _, mem => mem
  | rounds + 1, n, edi, mem =>
      readData data rounds (n + 1) (edi + 2)
        ((mem.setByte edi (data (2 * n)).toNat).setByte (edi + 1) (data (2 * n + 1)).toNat)

/-- Only `cx` is set to 256. -/
def readSec (sectors : Sectors) (s : Loader) (ecx ebx edi : Nat) : Option Loader :=
  let drive := (readSecWrites ebx).foldl DiskCommand.Drive.outb s.drive
  let rounds := setLow 65536 ecx 256
  drive.commands.getLast?.bind fun command =>
    if Loadable edi (2 * rounds) then
      some { s with mem := readData (sectors command.start) rounds 0 edi s.mem, drive := drive }
    else none

/-- `read` with its rounds. -/
def readLoop (sectors : Sectors) : (rounds : Nat) → Loader → (ecx ebx edi : Nat) → Option Loader
  | 0, s, _, _, _ => some s
  | rounds + 1, s, ecx, ebx, edi =>
      (readSec sectors s ecx ebx edi).bind fun s =>
        readLoop sectors rounds s (uint32 (ecx - 1)) (uint32 (ebx + 1)) (uint32 (edi + 512))

def readDisk (sectors : Sectors) (s : Loader) (ecx ebx edi : Nat) : Option Loader :=
  readLoop sectors (loopCount ecx) s ecx (uint32 (ebx + s.partStart)) edi

/-! ### Inodes -/

/-- The block and the item of inode `ax` in the table: the remainder of the first `div` stays in
`dx`. -/
def inodeItem (s : Loader) (ax : Nat) : Option (Nat × Nat) :=
  (div16 0 s.blockSize s.inodeSize).bind fun (perBlock, dx) =>
    div16 dx ((ax + 65535) % 65536) perBlock

/-- The first sector of block `ax` of the table: the carry of `add` is lost. -/
def tableSector (s : Loader) (ax : Nat) : Nat :=
  let (dx, ax) := imul16 ax s.sectorNum
  65536 * dx + (ax + s.startBlock) % 65536

/-- The rest of `read_blocks` with a block of the table in memory. -/
def readContent (sectors : Sectors) (s : Loader) (ecx item : Nat) : Option Loader :=
  let (dx, ax) := imul16 s.inodeSize item
  let edi := uint32 (0x20000 + (65536 * dx + ax : Nat))
  let cx := wordAt segment32 s.mem (edi + 0x1c)
  let (dx, ax) := imul16 (wordAt segment32 s.mem (edi + 0x28)) s.sectorNum
  readDisk sectors s (setLow 65536 ecx cx) (65536 * dx + ax) 0x20000

def readBlocks (sectors : Sectors) (s : Loader) (ecx ax : Nat) : Option Loader :=
  (inodeItem s (ax % 65536)).bind fun (block, item) =>
    let ecx := setLow 65536 ecx s.sectorNum
    (readDisk sectors s ecx (tableSector s block) 0x20000).bind fun s =>
      readContent sectors s ecx item

/-! ### The kernel -/

/-- `load_kernel` with the superblock, and what it leaves in `ecx`. -/
def loadSuper (sectors : Sectors) (s : Loader) (ecx : Nat) : Option (Loader × Nat) :=
  let ecx := setLow 65536 ecx 1
  (readDisk sectors s ecx 2 0x20000).bind fun s =>
    let cl := byteAt segment32 s.mem 0x20018
    some ({ s with
      blockSize := 1024 * 2 ^ (cl % 32) % 65536
      sectorNum := setLow 256 s.sectorNum (cl * 4 % 256)
      inodeSize := wordAt segment32 s.mem 0x20058 }, setLow 256 ecx (cl * 4 % 256))

/-- `load_kernel` with the group descriptors. -/
def loadGroup (sectors : Sectors) (s : Loader) (ecx : Nat) : Option Loader :=
  (readDisk sectors s ecx ecx 0x20000).bind fun s =>
    some { s with
      startBlock := (imul16 (wordAt segment32 s.mem 0x20008) (ecx % 65536)).2 }

/-- `find_inode` and `read_blocks`, which are called twice, and whether the name was found.  Where
it was, `compare` has counted `ecx` down to 0. -/
def readNamed (sectors : Sectors) (fuel : Nat) (s : Loader) (length name : Nat) :
    Option (Loader × Bool) :=
  (findInode32 fuel s.mem length name).bind fun eax =>
    if eax = 0 then some (s, false)
    else (readBlocks sectors s 0 eax).bind fun s => some (s, true)

/-- `load_kernel`, and whether it came to its end without `load_fail`. -/
def loadKernel (sectors : Sectors) (fuel : Nat) (s : Loader) (ecx dirName fileName : Nat) :
    Option (Loader × Bool) :=
  (loadSuper sectors s ecx).bind fun (s, ecx) =>
    (loadGroup sectors s ecx).bind fun s =>
      (readBlocks sectors s ecx 2).bind fun s =>
        (readNamed sectors fuel s 4 dirName).bind fun (s, found) =>
          if found then readNamed sectors fuel s 6 fileName else some (s, false)

/-! ### A transfer -/

theorem readSecWrites_eq (ebx : Nat) :
    readSecWrites ebx = DiskCommand.sendCmd ebx 1 0x24 := by
  unfold readSecWrites DiskCommand.sendCmd
  simp only [DiskCommand.uchar_nat]
  rfl

/-- One command for one sector, whatever the drive's registers hold. -/
theorem readSec_commands (drive : DiskCommand.Drive) {ebx : Nat} (small : ebx < 2 ^ 32) :
    ((readSecWrites ebx).foldl DiskCommand.Drive.outb drive).commands =
      drive.commands ++ [{ start := ebx, count := 1, cmd := 0x24 }] := by
  have alone := DiskCommand.issued_sendCmd drive small (by decide : 0x24 < 256) 1
  rw [← readSecWrites_eq] at alone
  have last : ((readSecWrites ebx).foldl DiskCommand.Drive.outb drive).commands =
      drive.commands ++ DiskCommand.issued drive (readSecWrites ebx) := rfl
  rw [last, alone]
  rfl

theorem readData_eq (data : ByteMemory) (rounds n edi : Nat) (mem : ByteMemory) :
    readData data rounds n edi mem =
      mem.overlay edi (2 * rounds) (fun i => data (2 * n + i)) := by
  induction rounds generalizing n edi mem with
  | zero => exact (ByteMemory.overlay_zero mem edi _).symm
  | succ rounds ih =>
      have onward : (fun i => data (2 * (n + 1) + i)) = fun i => data (2 * n + (1 + (1 + i))) := by
        funext i
        congr 1
        omega
      have total : 2 * (rounds + 1) = 1 + (1 + 2 * rounds) := by omega
      rw [readData, ih, onward, total,
        ByteMemory.overlay_succ _ _ _ (fun i => data (2 * n + (1 + i)))]
      exact ByteMemory.overlay_succ mem edi _ (fun i => data (2 * n + i))

/-- The bytes of the disk from a sector on. -/
def Sectors.bytes (sectors : Sectors) (start : Nat) : ByteMemory :=
  fun k => sectors (start + k / 512) (k % 512)

/-- One command a sector. -/
def reads (start count : Nat) : List DiskCommand.Command :=
  (List.range count).map fun i => { start := start + i, count := 1, cmd := 0x24 }

variable {sectors : Sectors} {s t : Loader} {ecx ebx edi : Nat}

theorem Sectors.bytes_first (sectors : Sectors) {start k : Nat} (inside : k < 512) :
    sectors.bytes start k = sectors start k := by
  unfold Sectors.bytes
  rw [Nat.div_eq_of_lt inside, Nat.mod_eq_of_lt inside]
  rfl

theorem Sectors.bytes_next (sectors : Sectors) (start more k : Nat) :
    sectors.bytes start (512 * more + k) = sectors.bytes (start + more) k := by
  unfold Sectors.bytes
  rw [Nat.mul_add_div (by decide), Nat.mul_add_mod, Nat.add_assoc]

theorem reads_succ (start count : Nat) :
    reads start (count + 1) =
      { start := start, count := 1, cmd := 0x24 } :: reads (start + 1) count := by
  unfold reads
  rw [List.range_succ_eq_map, List.map_cons, List.map_map]
  congr 1
  apply List.map_congr_left
  intro i _
  exact congrArg (fun first => ({ start := first, count := 1, cmd := 0x24 } : DiskCommand.Command))
    (by omega : start + (i + 1) = start + 1 + i)

theorem readSec_eq (sectors : Sectors) (s : Loader) (word : ecx < 65536) (small : ebx < 2 ^ 32)
    (loadable : Loadable edi 512) :
    readSec sectors s ecx ebx edi =
      some { s with
        mem := s.mem.overlay edi 512 (sectors ebx)
        drive := (readSecWrites ebx).foldl DiskCommand.Drive.outb s.drive } := by
  have last : ((readSecWrites ebx).foldl DiskCommand.Drive.outb s.drive).commands.getLast? =
      some { start := ebx, count := 1, cmd := 0x24 } := by
    rw [readSec_commands s.drive small, List.getLast?_concat]
  unfold readSec
  rw [setLow_small word]
  dsimp only
  rw [last, Option.bind_some, if_pos loadable, readData_eq]
  simp only [Nat.mul_zero, Nat.zero_add]

theorem readLoop_eq (sectors : Sectors) (rounds : Nat) (s : Loader) (ebx edi : Nat)
    (word : rounds < 65536) (small : ebx + rounds ≤ 2 ^ 32) (above : 0x10000 ≤ edi)
    (fits : edi + 512 * rounds ≤ segment32) :
    ∃ drive, readLoop sectors rounds s rounds ebx edi =
        some { s with
          mem := s.mem.overlay edi (512 * rounds) (sectors.bytes ebx)
          drive := drive } ∧
      drive.commands = s.drive.commands ++ reads ebx rounds := by
  unfold segment32 at fits
  induction rounds generalizing s ebx edi with
  | zero =>
      refine ⟨s.drive, ?_, (List.append_nil _).symm⟩
      rw [readLoop, Nat.mul_zero, ByteMemory.overlay_zero]
  | succ rounds ih =>
      rw [Nat.mul_succ, Nat.add_comm (512 * rounds), ← Nat.add_assoc] at fits
      have loadable : Loadable edi 512 := by
        constructor
        · exact above
        · unfold segment32
          omega
      have one := readSec_eq sectors s word (by omega : ebx < 2 ^ 32) loadable
      have counted : uint32 ((rounds + 1 : Nat) - 1) = rounds := by
        unfold uint32
        omega
      rw [readLoop, one, Option.bind_some, counted]
      have first : s.mem.overlay edi 512 (sectors ebx) =
          s.mem.overlay edi 512 (sectors.bytes ebx) :=
        ByteMemory.overlay_congr fun k inside => (sectors.bytes_first inside).symm
      have total : 512 * (rounds + 1) = 512 + 512 * rounds := by
        rw [Nat.mul_succ, Nat.add_comm]
      cases rounds with
      | zero =>
          refine ⟨(readSecWrites ebx).foldl DiskCommand.Drive.outb s.drive, ?_, ?_⟩
          · rw [readLoop, first, total, Nat.mul_zero]
          · exact readSec_commands s.drive (by omega)
      | succ rounds =>
          have nextSector : uint32 (ebx + 1) = ebx + 1 := by
            unfold uint32
            omega
          have nextPlace : uint32 (edi + 512) = edi + 512 := by
            unfold uint32
            omega
          obtain ⟨drive, rest, commands⟩ := ih
            { s with
              mem := s.mem.overlay edi 512 (sectors ebx)
              drive := (readSecWrites ebx).foldl DiskCommand.Drive.outb s.drive }
            (ebx + 1) (edi + 512) (by omega) (by omega) (Nat.le_add_right_of_le above) fits
          refine ⟨drive, ?_, ?_⟩
          · rw [nextSector, nextPlace, rest, total, first, ← ByteMemory.overlay_append]
            simp only [sectors.bytes_next ebx 1]
          · rw [commands, readSec_commands s.drive (by omega), List.append_assoc, reads_succ ebx]
            rfl

theorem readDisk_eq (sectors : Sectors) (s : Loader) (positive : 0 < ecx) (word : ecx < 65536)
    (small : ebx + s.partStart + ecx ≤ 2 ^ 32) (above : 0x10000 ≤ edi)
    (fits : edi + 512 * ecx ≤ segment32) :
    ∃ drive, readDisk sectors s ecx ebx edi =
        some { s with
          mem := s.mem.overlay edi (512 * ecx) (sectors.bytes (ebx + s.partStart))
          drive := drive } ∧
      drive.commands = s.drive.commands ++ reads (ebx + s.partStart) ecx := by
  have start : uint32 (ebx + s.partStart) = ebx + s.partStart := by
    unfold uint32
    omega
  have rounds : loopCount ecx = ecx := if_neg (by omega)
  unfold readDisk
  rw [start, rounds]
  exact readLoop_eq sectors ecx s _ edi word small above fits

/-! ### What the loader leaves alone -/

/-- From `s` to `t` the drive gets commands to read single sectors, and what they read goes to
0x20000 and above. -/
structure OnlyReads (s t : Loader) : Prop where
  below : ∀ x, x < 0x20000 → t.mem x = s.mem x
  commands : ∃ more, t.drive.commands = s.drive.commands ++ more ∧
    ∀ command ∈ more, command.cmd = 0x24 ∧ command.count = 1

theorem OnlyReads.refl (s : Loader) : OnlyReads s s where
  below := fun _ _ => rfl
  commands := ⟨[], (List.append_nil _).symm, fun _ none => absurd none List.not_mem_nil⟩

theorem OnlyReads.trans {u : Loader} (first : OnlyReads s t) (second : OnlyReads t u) :
    OnlyReads s u := by
  obtain ⟨more, issued, single⟩ := first.commands
  obtain ⟨later, issuedLater, singleLater⟩ := second.commands
  refine ⟨fun x below => (second.below x below).trans (first.below x below), more ++ later, ?_, ?_⟩
  · rw [issuedLater, issued, List.append_assoc]
  · intro command member
    rcases List.mem_append.mp member with early | late
    · exact single command early
    · exact singleLater command late

theorem readSec_some (small : ebx < 2 ^ 32) (returns : readSec sectors s ecx ebx edi = some t) :
    Loadable edi (2 * setLow 65536 ecx 256) ∧
      t = { s with
        mem := readData (sectors ebx) (setLow 65536 ecx 256) 0 edi s.mem
        drive := (readSecWrites ebx).foldl DiskCommand.Drive.outb s.drive } := by
  unfold readSec at returns
  dsimp only at returns
  rw [readSec_commands s.drive small, List.getLast?_concat, Option.bind_some] at returns
  by_cases loadable : Loadable edi (2 * setLow 65536 ecx 256)
  · rw [if_pos loadable, Option.some.injEq] at returns
    exact ⟨loadable, returns.symm⟩
  · rw [if_neg loadable] at returns
    cases returns

theorem OnlyReads.readSec (small : ebx < 2 ^ 32) (above : 0x20000 ≤ edi)
    (returns : Boot.readSec sectors s ecx ebx edi = some t) : OnlyReads s t := by
  obtain ⟨_, rfl⟩ := readSec_some small returns
  refine ⟨?_, [{ start := ebx, count := 1, cmd := 0x24 }], readSec_commands s.drive small, ?_⟩
  · intro x below
    dsimp only
    rw [readData_eq, ByteMemory.overlay_outside (Or.inl (by omega))]
  · intro command member
    rw [List.mem_singleton.mp member]
    exact ⟨rfl, rfl⟩

/-- Once the addresses have wrapped around, the next sector is not read. -/
theorem OnlyReads.readLoop {rounds : Nat} (small : ebx < 2 ^ 32)
    (above : 0x20000 ≤ edi ∨ edi < 0x10000)
    (returns : Boot.readLoop sectors rounds s ecx ebx edi = some t) : OnlyReads s t := by
  induction rounds generalizing s ecx ebx edi with
  | zero =>
      rw [Boot.readLoop, Option.some.injEq] at returns
      rw [← returns]
      exact OnlyReads.refl s
  | succ rounds ih =>
      rw [Boot.readLoop] at returns
      obtain ⟨next, one, rest⟩ := Option.bind_eq_some_iff.mp returns
      obtain ⟨start, fits⟩ := (readSec_some small one).1
      have high : 0x20000 ≤ edi := by omega
      have nextSector : uint32 (ebx + 1) < 2 ^ 32 := by
        unfold uint32
        omega
      have nextPlace : 0x20000 ≤ uint32 (edi + 512) ∨ uint32 (edi + 512) < 0x10000 := by
        unfold segment32 setLow at fits
        unfold uint32
        omega
      exact (OnlyReads.readSec small high one).trans (ih nextSector nextPlace rest)

theorem OnlyReads.readDisk (returns : Boot.readDisk sectors s ecx ebx 0x20000 = some t) :
    OnlyReads s t := by
  have small : uint32 (ebx + s.partStart) < 2 ^ 32 := by
    unfold uint32
    omega
  exact OnlyReads.readLoop small (Or.inl (Nat.le_refl _)) returns

theorem OnlyReads.readBlocks {ax : Nat} (returns : Boot.readBlocks sectors s ecx ax = some t) :
    OnlyReads s t := by
  unfold Boot.readBlocks at returns
  obtain ⟨⟨block, item⟩, _, returns⟩ := Option.bind_eq_some_iff.mp returns
  obtain ⟨table, first, returns⟩ := Option.bind_eq_some_iff.mp returns
  exact (OnlyReads.readDisk first).trans (OnlyReads.readDisk returns)

theorem OnlyReads.readNamed {fuel length name : Nat} {found : Bool}
    (returns : Boot.readNamed sectors fuel s length name = some (t, found)) : OnlyReads s t := by
  unfold Boot.readNamed at returns
  obtain ⟨eax, _, returns⟩ := Option.bind_eq_some_iff.mp returns
  by_cases zero : eax = 0
  · rw [if_pos zero, Option.some.injEq, Prod.mk.injEq] at returns
    rw [← returns.1]
    exact OnlyReads.refl s
  · rw [if_neg zero] at returns
    obtain ⟨next, reads, same⟩ := Option.bind_eq_some_iff.mp returns
    rw [Option.some.injEq, Prod.mk.injEq] at same
    rw [← same.1]
    exact OnlyReads.readBlocks reads

/-- The variables play no part. -/
theorem OnlyReads.variables {u : Loader} (only : OnlyReads s t) (mem : u.mem = t.mem)
    (drive : u.drive = t.drive) : OnlyReads s u := by
  constructor
  · rw [mem]
    exact only.below
  · rw [drive]
    exact only.commands

/-- Whatever is on the disk, `load_kernel` writes neither to it nor to the loader. -/
theorem loadKernel_onlyReads {fuel dirName fileName : Nat} {found : Bool}
    (returns : loadKernel sectors fuel s ecx dirName fileName = some (t, found)) :
    OnlyReads s t := by
  unfold loadKernel at returns
  obtain ⟨⟨super, afterSuper⟩, first, returns⟩ := Option.bind_eq_some_iff.mp returns
  obtain ⟨group, second, returns⟩ := Option.bind_eq_some_iff.mp returns
  obtain ⟨root, third, returns⟩ := Option.bind_eq_some_iff.mp returns
  obtain ⟨⟨dir, inDir⟩, fourth, returns⟩ := Option.bind_eq_some_iff.mp returns
  have loaded : OnlyReads s super := by
    unfold loadSuper at first
    obtain ⟨next, reads, same⟩ := Option.bind_eq_some_iff.mp first
    rw [Option.some.injEq, Prod.mk.injEq] at same
    exact (OnlyReads.readDisk reads).variables (congrArg Loader.mem same.1).symm
      (congrArg Loader.drive same.1).symm
  have described : OnlyReads super group := by
    unfold loadGroup at second
    obtain ⟨next, reads, same⟩ := Option.bind_eq_some_iff.mp second
    rw [Option.some.injEq] at same
    exact (OnlyReads.readDisk reads).variables (congrArg Loader.mem same).symm
      (congrArg Loader.drive same).symm
  have atDir := ((loaded.trans described).trans (OnlyReads.readBlocks third)).trans
    (OnlyReads.readNamed fourth)
  cases inDir with
  | false =>
      have same : some (dir, false) = some (t, found) := returns
      rw [Option.some.injEq, Prod.mk.injEq] at same
      rw [← same.1]
      exact atDir
  | true =>
      have named : Boot.readNamed sectors fuel dir 6 fileName = some (t, found) := returns
      exact atDir.trans (OnlyReads.readNamed named)

/-! ### Blocks of 1024 bytes -/

/-- The words that `read_data` puts from `edi` on, around the end of the addresses, cover the
loader. -/
def OverLoader (edi rounds : Nat) : Prop :=
  ∀ x, x < 0x10000 → ∃ n, n < rounds ∧
    (uint32 (edi + 2 * n : Nat) = x ∨ uint32 (edi + 2 * n : Nat) + 1 = x)

/-- With all the upper bits of `ecx` set, `read_data` goes around the addresses. -/
theorem overLoader_wraps : OverLoader (0x20000 + 512) (setLow 65536 (uint32 (0 - 1)) 256) := by
  intro x low
  refine ⟨(4294835712 + x) / 2, ?_, ?_⟩
  · have rounds : setLow 65536 (uint32 (0 - 1)) 256 = 4294902016 := by decide
    omega
  · unfold uint32
    omega

/-- The second sector of a transfer that starts with 0 in `ecx`. -/
theorem readSec_over (sectors : Sectors) (s : Loader) (small : ebx < 2 ^ 32) :
    readSec sectors s (uint32 (0 - 1)) ebx (0x20000 + 512) = none := by
  rw [Option.eq_none_iff_forall_ne_some]
  intro t returns
  exact absurd (readSec_some small returns).1 (by decide)

theorem readDisk_zero (sectors : Sectors) (s : Loader) (ebx : Nat) :
    ∃ first, readSec sectors s 0 (uint32 (ebx + s.partStart)) 0x20000 = some first ∧
      readSec sectors first (uint32 (0 - 1)) (uint32 (uint32 (ebx + s.partStart) + 1))
        (0x20000 + 512) = none ∧
      readDisk sectors s 0 ebx 0x20000 = none := by
  have first := readSec_eq sectors s (by decide : 0 < 65536)
    (by unfold uint32; omega : uint32 (ebx + s.partStart) < 2 ^ 32)
    (by decide : Loadable 0x20000 512)
  have second := fun t => readSec_over sectors t
    (by unfold uint32; omega : uint32 (uint32 (ebx + s.partStart) + 1) < 2 ^ 32)
  refine ⟨_, first, second _, ?_⟩
  unfold readDisk
  change readLoop sectors (4294967294 + 1 + 1) s 0 _ 0x20000 = none
  rw [readLoop, first, Option.bind_some, readLoop]
  change (readSec sectors _ (uint32 (0 - 1)) _ (0x20000 + 512)).bind _ = none
  rw [second, Option.bind_none]

/-- Where the exponent of the block size is 0, the loader takes 0 for the sectors of a block.
Its read of the group descriptors gets one sector; the next one goes through all the addresses
and over the loader. -/
theorem loadKernel_blocks1024 {fuel dirName fileName : Nat} (fresh : s.sectorNum = 0)
    (high : ecx < 65536) (near : s.partStart + 3 ≤ 2 ^ 32)
    (log : sectors.bytes s.partStart 1048 = 0) :
    ∃ super, loadSuper sectors s ecx = some (super, 0) ∧ super.sectorNum = 0 ∧
      (∃ first, readSec sectors super 0 (uint32 super.partStart) 0x20000 = some first ∧
        readSec sectors first (uint32 (0 - 1)) (uint32 (uint32 super.partStart + 1))
          (0x20000 + 512) = none) ∧
      OverLoader (0x20000 + 512) (setLow 65536 (uint32 (0 - 1)) 256) ∧
      loadKernel sectors fuel s ecx dirName fileName = none := by
  obtain ⟨drive, reads, _⟩ := readDisk_eq sectors s (by decide : 0 < 1) (by decide)
    (by omega : 2 + s.partStart + 1 ≤ 2 ^ 32) (by decide : 0x10000 ≤ 0x20000) (by decide)
  have byte : byteAt segment32 (s.mem.overlay 0x20000 (512 * 1)
      (sectors.bytes (2 + s.partStart))) 0x20018 = 0 := by
    have place : sectors.bytes s.partStart 1048 = sectors.bytes (2 + s.partStart) 24 := by
      rw [Nat.add_comm 2, ← sectors.bytes_next]
    unfold byteAt
    change (s.mem.overlay 0x20000 (512 * 1) (sectors.bytes (2 + s.partStart))
      (0x20000 + 24)).toNat = 0
    rw [ByteMemory.overlay_inside (by decide), ← place, log]
    rfl
  have loads : ∃ super, loadSuper sectors s ecx = some (super, 0) ∧ super.sectorNum = 0 := by
    unfold loadSuper
    dsimp only
    rw [setLow_small high, reads, Option.bind_some]
    dsimp only
    rw [byte, fresh]
    exact ⟨_, rfl, rfl⟩
  obtain ⟨super, isSuper, zero⟩ := loads
  obtain ⟨first, one, two, never⟩ := readDisk_zero sectors super 0
  rw [Nat.cast_zero, Int.zero_add] at one two
  refine ⟨super, isSuper, zero, ⟨first, one, two⟩, overLoader_wraps, ?_⟩
  unfold loadKernel loadGroup
  rw [isSuper, Option.bind_some]
  dsimp only
  rw [never]
  rfl

end Boot

end MangoOS
