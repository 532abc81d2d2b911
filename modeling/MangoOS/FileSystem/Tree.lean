/-
The block tree of an inode as ext2 defines it: twelve direct blocks and tables of
1024 block numbers on up to three levels.
-/

import MangoOS.Library.Region
import Mathlib.Data.Set.Defs

namespace MangoOS

/-- Entry `k` of the table in a block. -/
def tableWord (content : Nat → Region) (bno k : Nat) : Nat := (content bno).word (4 * k : Nat)

/-- The tables that lead to block `index` of a file and that block itself, top down. -/
def treePath (content : Nat → Region) (iBlock : Nat → Nat) (index : Nat) : List Nat :=
  if index < 12 then [iBlock index]
  else if index < 1036 then [iBlock 12, tableWord content (iBlock 12) (index - 12)]
  else if index < 1049612 then
    let table := tableWord content (iBlock 13) ((index - 1036) / 1024)
    [iBlock 13, table, tableWord content table ((index - 1036) % 1024)]
  else
    let first := tableWord content (iBlock 14) ((index - 1049612) / 1048576)
    let second := tableWord content first ((index - 1049612) % 1048576 / 1024)
    [iBlock 14, first, second, tableWord content second ((index - 1049612) % 1024)]

/-- All blocks of a file of `count` data blocks. -/
def treeOf (content : Nat → Region) (iBlock : Nat → Nat) (count : Nat) : Set Nat :=
  { bno | ∃ index, index < count ∧ bno ∈ treePath content iBlock index }

end MangoOS
