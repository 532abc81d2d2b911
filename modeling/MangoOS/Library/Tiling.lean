/-
Chunks of one length that are tiled by blocks.

`blocks` are the start addresses of all blocks and `size` gives their sizes.  The
rules say how a tiling changes when a block is split, merged with the next one,
or a new chunk is added.
-/

import Mathlib.Data.Set.Insert

namespace MangoOS

/-- A block inside a chunk; behind it comes another block or the end of the chunk. -/
structure Tile (length : Nat) (chunks : List Nat) (blocks : Set Nat) (size : Nat → Nat)
    (block chunk : Nat) : Prop where
  owned : chunk ∈ chunks
  lower : chunk ≤ block
  upper : block + size block ≤ chunk + length
  onward : block + size block = chunk + length ∨ block + size block ∈ blocks

structure Tiling (length least : Nat) (chunks : List Nat) (blocks : Set Nat)
    (size : Nat → Nat) : Prop where
  chunksApart : ∀ c d, c ∈ chunks → d ∈ chunks → c ≠ d → c + length ≤ d ∨ d + length ≤ c
  starts : ∀ c, c ∈ chunks → c ∈ blocks
  positive : 0 < least
  big : ∀ a, a ∈ blocks → least ≤ size a
  tiled : ∀ a, a ∈ blocks → ∃ c, Tile length chunks blocks size a c
  apart : ∀ a b, a ∈ blocks → b ∈ blocks → a ≠ b →
    a + size a ≤ b ∨ b + size b ≤ a

namespace Tiling

variable {length least : Nat} {chunks : List Nat} {blocks : Set Nat} {size after : Nat → Nat}
variable {a : Nat}

theorem congr (tiling : Tiling length least chunks blocks size)
    (same : ∀ a, a ∈ blocks → after a = size a) :
    Tiling length least chunks blocks after where
  chunksApart := tiling.chunksApart
  starts := tiling.starts
  positive := tiling.positive
  big := by
    intro a member
    rw [same a member]
    exact tiling.big a member
  tiled := by
    intro a member
    obtain ⟨c, tile⟩ := tiling.tiled a member
    refine ⟨c, tile.owned, tile.lower, ?_, ?_⟩
    · rw [same a member]
      exact tile.upper
    · rw [same a member]
      exact tile.onward
  apart := by
    intro a b inA inB different
    rw [same a inA, same b inB]
    exact tiling.apart a b inA inB different

theorem split (tiling : Tiling length least chunks blocks size) (member : a ∈ blocks)
    {front : Nat} (frontBig : least ≤ front) (backBig : front + least ≤ size a)
    (sizeFront : after a = front) (sizeBack : after (a + front) = size a - front)
    (same : ∀ x, x ∈ blocks → x ≠ a → after x = size x) :
    Tiling length least chunks (insert (a + front) blocks) after := by
  have positive := tiling.positive
  have apartNew : ∀ x, x ∈ blocks → x ≠ a → a + front ≠ x ∧
      (a + size a ≤ x ∨ x + size x ≤ a) := by
    intro x inX different
    have apart := tiling.apart a x member inX different.symm
    have big := tiling.big x inX
    refine ⟨?_, apart⟩
    omega
  constructor
  · exact tiling.chunksApart
  · intro c inChunks
    exact Set.mem_insert_of_mem _ (tiling.starts c inChunks)
  · exact positive
  · intro x inX
    rcases Set.mem_insert_iff.mp inX with isNew | old
    · rw [isNew, sizeBack]
      omega
    · by_cases isA : x = a
      · rw [isA, sizeFront]
        exact frontBig
      · rw [same x old isA]
        exact tiling.big x old
  · intro x inX
    obtain ⟨c, tile⟩ := tiling.tiled a member
    have lower := tile.lower
    have upper := tile.upper
    rcases Set.mem_insert_iff.mp inX with isNew | old
    · -- the back part ends where the block ended
      have ends : a + front + after (a + front) = a + size a := by
        rw [sizeBack]
        omega
      rw [isNew]
      refine ⟨c, tile.owned, by omega, by omega, ?_⟩
      rw [ends]
      rcases tile.onward with atEnd | next
      · exact Or.inl atEnd
      · exact Or.inr (Set.mem_insert_of_mem _ next)
    · by_cases isA : x = a
      · rw [isA]
        refine ⟨c, tile.owned, lower, by omega, ?_⟩
        rw [sizeFront]
        exact Or.inr (Set.mem_insert _ _)
      · obtain ⟨d, other⟩ := tiling.tiled x old
        refine ⟨d, other.owned, other.lower, ?_, ?_⟩
        · rw [same x old isA]
          exact other.upper
        · rw [same x old isA]
          rcases other.onward with atEnd | next
          · exact Or.inl atEnd
          · exact Or.inr (Set.mem_insert_of_mem _ next)
  · intro x y inX inY different
    rcases Set.mem_insert_iff.mp inX with xNew | xOld
    · rcases Set.mem_insert_iff.mp inY with yNew | yOld
      · exact False.elim (different (xNew.trans yNew.symm))
      · rw [xNew, sizeBack]
        by_cases isA : y = a
        · rw [isA, sizeFront]
          omega
        · have apart := apartNew y yOld isA
          rw [same y yOld isA]
          omega
    · rcases Set.mem_insert_iff.mp inY with yNew | yOld
      · rw [yNew, sizeBack]
        by_cases isA : x = a
        · rw [isA, sizeFront]
          omega
        · have apart := apartNew x xOld isA
          rw [same x xOld isA]
          omega
      · have apart := tiling.apart x y xOld yOld different
        by_cases xIsA : x = a
        · have yNotA : y ≠ a := fun isA => different (xIsA.trans isA.symm)
          rw [xIsA] at apart ⊢
          rw [sizeFront, same y yOld yNotA]
          omega
        · by_cases yIsA : y = a
          · rw [yIsA] at apart ⊢
            rw [sizeFront, same x xOld xIsA]
            omega
          · rw [same x xOld xIsA, same y yOld yIsA]
            exact apart

/-- A block takes in the one behind it, which does not start a chunk. -/
theorem merge (tiling : Tiling length least chunks blocks size) (member : a ∈ blocks)
    (next : a + size a ∈ blocks) (inner : a + size a ∉ chunks)
    (merged : after a = size a + size (a + size a))
    (same : ∀ x, x ∈ blocks → x ≠ a → x ≠ a + size a → after x = size x) :
    Tiling length least chunks (blocks \ {a + size a}) after := by
  have positive := tiling.positive
  have bigA := tiling.big a member
  have bigNext := tiling.big (a + size a) next
  constructor
  · exact tiling.chunksApart
  · intro c inChunks
    refine ⟨tiling.starts c inChunks, ?_⟩
    intro isNext
    exact inner (isNext ▸ inChunks)
  · exact positive
  · rintro x ⟨inX, notNext⟩
    by_cases isA : x = a
    · rw [isA, merged]
      omega
    · rw [same x inX isA notNext]
      exact tiling.big x inX
  · rintro x ⟨inX, notNext⟩
    obtain ⟨c, tile⟩ := tiling.tiled x inX
    have lower := tile.lower
    have upper := tile.upper
    by_cases isA : x = a
    · subst x
      obtain ⟨d, behind⟩ := tiling.tiled (a + size a) next
      have behindLower := behind.lower
      have behindUpper := behind.upper
      -- the two blocks lie in one chunk
      have sameChunk : c = d := by
        by_contra different
        have apart := tiling.chunksApart c d tile.owned behind.owned different
        have atStart : a + size a = d := by omega
        exact inner (atStart ▸ behind.owned)
      subst d
      refine ⟨c, tile.owned, lower, ?_, ?_⟩
      · rw [merged]
        omega
      · rw [merged, ← Nat.add_assoc]
        rcases behind.onward with atEnd | onward
        · exact Or.inl atEnd
        · refine Or.inr ⟨onward, ?_⟩
          intro isSame
          rw [Set.mem_singleton_iff] at isSame
          omega
    · refine ⟨c, tile.owned, lower, ?_, ?_⟩
      · rw [same x inX isA notNext]
        exact upper
      · rw [same x inX isA notNext]
        rcases tile.onward with atEnd | onward
        · exact Or.inl atEnd
        · refine Or.inr ⟨onward, ?_⟩
          intro isSame
          rw [Set.mem_singleton_iff] at isSame
          have apart := tiling.apart x a inX member isA
          have bigX := tiling.big x inX
          omega
  · rintro x y ⟨inX, xNotNext⟩ ⟨inY, yNotNext⟩ different
    rw [Set.mem_singleton_iff] at xNotNext yNotNext
    have apart := tiling.apart x y inX inY different
    by_cases xIsA : x = a
    · have yNotA : y ≠ a := fun isA => different (xIsA.trans isA.symm)
      have behind := tiling.apart (a + size a) y next inY (Ne.symm yNotNext)
      have bigY := tiling.big y inY
      rw [xIsA] at apart ⊢
      rw [merged, same y inY yNotA yNotNext]
      omega
    · by_cases yIsA : y = a
      · have behind := tiling.apart (a + size a) x next inX (Ne.symm xNotNext)
        have bigX := tiling.big x inX
        rw [yIsA] at apart ⊢
        rw [merged, same x inX xIsA xNotNext]
        omega
      · rw [same x inX xIsA xNotNext, same y inY yIsA yNotNext]
        exact apart

theorem grow (tiling : Tiling length least chunks blocks size) {chunk front : Nat}
    (fresh : ∀ c, c ∈ chunks → c + length ≤ chunk ∨ chunk + length ≤ c)
    (frontBig : least ≤ front) (backBig : front + least ≤ length)
    (sizeFront : after chunk = front) (sizeBack : after (chunk + front) = length - front)
    (same : ∀ x, x ∈ blocks → after x = size x) :
    Tiling length least (chunk :: chunks) (insert chunk (insert (chunk + front) blocks))
      after := by
  have positive := tiling.positive
  have outside : ∀ x, x ∈ blocks → x + size x ≤ chunk ∨ chunk + length ≤ x := by
    intro x inX
    obtain ⟨c, tile⟩ := tiling.tiled x inX
    have lower := tile.lower
    have upper := tile.upper
    have apart := fresh c tile.owned
    omega
  constructor
  · intro c d inC inD different
    rcases List.mem_cons.mp inC with cNew | cOld
    · rcases List.mem_cons.mp inD with dNew | dOld
      · exact False.elim (different (cNew.trans dNew.symm))
      · rw [cNew]
        exact (fresh d dOld).symm
    · rcases List.mem_cons.mp inD with dNew | dOld
      · rw [dNew]
        exact fresh c cOld
      · exact tiling.chunksApart c d cOld dOld different
  · intro c inChunks
    rcases List.mem_cons.mp inChunks with isNew | old
    · rw [isNew]
      exact Set.mem_insert _ _
    · exact Set.mem_insert_of_mem _ (Set.mem_insert_of_mem _ (tiling.starts c old))
  · exact positive
  · intro x inX
    rcases Set.mem_insert_iff.mp inX with isFront | rest
    · rw [isFront, sizeFront]
      exact frontBig
    · rcases Set.mem_insert_iff.mp rest with isBack | old
      · rw [isBack, sizeBack]
        omega
      · rw [same x old]
        exact tiling.big x old
  · intro x inX
    rcases Set.mem_insert_iff.mp inX with isFront | rest
    · rw [isFront]
      refine ⟨chunk, List.mem_cons_self .., Nat.le_refl _, by omega, ?_⟩
      rw [sizeFront]
      exact Or.inr (Set.mem_insert_of_mem _ (Set.mem_insert _ _))
    · rcases Set.mem_insert_iff.mp rest with isBack | old
      · rw [isBack]
        refine ⟨chunk, List.mem_cons_self .., by omega, by omega, ?_⟩
        rw [sizeBack]
        left
        omega
      · obtain ⟨c, tile⟩ := tiling.tiled x old
        refine ⟨c, List.mem_cons_of_mem _ tile.owned, tile.lower, ?_, ?_⟩
        · rw [same x old]
          exact tile.upper
        · rw [same x old]
          rcases tile.onward with atEnd | onward
          · exact Or.inl atEnd
          · exact Or.inr (Set.mem_insert_of_mem _ (Set.mem_insert_of_mem _ onward))
  · have frontOld : ∀ y, y ∈ blocks →
        chunk + after chunk ≤ y ∨ y + after y ≤ chunk := by
      intro y old
      have apart := outside y old
      rw [sizeFront, same y old]
      omega
    have backOld : ∀ y, y ∈ blocks →
        chunk + front + after (chunk + front) ≤ y ∨ y + after y ≤ chunk + front := by
      intro y old
      have apart := outside y old
      rw [sizeBack, same y old]
      omega
    have frontBack : chunk + after chunk ≤ chunk + front := by omega
    intro x y inX inY different
    rcases Set.mem_insert_iff.mp inX with xFront | xRest
    · rcases Set.mem_insert_iff.mp inY with yFront | yRest
      · exact False.elim (different (xFront.trans yFront.symm))
      · rcases Set.mem_insert_iff.mp yRest with yBack | yOld
        · rw [xFront, yBack]
          exact Or.inl frontBack
        · rw [xFront]
          exact frontOld y yOld
    · rcases Set.mem_insert_iff.mp xRest with xBack | xOld
      · rcases Set.mem_insert_iff.mp inY with yFront | yRest
        · rw [xBack, yFront]
          exact Or.inr frontBack
        · rcases Set.mem_insert_iff.mp yRest with yBack | yOld
          · exact False.elim (different (xBack.trans yBack.symm))
          · rw [xBack]
            exact backOld y yOld
      · rcases Set.mem_insert_iff.mp inY with yFront | yRest
        · rw [yFront]
          exact (frontOld x xOld).symm
        · rcases Set.mem_insert_iff.mp yRest with yBack | yOld
          · rw [yBack]
            exact (backOld x xOld).symm
          · rw [same x xOld, same y yOld]
            exact tiling.apart x y xOld yOld different

end Tiling

end MangoOS
