/-
`kprintf` (lib/log.c) on the text buffer of 25 lines of 80 cells.

Only the end of a round looks whether the page is full.  A newline leaves its
round before that, and a conversion prints all its characters first.
-/

import MangoOS.Device.PrintInteger

namespace MangoOS

/-- What `va_arg` hands out. -/
inductive Arg
  | number (value : BitVec 32)
  | string (str : Text)

/-- `vga` as the number of its cell behind 0xB8000, and what was stored so far, last first. -/
structure Screen where
  vga : Nat
  stores : List (Nat × BitVec 16)

/-- `0x07 << 8 | c`. -/
def screenCell (c : BitVec 8) : BitVec 16 := 0x0700 ||| c.signExtend 16

namespace Screen

def put (s : Screen) (c : BitVec 8) : Screen where
  vga := s.vga + 1
  stores := (s.vga, screenCell c) :: s.stores

def putAll (s : Screen) (text : Text) : Screen := text.foldl put s

/-- What is left of the line, in bytes, is skipped. -/
def newline (s : Screen) : Screen :=
  let left := 160 - 2 * s.vga % 160
  { s with vga := s.vga + left / 2 }

def clear (s : Screen) : Screen where
  vga := 0
  stores := ((List.range (80 * 25)).map fun i => (i, 32)).reverse ++ s.stores

end Screen

/-- The byte of the format at an index, with the terminator; there is nothing behind it. -/
def formatByte (format : Text) (i : Nat) : Option (BitVec 8) :=
  if i = format.length then some 0 else format[i]?

/-- The `switch` of `kprintf`; `none` is a read of an argument that was not passed. -/
def convert (c : BitVec 8) (args : List Arg) (screen : Screen) : Option (List Arg × Screen) :=
  if c = 100 then
    match args with
    | .number value :: args => some (args, screen.putAll (printInteger value.toNat 10))
    | _ => none
  else if c = 120 then
    match args with
    | .number value :: args => some (args, screen.putAll (printInteger value.toNat 16))
    | _ => none
  else if c = 115 then
    match args with
    | .string str :: args => some (args, screen.putAll str)
    | _ => none
  else some (args, screen.put c)

/-- The end of a round: a full page is cleared and `format` goes back by one character. -/
def endOfRound (i : Nat) (screen : Screen) : Nat × Screen :=
  if 2 * screen.vga ≥ 160 * 25 then (i - 1, screen.clear) else (i, screen)

/-- The loop of `kprintf` at byte `i` of the format.  The result is `none` where the rounds do not
suffice, and `some none` after a read past the format or the arguments. -/
def kprintfLoop (format : Text) : (fuel i : Nat) → List Arg → Screen → Option (Option Screen)
  | 0, _, _, _ => none
  | fuel + 1, i, args, screen =>
      match formatByte format i with
      | none => some none
      | some c =>
          if c = 0 then some (some screen)
          else if c = 37 then
            match formatByte format (i + 1) with
            | none => some none
            | some conversion =>
                match convert conversion args screen with
                | none => some none
                | some (args, screen) =>
                    let (i, screen) := endOfRound (i + 2) screen
                    kprintfLoop format fuel i args screen
          else if c = 10 then kprintfLoop format fuel (i + 1) args screen.newline
          else
            let (i, screen) := endOfRound (i + 1) (screen.put c)
            kprintfLoop format fuel i args screen

/-- `kprintf` with the cursor at cell `vga`. -/
def kprintf (fuel : Nat) (format : Text) (args : List Arg) (vga : Nat) : Option (Option Screen) :=
  kprintfLoop format fuel 0 args ⟨vga, []⟩

/-! ### Formats -/

/-- A character that `kprintf` prints as it is. -/
def Plain (c : BitVec 8) : Prop := c ≠ 0 ∧ c ≠ 37 ∧ c ≠ 10

instance (c : BitVec 8) : Decidable (Plain c) :=
  inferInstanceAs (Decidable (c ≠ 0 ∧ c ≠ 37 ∧ c ≠ 10))

/-- A part of a format, with the argument of a conversion. -/
inductive FormatItem
  | char (c : BitVec 8) (plain : Plain c)
  | newline
  | decimal (value : BitVec 32)
  | hex (value : BitVec 32)
  | string (str : Text)

namespace FormatItem

def format : FormatItem → Text
  | char c _ => [c]
  | newline => [10]
  | decimal _ => [37, 100]
  | hex _ => [37, 120]
  | string _ => [37, 115]

def args : FormatItem → List Arg
  | char _ _ => []
  | newline => []
  | decimal value => [.number value]
  | hex value => [.number value]
  | string str => [.string str]

/-- The characters that are printed for it. -/
def text : FormatItem → Option Text
  | char c _ => some [c]
  | newline => none
  | decimal value => some (printInteger value.toNat 10)
  | hex value => some (printInteger value.toNat 16)
  | string str => some str

/-- The text, if there is any, ends on the page on which it begins. -/
def FitsAt (item : FormatItem) (p : Nat) : Prop :=
  ∀ text, item.text = some text → text = [] ∨ p + text.length ≤ 2000

/-- Where the next part begins: on the next line, behind the text, or on a new page, on which one
character is printed again. -/
def next (item : FormatItem) (p : Nat) : Nat :=
  match item.text with
  | none => 80 * (p / 80 + 1)
  | some text => if p + text.length < 2000 then p + text.length else 1

end FormatItem

def formatOf (items : List FormatItem) : Text := items.flatMap FormatItem.format

def argsOf (items : List FormatItem) : List Arg := items.flatMap FormatItem.args

/-- From cell `p` on every text fits, and the last part ends on the page. -/
def FitsPage : List FormatItem → Nat → Prop
  | [], p => p < 2000
  | item :: items, p => item.FitsAt p ∧ FitsPage items (item.next p)

/-- Nothing was stored outside of the buffer. -/
def Screen.StoresInside (s : Screen) : Prop := ∀ store, store ∈ s.stores → store.1 < 2000

/-- With enough rounds `kprintf` returns and leaves this. -/
def Prints (items : List FormatItem) (p : Nat) (screen : Screen) : Prop :=
  ∃ rounds, ∀ fuel, rounds ≤ fuel →
    kprintf fuel (formatOf items) (argsOf items) p = some (some screen)

/-! ### The screen -/

namespace Screen

variable {s : Screen}

theorem putAll_vga (s : Screen) (text : Text) : (s.putAll text).vga = s.vga + text.length := by
  induction text generalizing s with
  | nil => rfl
  | cons c text ih =>
      change ((s.put c).putAll text).vga = _
      rw [ih, List.length_cons]
      change s.vga + 1 + text.length = _
      omega

theorem put_inside (s : Screen) (c : BitVec 8) :
    (s.put c).StoresInside ↔ s.StoresInside ∧ s.vga < 2000 := by
  unfold StoresInside put
  constructor
  · intro inside
    exact ⟨fun store member => inside store (List.mem_cons_of_mem _ member),
      inside _ (List.mem_cons_self ..)⟩
  · rintro ⟨inside, here⟩ store member
    rcases List.mem_cons.mp member with isNew | old
    · rw [isNew]
      exact here
    · exact inside store old

theorem putAll_inside (s : Screen) (text : Text) :
    (s.putAll text).StoresInside ↔
      s.StoresInside ∧ (text = [] ∨ s.vga + text.length ≤ 2000) := by
  induction text generalizing s with
  | nil => exact ⟨fun inside => ⟨inside, Or.inl rfl⟩, fun both => both.1⟩
  | cons c text ih =>
      have moved : (s.put c).vga = s.vga + 1 := rfl
      change ((s.put c).putAll text).StoresInside ↔ _
      rw [ih, put_inside, moved, List.length_cons, and_assoc]
      apply and_congr_right
      intro _
      constructor
      · rintro ⟨here, empty | fits⟩
        · rw [empty]
          exact Or.inr here
        · exact Or.inr (by omega)
      · rintro (impossible | fits)
        · cases impossible
        · exact ⟨by omega, Or.inr (by omega)⟩

theorem clear_inside (s : Screen) : s.clear.StoresInside ↔ s.StoresInside := by
  unfold StoresInside clear
  constructor
  · intro inside store member
    exact inside store (List.mem_append_right _ member)
  · intro inside store member
    rcases List.mem_append.mp member with blank | old
    · rw [List.mem_reverse] at blank
      obtain ⟨i, small, isBlank⟩ := List.mem_map.mp blank
      rw [← isBlank]
      exact List.mem_range.mp small
    · exact inside store old

theorem newline_vga (s : Screen) : s.newline.vga = 80 * (s.vga / 80 + 1) := by
  change s.vga + (160 - 2 * s.vga % 160) / 2 = _
  omega

end Screen

/-! ### Rounds of the loop -/

section Rounds

variable {format : Text} {pre post : Text} {c : BitVec 8} {args : List Arg} {screen : Screen}

theorem formatByte_middle (pre post : Text) (c : BitVec 8) :
    formatByte (pre ++ c :: post) pre.length = some c := by
  have before : pre.length ≠ (pre ++ c :: post).length := by
    rw [List.length_append, List.length_cons]
    omega
  unfold formatByte
  rw [if_neg before, List.getElem?_append_right (Nat.le_refl _), Nat.sub_self]
  rfl

theorem formatByte_end (format : Text) : formatByte format format.length = some 0 := by
  unfold formatByte
  rw [if_pos rfl]

theorem kprintfLoop_plain (plain : Plain c) (fuel : Nat) :
    kprintfLoop (pre ++ c :: post) (fuel + 1) pre.length args screen =
      kprintfLoop (pre ++ c :: post) fuel (endOfRound (pre.length + 1) (screen.put c)).1 args
        (endOfRound (pre.length + 1) (screen.put c)).2 := by
  obtain ⟨notEnd, notPercent, notNewline⟩ := plain
  rw [kprintfLoop]
  simp only [formatByte_middle, if_neg notEnd, if_neg notPercent, if_neg notNewline]

/-- Behind a printed text the loop goes on at once, or prints the character before again on a
cleared page. -/
theorem kprintfLoop_endOfRound (pre post : Text) (plain : Plain c) (args : List Arg)
    (screen : Screen) :
    ∃ rounds after, (∀ fuel,
        kprintfLoop (pre ++ c :: post) (fuel + rounds) (endOfRound (pre.length + 1) screen).1 args
            (endOfRound (pre.length + 1) screen).2 =
          kprintfLoop (pre ++ c :: post) fuel (pre.length + 1) args after) ∧
      after.vga = (if screen.vga < 2000 then screen.vga else 1) ∧
        (after.StoresInside ↔ screen.StoresInside) := by
  unfold endOfRound
  by_cases full : 2 * screen.vga ≥ 160 * 25
  · rw [if_pos full, if_neg (by omega)]
    refine ⟨1, screen.clear.put c, ?_, rfl, ?_⟩
    · intro fuel
      have once : ¬ 2 * (screen.clear.put c).vga ≥ 160 * 25 := by
        change ¬ 2 * (0 + 1) ≥ 160 * 25
        decide
      dsimp only
      rw [Nat.add_sub_cancel, kprintfLoop_plain plain]
      unfold endOfRound
      rw [if_neg once]
    · have atStart : screen.clear.vga < 2000 := Nat.zero_lt_succ 1999
      rw [Screen.put_inside, Screen.clear_inside]
      exact ⟨fun both => both.1, fun inside => ⟨inside, atStart⟩⟩
  · rw [if_neg full, if_pos (by omega)]
    exact ⟨0, screen, fun _ => rfl, rfl, Iff.rfl⟩

/-- What a part of a format comes to, from the byte where it begins to the byte behind it. -/
def ItemRuns (format : Text) (item : FormatItem) (i : Nat) (rest : List Arg) (screen : Screen) :
    Prop :=
  ∃ rounds after, (∀ fuel,
      kprintfLoop format (fuel + rounds) i (item.args ++ rest) screen =
        kprintfLoop format fuel (i + item.format.length) rest after) ∧
    after.vga = item.next screen.vga ∧
      (after.StoresInside ↔ screen.StoresInside ∧ item.FitsAt screen.vga)

theorem itemRuns_text {item : FormatItem} {text : Text} {i : Nat} {rest : List Arg}
    (isText : item.text = some text) (plain : Plain c)
    (ends : i + item.format.length = pre.length + 1)
    (round : ∀ fuel, kprintfLoop (pre ++ c :: post) (fuel + 1) i (item.args ++ rest) screen =
      kprintfLoop (pre ++ c :: post) fuel (endOfRound (pre.length + 1) (screen.putAll text)).1 rest
        (endOfRound (pre.length + 1) (screen.putAll text)).2) :
    ItemRuns (pre ++ c :: post) item i rest screen := by
  obtain ⟨rounds, after, runs, cursor, inside⟩ :=
    kprintfLoop_endOfRound pre post plain rest (screen.putAll text)
  refine ⟨rounds + 1, after, ?_, ?_, ?_⟩
  · intro fuel
    rw [← Nat.add_assoc, round, runs, ends]
  · rw [cursor, Screen.putAll_vga]
    unfold FormatItem.next
    rw [isText]
  · rw [inside, Screen.putAll_inside]
    apply and_congr_right
    intro _
    unfold FormatItem.FitsAt
    rw [isText]
    constructor
    · intro fits other same
      rw [← Option.some.inj same]
      exact fits
    · exact fun fits => fits text rfl

theorem itemRuns_conversion {item : FormatItem} {text : Text} {rest : List Arg}
    (isText : item.text = some text) (isFormat : item.format = [37, c]) (plain : Plain c)
    (converts : ∀ screen : Screen,
      convert c (item.args ++ rest) screen = some (rest, screen.putAll text)) :
    ItemRuns (pre ++ item.format ++ post) item pre.length rest screen := by
  have split : pre ++ item.format ++ post = (pre ++ [37]) ++ c :: post := by
    rw [isFormat, List.append_assoc, List.append_assoc]
    rfl
  have length : (pre ++ [37] : Text).length = pre.length + 1 := by
    rw [List.length_append, List.length_singleton]
  rw [split]
  apply itemRuns_text isText plain
  · rw [isFormat, length]
    rfl
  · intro fuel
    have percent : formatByte ((pre ++ [37]) ++ c :: post) pre.length = some 37 := by
      rw [List.append_assoc]
      exact formatByte_middle pre (c :: post) 37
    have letter : formatByte ((pre ++ [37]) ++ c :: post) (pre.length + 1) = some c := by
      rw [← length]
      exact formatByte_middle (pre ++ [37]) post c
    rw [kprintfLoop, length]
    simp only [percent, letter, converts]
    rfl

theorem itemRuns (pre post : Text) (item : FormatItem) (rest : List Arg) (screen : Screen) :
    ItemRuns (pre ++ item.format ++ post) item pre.length rest screen := by
  cases item with
  | char c plain =>
      have split : pre ++ [c] ++ post = pre ++ c :: post := by
        rw [List.append_assoc, List.singleton_append]
      change ItemRuns (pre ++ [c] ++ post) _ _ _ _
      rw [split]
      exact itemRuns_text rfl plain rfl fun fuel => kprintfLoop_plain plain fuel
  | newline =>
      refine ⟨1, screen.newline, ?_, screen.newline_vga, ?_⟩
      · intro fuel
        have split : pre ++ [10#8] ++ post = pre ++ 10#8 :: post := by
          rw [List.append_assoc, List.singleton_append]
        change kprintfLoop (pre ++ [10#8] ++ post) _ _ _ _ =
          kprintfLoop (pre ++ [10#8] ++ post) _ _ _ _
        rw [split, kprintfLoop]
        simp only [formatByte_middle]
        rfl
      · refine ⟨fun inside => ⟨inside, ?_⟩, fun both => both.1⟩
        intro text impossible
        cases impossible
  | decimal value => exact itemRuns_conversion rfl rfl (by decide) fun _ => rfl
  | hex value => exact itemRuns_conversion rfl rfl (by decide) fun _ => rfl
  | string str => exact itemRuns_conversion rfl rfl (by decide) fun _ => rfl

end Rounds

/-! ### All of a format -/

theorem kprintfLoop_items (pre : Text) (items : List FormatItem) (screen : Screen) :
    ∃ rounds after, (∀ fuel, rounds ≤ fuel →
        kprintfLoop (pre ++ formatOf items) fuel pre.length (argsOf items) screen =
          some (some after)) ∧
      (after.StoresInside ∧ after.vga < 2000 ↔
        screen.StoresInside ∧ FitsPage items screen.vga) := by
  induction items generalizing pre screen with
  | nil =>
      refine ⟨1, screen, ?_, Iff.rfl⟩
      intro fuel enough
      obtain ⟨more, isMore⟩ := Nat.exists_eq_add_of_le' enough
      have atEnd : formatByte (pre ++ formatOf []) pre.length = some 0 := by
        change formatByte (pre ++ []) pre.length = some 0
        rw [List.append_nil]
        exact formatByte_end pre
      rw [isMore, kprintfLoop]
      simp only [atEnd, if_true]
  | cons item items ih =>
      have split : pre ++ formatOf (item :: items) = pre ++ item.format ++ formatOf items := by
        rw [List.append_assoc]
        rfl
      obtain ⟨first, middle, runs, cursor, inside⟩ :=
        itemRuns pre (formatOf items) item (argsOf items) screen
      obtain ⟨rounds, after, rest, bounds⟩ := ih (pre ++ item.format) middle
      refine ⟨rounds + first, after, ?_, ?_⟩
      · intro fuel enough
        obtain ⟨more, isMore⟩ := Nat.exists_eq_add_of_le' enough
        have isArgs : argsOf (item :: items) = item.args ++ argsOf items := rfl
        rw [isMore, ← Nat.add_assoc, isArgs, split, runs, ← List.length_append]
        exact rest _ (Nat.le_add_left rounds more)
      · rw [bounds, inside, cursor, and_assoc]
        rfl

/-- `kprintf` returns and stays within its format, and it stays on the screen if and only if every
text ends on the page on which it begins and the last part does as well. -/
theorem kprintf_bounded_iff (items : List FormatItem) (p : Nat) :
    ∃ screen, Prints items p screen ∧
      (screen.StoresInside ∧ screen.vga < 2000 ↔ FitsPage items p) := by
  obtain ⟨rounds, after, returns, bounds⟩ := kprintfLoop_items [] items ⟨p, []⟩
  refine ⟨after, ⟨rounds, returns⟩, bounds.trans ⟨fun both => both.2, fun fits => ⟨?_, fits⟩⟩⟩
  intro store member
  cases member

/-- A newline on the last line leaves the cursor behind the buffer, and the second digit of a
number that begins in the last cell is stored there. -/
theorem kprintf_bounded_not :
    Prints [.newline] 1999 ⟨2000, []⟩ ∧
      ∃ screen, Prints [.decimal 10] 1999 screen ∧ ¬ screen.StoresInside := by
  constructor
  · refine ⟨2, ?_⟩
    intro fuel enough
    obtain ⟨more, isMore⟩ := Nat.exists_eq_add_of_le' enough
    rw [isMore]
    rfl
  · refine ⟨(((⟨1999, []⟩ : Screen).putAll (printInteger 10 10)).clear).put 100, ⟨3, ?_⟩, ?_⟩
    · intro fuel enough
      obtain ⟨more, isMore⟩ := Nat.exists_eq_add_of_le' enough
      rw [isMore]
      rfl
    · rw [Screen.put_inside, Screen.clear_inside, Screen.putAll_inside]
      rintro ⟨⟨_, fits⟩, _⟩
      exact absurd fits (by decide +kernel)

end MangoOS
