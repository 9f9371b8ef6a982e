import DeadKernel.Foundation.Simulation

/-! The text screen: a framebuffer of 80 columns and 25 rows that scrolls, against a terminal
that has rows without end.
-/

namespace DeadKernel

abbrev screenWidth : Nat := 80
abbrev screenHeight : Nat := 25

structure ScreenColor where
  foreground : BitVec 4
  background : BitVec 4
deriving DecidableEq

structure ScreenChar where
  c : UInt8
  color : ScreenColor
deriving DecidableEq

def blank : ScreenChar := ⟨0x20, ⟨15, 0⟩⟩

/-- `written` holds the indices of `framebuffer` that were written, the last one first, and
`cursorLocation` what the ports of the display were told.
-/
structure Screen where
  framebuffer : Nat → ScreenChar
  x : Nat
  y : Nat
  currentColor : ScreenColor
  cursorLocation : Nat
  written : List Nat

def Screen.store (index : Nat) (value : ScreenChar) (screen : Screen) : Screen :=
  { screen with
    framebuffer := fun other => if other = index then value else screen.framebuffer other
    written := index :: screen.written }

/-- `for (i = first; i < first + count; i++) framebuffer[i] = ...`. -/
def storeCells (value : Nat → (Nat → ScreenChar) → ScreenChar) : Nat → Nat → Screen → Screen
  | 0, _, screen => screen
  | count + 1, first, screen =>
      storeCells value count (first + 1) (screen.store first (value first screen.framebuffer))

def moveCursor (screen : Screen) : Screen :=
  { screen with cursorLocation := (screen.y * screenWidth + screen.x) % 65536 }

def scroll (screen : Screen) : Screen :=
  if screenHeight ≤ screen.y then
    let screen := storeCells (fun i cells => cells (i + screenWidth))
      ((screenHeight - 1) * screenWidth) 0 screen
    let screen := storeCells (fun _ _ => blank) screenWidth
      ((screenHeight - 1) * screenWidth) screen
    { screen with y := screenHeight - 1 }
  else screen

/-- The `switch` of `screenPutChar`. A `char` is signed, so the upper half of the characters is
not printed.
-/
def interpretChar (c : UInt8) (screen : Screen) : Screen :=
  if c = 8 then
    let screen := if screen.x ≠ 0 then { screen with x := screen.x - 1 } else screen
    screen.store (screen.y * screenWidth + screen.x) blank
  else if c = 9 then { screen with x := screen.x + (4 - screen.x % 4) }
  else if c = 10 then { screen with y := screen.y + 1, x := 0 }
  else if c = 13 then { screen with x := 0 }
  else if 32 ≤ c ∧ c < 128 then
    let screen := screen.store (screen.y * screenWidth + screen.x) ⟨c, screen.currentColor⟩
    { screen with x := screen.x + 1 }
  else screen

def wrapLine (screen : Screen) : Screen :=
  if 80 ≤ screen.x then { screen with x := 0, y := screen.y + 1 } else screen

def screenPutChar (c : UInt8) (screen : Screen) : Screen :=
  moveCursor (scroll (wrapLine (interpretChar c screen)))

def screenSetColor (color : ScreenColor) (screen : Screen) : Screen :=
  { screen with currentColor := color }

def screenClear (screen : Screen) : Screen :=
  let screen := storeCells (fun _ _ => blank) (screenWidth * screenHeight) 0 screen
  moveCursor { screen with x := 0, y := 0 }

-----------------------------------------------------------------------------------------
-- A terminal that never scrolls
-----------------------------------------------------------------------------------------

/-- Rows without end, of 80 cells each. -/
structure Terminal where
  cell : Nat → Nat → ScreenChar
  column : Nat
  row : Nat
  color : ScreenColor

def Terminal.blank (color : ScreenColor) : Terminal := ⟨fun _ _ => DeadKernel.blank, 0, 0, color⟩

def Terminal.put (value : ScreenChar) (terminal : Terminal) : Terminal :=
  { terminal with cell := fun row column =>
      if row = terminal.row ∧ column = terminal.column then value
      else terminal.cell row column }

/-- The first column of the next row. -/
def Terminal.nextRow (terminal : Terminal) : Terminal :=
  { terminal with row := terminal.row + 1, column := 0 }

/-- Going to a column; behind the last one the next row begins. -/
def Terminal.goto (column : Nat) (terminal : Terminal) : Terminal :=
  if column < 80 then { terminal with column } else terminal.nextRow

/-- A backspace blanks the cell it goes back to, a tab goes to the next multiple of 4, a
printable character takes the cell and goes on, and other characters do nothing.
-/
def Terminal.putChar (c : UInt8) (terminal : Terminal) : Terminal :=
  if c = 8 then (terminal.goto (terminal.column - 1)).put DeadKernel.blank
  else if c = 9 then terminal.goto ((terminal.column / 4 + 1) * 4)
  else if c = 10 then terminal.nextRow
  else if c = 13 then terminal.goto 0
  else if 32 ≤ c ∧ c < 128 then
    (terminal.put ⟨c, terminal.color⟩).goto (terminal.column + 1)
  else terminal

-----------------------------------------------------------------------------------------
-- The window
-----------------------------------------------------------------------------------------

/-- The first of the last 25 rows reached. -/
def Terminal.top (terminal : Terminal) : Nat := terminal.row - (screenHeight - 1)

/-- The framebuffer is the window on the last 25 rows, with nothing below the cursor's row yet. -/
structure Shows (screen : Screen) (terminal : Terminal) : Prop where
  x : screen.x = terminal.column
  y : terminal.top + screen.y = terminal.row
  location : screen.cursorLocation = screen.y * screenWidth + screen.x
  color : screen.currentColor = terminal.color
  column : terminal.column < screenWidth
  cells : ∀ row < screenHeight, ∀ column < screenWidth,
    screen.framebuffer (row * screenWidth + column) = terminal.cell (terminal.top + row) column
  below : ∀ row column, terminal.row < row → terminal.cell row column = blank

theorem Shows.y_lt {screen : Screen} {terminal : Terminal} (h : Shows screen terminal)
    : screen.y < screenHeight := by
  have y := h.y
  simp only [Terminal.top, screenHeight] at *
  omega

/-- What a loop leaves in each cell, when no round reads a cell that an earlier one wrote. By
induction on the rounds.
-/
theorem storeCells_framebuffer (value : Nat → (Nat → ScreenChar) → ScreenChar)
    (ahead : ∀ i cells cells', (∀ j, i ≤ j → cells j = cells' j) → value i cells = value i cells')
    (count first : Nat) (screen : Screen) (index : Nat)
    : (storeCells value count first screen).framebuffer index
      = if first ≤ index ∧ index < first + count then value index screen.framebuffer
        else screen.framebuffer index := by
  induction count generalizing first screen with
  | zero =>
      rw [storeCells, if_neg (by omega)]
  | succ count ih =>
      rw [storeCells, ih]
      by_cases here : index = first
      · subst here
        rw [if_neg (by omega), if_pos (by omega)]
        simp only [Screen.store, if_true]
      · by_cases later : first + 1 ≤ index ∧ index < first + 1 + count
        · rw [if_pos later, if_pos (by omega)]
          refine ahead index _ _ (fun j above => ?_)
          simp only [Screen.store]
          rw [if_neg (by omega)]
        · rw [if_neg later, if_neg (by omega)]
          simp only [Screen.store, if_neg here]

/-- A loop changes nothing but cells, and writes those that it passes. -/
theorem storeCells_rest (value : Nat → (Nat → ScreenChar) → ScreenChar) (count first : Nat)
    (screen : Screen)
    : (storeCells value count first screen).x = screen.x
      ∧ (storeCells value count first screen).y = screen.y
      ∧ (storeCells value count first screen).currentColor = screen.currentColor
      ∧ ∀ index ∈ (storeCells value count first screen).written,
        index ∈ screen.written ∨ index < first + count := by
  induction count generalizing first screen with
  | zero => exact ⟨rfl, rfl, rfl, fun index member => Or.inl member⟩
  | succ count ih =>
      obtain ⟨x, y, color, written⟩ :=
        ih (first + 1) (screen.store first (value first screen.framebuffer))
      refine ⟨x, y, color, fun index member => ?_⟩
      rcases written index member with before | below
      · rcases List.mem_cons.mp before with rfl | old
        · exact Or.inr (by omega)
        · exact Or.inl old
      · exact Or.inr (by omega)

/-- The window before `scroll`: it still starts at row `base`, and the cursor may stand one row
below it.
-/
structure Pending (base : Nat) (screen : Screen) (terminal : Terminal) : Prop where
  x : screen.x = terminal.column
  y : base + screen.y = terminal.row
  high : screen.y ≤ screenHeight
  low : base = 0 ∨ screenHeight - 1 ≤ screen.y
  color : screen.currentColor = terminal.color
  column : terminal.column < screenWidth
  cells : ∀ row < screenHeight, ∀ column < screenWidth,
    screen.framebuffer (row * screenWidth + column) = terminal.cell (base + row) column
  below : ∀ row column, terminal.row < row → terminal.cell row column = blank
  outside : ∀ row column, base + screenHeight ≤ row → terminal.cell row column = blank

section Pending

variable {base : Nat} {screen : Screen} {terminal : Terminal}

theorem Shows.pending (h : Shows screen terminal) : Pending terminal.top screen terminal where
  x := h.x
  y := h.y
  high := Nat.le_of_lt h.y_lt
  low := by
    have y := h.y
    simp only [Terminal.top, screenHeight] at *
    omega
  color := h.color
  column := h.column
  cells := h.cells
  below := h.below
  outside row column under := by
    apply h.below
    have y := h.y
    have inside := h.y_lt
    omega

/-- Writing the cell at the cursor. -/
theorem Pending.put (h : Pending base screen terminal) (inside : screen.y < screenHeight)
    (value : ScreenChar)
    : Pending base (screen.store (screen.y * screenWidth + screen.x) value)
        (terminal.put value) where
  x := h.x
  y := h.y
  high := h.high
  low := h.low
  color := h.color
  column := h.column
  cells row rowLt column columnLt := by
    have here : row * screenWidth + column = screen.y * screenWidth + screen.x
        ↔ base + row = terminal.row ∧ column = terminal.column := by
      have x := h.x
      have y := h.y
      have atX := h.column
      simp only [screenWidth] at *
      omega
    simp only [Screen.store, Terminal.put, here, h.cells row rowLt column columnLt]
  below row column above := by
    have under : terminal.row < row := above
    have elsewhere : ¬ (row = terminal.row ∧ column = terminal.column) := by omega
    simp only [Terminal.put]
    rw [if_neg elsewhere]
    exact h.below row column above
  outside row column under := by
    have elsewhere : ¬ (row = terminal.row ∧ column = terminal.column) := by
      have y := h.y
      omega
    simp only [Terminal.put]
    rw [if_neg elsewhere]
    exact h.outside row column under

theorem Pending.nextRow (h : Pending base screen terminal) (inside : screen.y < screenHeight)
    : Pending base { screen with x := 0, y := screen.y + 1 } terminal.nextRow where
  x := rfl
  y := by
    rw [← Nat.add_assoc, h.y]
    rfl
  high := inside
  low := h.low.imp_right (fun low => Nat.le_succ_of_le low)
  color := h.color
  column := Nat.zero_lt_succ 79
  cells := h.cells
  below row column above := h.below row column (Nat.lt_of_succ_lt above)
  outside := h.outside

/-- Going to a column, and wrapping behind the last one. -/
theorem Pending.goto (h : Pending base screen terminal) (inside : screen.y < screenHeight)
    (column : Nat)
    : Pending base (wrapLine { screen with x := column }) (terminal.goto column) := by
  by_cases fits : column < 80
  · have stays : ¬ 80 ≤ column := Nat.not_le.mpr fits
    rw [wrapLine, if_neg stays, Terminal.goto, if_pos fits]
    exact ⟨rfl, h.y, h.high, h.low, h.color, fits, h.cells, h.below, h.outside⟩
  · rw [wrapLine, if_pos (Nat.not_lt.mp fits), Terminal.goto, if_neg fits]
    exact h.nextRow inside

theorem wrapLine_of_lt (fits : screen.x < 80) : wrapLine screen = screen := by
  rw [wrapLine, if_neg (Nat.not_le.mpr fits)]

/-- The tab stop behind the cursor. -/
theorem tab_stop (x : Nat) : x + (4 - x % 4) = (x / 4 + 1) * 4 := by
  omega

/-- The cell in front of the cursor, or the first one of the row. -/
theorem back_column (screen : Screen)
    : (if screen.x ≠ 0 then { screen with x := screen.x - 1 } else screen)
      = { screen with x := screen.x - 1 } := by
  by_cases first : screen.x = 0
  · rw [if_neg (not_not.mpr first)]
    cases screen with
    | mk framebuffer x y currentColor cursorLocation written =>
        subst first
        rfl
  · rw [if_pos first]

/-- Telling the display where the cursor is. -/
theorem Shows.moveCursor (x : screen.x = terminal.column)
    (y : terminal.top + screen.y = terminal.row) (color : screen.currentColor = terminal.color)
    (column : terminal.column < screenWidth)
    (cells : ∀ row < screenHeight, ∀ column < screenWidth,
      screen.framebuffer (row * screenWidth + column) = terminal.cell (terminal.top + row) column)
    (below : ∀ row column, terminal.row < row → terminal.cell row column = blank)
    : Shows (moveCursor screen) terminal where
  x := x
  y := y
  location := by
    apply Nat.mod_eq_of_lt
    simp only [Terminal.top, screenWidth, screenHeight] at *
    omega
  color := color
  column := column
  cells := cells
  below := below

/-- The two loops of `scroll`: the rows move up by one and the last one is blank. -/
theorem scroll_rows (below : screenHeight ≤ screen.y)
    : (scroll screen).x = screen.x ∧ (scroll screen).y = screenHeight - 1
      ∧ (scroll screen).currentColor = screen.currentColor
      ∧ ∀ row < screenHeight, ∀ column < screenWidth,
        (scroll screen).framebuffer (row * screenWidth + column)
          = if row + 1 < screenHeight
            then screen.framebuffer ((row + 1) * screenWidth + column) else blank := by
  rw [scroll, if_pos below]
  dsimp only
  obtain ⟨movedX, -, movedColor, -⟩ := storeCells_rest
    (fun i cells => cells (i + screenWidth)) ((screenHeight - 1) * screenWidth) 0 screen
  have movedCells := storeCells_framebuffer (fun i cells => cells (i + screenWidth))
    (fun i cells cells' same => same _ (Nat.le_add_right _ _))
    ((screenHeight - 1) * screenWidth) 0 screen
  generalize storeCells (fun i cells => cells (i + screenWidth))
    ((screenHeight - 1) * screenWidth) 0 screen = moved at *
  obtain ⟨clearedX, -, clearedColor, -⟩ := storeCells_rest
    (fun _ _ => blank) screenWidth ((screenHeight - 1) * screenWidth) moved
  have clearedCells := storeCells_framebuffer (fun _ _ => blank)
    (fun _ _ _ _ => rfl) screenWidth ((screenHeight - 1) * screenWidth) moved
  generalize storeCells (fun _ _ => blank) screenWidth ((screenHeight - 1) * screenWidth) moved
    = cleared at *
  refine ⟨clearedX.trans movedX, rfl, clearedColor.trans movedColor,
    fun row rowLt column columnLt => ?_⟩
  rw [clearedCells, movedCells]
  by_cases next : row + 1 < screenHeight
  · have moves : row * screenWidth + column + screenWidth
        = (row + 1) * screenWidth + column := by
      rw [Nat.add_mul, Nat.one_mul, Nat.add_right_comm]
    rw [if_neg (by simp only [screenWidth, screenHeight] at *; omega), if_pos next]
    rw [if_pos (by simp only [screenWidth, screenHeight] at *; omega), moves]
  · rw [if_pos (by simp only [screenWidth, screenHeight] at *; omega), if_neg next]

/-- After `scroll` the window is the last 25 rows. A row can only be left at the top when the
cursor stands below the last one.
-/
theorem Pending.scrolled (h : Pending base screen terminal)
    : Shows (moveCursor (scroll screen)) terminal := by
  by_cases below : screenHeight ≤ screen.y
  · have y : screen.y = screenHeight := Nat.le_antisymm h.high below
    have top : terminal.top = base + 1 := by
      have row := h.y
      simp only [Terminal.top, screenHeight] at *
      omega
    obtain ⟨scrolledX, scrolledY, color, cells⟩ := scroll_rows below
    refine Shows.moveCursor (scrolledX.trans h.x) ?_ (color.trans h.color) h.column
      (fun row rowLt column columnLt => ?_) h.below
    · have row := h.y
      rw [scrolledY, top, ← row, y, Nat.add_assoc]
      rfl
    · rw [cells row rowLt column columnLt, top, Nat.add_assoc, Nat.add_comm 1 row]
      by_cases next : row + 1 < screenHeight
      · rw [if_pos next, h.cells (row + 1) next column columnLt]
      · rw [if_neg next, h.outside _ column (by omega)]
  · have top : terminal.top = base := by
      have row := h.y
      have low := h.low
      simp only [Terminal.top, screenHeight] at *
      omega
    rw [scroll, if_neg below]
    refine Shows.moveCursor h.x ?_ h.color h.column ?_ h.below
    · rw [top]
      exact h.y
    · rw [top]
      exact h.cells

/-- One character, up to `scroll`, by cases on its class. -/
theorem Shows.interpret (h : Shows screen terminal) (c : UInt8)
    : Pending terminal.top (wrapLine (interpretChar c screen)) (terminal.putChar c) := by
  have inside := h.y_lt
  have pending := h.pending
  have atX : screen.x < 80 := by
    rw [h.x]
    exact h.column
  rw [interpretChar, Terminal.putChar]
  by_cases backspace : c = 8
  · rw [if_pos backspace, if_pos backspace, back_column, ← h.x]
    have back := pending.goto inside (screen.x - 1)
    have before : screen.x - 1 < 80 := by omega
    rw [wrapLine_of_lt before] at back
    rw [wrapLine_of_lt before]
    exact back.put inside blank
  rw [if_neg backspace, if_neg backspace]
  by_cases tab : c = 9
  · rw [if_pos tab, if_pos tab, tab_stop, h.x]
    exact pending.goto inside _
  rw [if_neg tab, if_neg tab]
  by_cases newline : c = 10
  · rw [if_pos newline, if_pos newline, wrapLine_of_lt (Nat.zero_lt_succ 79)]
    exact pending.nextRow inside
  rw [if_neg newline, if_neg newline]
  by_cases carriageReturn : c = 13
  · rw [if_pos carriageReturn, if_pos carriageReturn]
    exact pending.goto inside 0
  rw [if_neg carriageReturn, if_neg carriageReturn]
  by_cases printable : 32 ≤ c ∧ c < 128
  · rw [if_pos printable, if_pos printable, ← h.x, ← h.color]
    exact (pending.put inside ⟨c, screen.currentColor⟩).goto inside (screen.x + 1)
  · rw [if_neg printable, if_neg printable, wrapLine_of_lt atX]
    exact pending

theorem Shows.putChar (h : Shows screen terminal) (c : UInt8)
    : Shows (screenPutChar c screen) (terminal.putChar c) :=
  (h.interpret c).scrolled

theorem Shows.setColor (h : Shows screen terminal) (color : ScreenColor)
    : Shows (screenSetColor color screen) { terminal with color } :=
  ⟨h.x, h.y, h.location, rfl, h.column, h.cells, h.below⟩

end Pending

/-- A cleared screen shows a terminal nothing was written to. -/
theorem screenClear_shows (screen : Screen)
    : Shows (screenClear screen) (Terminal.blank screen.currentColor) := by
  obtain ⟨-, -, color, -⟩ :=
    storeCells_rest (fun _ _ => blank) (screenWidth * screenHeight) 0 screen
  have cells := storeCells_framebuffer (fun _ _ => blank) (fun _ _ _ _ => rfl)
    (screenWidth * screenHeight) 0 screen
  rw [screenClear]
  generalize storeCells (fun _ _ => blank) (screenWidth * screenHeight) 0 screen = cleared at *
  refine Shows.moveCursor rfl rfl color (Nat.zero_lt_succ 79)
    (fun row rowLt column columnLt => ?_) (fun row column _ => rfl)
  simp only
  rw [cells, if_pos (by simp only [screenWidth, screenHeight] at *; omega)]
  rfl

-----------------------------------------------------------------------------------------
-- Inside the framebuffer
-----------------------------------------------------------------------------------------

/-- Every index written since `old` lies inside the framebuffer. -/
def WrittenInside (old written : List Nat) : Prop :=
  ∀ index ∈ written, index ∈ old ∨ index < screenWidth * screenHeight

section WrittenInside

variable {old : List Nat} {screen : Screen}

theorem WrittenInside.cons {written : List Nat} (h : WrittenInside old written) {index : Nat}
    (inside : index < screenWidth * screenHeight)
    : WrittenInside old (index :: written) := by
  intro other member
  rcases List.mem_cons.mp member with rfl | before
  · exact Or.inr inside
  · exact h other before

theorem WrittenInside.storeCells (h : WrittenInside old screen.written)
    (value : Nat → (Nat → ScreenChar) → ScreenChar) (count first : Nat)
    (inside : first + count ≤ screenWidth * screenHeight)
    : WrittenInside old (storeCells value count first screen).written := by
  obtain ⟨-, -, -, written⟩ := storeCells_rest value count first screen
  intro index member
  rcases written index member with before | below
  · exact h index before
  · exact Or.inr (Nat.lt_of_lt_of_le below inside)

theorem WrittenInside.scroll (h : WrittenInside old screen.written)
    : WrittenInside old (scroll screen).written := by
  rw [DeadKernel.scroll]
  dsimp only
  have moved := h.storeCells (fun i cells => cells (i + screenWidth))
    ((screenHeight - 1) * screenWidth) 0 (by simp only [screenWidth, screenHeight]; omega)
  generalize DeadKernel.storeCells (fun i cells => cells (i + screenWidth))
    ((screenHeight - 1) * screenWidth) 0 screen = top at *
  have cleared := moved.storeCells (fun _ _ => blank) screenWidth
    ((screenHeight - 1) * screenWidth) (by simp only [screenWidth, screenHeight]; omega)
  generalize DeadKernel.storeCells (fun _ _ => blank) screenWidth
    ((screenHeight - 1) * screenWidth) top = whole at *
  split
  · exact cleared
  · exact h

theorem WrittenInside.wrapLine (h : WrittenInside old screen.written)
    : WrittenInside old (wrapLine screen).written := by
  rw [DeadKernel.wrapLine]
  split
  · exact h
  · exact h

/-- Characters are stored at the cursor, or in front of it. -/
theorem WrittenInside.interpretChar (h : WrittenInside old screen.written)
    (x : screen.x < screenWidth) (y : screen.y < screenHeight) (c : UInt8)
    : WrittenInside old (interpretChar c screen).written := by
  have inside : ∀ column ≤ screen.x,
      screen.y * screenWidth + column < screenWidth * screenHeight := by
    intro column le
    simp only [screenWidth, screenHeight] at *
    omega
  rw [DeadKernel.interpretChar, back_column]
  split
  · exact h.cons (inside _ (Nat.sub_le _ _))
  split
  · exact h
  split
  · exact h
  split
  · exact h
  split
  · exact h.cons (inside _ (Nat.le_refl _))
  · exact h

theorem WrittenInside.screenPutChar (h : WrittenInside old screen.written)
    (x : screen.x < screenWidth) (y : screen.y < screenHeight) (c : UInt8)
    : WrittenInside old (screenPutChar c screen).written :=
  (h.interpretChar x y c).wrapLine.scroll

theorem WrittenInside.screenClear (screen : Screen)
    : WrittenInside screen.written (screenClear screen).written := by
  have start : WrittenInside screen.written screen.written := fun index member => Or.inl member
  have cleared := start.storeCells (fun _ _ => blank) (screenWidth * screenHeight) 0
    (by simp only [screenWidth, screenHeight]; omega)
  rw [DeadKernel.screenClear]
  generalize DeadKernel.storeCells (fun _ _ => blank) (screenWidth * screenHeight) 0 screen
    = whole at *
  exact cleared

end WrittenInside

-----------------------------------------------------------------------------------------
-- Runs
-----------------------------------------------------------------------------------------

inductive ScreenCall where
  | putChar (c : UInt8)
  | setColor (color : ScreenColor)

def screenStep : Simulation.Step ScreenCall Unit Screen
  | .putChar c, screen => ((), screenPutChar c screen)
  | .setColor color, screen => ((), screenSetColor color screen)

/-- The same calls on the terminal that never scrolls. -/
def terminalStep : Simulation.Step ScreenCall Unit Terminal
  | .putChar c, terminal => ((), terminal.putChar c)
  | .setColor color, terminal => ((), { terminal with color })

/-- `screenPutString`. -/
theorem screenPutString_run (string : List UInt8) (screen : Screen)
    : (Simulation.run screenStep (string.map .putChar) screen).2
      = string.foldl (fun screen c => screenPutChar c screen) screen := by
  induction string generalizing screen with
  | nil => rfl
  | cons c rest ih => exact ih (screenPutChar c screen)

theorem screenStep_simulates (old : List Nat)
    : Simulation.Simulates (fun screen terminal => Shows screen terminal ∧ WrittenInside old screen.written)
        screenStep terminalStep := by
  rintro (c | color) screen terminal ⟨shows, inside⟩
  · have x : screen.x < screenWidth := by
      rw [shows.x]
      exact shows.column
    exact ⟨rfl, shows.putChar c, inside.screenPutChar x shows.y_lt c⟩
  · exact ⟨rfl, shows.setColor color, inside⟩

/-- After any calls the screen is the window on the last 25 rows of the terminal. -/
theorem screen_shows_terminal (screen : Screen) (calls : List ScreenCall)
    : let last := (Simulation.run screenStep calls (screenClear screen)).2
      let terminal := (Simulation.run terminalStep calls (Terminal.blank screen.currentColor)).2
      last.x < 80 ∧ last.y < 25 ∧ Shows last terminal
        ∧ WrittenInside screen.written last.written := by
  intro last terminal
  obtain ⟨-, shows, inside⟩ := (screenStep_simulates screen.written).run calls
    ⟨screenClear_shows screen, WrittenInside.screenClear screen⟩
  have x : last.x < 80 := by
    rw [shows.x]
    exact shows.column
  exact ⟨x, shows.y_lt, shows, inside⟩

end DeadKernel
