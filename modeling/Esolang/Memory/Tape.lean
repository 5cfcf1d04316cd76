/-
  Esolang.Memory.Tape
  ───────────────────
  **A TAPE OF BYTES.**

  The tape begins as one zero cell and grows to the right when the cursor walks
  off its end.  The cursor never moves left of the first cell.  A tape is kept as
  the cell under the cursor and the cells on either side of it, so there always
  is a current cell.

    • `cursor_lt_length_cells` — the cursor stands on a cell.
    • `getElem?_cells_cursor` — the cell it stands on is `current`.
-/

namespace Esolang.Memory

/-! ## §1. Tapes -/

/-- A tape and the cursor on it. -/
structure Tape where
  /-- Cells left of the cursor, the nearest first. -/
  left : List UInt8 := []
  /-- The cell under the cursor. -/
  current : UInt8 := 0
  /-- Cells right of the cursor, the nearest first. -/
  right : List UInt8 := []
  deriving DecidableEq, Repr

namespace Tape

/-- One zero cell. -/
def blank : Tape :=
  ⟨[], 0, []⟩

/-- Index of the cell under the cursor. -/
def cursor (t : Tape) : Nat :=
  t.left.length

/-- All cells, from the left. -/
def cells (t : Tape) : List UInt8 :=
  t.left.reverse ++ t.current :: t.right

/-- Moves the cursor one cell to the left, if there is one. -/
def moveLeft (t : Tape) : Tape :=
  match t.left with
  | cell :: left => ⟨left, cell, t.current :: t.right⟩
  | [] => t

/-- Moves the cursor one cell to the right, onto a new zero cell at the end. -/
def moveRight (t : Tape) : Tape :=
  match t.right with
  | cell :: right => ⟨t.current :: t.left, cell, right⟩
  | [] => ⟨t.current :: t.left, 0, []⟩

/-- Writes the cell under the cursor. -/
def write (value : UInt8) (t : Tape) : Tape :=
  { t with current := value }

/-- Adds one to the cell under the cursor, modulo 256. -/
def increment (t : Tape) : Tape :=
  t.write (t.current + 1)

/-- Takes one from the cell under the cursor, modulo 256. -/
def decrement (t : Tape) : Tape :=
  t.write (t.current - 1)

/-- The character whose code is the cell under the cursor. -/
def glyph (t : Tape) : Char :=
  Char.ofNat t.current.toNat

/-! ## §2. The cursor stands on a cell -/

theorem length_cells (t : Tape) : t.cells.length = t.cursor + 1 + t.right.length := by
  simp [cells, cursor]; omega

theorem cursor_lt_length_cells (t : Tape) : t.cursor < t.cells.length := by
  rw [length_cells]; omega

theorem getElem?_cells_cursor (t : Tape) : t.cells[t.cursor]? = some t.current := by
  simp [cells, cursor]

end Tape

end Esolang.Memory
