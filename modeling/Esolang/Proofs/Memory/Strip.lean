/-
  Esolang.Proofs.Memory.Strip
  ───────────────────────────
  **THE TAPE AS ONE ROW OF CELLS.**

  A tape holds its current cell apart from the others.  A STRIP is the same cells
  in one row with the place of the cursor, and there the place may be wrong: off
  the row there is nothing to read, and nothing can be written.

    • `Strip.get?`, `Strip.set?` — reading and writing where the cursor stands,
    • `Tape.inRange` — every tape is a strip on which both succeed, and moves like
      one,
    • `cursor_moveLeft_le`, `cursor_moveRight` — no move takes the cursor further
      to the right than by one cell,
    • `cell` — a single cell, which is zero where the tape has not grown to.
-/
import Esolang.Memory.Tape

namespace Esolang.Memory

/-! ## §1. Strips. -/

/-- Cells in a row, from the left, and the place of the cursor. -/
structure Strip where
  cells : List UInt8
  cursor : Nat
  deriving DecidableEq, Repr

namespace Strip

/-- The cell at the cursor, if there is one. -/
def get? (s : Strip) : Option UInt8 :=
  s.cells[s.cursor]?

/-- Writes the cell at the cursor, if there is one. -/
def set? (value : UInt8) (s : Strip) : Option Strip :=
  if s.cursor < s.cells.length then some { s with cells := s.cells.set s.cursor value }
  else none

/-- One place to the left, but not off the row. -/
def left (s : Strip) : Strip :=
  { s with cursor := s.cursor - 1 }

/-- One place to the right.  The row grows by a zero cell if the cursor has come to its end. -/
def right (s : Strip) : Strip :=
  let cursor := s.cursor + 1
  ⟨if cursor = s.cells.length then s.cells ++ [0] else s.cells, cursor⟩

end Strip

/-! ## §2. A tape is a strip. -/

namespace Tape

/-- The tape as a strip. -/
def strip (t : Tape) : Strip :=
  ⟨t.cells, t.cursor⟩

theorem get?_strip (t : Tape) : t.strip.get? = some t.current :=
  t.getElem?_cells_cursor

theorem set?_strip (value : UInt8) (t : Tape) :
    t.strip.set? value = some (t.write value).strip := by
  have written : t.cells.set t.cursor value = (t.write value).cells := by
    simp [cells, cursor, write]
  show (if t.cursor < t.cells.length then some (Strip.mk (t.cells.set t.cursor value) t.cursor)
    else none) = some (Strip.mk (t.write value).cells t.cursor)
  rw [if_pos t.cursor_lt_length_cells, written]

theorem left_strip (t : Tape) : t.strip.left = t.moveLeft.strip := by
  obtain ⟨left, current, right⟩ := t
  cases left with
  | nil => rfl
  | cons cell left =>
    show Strip.mk ((cell :: left).reverse ++ current :: right) (left.length + 1 - 1)
      = Strip.mk (left.reverse ++ cell :: current :: right) left.length
    simp

/-- To move to the right is to put the current cell behind those to the left of it. -/
theorem cells_moveRight (t : Tape) :
    t.moveRight.cells = if t.cursor + 1 = t.cells.length then t.cells ++ [0] else t.cells := by
  rw [length_cells]
  obtain ⟨left, current, right⟩ := t
  cases right with
  | nil => simp [cells, moveRight]
  | cons cell right => simp [cells, moveRight]

theorem cursor_moveRight (t : Tape) : t.moveRight.cursor = t.cursor + 1 := by
  unfold moveRight
  split <;> rfl

theorem right_strip (t : Tape) : t.strip.right = t.moveRight.strip := by
  unfold strip Strip.right
  rw [cells_moveRight, cursor_moveRight]

/-- What is done on the tape can be done on its strip, and comes to the same. -/
structure InRange (t : Tape) : Prop where
  /-- The cell that is read is there. -/
  read : t.strip.get? = some t.current
  /-- The cell that is written is there. -/
  written : ∀ value, t.strip.set? value = some (t.write value).strip
  moved_left : t.strip.left = t.moveLeft.strip
  moved_right : t.strip.right = t.moveRight.strip

/-- **The cursor of a tape stands on a cell of its strip.** -/
theorem inRange (t : Tape) : t.InRange :=
  ⟨t.get?_strip, t.set?_strip, t.left_strip, t.right_strip⟩

/-! ## §3. How far the cursor moves. -/

theorem cursor_moveLeft_le (t : Tape) : t.moveLeft.cursor ≤ t.cursor := by
  unfold moveLeft cursor
  split
  · next left eq =>
    rw [eq]
    exact Nat.le_succ _
  · exact Nat.le_refl _

/-- A move to the left goes by one cell, if there is one. -/
theorem cursor_moveLeft (t : Tape) : t.moveLeft.cursor = t.cursor - 1 :=
  (congrArg Strip.cursor t.left_strip).symm

/-! ## §4. Single cells. -/

/-- The cell at an index, zero if the tape has not grown so far. -/
def cell (t : Tape) (n : Nat) : UInt8 :=
  t.cells.getD n 0

theorem cell_cursor (t : Tape) : t.cell t.cursor = t.current := by
  rw [cell, List.getD_eq_getElem?_getD, t.getElem?_cells_cursor]
  rfl

@[simp] theorem cell_moveLeft (t : Tape) (n : Nat) : t.moveLeft.cell n = t.cell n := by
  have cells : t.cells = t.moveLeft.cells := congrArg Strip.cells t.left_strip
  rw [cell, cell, cells]

@[simp] theorem cell_moveRight (t : Tape) (n : Nat) : t.moveRight.cell n = t.cell n := by
  rw [cell, cell, cells_moveRight]
  split
  · -- The new cell is what was read there before.
    simp only [List.getD_eq_getElem?_getD, List.getElem?_append]
    split
    · rfl
    · next past =>
      have beyond : t.cells[n]? = none := List.getElem?_eq_none (by omega)
      rw [beyond]
      cases n - t.cells.length <;> rfl
  · rfl

theorem cell_write (t : Tape) (value : UInt8) (n : Nat) :
    (t.write value).cell n = if n = t.cursor then value else t.cell n := by
  have written : (t.write value).cells = t.cells.set t.cursor value := by
    simp [cells, cursor, write]
  rw [cell, cell, written, List.getD_eq_getElem?_getD, List.getD_eq_getElem?_getD,
    List.getElem?_set]
  by_cases here : t.cursor = n
  · subst here
    rw [if_pos rfl, if_pos rfl, if_pos t.cursor_lt_length_cells]
    rfl
  · rw [if_neg here, if_neg (Ne.symm here)]

end Tape

end Esolang.Memory
