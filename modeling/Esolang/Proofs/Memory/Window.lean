/-
  Esolang.Proofs.Memory.Window
  ────────────────────────────
  **A TAPE IS A WINDOW OF AN ENDLESS ONE.**

  An ENDLESS tape has a cell at every place to the right of its first one.  Its cells hold
  integers and never wrap, all of them zero at first.  A tape that is driven by the same
  operations shows the first cells of it modulo 256: as many as the cursor has ever come
  to, and behind them nothing has been written.

    • `shows_perform` — one operation keeps a tape the window of an endless one,
    • `shows_after` — and so do any number of them, from a blank tape,
    • `cursor_after` — the cursor goes the walk of the moves, which is held at zero,
    • `isGreatest_reached` — the last cell is the rightmost place of that walk,
    • `window` — what a tape is after any operations.
-/
import Esolang.Proofs.Memory.Strip
import Mathlib.Data.List.Induction
import Mathlib.Logic.Function.Basic
import Mathlib.Order.Bounds.Basic

namespace Esolang.Memory

/-! ## §1. Operations. -/

/-- What can be done on a tape. -/
inductive Operation where
  | left
  | right
  | increment
  | decrement
  | write (value : UInt8)
  deriving DecidableEq, Repr

/-- By how many cells an operation moves the cursor to the right. -/
def Operation.move : Operation → Int
  | .left => -1
  | .right => 1
  | .increment | .decrement | .write _ => 0

/-- Where the moves of the operations lead: each goes one place on or back, but never
below zero. -/
def walk (ops : List Operation) : Int :=
  ops.foldl (fun place op => max 0 (place + op.move)) 0

/-- Performs an operation on a tape. -/
def Tape.perform (op : Operation) (t : Tape) : Tape :=
  match op with
  | .left => t.moveLeft
  | .right => t.moveRight
  | .increment => t.increment
  | .decrement => t.decrement
  | .write value => t.write value

/-- What a blank tape has become after the operations, from the first to the last. -/
def Tape.after (ops : List Operation) : Tape :=
  ops.foldl (fun t op => t.perform op) .blank

/-! ## §2. Endless tapes. -/

/-- A cell at every place, holding an integer, and the place of the cursor. -/
structure Endless where
  place : Nat
  cell : Nat → Int

namespace Endless

/-- Zero everywhere, with the cursor at the first place. -/
def blank : Endless :=
  ⟨0, fun _ => 0⟩

/-- Writes the cell at the cursor. -/
def write (value : Int) (e : Endless) : Endless :=
  { e with cell := Function.update e.cell e.place value }

/-- Performs an operation: nothing grows, and nothing wraps. -/
def perform (op : Operation) (e : Endless) : Endless :=
  match op with
  | .left => { e with place := e.place - 1 }
  | .right => { e with place := e.place + 1 }
  | .increment => e.write (e.cell e.place + 1)
  | .decrement => e.write (e.cell e.place - 1)
  | .write value => e.write value.toNat

/-- What a blank endless tape has become after the operations. -/
def after (ops : List Operation) : Endless :=
  ops.foldl (fun e op => e.perform op) blank

theorem cell_write (value : Int) (e : Endless) (n : Nat) :
    (e.write value).cell n = if n = e.place then value else e.cell n := by
  show Function.update e.cell e.place value n = _
  rw [Function.update_apply]

end Endless

@[simp] theorem walk_concat (ops : List Operation) (op : Operation) :
    walk (ops ++ [op]) = max 0 (walk ops + op.move) := by
  simp [walk]

@[simp] theorem Tape.after_concat (ops : List Operation) (op : Operation) :
    Tape.after (ops ++ [op]) = (Tape.after ops).perform op := by
  simp [Tape.after]

@[simp] theorem Endless.after_concat (ops : List Operation) (op : Operation) :
    Endless.after (ops ++ [op]) = (Endless.after ops).perform op := by
  simp [Endless.after]

/-! ## §3. One operation. -/

namespace Tape

/-- The tape shows the first cells of the endless one modulo 256, has its cursor at the
same place, and leaves out only cells that are zero. -/
structure Shows (t : Tape) (e : Endless) : Prop where
  cursor : t.cursor = e.place
  cell : ∀ n, ((t.cell n).toNat : Int) = e.cell n % 256
  beyond : ∀ n, t.cells.length ≤ n → e.cell n = 0

theorem length_cells_write (value : UInt8) (t : Tape) :
    (t.write value).cells.length = t.cells.length := by
  rw [length_cells, length_cells]
  rfl

theorem length_cells_moveLeft (t : Tape) : t.moveLeft.cells.length = t.cells.length := by
  have same : t.cells = t.moveLeft.cells := congrArg Strip.cells t.left_strip
  rw [← same]

/-- A move to the right adds a cell if it comes to a new place. -/
theorem length_cells_moveRight (t : Tape) :
    t.moveRight.cells.length = max (t.cursor + 2) t.cells.length := by
  have inside := t.cursor_lt_length_cells
  rw [cells_moveRight]
  split
  · rw [List.length_append, List.length_singleton]
    omega
  · omega

/-- **An operation adds a cell only for a new place of the cursor.** -/
theorem length_cells_perform (op : Operation) (t : Tape) :
    (t.perform op).cells.length = max ((t.perform op).cursor + 1) t.cells.length := by
  have inside := t.cursor_lt_length_cells
  cases op with
  | left =>
    show t.moveLeft.cells.length = max (t.moveLeft.cursor + 1) t.cells.length
    have back := t.cursor_moveLeft_le
    rw [length_cells_moveLeft]
    omega
  | right =>
    show t.moveRight.cells.length = max (t.moveRight.cursor + 1) t.cells.length
    rw [length_cells_moveRight, cursor_moveRight]
  | increment | decrement | write value =>
    show (t.write _).cells.length = max (t.cursor + 1) t.cells.length
    rw [length_cells_write]
    omega

/-- The cursor moves as the operation says, and is held at zero. -/
theorem cursor_perform (op : Operation) (t : Tape) :
    ((t.perform op).cursor : Int) = max 0 (t.cursor + op.move) := by
  cases op with
  | left =>
    show (t.moveLeft.cursor : Int) = max 0 ((t.cursor : Int) + -1)
    rw [cursor_moveLeft]
    omega
  | right =>
    show (t.moveRight.cursor : Int) = max 0 (t.cursor + 1)
    rw [cursor_moveRight]
    omega
  | increment | decrement | write value =>
    show (t.cursor : Int) = max 0 (t.cursor + 0)
    omega

/-- What is written on both tapes is the same modulo 256. -/
theorem Shows.write {t : Tape} {e : Endless} (shows : t.Shows e) {value : UInt8} {number : Int}
    (same : (value.toNat : Int) = number % 256) : (t.write value).Shows (e.write number) where
  cursor := shows.cursor
  cell n := by
    rw [cell_write, Endless.cell_write, shows.cursor]
    by_cases here : n = e.place
    · rw [if_pos here, if_pos here]
      exact same
    · rw [if_neg here, if_neg here]
      exact shows.cell n
  beyond n le := by
    -- The cursor stands on a cell, so it does not stand behind the last one.
    rw [length_cells_write] at le
    have inside := t.cursor_lt_length_cells
    rw [shows.cursor] at inside
    rw [Endless.cell_write, if_neg (by omega)]
    exact shows.beyond n le

/-- The current cell is the cell of the endless tape at its cursor. -/
theorem Shows.current {t : Tape} {e : Endless} (shows : t.Shows e) :
    (t.current.toNat : Int) = e.cell e.place % 256 := by
  rw [← t.cell_cursor, shows.cursor]
  exact shows.cell e.place

/-- **One operation keeps a tape the window of an endless one.** -/
theorem shows_perform {t : Tape} {e : Endless} (shows : t.Shows e) (op : Operation) :
    (t.perform op).Shows (e.perform op) := by
  have current := shows.current
  cases op with
  | left =>
    refine ⟨?_, ?_, ?_⟩
    · show t.moveLeft.cursor = e.place - 1
      rw [cursor_moveLeft, shows.cursor]
    · intro n
      show ((t.moveLeft.cell n).toNat : Int) = e.cell n % 256
      rw [cell_moveLeft]
      exact shows.cell n
    · intro n le
      replace le : t.moveLeft.cells.length ≤ n := le
      rw [length_cells_moveLeft] at le
      exact shows.beyond n le
  | right =>
    refine ⟨?_, ?_, ?_⟩
    · show t.moveRight.cursor = e.place + 1
      rw [cursor_moveRight, shows.cursor]
    · intro n
      show ((t.moveRight.cell n).toNat : Int) = e.cell n % 256
      rw [cell_moveRight]
      exact shows.cell n
    · intro n le
      replace le : t.moveRight.cells.length ≤ n := le
      rw [length_cells_moveRight] at le
      exact shows.beyond n (by omega)
  | increment =>
    -- A byte goes back to zero after 255, which is the next number modulo 256.
    apply shows.write
    have wraps : (t.current + 1).toNat = (t.current.toNat + 1) % 256 := UInt8.toNat_add _ _
    omega
  | decrement =>
    apply shows.write
    have wraps : (t.current - 1).toNat = (256 - 1 + t.current.toNat) % 256 := UInt8.toNat_sub _ _
    omega
  | write value =>
    apply shows.write
    have small := value.toNat_lt
    omega

theorem shows_blank : blank.Shows .blank where
  cursor := rfl
  cell n := by
    -- The one cell of a blank tape is zero, and what is not there is read as zero.
    cases n <;> rfl
  beyond _ _ := rfl

/-! ## §4. Many operations. -/

/-- **Driven by the same operations, a tape is the window of an endless one.** -/
theorem shows_after (ops : List Operation) : (after ops).Shows (.after ops) := by
  induction ops using List.reverseRecOn with
  | nil => exact shows_blank
  | append_singleton ops op ih =>
    rw [after_concat, Endless.after_concat]
    exact shows_perform ih op

/-- **The cursor goes the walk of the moves.** -/
theorem cursor_after (ops : List Operation) : ((after ops).cursor : Int) = walk ops := by
  induction ops using List.reverseRecOn with
  | nil => rfl
  | append_singleton ops op ih => rw [after_concat, cursor_perform, ih, walk_concat]

/-- The places that the cursor comes to on its walk, the first one included. -/
def reached (ops : List Operation) : Set Nat :=
  {place | ∃ before, before <+: ops ∧ walk before = place}

/-- One operation more reaches the place of the cursor behind it. -/
theorem reached_concat (ops : List Operation) (op : Operation) :
    reached (ops ++ [op]) = insert (after (ops ++ [op])).cursor (reached ops) := by
  ext place
  show (∃ before, before <+: ops ++ [op] ∧ walk before = place)
    ↔ place = (after (ops ++ [op])).cursor ∨ ∃ before, before <+: ops ∧ walk before = place
  simp only [List.prefix_concat_iff, or_and_right, exists_or, exists_eq_left]
  rw [← cursor_after, Int.natCast_inj, eq_comm]

/-- **The last cell is the rightmost place that the cursor has come to.** -/
theorem isGreatest_reached (ops : List Operation) :
    IsGreatest (reached ops) ((after ops).cells.length - 1) := by
  induction ops using List.reverseRecOn with
  | nil =>
    refine ⟨⟨[], List.nil_prefix, rfl⟩, ?_⟩
    intro place mem
    obtain ⟨before, pre, stands⟩ := mem
    rw [List.prefix_nil.mp pre] at stands
    have zero : (0 : Int) = place := stands
    omega
  | append_singleton ops op ih =>
    have further := ih.insert (after (ops ++ [op])).cursor
    have length := length_cells_perform op (after ops)
    rw [← after_concat] at length
    have inside := (after ops).cursor_lt_length_cells
    rw [reached_concat]
    have last : (after (ops ++ [op])).cells.length - 1
        = max (after (ops ++ [op])).cursor ((after ops).cells.length - 1) := by omega
    rw [last]
    exact further

/-- A tape never loses a cell. -/
theorem length_cells_after_le {before ops : List Operation} (pre : before <+: ops) :
    (after before).cells.length ≤ (after ops).cells.length := by
  have farther : reached before ⊆ reached ops := by
    intro place mem
    obtain ⟨shorter, pre', stands⟩ := mem
    exact ⟨shorter, pre'.trans pre, stands⟩
  have le := (isGreatest_reached ops).2 (farther (isGreatest_reached before).1)
  have inside := (after ops).cursor_lt_length_cells
  omega

/-- What a blank tape is after the operations. -/
structure Window (ops : List Operation) : Prop where
  /-- The cursor is where the moves lead, held at zero. -/
  cursor : ((after ops).cursor : Int) = walk ops
  /-- There is one cell more than the number of the rightmost place. -/
  length : ∃ rightmost, IsGreatest (reached ops) rightmost
    ∧ (after ops).cells.length = 1 + rightmost
  /-- On the way there were no more cells. -/
  grows : ∀ before, before <+: ops → (after before).cells.length ≤ (after ops).cells.length
  /-- Each cell is that of the endless tape, modulo 256. -/
  cell : ∀ (n : Nat) value, (after ops).cells[n]? = some value →
    (value.toNat : Int) = (Endless.after ops).cell n % 256
  /-- The other cells of the endless tape are zero. -/
  beyond : ∀ n, (after ops).cells.length ≤ n → (Endless.after ops).cell n = 0

/-- **A tape is a window of an endless one.** -/
theorem window (ops : List Operation) : Window ops where
  cursor := cursor_after ops
  length := by
    have inside := (after ops).cursor_lt_length_cells
    exact ⟨_, isGreatest_reached ops, by omega⟩
  grows _ pre := length_cells_after_le pre
  cell n value found := by
    have shown := (shows_after ops).cell n
    rw [cell, List.getD_eq_getElem?_getD, found] at shown
    exact shown
  beyond := (shows_after ops).beyond

/-- Two cells to the right and one back, with a wrap below zero on the way. -/
example : (after [.right, .decrement, .right, .left]).cells = [0, 255, 0] := by
  decide

end Tape

end Esolang.Memory
