/-
  Esolang.Befunge.Grid
  ────────────────────
  **THE GRID OF A BEFUNGE PROGRAM.**

  The lines of a program are the rows of a grid, filled up with spaces to the
  length of the longest.  The grid is a torus: a pointer that leaves it on one
  side comes back on the other.

    • `height_put`, `width_put` — writing a cell changes no extent.
-/
import Esolang.Befunge.Direction
import Esolang.Source.Lines

namespace Esolang.Befunge

open Esolang.Source (lines)

/-! ## §1. Grids -/

/-- A rectangle of characters. -/
structure Grid where
  /-- Number of columns. -/
  width : Nat
  /-- The rows, from the top. -/
  rows : Array (Array Char)
  deriving DecidableEq, Repr

namespace Grid

/-- Number of rows. -/
def height (g : Grid) : Nat :=
  g.rows.size

/-- A line without one carriage return at its end. -/
def dropReturn (line : List Char) : List Char :=
  if line.getLast? = some '\r' then line.dropLast else line

/-- Fills a row up with spaces. -/
def fill (width : Nat) (row : List Char) : Array Char :=
  row.toArray ++ Array.replicate (width - row.length) ' '

/-- The grid of a source text, at least one cell wide. -/
def ofSource (source : String) : Grid :=
  let rows := (lines source.toList).map dropReturn
  let width := rows.foldl (fun widest row => max widest row.length) 1
  ⟨width, (rows.map (fill width)).toArray⟩

/-- The cell in column `x` and row `y`, if it lies on the grid. -/
def get? (g : Grid) (x y : Nat) : Option Char := do
  let row ← g.rows[y]?
  row[x]?

/-- Writes the cell in column `x` and row `y`, if it lies on the grid. -/
def put (g : Grid) (x y : Nat) (c : Char) : Grid :=
  { g with rows := g.rows.modify y fun row => row.setIfInBounds x c }

/-- Coordinates that are not negative. -/
def coordinates? (x y : Int64) : Option (Nat × Nat) :=
  if 0 ≤ x.toInt ∧ 0 ≤ y.toInt then some (x.toInt.toNat, y.toInt.toNat) else none

/-- The cell at coordinates that may be anything. -/
def fetch? (g : Grid) (x y : Int64) : Option Char := do
  let (x, y) ← coordinates? x y
  g.get? x y

/-- Writes the cell at coordinates that may be anything, if it lies on the grid. -/
def store (g : Grid) (x y : Int64) (c : Char) : Grid :=
  match coordinates? x y with
  | some (x, y) => g.put x y c
  | none => g

/-- The rows as texts. -/
def texts (g : Grid) : List String :=
  g.rows.toList.map fun row => String.ofList row.toList

/-! ## §2. Writing changes no extent -/

@[simp] theorem width_put (g : Grid) (x y : Nat) (c : Char) : (g.put x y c).width = g.width := rfl

@[simp] theorem height_put (g : Grid) (x y : Nat) (c : Char) :
    (g.put x y c).height = g.height := by
  simp [put, height]

@[simp] theorem width_store (g : Grid) (x y : Int64) (c : Char) :
    (g.store x y c).width = g.width := by
  unfold store
  split <;> simp

@[simp] theorem height_store (g : Grid) (x y : Int64) (c : Char) :
    (g.store x y c).height = g.height := by
  unfold store
  split <;> simp

end Grid

/-! ## §3. Pointers -/

/-- A place on the grid and the direction of the next move. -/
structure Pointer where
  /-- Column, from zero. -/
  x : Nat
  /-- Row, from zero. -/
  y : Nat
  /-- Direction of the next move. -/
  direction : Direction
  deriving DecidableEq, Repr

namespace Pointer

/-- The top left cell, about to move right. -/
def origin : Pointer :=
  ⟨0, 0, .right⟩

/-- One step forward on a circle of `extent` places. -/
def forth (extent place : Nat) : Nat :=
  (place + 1) % extent

/-- One step back on a circle of `extent` places. -/
def back (extent place : Nat) : Nat :=
  (place + extent - 1) % extent

/-- One move on the torus of a grid. -/
def advance (g : Grid) (p : Pointer) : Pointer :=
  match p.direction with
  | .right => { p with x := forth g.width p.x }
  | .left => { p with x := back g.width p.x }
  | .up => { p with y := back g.height p.y }
  | .down => { p with y := forth g.height p.y }

/-- Turns to a direction. -/
def turn (direction : Direction) (p : Pointer) : Pointer :=
  { p with direction }

end Pointer

end Esolang.Befunge
