/-
  Esolang.Loop.Guard
  ──────────────────
  **WATCHING LOOPS FOR PROGRESS.**

  A loop that comes to its end twice with the same non-zero cell is taken to run
  for ever.  The guard remembers for the end of each loop that is being repeated
  the cell that it was last repeated with, and forgets it when the loop is left.
-/
import Esolang.Diagnostic.Basic

namespace Esolang.Loop

open Esolang.Diagnostic (Report)

/-! ## §1. Loops without progress -/

/-- A loop that comes to its end with the same cell again. -/
structure Stall where
  /-- Index of the cell. -/
  cursor : Nat
  /-- Its value. -/
  cell : UInt8
  deriving DecidableEq, Repr

/-- The stall in words. -/
def Stall.report (stall : Stall) : Report :=
  { kind := .infiniteLoop
    message := "loop makes no progress: cell " ++ toString stall.cursor ++ " is still "
      ++ toString stall.cell.toNat
    notes := ["the cell under the pointer held the same value on the previous pass"] }

/-! ## §2. The guard -/

/-- The cell each end of a loop was last passed with. -/
structure Guard where
  /-- Index of the end of a loop, and the cell. -/
  passes : List (Nat × UInt8) := []
  deriving DecidableEq, Repr

namespace Guard

/-- No loop is being repeated. -/
def fresh : Guard :=
  ⟨[]⟩

/-- The cell that the loop ending at `close` was last repeated with. -/
def last? (g : Guard) (close : Nat) : Option UInt8 :=
  g.passes.lookup close

/-- Forgets the loop that ends at `close`. -/
def forget (g : Guard) (close : Nat) : Guard :=
  ⟨g.passes.filter fun pass => pass.1 != close⟩

/-- Remembers that the loop ending at `close` is repeated with `cell`. -/
def remember (g : Guard) (close : Nat) (cell : UInt8) : Guard :=
  ⟨(close, cell) :: (g.forget close).passes⟩

/-! ## §3. Coming to the end of a loop -/

/-- What happens at the end of a loop. -/
inductive Arrival where
  /-- The cell is zero and the loop is left. -/
  | leave (guard : Guard)
  /-- The loop is repeated. -/
  | again (guard : Guard)
  /-- The cell is what it was one pass ago. -/
  | stalled
  deriving DecidableEq, Repr

/-- Comes to the end of the loop at `close` with this cell. -/
def arrive (g : Guard) (close : Nat) (cell : UInt8) : Arrival :=
  if cell = 0 then .leave (g.forget close)
  else if g.last? close = some cell then .stalled
  else .again (g.remember close cell)

end Guard

end Esolang.Loop
