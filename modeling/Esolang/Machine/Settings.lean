/-
  Esolang.Machine.Settings
  ────────────────────────
  **THE SETTINGS OF A RUN.**

  What the caller of a run decides: the name of the file in diagnostics, the
  input, the seed of random directions, and the bounds of the run; and what the
  run finds around it: a clock, and a source of random directions.
-/
import Esolang.Befunge.Direction
import Esolang.Machine.Input

namespace Esolang.Machine

open Esolang.Befunge (Draws)

/-! ## §1. Lengths of time -/

/-- A length of time. -/
structure Duration where
  /-- Its nanoseconds. -/
  nanos : Nat
  deriving DecidableEq, Repr

namespace Duration

/-- So many milliseconds. -/
def ofMillis (millis : Nat) : Duration :=
  ⟨millis * 1000000⟩

/-- The whole milliseconds of a length of time. -/
def millis (d : Duration) : Nat :=
  d.nanos / 1000000

end Duration

/-! ## §2. Surroundings and settings -/

/-- What a run finds around it. -/
structure Surroundings where
  /-- Nanoseconds that have passed when so many cycles are done. -/
  clock : Nat → Nat := fun _ => 0
  /-- The longest time after which the clock still has an instant to show.  How long it
  is hangs on the clock; one that counts seconds in 63 bits comes to no more than this. -/
  horizon : Duration := ⟨UInt64.size / 2 * 1000000000⟩
  /-- The seed that is taken where none is given. -/
  freshSeed : UInt64 := 0
  /-- The directions that are drawn from a seed. -/
  generator : UInt64 → Draws := .seeded

/-- What the caller of a run decides, and what the run finds around it. -/
structure Settings extends Surroundings where
  /-- Name of the program's file; each language has a name for programs without one. -/
  file : Option String := none
  /-- The most cycles a run may take. -/
  maxSteps : Option Nat := none
  /-- The input. -/
  input : Input := ⟨[]⟩
  /-- Seed of random directions. -/
  seed : Option UInt64 := none
  /-- How long a run may take. -/
  timeout : Option Duration := none
  /-- A token by which the run can be cancelled, and whether it is tripped already. -/
  token : Option Bool := none

namespace Settings

/-- Nanoseconds until a run with these settings has to end.  A timeout too long for the
clock leaves it without a deadline. -/
def deadline (settings : Settings) : Option Nat :=
  match settings.timeout with
  | some timeout => if timeout.nanos ≤ settings.horizon.nanos then some timeout.nanos else none
  | none => none

/-- The directions that a run draws. -/
def draws (settings : Settings) : Draws :=
  settings.generator (settings.seed.getD settings.freshSeed)

end Settings

end Esolang.Machine
