/-
  Esolang.Brainfuck.Machine
  ─────────────────────────
  **RUNNING BRAINFUCK.**

  The machine has a tape of bytes and walks over the instructions of a program.
  The end of a loop goes back to the instruction after its beginning, without
  testing the cell again, and fails if the loop makes no progress.
-/
import Esolang.Brainfuck.Program
import Esolang.Loop.Guard
import Esolang.Machine.Run
import Esolang.Memory.Tape

namespace Esolang.Brainfuck

open Esolang.Diagnostic (Report Finding)
open Esolang.Loop (Guard Stall)
open Esolang.Machine (Input Fetch Effect Settings Budget Run)
open Esolang.Memory (Tape)

/-! ## §1. States -/

/-- A state of the machine. -/
structure State where
  /-- Index of the next instruction. -/
  index : Nat
  /-- The tape. -/
  tape : Tape
  /-- The input that is left. -/
  input : Input
  /-- What has been printed. -/
  output : String
  /-- What is remembered about loops. -/
  guard : Guard

/-- A loop without progress, in the words of the language. -/
def stalled (stall : Stall) : Report :=
  { stall.report with
    suggestion := some "change the cell inside the loop so it eventually reaches 0" }

/-! ## §2. The machine -/

namespace State

/-- The state in which a run begins. -/
def initial (input : Input) : State :=
  ⟨0, .blank, input, "", .fresh⟩

/-- Goes on to the next instruction. -/
def advance (s : State) : State :=
  { s with index := s.index + 1 }

/-- Goes on to the instruction after the partner of this one.  In a program that
was read every loop instruction has a partner. -/
def jump (program : Program) (s : State) : State :=
  { s with index := (program.loops.partner? s.index).getD s.index + 1 }

end State

/-- Executes an instruction. -/
def execute (program : Program) (instr : Instr) (s : State) : Effect State Stall :=
  match instr with
  | .right => .next { s with tape := s.tape.moveRight }.advance
  | .left => .next { s with tape := s.tape.moveLeft }.advance
  | .increment => .next { s with tape := s.tape.increment }.advance
  | .decrement => .next { s with tape := s.tape.decrement }.advance
  | .output => .next { s with output := s.output.push s.tape.glyph }.advance
  | .input =>
    let (byte, input) := s.input.readByte
    .next { s with tape := s.tape.write (byte.getD 0), input }.advance
  | .loopOpen => .next (if s.tape.current = 0 then s.jump program else s.advance)
  | .loopClose =>
    match s.guard.arrive s.index s.tape.current with
    | .leave guard => .next { s with guard }.advance
    | .again guard => .next ({ s with guard }.jump program)
    | .stalled => .fault ⟨s.tape.cursor, s.tape.current⟩

/-- The machine that runs a program. -/
def machine (program : Program) : Machine State Instr Stall where
  fetch s :=
    match program.code[s.index]? with
    | some token => .found token.symbol (.range token.span)
    | none => .finished
  execute := execute program

/-! ## §3. Runs -/

/-- Runs a program that has been read. -/
def Program.run (program : Program) (settings : Settings) : Run State Stall :=
  (machine program).run (.ofSettings settings none) (.initial settings.input)

/-- Reads and runs a program: its last state, or what went wrong. -/
def run (source : String) (settings : Settings) : Except Finding State := do
  let program ← parse source
  (program.run settings).result stalled

end Esolang.Brainfuck
