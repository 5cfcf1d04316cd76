/-
  Esolang.Cow.Machine
  ───────────────────
  **RUNNING COW.**

  The machine has a tape of bytes and one register.  It works on a copy of the
  program, in which `mOO` replaces itself and then stays where it is, so that
  the replacement runs in the next cycle.  Loops are paired once, before the run:
  a loop command that `mOO` has written has no partner.
-/
import Esolang.Cow.Program
import Esolang.Loop.Guard
import Esolang.Machine.Run
import Esolang.Memory.Tape

namespace Esolang.Cow

open Esolang.Diagnostic (Report Finding)
open Esolang.Loop (Guard Stall)
open Esolang.Machine (Input Fetch Effect Settings Budget Run)
open Esolang.Memory (Tape)
open Esolang.Source (Token)

/-! ## §1. States and faults -/

/-- A state of the machine. -/
structure State where
  /-- The program as `mOO` has rewritten it. -/
  code : Array (Token Opcode)
  /-- Index of the next command. -/
  index : Nat
  /-- The tape. -/
  tape : Tape
  /-- The register, if it holds something. -/
  register : Option UInt8
  /-- The input that is left. -/
  input : Input
  /-- What has been printed. -/
  output : String
  /-- What is remembered about loops. -/
  guard : Guard

/-- Why a command cannot be executed. -/
inductive Fault where
  /-- A loop makes no progress. -/
  | stalled (stall : Stall)
  /-- No command that `mOO` may become has the cell's number. -/
  | unselectable (cell : UInt8)
  /-- A loop command written by `mOO` has no partner. -/
  | unpaired (op : Opcode)
  deriving DecidableEq, Repr

/-- The fault in words. -/
def Fault.report : Fault → Report
  | .stalled stall => stall.report
  | .unselectable cell =>
    { kind := .invalidOpcodeSelection
      message := "'mOO' cannot select command " ++ toString cell.toNat
      notes := ["valid selections are 0 to 10, excluding 3 ('mOO' itself)"] }
  | .unpaired op =>
    { kind := .mismatchedBracket
      message := "'" ++ op.triplet ++ "' written by 'mOO' has no matching loop command" }

/-! ## §2. The machine -/

namespace State

/-- The state in which a run begins. -/
def initial (program : Program) (input : Input) : State :=
  ⟨program.code, 0, .blank, none, input, "", .fresh⟩

/-- Goes on to the next command. -/
def advance (s : State) : State :=
  { s with index := s.index + 1 }

/-- Goes on to the command after the partner of `op`. -/
def jump (program : Program) (op : Opcode) (s : State) : Effect State Fault :=
  match program.loops.partner? s.index with
  | some partner => .next { s with index := partner + 1 }
  | none => .fault (.unpaired op)

/-- Puts `op` in the place of the command at hand. -/
def rewrite (op : Opcode) (s : State) : State :=
  { s with code := s.code.modify s.index fun slot => { slot with symbol := op } }

/-- Reads a byte into a zero cell and prints any other. -/
def exchange (s : State) : State :=
  if s.tape.current = 0 then
    let (byte, input) := s.input.readByte
    { s with tape := s.tape.write (byte.getD 0), input }
  else { s with output := s.output.push s.tape.glyph }

/-- Empties the register into the cell, or fills it with the cell. -/
def useRegister (s : State) : State :=
  match s.register with
  | some value => { s with tape := s.tape.write value, register := none }
  | none => { s with register := some s.tape.current }

/-- Prints the cell in decimal on a line of its own. -/
def printInt (s : State) : State :=
  { s with output := s.output ++ toString s.tape.current.toNat ++ "\n" }

/-- Reads an integer into the cell, modulo 256; what cannot be read is zero. -/
def readInt (s : State) : State :=
  let (value, input) := s.input.readInteger
  let cell := ((value.getD 0).toInt % 256).toNat.toUInt8
  { s with tape := s.tape.write cell, input }

end State

/-- Executes a command. -/
def execute (program : Program) (op : Opcode) (s : State) : Effect State Fault :=
  match op with
  | .loopClose =>
    match s.guard.arrive s.index s.tape.current with
    | .leave guard => .next { s with guard }.advance
    | .again guard => { s with guard }.jump program op
    | .stalled => .fault (.stalled ⟨s.tape.cursor, s.tape.current⟩)
  | .loopOpen => if s.tape.current = 0 then s.jump program op else .next s.advance
  | .left => .next { s with tape := s.tape.moveLeft }.advance
  | .right => .next { s with tape := s.tape.moveRight }.advance
  | .increment => .next { s with tape := s.tape.increment }.advance
  | .decrement => .next { s with tape := s.tape.decrement }.advance
  | .zero => .next { s with tape := s.tape.write 0 }.advance
  | .select =>
    match Opcode.ofCell? s.tape.current with
    | some selected => .next (s.rewrite selected)
    | none => .fault (.unselectable s.tape.current)
  | .exchange => .next s.exchange.advance
  | .register => .next s.useRegister.advance
  | .printInt => .next s.printInt.advance
  | .readInt => .next s.readInt.advance

/-- The machine that runs a program. -/
def machine (program : Program) : Machine State Opcode Fault where
  fetch s :=
    match s.code[s.index]? with
    | some token => .found token.symbol (.range token.span)
    | none => .finished
  execute := execute program

/-! ## §3. Runs -/

/-- Runs a program that has been read. -/
def Program.run (program : Program) (settings : Settings) : Run State Fault :=
  (machine program).run (.ofSettings settings none) (.initial program settings.input)

/-- Reads and runs a program: its last state, or what went wrong. -/
def run (source : String) (settings : Settings) : Except Finding State := do
  let program ← parse source
  (program.run settings).result Fault.report

end Esolang.Cow
