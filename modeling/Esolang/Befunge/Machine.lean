/-
  Esolang.Befunge.Machine
  ───────────────────────
  **RUNNING BEFUNGE-93.**

  The machine reads the character under its pointer, does what it says, and
  moves the pointer.  In string mode, between two quotes, it pushes the codes of
  the characters instead.  A program without `@`, or with an odd number of
  quotes, is refused before it runs.
-/
import Esolang.Befunge.Grid
import Esolang.Befunge.Instruction
import Esolang.Machine.Run
import Esolang.Memory.Stack

namespace Esolang.Befunge

open Esolang.Diagnostic (Report Site Finding)
open Esolang.Machine (Input Fetch Effect Settings Budget Run)
open Esolang.Memory (Stack)
open Esolang.Memory.Word (toChar? ofChar ofBool decimal)

/-! ## §1. Programs that never halt -/

/-- Why a program is refused. -/
inductive Refusal where
  /-- It has no `@`. -/
  | noHalt
  /-- It has an odd number of quotes. -/
  | openString (quotes : Nat)
  deriving DecidableEq, Repr

/-- The refusal in words. -/
def Refusal.message : Refusal → String
  | .noHalt => "program has no '@' and can never halt"
  | .openString quotes =>
    "odd number of '\"' (" ++ toString quotes ++ "): string mode never closes"

/-- The refusal as a report. -/
def Refusal.report (refusal : Refusal) : Report :=
  { kind := .noTermination
    message := refusal.message
    suggestion := some "add an '@' on the instruction pointer's path and close every string" }

/-- Why a source text is refused, if it is. -/
def refusal? (source : String) : Option Refusal :=
  let text := source.toList
  let quotes := text.count '"'
  if '@' ∉ text then some .noHalt
  else if quotes % 2 ≠ 0 then some (.openString quotes)
  else none

/-! ## §2. States and faults -/

/-- How characters are read. -/
inductive Mode where
  /-- As instructions. -/
  | literal
  /-- As parts of a string. -/
  | string
  deriving DecidableEq, Repr

/-- A state of the machine. -/
structure State where
  /-- The grid as `p` has rewritten it. -/
  grid : Grid
  /-- The pointer. -/
  pointer : Pointer
  /-- How characters are read. -/
  mode : Mode
  /-- The stack. -/
  stack : Stack
  /-- The input that is left. -/
  input : Input
  /-- What has been printed. -/
  output : String
  /-- Number of directions drawn. -/
  draws : Nat

/-- Why an instruction cannot be executed. -/
inductive Fault where
  /-- The instruction needs a value that is not there. -/
  | underflow (symbol : Char)
  /-- The divisor is zero. -/
  | divisionByZero
  /-- The value is no code of a character. -/
  | notACharacter (value : Int64)
  /-- The character is no instruction. -/
  | unknown (symbol : Char) (x y : Nat)
  deriving DecidableEq, Repr

/-- The fault in words. -/
def Fault.report : Fault → Report
  | .underflow symbol =>
    { Memory.StackFault.empty.report with
      notes := ["'" ++ symbol.toString ++ "' needs a value from the stack"] }
  | .divisionByZero => Memory.StackFault.divisionByZero.report
  | .notACharacter value =>
    { kind := .invalidCharacter, message := decimal value ++ " is not a character code" }
  | .unknown symbol x y =>
    { kind := .unknownSymbol
      message := "unknown symbol '" ++ symbol.toString ++ "' at (" ++ toString x ++ ", "
        ++ toString y ++ ")"
      notes := ["positions are (column, row), counted from 0"] }

namespace State

/-- The state in which a run begins. -/
def initial (source : String) (input : Input) : State :=
  ⟨.ofSource source, .origin, .literal, .nothing, input, "", 0⟩

/-- The character under the pointer.  The pointer never leaves the grid; a place
off the grid would read as a space. -/
def symbol (s : State) : Char :=
  (s.grid.get? s.pointer.x s.pointer.y).getD ' '

/-- The place of the pointer in the source. -/
def site (s : State) : Site :=
  .point (s.pointer.y + 1) (s.pointer.x + 1)

/-- Moves the pointer. -/
def advance (s : State) : State :=
  { s with pointer := s.pointer.advance s.grid }

/-- Turns the pointer. -/
def turn (direction : Direction) (s : State) : State :=
  { s with pointer := s.pointer.turn direction }

/-- Pushes a value. -/
def push (value : Int64) (s : State) : State :=
  { s with stack := s.stack.push value }

/-- Prints a text. -/
def print (text : String) (s : State) : State :=
  { s with output := s.output ++ text }

end State

/-! ## §3. Instructions -/

/-- Pops a value for the instruction `symbol`. -/
def pop (symbol : Char) (s : State) : Except Fault (Int64 × State) :=
  match s.stack.pop? with
  | some (value, stack) => .ok (value, { s with stack })
  | none => .error (.underflow symbol)

/-- The character with this code. -/
def character (value : Int64) : Except Fault Char :=
  match toChar? value with
  | some c => .ok c
  | none => .error (.notACharacter value)

/-- Executes a binary operator. -/
def binary (operator : Operator) (symbol : Char) (s : State) : Except Fault State := do
  let (a, s) ← pop symbol s
  let (b, s) ← pop symbol s
  match operator.apply b a with
  | some value => return s.push value
  | none => throw .divisionByZero

/-- Pops a value, taken as zero if there is none, and turns by it. -/
def branch (onZero otherwise : Direction) (s : State) : State :=
  let (value, stack) := s.stack.popOrZero
  { s with stack }.turn (if value = 0 then onZero else otherwise)

/-- Pops a row and a column and pushes the code of the cell there, or zero. -/
def fetchCell (symbol : Char) (s : State) : Except Fault State := do
  let (y, s) ← pop symbol s
  let (x, s) ← pop symbol s
  return s.push (((s.grid.fetch? x y).map ofChar).getD 0)

/-- Pops a row, a column and a code and writes the cell there, if there is one.
The code is looked at first. -/
def storeCell (symbol : Char) (s : State) : Except Fault State := do
  let (y, s) ← pop symbol s
  let (x, s) ← pop symbol s
  let (value, s) ← pop symbol s
  let c ← character value
  return { s with grid := s.grid.store x y c }

/-- Executes the instruction that `symbol` is; the pointer moves afterwards.  To
halt is not its business and changes nothing. -/
def perform (draws : Draws) (instr : Instr) (symbol : Char) (s : State) :
    Except Fault State :=
  match instr with
  | .blank => return s
  | .halt => return s
  | .turn direction => return s.turn direction
  | .draw => return { s.turn (draws s.draws) with draws := s.draws + 1 }
  | .quote => return { s with mode := .string }
  | .bridge => return s.advance
  | .digit value => return s.push (Int64.ofNat value)
  | .operate operator => binary operator symbol s
  | .not => do
    let (a, s) ← pop symbol s
    return s.push (ofBool (a = 0))
  | .branch onZero otherwise => return branch onZero otherwise s
  | .duplicate => return { s with stack := s.stack.duplicate }
  | .swap => return { s with stack := s.stack.swap }
  | .discard => do
    let (_, s) ← pop symbol s
    return s
  | .printInt => do
    let (a, s) ← pop symbol s
    return s.print (decimal a ++ " ")
  | .printChar => do
    let (a, s) ← pop symbol s
    let c ← character a
    return s.print c.toString
  | .fetch => fetchCell symbol s
  | .store => storeCell symbol s
  | .readInt =>
    let (value, input) := s.input.readInteger
    return { s with input }.push (value.getD (-1))
  | .readChar =>
    let (c, input) := s.input.readChar
    return { s with input }.push ((c.map ofChar).getD (-1))

/-- Reads a character as part of a string; a quote ends it. -/
def collect (symbol : Char) (s : State) : State :=
  if symbol = '"' then { s with mode := .literal } else s.push (ofChar symbol)

/-- Executes the character under the pointer and moves on. -/
def execute (draws : Draws) (symbol : Char) (s : State) : Effect State Fault :=
  match s.mode with
  | .string => .next (collect symbol s).advance
  | .literal =>
    match Instr.ofChar? symbol with
    | some .halt => .halt s
    | some instr =>
      match perform draws instr symbol s with
      | .ok s => .next s.advance
      | .error fault => .fault fault
    | none => .fault (.unknown symbol s.pointer.x s.pointer.y)

/-! ## §4. The machine and its runs -/

/-- The machine that takes its directions from `draws`.  If `cancelAt` is the
number of a draw, that draw trips the token. -/
def machine (draws : Draws) (cancelAt : Option Nat) : Machine State Char Fault where
  fetch s := .found s.symbol s.site
  execute := execute draws
  trips s := match cancelAt with
    | some k => decide (k < s.draws)
    | none => false

/-- The most cycles of a run, unless its settings say otherwise. -/
def defaultLimit : Nat :=
  100000

/-- Runs a program that is not refused. -/
def runGrid (draws : Draws) (cancelAt : Option Nat) (source : String) (settings : Settings) :
    Run State Fault :=
  (machine draws cancelAt).run (.ofSettings settings (some defaultLimit))
    (.initial source settings.input)

/-- What comes of a program, how far it ran and how often it drew a direction. -/
structure Outcome where
  /-- The last state, or what went wrong. -/
  result : Except Finding State
  /-- Number of cycles taken. -/
  cycles : Nat
  /-- Number of directions drawn. -/
  draws : Nat

/-- Runs a program whose directions come from `draws`, after it has been checked. -/
def runWith (draws : Draws) (cancelAt : Option Nat) (source : String) (settings : Settings) :
    Outcome :=
  match refusal? source with
  | some refusal => ⟨.error ⟨refusal.report, .finish⟩, 0, 0⟩
  | none =>
    let run := runGrid draws cancelAt source settings
    ⟨run.result Fault.report, run.cycles, run.state.draws⟩

/-- Runs a program with the directions that its settings have it draw. -/
def run (source : String) (settings : Settings) : Except Finding State :=
  (runWith settings.draws none source settings).result

end Esolang.Befunge
