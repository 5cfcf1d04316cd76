/-
  Esolang.Befunge.Instruction
  ───────────────────────────
  **THE INSTRUCTIONS OF BEFUNGE-93.**

  Every instruction is one character.  Six of them are binary operators on the
  two top values of the stack, with the deeper value on the left.
-/
import Esolang.Befunge.Direction
import Esolang.Memory.Word

namespace Esolang.Befunge

open Esolang.Memory.Word (floorDiv? floorMod? ofBool)

/-! ## §1. Binary operators -/

/-- The binary operators. -/
inductive Operator where
  | add
  | subtract
  | multiply
  | divide
  | modulo
  | greater
  deriving DecidableEq, Repr

/-- What an operator makes of the deeper value `b` and the top value `a`; nothing
for a divisor of zero. -/
def Operator.apply : Operator → Int64 → Int64 → Option Int64
  | .add, b, a => some (b + a)
  | .subtract, b, a => some (b - a)
  | .multiply, b, a => some (b * a)
  | .divide, b, a => floorDiv? b a
  | .modulo, b, a => floorMod? b a
  | .greater, b, a => some (ofBool (b > a))

/-! ## §2. Instructions -/

/-- The instructions. -/
inductive Instr where
  /-- Does nothing. -/
  | blank
  /-- Halts the program. -/
  | halt
  /-- Turns to a direction. -/
  | turn (direction : Direction)
  /-- Turns to a direction that is drawn. -/
  | draw
  /-- Begins or ends a string. -/
  | quote
  /-- Jumps over the next cell. -/
  | bridge
  /-- Pushes a digit. -/
  | digit (value : Nat)
  /-- Applies a binary operator. -/
  | operate (operator : Operator)
  /-- Pushes one for zero, and zero for anything else. -/
  | not
  /-- Pops a value and turns by whether it is zero. -/
  | branch (onZero otherwise : Direction)
  /-- Pushes the top value once more. -/
  | duplicate
  /-- Exchanges the two top values. -/
  | swap
  /-- Pops a value. -/
  | discard
  /-- Prints a value in decimal, and a space. -/
  | printInt
  /-- Prints the character whose code is a value. -/
  | printChar
  /-- Pushes the code of a cell. -/
  | fetch
  /-- Writes a cell. -/
  | store
  /-- Reads an integer. -/
  | readInt
  /-- Reads a character. -/
  | readChar
  deriving DecidableEq, Repr

/-- The instruction that a character other than a digit and a grave accent is. -/
def Instr.ofMark? : Char → Option Instr
  | ' ' => some .blank
  | '@' => some .halt
  | '>' => some (.turn .right)
  | '<' => some (.turn .left)
  | '^' => some (.turn .up)
  | 'v' => some (.turn .down)
  | '?' => some .draw
  | '"' => some .quote
  | '#' => some .bridge
  | '+' => some (.operate .add)
  | '-' => some (.operate .subtract)
  | '*' => some (.operate .multiply)
  | '/' => some (.operate .divide)
  | '%' => some (.operate .modulo)
  | '!' => some .not
  | '_' => some (.branch .right .left)
  | '|' => some (.branch .down .up)
  | ':' => some .duplicate
  | '\\' => some .swap
  | '$' => some .discard
  | '.' => some .printInt
  | ',' => some .printChar
  | 'g' => some .fetch
  | 'p' => some .store
  | '&' => some .readInt
  | '~' => some .readChar
  | _ => none

/-- The code of the grave accent. -/
def graveCode : Nat :=
  0x60

/-- The instruction that a character is. -/
def Instr.ofChar? (c : Char) : Option Instr :=
  if c.isDigit then some (.digit (c.toNat - 48))
  else if c.toNat = graveCode then some (.operate .greater)
  else Instr.ofMark? c

end Esolang.Befunge
