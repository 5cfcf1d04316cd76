/-
  Esolang.Brainfuck.Program
  ─────────────────────────
  **BRAINFUCK PROGRAMS.**

  Eight characters are instructions and all others comments.  A program is its
  instructions with their spans, and the pairing of its loops.
-/
import Esolang.Source.Token
import Esolang.Loop.Pairing

namespace Esolang.Brainfuck

open Esolang.Source (Span Token tokens)
open Esolang.Loop (Bracket Pairing PairingFault brackets)
open Esolang.Diagnostic (Report Site Finding)

/-! ## §1. Instructions -/

/-- The instructions. -/
inductive Instr where
  /-- Moves the cursor to the right. -/
  | right
  /-- Moves the cursor to the left. -/
  | left
  /-- Adds one to the cell. -/
  | increment
  /-- Takes one from the cell. -/
  | decrement
  /-- Prints the cell as a character. -/
  | output
  /-- Reads a byte into the cell. -/
  | input
  /-- Begins a loop, which is skipped if the cell is zero. -/
  | loopOpen
  /-- Ends a loop, which is repeated unless the cell is zero. -/
  | loopClose
  deriving DecidableEq, Repr

namespace Instr

/-- The instruction written by a character. -/
def ofChar? : Char → Option Instr
  | '>' => some .right
  | '<' => some .left
  | '+' => some .increment
  | '-' => some .decrement
  | '.' => some .output
  | ',' => some .input
  | '[' => some .loopOpen
  | ']' => some .loopClose
  | _ => none

/-- Which end of a loop the instruction is, if any. -/
def bracket? : Instr → Option Bracket
  | .loopOpen => some .opening
  | .loopClose => some .closing
  | _ => none

end Instr

/-! ## §2. Programs -/

/-- A program whose loops are paired. -/
structure Program where
  /-- The instructions with their spans. -/
  code : Array (Token Instr)
  /-- The partners of the loop instructions. -/
  loops : Pairing

/-- The instructions of a source text. -/
def scan (source : String) : List (Token Instr) :=
  tokens Instr.ofChar? source

/-- Pairs the loops among instructions. -/
def pair (code : List (Token Instr)) : Except PairingFault Pairing :=
  Pairing.ofBrackets (brackets Instr.bracket? (code.map Token.symbol))

/-- A loop instruction without partner, in the words of the language. -/
def unpaired : PairingFault → Report
  | .unmatchedClose _ =>
    { kind := .mismatchedBracket, message := "unmatched ']'"
      suggestion := some "add a '[' before it or remove it" }
  | .unclosedOpen _ =>
    { kind := .trailingBracket, message := "'[' is never closed"
      suggestion := some "add the missing ']'" }

/-- The site of the instruction at `index`. -/
def siteAt (code : List (Token Instr)) (index : Nat) : Site :=
  match code[index]? with
  | some token => .range token.span
  | none => .finish

/-- Reads a program. -/
def parse (source : String) : Except Finding Program :=
  let code := scan source
  match pair code with
  | .ok loops => .ok ⟨code.toArray, loops⟩
  | .error fault => .error ⟨unpaired fault, siteAt code fault.index⟩

end Esolang.Brainfuck
