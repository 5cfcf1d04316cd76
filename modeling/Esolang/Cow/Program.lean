/-
  Esolang.Cow.Program
  ───────────────────
  **COW PROGRAMS.**

  Only the letters `m`, `o`, `M` and `O` count.  They are read three at a time,
  each triplet is a command, and the loop commands have to match.
-/
import Esolang.Source.Token
import Esolang.Cow.Opcode

namespace Esolang.Cow

open Esolang.Source (Span Token tokens)
open Esolang.Loop (Pairing PairingFault brackets)
open Esolang.Diagnostic (Report Site Finding)

/-! ## §1. Letters and triplets -/

/-- The letters of the language. -/
def letter? (c : Char) : Option Char :=
  if c == 'm' || c == 'o' || c == 'M' || c == 'O' then some c else none

/-- The letters of a source text. -/
def scan (source : String) : List (Token Char) :=
  tokens letter? source

/-- Letters as one word, from the first to the last. -/
def word (first last : Token Char) (letters : List (Token Char)) : Token String :=
  ⟨String.ofList (letters.map Token.symbol), ⟨first.span.start, last.span.stop⟩⟩

/-- Triplets of letters, and the one or two letters left at the end. -/
structure Split where
  /-- The triplets. -/
  triplets : List (Token String)
  /-- What is left, if anything. -/
  rest : Option (Token String)

/-- Adds the triplets of `letters` to those found before. -/
def splitOnto (found : Array (Token String)) : List (Token Char) → Split
  | a :: b :: c :: letters => splitOnto (found.push (word a c [a, b, c])) letters
  | [a, b] => ⟨found.toList, some (word a b [a, b])⟩
  | [a] => ⟨found.toList, some (word a a [a])⟩
  | [] => ⟨found.toList, none⟩

/-- Cuts letters into triplets. -/
def split (letters : List (Token Char)) : Split :=
  splitOnto #[] letters

/-! ## §2. Faults of a source text -/

/-- Why a text is not a program. -/
inductive Malformation where
  /-- After the last triplet these letters are left; the text has `count` in all. -/
  | incomplete (letters : String) (count : Nat)
  /-- This triplet is no command. -/
  | unknown (triplet : String)
  /-- A loop command has no partner. -/
  | unpaired (fault : PairingFault)
  deriving DecidableEq, Repr

/-- The malformation in words. -/
def Malformation.report : Malformation → Report
  | .incomplete letters count =>
    { kind := .trailingCommand
      message := "incomplete command '" ++ letters ++ "' at end of program"
      notes := [toString count ++ " command letters do not split into triplets"] }
  | .unknown triplet =>
    { kind := .unknownSymbol, message := "unknown command '" ++ triplet ++ "'" }
  | .unpaired (.unmatchedClose _) =>
    { kind := .mismatchedBracket, message := "'moo' has no matching 'MOO'" }
  | .unpaired (.unclosedOpen _) =>
    { kind := .trailingBracket, message := "'MOO' is never closed by 'moo'" }

/-! ## §3. Programs -/

/-- A program whose loops are paired. -/
structure Program where
  /-- The commands with their spans. -/
  code : Array (Token Opcode)
  /-- The partners of the loop commands. -/
  loops : Pairing

/-- The command of a triplet. -/
def command (triplet : Token String) : Except Finding (Token Opcode) :=
  match Opcode.ofTriplet? triplet.symbol with
  | some op => .ok ⟨op, triplet.span⟩
  | none => .error ⟨(Malformation.unknown triplet.symbol).report, .range triplet.span⟩

/-- The site of the command at `index`. -/
def siteAt (code : List (Token Opcode)) (index : Nat) : Site :=
  match code[index]? with
  | some token => .range token.span
  | none => .finish

/-- Pairs the loops among commands. -/
def pair (code : List (Token Opcode)) : Except PairingFault Pairing :=
  Pairing.ofBrackets (brackets Opcode.bracket? (code.map Token.symbol))

/-- Reads a program.  Letters left over are reported before unknown triplets, and
these before loops. -/
def parse (source : String) : Except Finding Program :=
  let letters := scan source
  let pieces := split letters
  match pieces.rest with
  | some rest =>
    .error ⟨(Malformation.incomplete rest.symbol letters.length).report, .range rest.span⟩
  | none =>
    match pieces.triplets.mapM command with
    | .error finding => .error finding
    | .ok code =>
      match pair code with
      | .ok loops => .ok ⟨code.toArray, loops⟩
      | .error fault =>
        .error ⟨(Malformation.unpaired fault).report, siteAt code fault.index⟩

end Esolang.Cow
