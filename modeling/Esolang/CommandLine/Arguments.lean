/-
  Esolang.CommandLine.Arguments
  ─────────────────────────────
  **THE ARGUMENTS OF THE COMMAND LINE.**

  What the arguments of a call say, and what can come of reading them.  How they
  are spelled is the business of a `Reader`; a call takes any.
-/
import Esolang.Language

namespace Esolang.CommandLine

/-! ## §1. Arguments -/

/-- How results are printed. -/
inductive Format where
  /-- What the program prints, or a rendered diagnostic. -/
  | text
  /-- A record on one line. -/
  | json
  deriving DecidableEq, Repr

/-- What the arguments say. -/
structure Arguments where
  /-- File of the program. -/
  file : Option String := none
  /-- The program itself. -/
  eval : Option String := none
  /-- Language of the program. -/
  lang : Option Language := none
  /-- Input of the program. -/
  input : String := ""
  /-- Seed of random directions. -/
  seed : Option UInt64 := none
  /-- The most cycles. -/
  maxSteps : Option UInt64 := none
  /-- The most milliseconds. -/
  timeoutMillis : Option UInt64 := none
  /-- How results are printed. -/
  format : Format := .text
  /-- Code to be explained. -/
  explain : Option String := none
  /-- Whether diagnostics stay plain. -/
  noColor : Bool := false
  /-- Whether all codes are listed. -/
  listErrors : Bool := false
  deriving DecidableEq, Repr

/-! ## §2. Readers -/

/-- What comes of reading arguments. -/
inductive Parsed where
  /-- They are accepted. -/
  | accepted (arguments : Arguments)
  /-- They ask for help or for the version, which is shown. -/
  | shown (text : String)
  /-- They make no sense, for this reason. -/
  | rejected (reason : String)
  deriving DecidableEq, Repr

/-- Reads arguments. -/
abbrev Reader :=
  List String → Parsed

end Esolang.CommandLine
