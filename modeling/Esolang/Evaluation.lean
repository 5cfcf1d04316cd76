/-
  Esolang.Evaluation
  ──────────────────
  **EVALUATING A PROGRAM.**

  `evaluate` runs a program in one of the languages and gives what it printed and
  the memory it left, or a diagnostic.
-/
import Esolang.Befunge.Machine
import Esolang.Brainfuck.Machine
import Esolang.Cow.Machine
import Esolang.Language
import Esolang.Text.Json
import Esolang.Whitespace.Machine

namespace Esolang

open Esolang.Diagnostic (Finding)
open Esolang.Machine (Settings)
open Esolang.Text (Json)

/-! ## §1. Evaluations -/

/-- What a program leaves in memory. -/
inductive Remains where
  /-- The cells of a tape, from the left. -/
  | tape (cells : List UInt8)
  /-- The values of a stack, from the bottom. -/
  | stack (values : List Int64)
  /-- Nothing that is shown. -/
  | nothing
  deriving DecidableEq, Repr

/-- What a program that halts has printed and left. -/
structure Evaluation where
  /-- Language of the program. -/
  language : Language
  /-- What it printed. -/
  output : String
  /-- What it left in memory. -/
  remains : Remains
  deriving DecidableEq, Repr

/-! ## §2. Running a program -/

/-- Runs a program in a language: its evaluation, or what went wrong. -/
def run (language : Language) (source : String) (settings : Settings) :
    Except Finding Evaluation :=
  match language with
  | .brainfuck =>
    (Brainfuck.run source settings).map fun s => ⟨language, s.output, .tape s.tape.cells⟩
  | .cow =>
    (Cow.run source settings).map fun s => ⟨language, s.output, .tape s.tape.cells⟩
  | .befunge =>
    (Befunge.run source settings).map fun s => ⟨language, s.output, .stack s.stack.toList⟩
  | .whitespace =>
    (Whitespace.run source settings).map fun s => ⟨language, s.output, .nothing⟩

/-- Name of the program's file in diagnostics. -/
def fileName (language : Language) (settings : Settings) : String :=
  settings.file.getD language.virtualFile

/-- Runs a program in a language: its evaluation, or a diagnostic. -/
def evaluate (language : Language) (source : String) (settings : Settings) :
    Except Diagnostic Evaluation :=
  (run language source settings).mapError (Finding.locate (fileName language settings) source)

/-! ## §3. Records -/

/-- The remains as a record. -/
def Remains.record : Remains → Json
  | .tape cells =>
    .record [("kind", .text "tape"), ("values", .list (cells.map fun c => .int c.toNat))]
  | .stack values =>
    .record [("kind", .text "stack"), ("values", .list (values.map fun v => .int v.toInt))]
  | .nothing => .record [("kind", .text "none")]

/-- The evaluation as a record. -/
def Evaluation.record (e : Evaluation) : Json :=
  .record [("language", .text e.language.name), ("output", .text e.output),
    ("state", e.remains.record)]

end Esolang
