/-
  Esolang.CommandLine.Session
  ───────────────────────────
  **ONE CALL OF THE COMMAND LINE.**

  `respond` maps the arguments, and what the surroundings hold, to what is
  printed and to the exit code: zero for success, one for a program that fails
  and for an unknown code, two when no program was run.

  A call decides what to do in this order:

      arguments that are not accepted
      --list-errors
      --explain CODE
      the program: -e SOURCE, else a file
      its language: --lang, else the extension of the file
      the evaluation, reported as --format says
-/
import Esolang.CommandLine.Arguments
import Esolang.CommandLine.Paths
import Esolang.Diagnostic.Handbook
import Esolang.Diagnostic.Record
import Esolang.Diagnostic.Rendering
import Esolang.Evaluation
import Esolang.Source.CodeFence

namespace Esolang.CommandLine

open Esolang.Diagnostic (Kind)
open Esolang.Diagnostic.Handbook (summary explanation lookup)
open Esolang.Machine (Input Settings)
open Esolang.Source.CodeFence (unfence)
open Esolang.Text (Json)

/-! ## §1. Replies -/

/-- What a call prints and returns. -/
structure Reply where
  /-- The exit code. -/
  exit : Nat
  /-- Text for standard output. -/
  stdout : String
  /-- Text for standard error. -/
  stderr : String
  deriving DecidableEq, Repr

namespace Reply

/-- Success, with something to print. -/
def success (text : String) : Reply :=
  ⟨0, text, ""⟩

/-- Nothing was run, for this reason. -/
def refusal (reason : String) : Reply :=
  ⟨2, "", reason⟩

/-- The reply of a call that has logged messages before. -/
def after (logged : String) (reply : Reply) : Reply :=
  { reply with stderr := logged ++ reply.stderr }

end Reply

/-! ## §2. Surroundings -/

/-- How much a logged message matters. -/
inductive Level where
  | error
  | warn
  | info
  | debug
  | trace
  deriving DecidableEq, Repr

/-- What writes logged messages to standard error. -/
structure Logger where
  /-- Whether messages of a level are shown; unless it is told otherwise, a logger shows
  those that matter to a user. -/
  shows : Level → Bool := (· ∈ [.error, .warn, .info])
  /-- What is shown of the messages of a run, if any are. -/
  lines : String := ""

/-- The levels of the messages that a run logs. -/
def runLevels : List Level :=
  [.debug, .trace]

/-- What a run writes to standard error by its messages. -/
def Logger.log (logger : Logger) : String :=
  if runLevels.any logger.shows then logger.lines else ""

/-- What a call finds around it. -/
structure Surroundings extends Machine.Surroundings where
  /-- Reads a file as text, or says in words why it cannot. -/
  read : String → Except String String
  /-- Whether standard error is a terminal. -/
  terminal : Bool := false
  /-- What writes logged messages. -/
  logger : Logger := {}

/-! ## §3. Codes -/

/-- A text with spaces after it up to a width. -/
def padTo (width : Nat) (text : String) : String :=
  text ++ String.ofList (List.replicate (width - text.length) ' ')

/-- Every code with its summary, one on each line. -/
def codeList : String :=
  String.join (Kind.all.map fun kind => padTo 10 kind.code ++ " " ++ summary kind ++ "\n")

/-- The explanation of a code. -/
def explainCode (code : String) : Reply :=
  match lookup code with
  | some kind => .success (explanation kind)
  | none =>
    ⟨1, "", "Unknown error code: " ++ code
      ++ "\nRun `esovm --list-errors` to see every code.\n"⟩

/-! ## §4. Programs -/

/-- A program to run: its text, and the file it is from. -/
structure Program where
  /-- The text. -/
  source : String
  /-- The file, if it is from one. -/
  file : Option String

namespace Arguments

/-- The file that has to be read for these arguments, if any. -/
def wantedFile? (a : Arguments) : Option String :=
  if a.listErrors || a.explain.isSome || a.eval.isSome then none else a.file

/-- The program that the arguments give. -/
def program (a : Arguments) (around : Surroundings) : Except Reply Program :=
  match a.eval, a.file with
  | some text, _ => .ok ⟨unfence text, none⟩
  | none, some path =>
    match around.read path with
    | .ok source => .ok ⟨source, some path⟩
    | .error reason => .error (.refusal ("Error reading " ++ path ++ ": " ++ reason ++ "\n"))
  | none, none =>
    .error (.refusal
      "Usage: esovm [--lang LANG] <file> | esovm --lang LANG -e <source>\n")

/-- The language that the arguments name, or the one of the program's file. -/
def language (a : Arguments) (program : Program) : Except Reply Language :=
  let guess := (program.file.bind pathExtension?).bind Language.ofExtension?
  match a.lang.or guess with
  | some language => .ok language
  | none =>
    .error (.refusal ("Cannot tell which language this is; pass --lang "
      ++ "(brainfuck, cow, befunge, whitespace)\n"))

/-- The settings that the arguments give. -/
def settings (a : Arguments) (program : Program) (around : Surroundings) : Settings :=
  { around.toSurroundings with
    file := program.file
    maxSteps := a.maxSteps.map UInt64.toNat
    input := .ofText a.input
    seed := a.seed
    timeout := a.timeoutMillis.map fun millis => .ofMillis millis.toNat }

end Arguments

/-! ## §5. The whole call -/

/-- The result of a program as a text or as a record. -/
def report (format : Format) (colour : Bool) :
    Except Diagnostic Evaluation → Reply
  | .ok evaluation =>
    match format with
    | .text => .success evaluation.output
    | .json =>
      let record : Json := .record [("ok", .bool true), ("result", evaluation.record)]
      .success (record.compact ++ "\n")
  | .error diagnostic =>
    match format with
    | .text => ⟨1, "", diagnostic.render colour⟩
    | .json =>
      let record : Json := .record [("ok", .bool false), ("error", diagnostic.record)]
      ⟨1, record.compact ++ "\n", ""⟩

/-- Runs the program that the arguments give. -/
def Arguments.execute (a : Arguments) (around : Surroundings) : Except Reply Reply := do
  let program ← a.program around
  let language ← a.language program
  let result := evaluate language program.source (a.settings program around)
  return (report a.format (around.terminal && !a.noColor) result).after around.logger.log

/-- The reply to arguments that are accepted. -/
def Arguments.respond (a : Arguments) (around : Surroundings) : Reply :=
  if a.listErrors then .success codeList
  else match a.explain with
    | some code => explainCode code
    | none =>
      match a.execute around with
      | .ok reply => reply
      | .error reply => reply

/-- The reply to a call with these arguments. -/
def respond (reader : Reader) (arguments : List String) (around : Surroundings) : Reply :=
  match reader arguments with
  | .accepted a => a.respond around
  | .shown text => .success text
  | .rejected reason => .refusal reason

end Esolang.CommandLine
