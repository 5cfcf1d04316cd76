/-
  Esolang.Main
  ────────────
  **THE PROGRAM ON THE COMMAND LINE.**

  Looks around, reads the file that the arguments name, lets
  `CommandLine.respond` decide, and prints the reply.
-/
import Esolang.CommandLine.OptionTable
import Esolang.CommandLine.Session

namespace Esolang.CommandLine

/-! ## §1. What is shown of the program -/

/-- What the program says of itself. -/
def manual : Manual where
  help := String.join (List.map (· ++ "\n") [
    "Run Brainfuck, COW, Befunge-93 and Whitespace programs with bounded execution",
    "",
    "Usage: esovm [OPTIONS] [FILE]",
    "",
    "Options:",
    "  -e, --eval <SOURCE>      Inline program source",
    "  -l, --lang <LANG>        Language of the program",
    "      --input <INPUT>      Text fed to the program's read instructions",
    "      --seed <SEED>        Seed for Befunge's random direction",
    "      --max-steps <N>      Stop after this many fetch cycles",
    "      --timeout-ms <N>     Wall-clock limit in milliseconds",
    "      --format <FORMAT>    text or json",
    "      --no-color           Disable ANSI colour in diagnostics",
    "      --explain <CODE>     Print the long explanation of an error code and exit",
    "      --list-errors        List every error code and exit",
    "  -h, --help               Print help",
    "  -V, --version            Print version"])
  version := "esovm 0.4.0\n"
  usage := "error: these arguments make no sense\n\nFor more information, try '--help'.\n"

/-! ## §2. What is around it -/

/-- Reads a file as text. -/
def readText (path : String) : IO (Except String String) := do
  try
    let bytes ← IO.FS.readBinFile path
    match String.fromUTF8? bytes with
    | some text => return .ok text
    | none => return .error "stream did not contain valid UTF-8"
  catch reason =>
    return .error (toString reason)

/-- The program of the file that the arguments name, if they name one. -/
def readWanted (arguments : List String) : IO (Except String String) :=
  match manual.read arguments with
  | .accepted a =>
    match a.wantedFile? with
    | some path => readText path
    | none => return .error ""
  | _ => return .error ""

/-- Nanoseconds that are reckoned for a cycle.  Evaluation is a function and looks at no
real clock, so that a timeout bounds its cycles. -/
def nanosPerCycle : Nat :=
  100

/-- What a call with these arguments finds around it. -/
def lookAround (arguments : List String) : IO Surroundings := do
  let found ← readWanted arguments
  let seed ← IO.rand 0 (UInt64.size - 1)
  let terminal ← (← IO.getStderr).isTty
  return {
    clock := fun cycles => cycles * nanosPerCycle
    freshSeed := UInt64.ofNat seed
    read := fun _ => found
    terminal := terminal }

end Esolang.CommandLine

open Esolang.CommandLine (lookAround manual respond)

/-! ## §3. The call -/

/-- Answers one call. -/
def main (arguments : List String) : IO UInt32 := do
  let reply := respond manual.read arguments (← lookAround arguments)
  IO.print reply.stdout
  IO.eprint reply.stderr
  return UInt32.ofNat reply.exit
