/-
  Esolang.Diagnostic.Handbook
  ───────────────────────────
  **THE EXPLANATION OF EVERY CODE.**

  For each kind a summary of one line and an explanation in Markdown, found by
  the kind's code in any case.
-/
import Esolang.Diagnostic.Kind

namespace Esolang.Diagnostic.Handbook

/-! ## §1. Texts -/

/-- The kind in a few words. -/
def summary : Kind → String
  | .mismatchedBracket => "loop close without a matching open"
  | .trailingBracket => "loop open never closed"
  | .trailingCommand => "incomplete command at end of program"
  | .noTermination => "Befunge program can never terminate"
  | .unknownSymbol => "unknown symbol or command"
  | .invalidOpcodeSelection => "mOO selected an invalid instruction"
  | .emptyStack => "pop from empty stack"
  | .invalidNumber => "invalid number literal"
  | .invalidCharacter => "value is not a character"
  | .divisionByZero => "division by zero"
  | .stepLimitExceeded => "step limit exceeded"
  | .cancelled => "cancelled by caller"
  | .timedOut => "timed out"
  | .infiniteLoop => "loop made no progress"

/-- The lines of a page, each ended by a newline. -/
def page (lines : List String) : String :=
  String.join (lines.map (· ++ "\n"))

/-- The kind explained at length, in Markdown. -/
def explanation : Kind → String
  | .mismatchedBracket => page [
      "## ESO-S001: mismatched bracket",
      "",
      "A loop-close instruction was found while no loop-open was pending.",
      "In Brainfuck this is `]`, in COW it is `moo`.",
      "",
      "**Example:**",
      "",
      "    ++]        -- `]` has no `[` before it",
      "    moomoo     -- `moo` has no `MOO` before it"]
  | .trailingBracket => page [
      "## ESO-S002: trailing bracket",
      "",
      "The program ended while a loop-open instruction (`[` or `MOO`) was",
      "still waiting for its partner.",
      "",
      "**Fix:** add the missing `]` / `moo`, or remove the opener."]
  | .trailingCommand => page [
      "## ESO-S003: trailing command",
      "",
      "The program ends part way through a command.",
      "",
      "- COW: after dropping every character other than `m`, `o`, `M`, `O`",
      "  the remaining text must split evenly into three-letter commands.",
      "- Whitespace: the final tokens start a command that is never finished."]
  | .noTermination => page [
      "## ESO-S004: no termination",
      "",
      "A Befunge program must contain at least one `@` and an even number of",
      "`\"` characters. Without `@` the program cannot halt; with an odd",
      "number of quotes string mode never closes."]
  | .unknownSymbol => page [
      "## ESO-S005: unknown symbol",
      "",
      "The instruction under the instruction pointer is not part of the",
      "language. In Befunge the error names the character and its grid",
      "position. In COW it is a three-letter group that is not a command.",
      "In Whitespace the accumulated tokens cannot start any command."]
  | .invalidOpcodeSelection => page [
      "## ESO-R001: invalid opcode selection",
      "",
      "COW's `mOO` replaces itself with the instruction numbered by the",
      "current cell. Valid numbers are 0 to 10, except 3 (`mOO` itself,",
      "which would repeat forever)."]
  | .emptyStack => page [
      "## ESO-R002: empty stack",
      "",
      "An instruction needed a value from the stack but the stack was empty.",
      "Duplicate, swap and the conditional branches treat a missing value",
      "as 0; every other consumer fails."]
  | .invalidNumber => page [
      "## ESO-R003: invalid number",
      "",
      "A Whitespace number is a sign (space for +, tab for -) followed by at",
      "least one binary digit and terminated by a newline. A sign with no",
      "digits is rejected, as is a value that does not fit in 64 bits."]
  | .invalidCharacter => page [
      "## ESO-R004: invalid character",
      "",
      "A print-character instruction popped a value that is not a Unicode",
      "scalar value (negative, a surrogate, or above U+10FFFF)."]
  | .divisionByZero => page [
      "## ESO-R005: division by zero",
      "",
      "Division or modulo with a zero divisor."]
  | .stepLimitExceeded => page [
      "## ESO-X001: step limit exceeded",
      "",
      "The program executed the maximum number of fetch cycles without",
      "halting. Befunge programs are limited to 100000 cycles by default;",
      "`--max-steps` changes the ceiling."]
  | .cancelled => page [
      "## ESO-X002: cancelled",
      "",
      "The caller tripped the cancel token. Engines check it between fetch",
      "cycles, so the program stopped at a cycle boundary."]
  | .timedOut => page [
      "## ESO-X003: timed out",
      "",
      "The program ran longer than the wall-clock timeout (`--timeout-ms`)."]
  | .infiniteLoop => page [
      "## ESO-L001: infinite loop",
      "",
      "A loop reached its close instruction with the current cell holding",
      "the same non-zero value as on the previous pass, so it is assumed to",
      "run forever.",
      "",
      "This is a heuristic: a loop that moves the pointer across cells that",
      "happen to hold equal values (such as `[>]` over a run of 1s) is also",
      "reported."]

/-! ## §2. Looking a code up -/

/-- The kind with this code, in upper or lower case. -/
def lookup (code : String) : Option Kind :=
  Kind.all.find? fun kind => kind.code.toLower == code.toLower

end Esolang.Diagnostic.Handbook
