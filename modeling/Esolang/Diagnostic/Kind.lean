/-
  Esolang.Diagnostic.Kind
  ───────────────────────
  **WHAT CAN GO WRONG.**

  Fourteen kinds of failure in four categories.  Each kind has a stable code
  whose letter names its category: `S` for structure, `R` for run time, `X` for
  exhausted resources, `L` for loops.
-/

namespace Esolang.Diagnostic

/-! ## §1. Categories -/

/-- Coarse classes of failure. -/
inductive Category where
  /-- The program is malformed. -/
  | structural
  /-- A well-formed program reached an operation that cannot proceed. -/
  | runtimeSemantic
  /-- A limit, a deadline or a cancellation stopped the run. -/
  | resourceExhaustion
  /-- A loop made no progress from one pass to the next. -/
  | progressStall
  deriving DecidableEq, Repr

/-- The category's name in records. -/
def Category.name : Category → String
  | .structural => "structural"
  | .runtimeSemantic => "runtime-semantic"
  | .resourceExhaustion => "resource-exhaustion"
  | .progressStall => "progress-stall"

/-! ## §2. Kinds -/

/-- The kinds of failure. -/
inductive Kind where
  | mismatchedBracket
  | trailingBracket
  | trailingCommand
  | noTermination
  | unknownSymbol
  | invalidOpcodeSelection
  | emptyStack
  | invalidNumber
  | invalidCharacter
  | divisionByZero
  | stepLimitExceeded
  | cancelled
  | timedOut
  | infiniteLoop
  deriving DecidableEq, Repr

namespace Kind

/-- Every kind, in the order of the codes. -/
def all : List Kind :=
  [.mismatchedBracket, .trailingBracket, .trailingCommand, .noTermination, .unknownSymbol,
    .invalidOpcodeSelection, .emptyStack, .invalidNumber, .invalidCharacter, .divisionByZero,
    .stepLimitExceeded, .cancelled, .timedOut, .infiniteLoop]

/-- The kind's name in records. -/
def name : Kind → String
  | .mismatchedBracket => "MismatchedBracket"
  | .trailingBracket => "TrailingBracket"
  | .trailingCommand => "TrailingCommand"
  | .noTermination => "NoTermination"
  | .unknownSymbol => "UnknownSymbol"
  | .invalidOpcodeSelection => "InvalidOpcodeSelection"
  | .emptyStack => "EmptyStack"
  | .invalidNumber => "InvalidNumber"
  | .invalidCharacter => "InvalidCharacter"
  | .divisionByZero => "DivisionByZero"
  | .stepLimitExceeded => "StepLimitExceeded"
  | .cancelled => "Cancelled"
  | .timedOut => "TimedOut"
  | .infiniteLoop => "InfiniteLoop"

/-- The kind's stable code. -/
def code : Kind → String
  | .mismatchedBracket => "ESO-S001"
  | .trailingBracket => "ESO-S002"
  | .trailingCommand => "ESO-S003"
  | .noTermination => "ESO-S004"
  | .unknownSymbol => "ESO-S005"
  | .invalidOpcodeSelection => "ESO-R001"
  | .emptyStack => "ESO-R002"
  | .invalidNumber => "ESO-R003"
  | .invalidCharacter => "ESO-R004"
  | .divisionByZero => "ESO-R005"
  | .stepLimitExceeded => "ESO-X001"
  | .cancelled => "ESO-X002"
  | .timedOut => "ESO-X003"
  | .infiniteLoop => "ESO-L001"

/-- The category a kind belongs to. -/
def category : Kind → Category
  | .mismatchedBracket | .trailingBracket | .trailingCommand | .noTermination
  | .unknownSymbol => .structural
  | .invalidOpcodeSelection | .emptyStack | .invalidNumber | .invalidCharacter
  | .divisionByZero => .runtimeSemantic
  | .stepLimitExceeded | .cancelled | .timedOut => .resourceExhaustion
  | .infiniteLoop => .progressStall

/-- Finds a kind by its name. -/
def ofName? (text : String) : Option Kind :=
  all.find? fun kind => kind.name == text

end Kind

end Esolang.Diagnostic
