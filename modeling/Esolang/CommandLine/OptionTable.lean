/-
  Esolang.CommandLine.OptionTable
  ───────────────────────────────
  **A READER FOR THE OPTIONS.**

  Arguments are read one after another.  The first that makes no sense ends the
  reading, and so does one that asks for help or for the version.  An option may
  be given once; its value is the next argument, or what follows it in the same
  one:

      -l bf    -lbf    --lang bf    --lang=bf
-/
import Esolang.CommandLine.Arguments

namespace Esolang.CommandLine

/-! ## §1. Options -/

/-- Options that take a value. -/
inductive Opt where
  | eval
  | lang
  | input
  | seed
  | maxSteps
  | timeout
  | format
  | explain
  deriving DecidableEq, Repr

/-- Options that take none. -/
inductive Flag where
  | noColor
  | listErrors
  | help
  | version
  deriving DecidableEq, Repr

/-- An option of either sort. -/
inductive Switch where
  | valued (opt : Opt)
  | plain (flag : Flag)
  deriving DecidableEq, Repr

/-- The option with this long name. -/
def Switch.ofLong? (name : String) : Option Switch :=
  match name with
  | "eval" => some (.valued .eval)
  | "lang" => some (.valued .lang)
  | "input" => some (.valued .input)
  | "seed" => some (.valued .seed)
  | "max-steps" => some (.valued .maxSteps)
  | "timeout-ms" => some (.valued .timeout)
  | "format" => some (.valued .format)
  | "explain" => some (.valued .explain)
  | "no-color" => some (.plain .noColor)
  | "list-errors" => some (.plain .listErrors)
  | "help" => some (.plain .help)
  | "version" => some (.plain .version)
  | _ => none

/-- The option with this letter. -/
def Switch.ofLetter? : Char → Option Switch
  | 'e' => some (.valued .eval)
  | 'l' => some (.valued .lang)
  | 'h' => some (.plain .help)
  | 'V' => some (.plain .version)
  | _ => none

/-! ## §2. Values -/

/-- The language that a value of `--lang` names. -/
def language? (value : String) : Option Language :=
  match value with
  | "brainfuck" | "bf" => some .brainfuck
  | "cow" | "moo" => some .cow
  | "befunge" | "b93" | "bef" => some .befunge
  | "whitespace" | "ws" => some .whitespace
  | _ => none

/-- The format that a value of `--format` names. -/
def format? (value : String) : Option Format :=
  match value with
  | "text" => some .text
  | "json" => some .json
  | _ => none

/-- The 64-bit number that a value writes: digits, with or without a plus. -/
def number? (value : String) : Option UInt64 :=
  let digits := match value.toList with
    | '+' :: digits => digits
    | digits => digits
  if digits ≠ [] ∧ digits.all Char.isDigit then
    let n := digits.foldl (fun n digit => n * 10 + (digit.toNat - 48)) 0
    if n < UInt64.size then some (UInt64.ofNat n) else none
  else none

/-! ## §3. Drafts -/

/-- What was read so far: what an option says, if it has been given. -/
structure Draft where
  file : Option String := none
  eval : Option String := none
  lang : Option Language := none
  input : Option String := none
  seed : Option UInt64 := none
  maxSteps : Option UInt64 := none
  timeoutMillis : Option UInt64 := none
  format : Option Format := none
  explain : Option String := none
  noColor : Bool := false
  listErrors : Bool := false
  deriving DecidableEq, Repr

/-- Why arguments are not read to their end. -/
inductive Interruption where
  /-- They make no sense. -/
  | usage
  /-- They ask for help. -/
  | help
  /-- They ask for the version. -/
  | version
  deriving DecidableEq, Repr

/-- Fills a field that has to be empty. -/
def fillOnce {α : Type} (old : Option α) (value : Option α) : Except Interruption (Option α) :=
  match old, value with
  | none, some value => .ok (some value)
  | _, _ => .error .usage

namespace Draft

/-- Gives an option its value. -/
def set (opt : Opt) (value : String) (d : Draft) : Except Interruption Draft :=
  match opt with
  | .eval => return { d with eval := ← fillOnce d.eval (some value) }
  | .lang => return { d with lang := ← fillOnce d.lang (language? value) }
  | .input => return { d with input := ← fillOnce d.input (some value) }
  | .seed => return { d with seed := ← fillOnce d.seed (number? value) }
  | .maxSteps => return { d with maxSteps := ← fillOnce d.maxSteps (number? value) }
  | .timeout => return { d with timeoutMillis := ← fillOnce d.timeoutMillis (number? value) }
  | .format => return { d with format := ← fillOnce d.format (format? value) }
  | .explain => return { d with explain := ← fillOnce d.explain (some value) }

/-- Raises a flag that is not yet raised. -/
def raise (flag : Flag) (d : Draft) : Except Interruption Draft :=
  match flag with
  | .noColor => if d.noColor then throw .usage else return { d with noColor := true }
  | .listErrors => if d.listErrors then throw .usage else return { d with listErrors := true }
  | .help => throw .help
  | .version => throw .version

/-- Takes the file of the program, which has a name. -/
def setFile (path : String) (d : Draft) : Except Interruption Draft :=
  if path = "" then throw .usage else return { d with file := ← fillOnce d.file (some path) }

/-- The arguments, with what holds where an option has not been given. -/
def arguments (d : Draft) : Arguments :=
  { file := d.file
    eval := d.eval
    lang := d.lang
    input := d.input.getD ""
    seed := d.seed
    maxSteps := d.maxSteps
    timeoutMillis := d.timeoutMillis
    format := d.format.getD .text
    explain := d.explain
    noColor := d.noColor
    listErrors := d.listErrors }

end Draft

/-! ## §4. Reading arguments in order -/

/-- The state of the reading. -/
structure Reading where
  /-- What was read so far. -/
  draft : Draft := {}
  /-- An option whose value comes next. -/
  pending : Option Opt := none
  /-- Whether options have ended. -/
  literal : Bool := false

namespace Reading

/-- Goes on with what has been read now. -/
def update (r : Reading) (draft : Except Interruption Draft) : Except Interruption Reading :=
  return { r with draft := ← draft, pending := none }

/-- Reads an option, with the value that stands in the same argument, if any. -/
def switch (r : Reading) (found : Option Switch) (value : Option String) :
    Except Interruption Reading :=
  match found, value with
  | some (.valued opt), some value => r.update (r.draft.set opt value)
  | some (.valued opt), none => return { r with pending := some opt }
  | some (.plain flag), none => r.update (r.draft.raise flag)
  | _, _ => throw .usage

/-- Reads an option given by its long name. -/
def long (r : Reading) (text : List Char) : Except Interruption Reading :=
  let name := text.takeWhile (· != '=')
  let value := match text.drop name.length with
    | _ :: value => some (String.ofList value)
    | [] => none
  r.switch (Switch.ofLong? (String.ofList name)) value

/-- Reads an option given by its letter; a flag needs nothing of what follows it. -/
def short (r : Reading) (letter : Char) (rest : List Char) : Except Interruption Reading :=
  match Switch.ofLetter? letter, rest with
  | some (.plain flag), _ => r.update (r.draft.raise flag)
  | found, [] => r.switch found none
  | found, '=' :: value => r.switch found (some (String.ofList value))
  | found, value => r.switch found (some (String.ofList value))

/-- Reads one argument. -/
def step (r : Reading) (argument : String) : Except Interruption Reading :=
  if r.literal then r.update (r.draft.setFile argument)
  else match r.pending, argument.toList with
    | some _, '-' :: _ :: _ => throw .usage
    | some opt, _ => r.update (r.draft.set opt argument)
    | none, ['-', '-'] => return { r with literal := true }
    | none, '-' :: '-' :: text => r.long text
    | none, '-' :: letter :: rest => r.short letter rest
    | none, _ => r.update (r.draft.setFile argument)

/-- Ends the reading.  No option may wait for a value, and the program is given in
one way only. -/
def finish (r : Reading) : Except Interruption Draft :=
  if r.pending.isSome || (r.draft.file.isSome && r.draft.eval.isSome) then throw .usage
  else return r.draft

/-- Reads arguments from the first to the last. -/
def all (arguments : List String) : Except Interruption Draft := do
  (← arguments.foldlM step {}).finish

end Reading

/-! ## §5. The reader -/

/-- What a reader shows of itself. -/
structure Manual where
  /-- What is shown on `--help`. -/
  help : String
  /-- What is shown on `--version`. -/
  version : String
  /-- What is said of arguments that make no sense. -/
  usage : String

/-- Reads arguments by the table of options. -/
def Manual.read (manual : Manual) : Reader := fun arguments =>
  match Reading.all arguments with
  | .ok draft => .accepted draft.arguments
  | .error .usage => .rejected manual.usage
  | .error .help => .shown manual.help
  | .error .version => .shown manual.version

end Esolang.CommandLine
