/-
  Esolang.Proofs.Evaluation.Calculator
  ────────────────────────────────────
  **ONE STACK MACHINE IN TWO LANGUAGES.**

  Befunge and Whitespace have a dozen operations in common.  A CALCULATOR is a
  machine that has these and nothing else: it works on a list of words and keeps
  what it prints as a list of numbers and characters.

    • `Befunge.execute_mark` — a character of Befunge does what the calculator does,
    • `Whitespace.obey_command` — so does a command of Whitespace,
    • `run_calculation` — a row of operations, run in either language and with any
      limit, prints what the calculator prints, or fails at the same operation for
      the same reason.
-/
import Esolang.Proofs.Befunge.Torus
import Esolang.Proofs.Memory.Division
import Esolang.Proofs.Whitespace.Writing

namespace Esolang

open Esolang.Diagnostic (Kind Site Finding)
open Esolang.Machine (Effect Settings Upshot Exhaustion Carries carryOut)
open Esolang.Memory (Stack)
open Esolang.Memory.Word (toChar? decimal floorDiv? floorMod?)

namespace Calculator

/-! ## §1. The calculator. -/

/-- The operators; the deeper value stands on the left. -/
inductive Operator where
  | add
  | subtract
  | multiply
  | divide
  | modulo
  deriving DecidableEq, Repr

/-- The operations. -/
inductive Op where
  | digit (value : Fin 10)
  | operate (operator : Operator)
  | duplicate
  | swap
  | discard
  | printInt
  | printChar
  | halt
  deriving DecidableEq, Repr

inductive Print where
  | number (value : Int64)
  | character (c : Char)
  deriving DecidableEq, Repr

/-- Values, the top first, and what has been printed, the first first. -/
structure Data where
  values : List Int64
  printed : List Print
  deriving DecidableEq, Repr

inductive Fault where
  | emptyStack
  | divisionByZero
  | invalidCharacter
  deriving DecidableEq, Repr

def Fault.kind : Fault → Kind
  | .emptyStack => .emptyStack
  | .divisionByZero => .divisionByZero
  | .invalidCharacter => .invalidCharacter

/-- Sums, differences and products wrap around, quotients are rounded down. -/
def Operator.apply : Operator → Int64 → Int64 → Option Int64
  | .add, b, a => some (b + a)
  | .subtract, b, a => some (b - a)
  | .multiply, b, a => some (b * a)
  | .divide, b, a => if a = 0 then none else some (.ofInt (b.toInt.fdiv a.toInt))
  | .modulo, b, a => if a = 0 then none else some (.ofInt (b.toInt.fmod a.toInt))

/-- Does an operation.  A value that is missing is zero for `duplicate` and `swap`. -/
def perform : Op → Data → Effect Data Fault
  | .digit value, ⟨values, printed⟩ => .next ⟨.ofNat value :: values, printed⟩
  | .operate operator, ⟨a :: b :: values, printed⟩ =>
    match operator.apply b a with
    | some value => .next ⟨value :: values, printed⟩
    | none => .fault .divisionByZero
  | .operate _, ⟨_, _⟩ => .fault .emptyStack
  | .duplicate, ⟨[], printed⟩ => .next ⟨[0], printed⟩
  | .duplicate, ⟨a :: values, printed⟩ => .next ⟨a :: a :: values, printed⟩
  | .swap, ⟨[], printed⟩ => .next ⟨[0, 0], printed⟩
  | .swap, ⟨[a], printed⟩ => .next ⟨[0, a], printed⟩
  | .swap, ⟨a :: b :: values, printed⟩ => .next ⟨b :: a :: values, printed⟩
  | .discard, ⟨[], _⟩ => .fault .emptyStack
  | .discard, ⟨_ :: values, printed⟩ => .next ⟨values, printed⟩
  | .printInt, ⟨[], _⟩ => .fault .emptyStack
  | .printInt, ⟨a :: values, printed⟩ => .next ⟨values, printed ++ [.number a]⟩
  | .printChar, ⟨[], _⟩ => .fault .emptyStack
  | .printChar, ⟨a :: values, printed⟩ =>
    match toChar? a with
    | some c => .next ⟨values, printed ++ [.character c]⟩
    | none => .fault .invalidCharacter
  | .halt, data => .halt data

section
variable {values : List Int64} {printed : List Print} {a b : Int64}

/-- What an operator does hangs on whether it has a result. -/
theorem perform_of_result {operator : Operator} {value : Int64}
    (result : operator.apply b a = some value) :
    perform (.operate operator) ⟨a :: b :: values, printed⟩
      = .next ⟨value :: values, printed⟩ := by
  simp only [perform, result]

theorem perform_of_no_result {operator : Operator} (result : operator.apply b a = none) :
    perform (.operate operator) ⟨a :: b :: values, printed⟩ = .fault .divisionByZero := by
  simp only [perform, result]

/-- What is printed hangs on whether the value is the code of a character. -/
theorem perform_of_code {c : Char} (code : toChar? a = some c) :
    perform .printChar ⟨a :: values, printed⟩
      = .next ⟨values, printed ++ [.character c]⟩ := by
  simp only [perform, code]

theorem perform_of_no_code (code : toChar? a = none) :
    perform .printChar ⟨a :: values, printed⟩ = .fault .invalidCharacter := by
  simp only [perform, code]

end

/-- The operations, and one that halts. -/
def program (ops : List Op) : List Op :=
  ops ++ [.halt]

/-- What comes of a row of operations, with this limit. -/
def calculate (limit : Nat) (ops : List Op) : Upshot Data Fault :=
  carryOut perform limit 0 (program ops) ⟨[], []⟩

/-- What has been printed, as a text. -/
def written (text : Print → String) (printed : List Print) : String :=
  printed.foldl (fun output p => output ++ text p) ""

theorem written_concat (text : Print → String) (printed : List Print) (p : Print) :
    written text (printed ++ [p]) = written text printed ++ text p :=
  List.foldl_concat ..

/-! ## §2. Befunge calculates. -/

/-- In Befunge a number is followed by a space. -/
def Print.spaced : Print → String
  | .number value => decimal value ++ " "
  | .character c => c.toString

def Operator.befunge : Operator → Befunge.Operator
  | .add => .add
  | .subtract => .subtract
  | .multiply => .multiply
  | .divide => .divide
  | .modulo => .modulo

/-- Rounding words down is rounding integers down. -/
theorem Operator.apply_divide (b a : Int64) : Operator.divide.apply b a = floorDiv? b a := by
  show (if a = 0 then none else _) = _
  by_cases zero : a = 0
  · rw [if_pos zero]
    exact (if_pos zero).symm
  · rw [if_neg zero, Memory.Word.floorDiv?_eq zero]

theorem Operator.apply_modulo (b a : Int64) : Operator.modulo.apply b a = floorMod? b a := by
  show (if a = 0 then none else _) = _
  by_cases zero : a = 0
  · rw [if_pos zero]
    exact (if_pos zero).symm
  · rw [if_neg zero, Memory.Word.floorMod?_eq zero]

theorem Operator.apply_befunge (operator : Operator) (b a : Int64) :
    operator.befunge.apply b a = operator.apply b a := by
  cases operator with
  | divide => exact (apply_divide b a).symm
  | modulo => exact (apply_modulo b a).symm
  | add | subtract | multiply => rfl

/-- The character that is an operation. -/
def Op.mark : Op → Char
  | .digit value => Nat.digitChar value
  | .operate .add => '+'
  | .operate .subtract => '-'
  | .operate .multiply => '*'
  | .operate .divide => '/'
  | .operate .modulo => '%'
  | .duplicate => ':'
  | .swap => '\\'
  | .discard => '$'
  | .printInt => '.'
  | .printChar => ','
  | .halt => '@'

def Op.instr : Op → Befunge.Instr
  | .digit value => .digit value
  | .operate operator => .operate operator.befunge
  | .duplicate => .duplicate
  | .swap => .swap
  | .discard => .discard
  | .printInt => .printInt
  | .printChar => .printChar
  | .halt => .halt

theorem Op.ofChar?_mark (op : Op) : Befunge.Instr.ofChar? op.mark = some op.instr := by
  cases op with
  | digit value => revert value; decide
  | operate operator => cases operator <;> rfl
  | _ => rfl

theorem Op.mark_not_mem (op : Op) : op.mark ∉ ['"', '\n', '\r'] := by
  cases op with
  | digit value => revert value; decide
  | operate operator => cases operator <;> decide
  | _ => decide

/-- The machine shows what the calculator has made. -/
structure BefungeShows (s : Befunge.State) (data : Data) : Prop where
  stack : s.stack.values = data.values
  output : s.output = written Print.spaced data.printed

/-- In literal mode, an operation other than the last one leaves the grid. -/
structure BefungeNext (s s' : Befunge.State) (data : Data) : Prop where
  shows : BefungeShows s' data
  grid : s'.grid = s.grid
  pointer : s'.pointer = s.pointer.advance s.grid
  mode : s'.mode = .literal

/-- **A character of Befunge does what the calculator does.** -/
theorem execute_mark (draws : Befunge.Draws) (op : Op) {s : Befunge.State} {data : Data}
    (mode : s.mode = .literal) (shows : BefungeShows s data) :
    (Befunge.execute draws op.mark s).Mirrors (BefungeNext s) BefungeShows
      (fun fault fault' => fault.report.kind = fault'.kind) (perform op data) := by
  obtain ⟨grid, pointer, _, ⟨values⟩, input, output, count⟩ := s
  obtain ⟨values', printed⟩ := data
  cases mode
  obtain ⟨stack, out⟩ := shows
  obtain rfl : values = values' := stack
  obtain rfl : output = written Print.spaced printed := out
  unfold Befunge.execute
  dsimp only
  rw [op.ofChar?_mark]
  cases op with
  | digit value => exact .next ⟨⟨rfl, rfl⟩, rfl, rfl, rfl⟩
  | halt => exact .halt ⟨rfl, rfl⟩
  | duplicate =>
    cases values with
    | nil => exact .next ⟨⟨rfl, rfl⟩, rfl, rfl, rfl⟩
    | cons a values => exact .next ⟨⟨rfl, rfl⟩, rfl, rfl, rfl⟩
  | swap =>
    cases values with
    | nil => exact .next ⟨⟨rfl, rfl⟩, rfl, rfl, rfl⟩
    | cons a values =>
      cases values with
      | nil => exact .next ⟨⟨rfl, rfl⟩, rfl, rfl, rfl⟩
      | cons b values => exact .next ⟨⟨rfl, rfl⟩, rfl, rfl, rfl⟩
  | discard =>
    cases values with
    | nil => exact .fault rfl
    | cons a values => exact .next ⟨⟨rfl, rfl⟩, rfl, rfl, rfl⟩
  | printInt =>
    cases values with
    | nil => exact .fault rfl
    | cons a values =>
      exact .next ⟨⟨rfl, (written_concat Print.spaced printed (.number a)).symm⟩, rfl, rfl, rfl⟩
  | printChar =>
    cases values with
    | nil => exact .fault rfl
    | cons a values =>
      -- Both hang on whether the value is the code of a character.
      cases code : toChar? a with
      | some c =>
        have read : Befunge.character a = .ok c := by simp only [Befunge.character, code]
        rw [perform_of_code code]
        simp only [Op.instr, Befunge.perform, Befunge.pop, Stack.pop?, bind, Except.bind, read]
        have output := (written_concat Print.spaced printed (.character c)).symm
        exact .next ⟨⟨rfl, output⟩, rfl, rfl, rfl⟩
      | none =>
        have read : Befunge.character a = .error (.notACharacter a) := by
          simp only [Befunge.character, code]
        rw [perform_of_no_code code]
        simp only [Op.instr, Befunge.perform, Befunge.pop, Stack.pop?, bind, Except.bind, read]
        exact .fault rfl
  | operate operator =>
    cases values with
    | nil => exact .fault rfl
    | cons a values =>
      cases values with
      | nil => exact .fault rfl
      | cons b values =>
        -- Both hang on whether there is a result.
        have same := operator.apply_befunge b a
        cases result : operator.apply b a with
        | some value =>
          rw [result] at same
          rw [perform_of_result result]
          simp only [Op.instr, Befunge.perform, Befunge.binary, Befunge.pop, Stack.pop?, bind,
            Except.bind, same]
          exact .next ⟨⟨rfl, rfl⟩, rfl, rfl, rfl⟩
        | none =>
          rw [result] at same
          rw [perform_of_no_result result]
          simp only [Op.instr, Befunge.perform, Befunge.binary, Befunge.pop, Stack.pop?, bind,
            Except.bind, same]
          exact .fault rfl

/-- The operations as a text of one row. -/
def befungeText (program : List Op) : String :=
  String.ofList (program.map Op.mark)

/-- No character of the text belongs to its line ends or strings. -/
theorem not_mem_marks {c : Char} (mem : c ∈ ['"', '\n', '\r']) (program : List Op) :
    c ∉ program.map Op.mark := by
  intro mem_marks
  obtain ⟨op, -, rfl⟩ := List.mem_map.mp mem_marks
  exact op.mark_not_mem mem

theorem ofSource_befungeText {program : List Op} (ne : program ≠ []) :
    Befunge.Grid.ofSource (befungeText program)
      = ⟨program.length, #[(program.map Op.mark).toArray]⟩ := by
  have no_return : (program.map Op.mark).getLast? ≠ some '\r' := by
    intro last
    exact not_mem_marks (by decide) program (List.mem_of_getLast? last)
  have row := Befunge.Grid.ofSource_of_line (not_mem_marks (by decide) program)
    (by simpa using ne) no_return
  rw [List.length_map] at row
  exact row

theorem refusal?_befungeText {program : List Op} (halts : Op.halt ∈ program) :
    Befunge.refusal? (befungeText program) = none := by
  have mem : '@' ∈ program.map Op.mark := List.mem_map_of_mem halts
  have none_open : (program.map Op.mark).count '"' = 0 :=
    List.count_eq_zero.mpr (not_mem_marks (by decide) program)
  unfold Befunge.refusal? befungeText
  simp [mem, none_open]

/-- The machine stands before the operation at a place of the row. -/
structure BefungeAt (program : List Op) (place : Nat) (ops : List Op) (data : Data)
    (s : Befunge.State) : Prop where
  left : program.drop place = ops
  some_left : ops ≠ []
  shows : BefungeShows s data
  grid : s.grid = ⟨program.length, #[(program.map Op.mark).toArray]⟩
  pointer : s.pointer = ⟨place, 0, .right⟩
  mode : s.mode = .literal

/-- **Befunge carries out what the calculator does**, if the last operation halts. -/
theorem carries_befunge (draws : Befunge.Draws) {program : List Op}
    (halts : program.getLast? = some .halt) :
    Carries (Befunge.machine draws none) perform (fun place => .point 1 (place + 1))
      (BefungeAt program) BefungeShows (fun fault fault' => fault.report.kind = fault'.kind) where
  finished here := absurd rfl here.some_left
  cycle := by
    rintro place op ops data s ⟨left, -, shows, grid, pointer, mode⟩
    have at_place : program[place]? = some op := by
      rw [← List.head?_drop, left]
      rfl
    have after : program.drop (place + 1) = ops := by
      rw [← List.tail_drop, left]
      rfl
    have symbol : s.symbol = op.mark := by
      have cell : (program.map Op.mark)[place]? = some op.mark := by
        rw [List.getElem?_map, at_place]
        rfl
      unfold Befunge.State.symbol
      rw [grid, pointer]
      show ((program.map Op.mark).toArray[place]?).getD ' ' = op.mark
      rw [List.getElem?_toArray, cell]
      rfl
    have site : s.site = .point 1 (place + 1) := by
      unfold Befunge.State.site
      rw [pointer]
    have fetched : (Befunge.machine draws none).fetch s
        = .found op.mark (.point 1 (place + 1)) := by
      show Machine.Fetch.found s.symbol s.site = _
      rw [symbol, site]
    refine ⟨op.mark, fetched, ?_⟩
    have mirrors := execute_mark draws op mode shows
    show (Befunge.execute draws op.mark s).Mirrors _ _ _ _
    generalize Befunge.execute draws op.mark s = effect at mirrors
    generalize performed : perform op data = effect' at mirrors
    cases mirrors with
    | halt shows' => exact .halt shows'
    | fault kind => exact .fault kind
    | @next s' data' next =>
      -- The last operation halts, so this is not the last.
      have some_left : ops ≠ [] := by
        rintro rfl
        have last : program.getLast? = some op := by
          rw [← List.take_append_drop place program, left, List.getLast?_concat]
        rw [halts] at last
        cases last
        cases performed
      have inside : place + 1 < program.length := by
        have := List.length_pos_iff.mpr some_left
        rw [← after, List.length_drop] at this
        omega
      refine .next ⟨after, some_left, next.shows, next.grid.trans grid, ?_, next.mode⟩
      rw [next.pointer, grid, pointer]
      show (⟨(place + 1) % program.length, 0, .right⟩ : Befunge.Pointer) = _
      rw [Nat.mod_eq_of_lt inside]

/-! ## §3. Whitespace calculates. -/

/-- In Whitespace a number stands alone. -/
def Print.plain : Print → String
  | .number value => decimal value
  | .character c => c.toString

def Operator.command : Operator → Whitespace.Command
  | .add => .add
  | .subtract => .subtract
  | .multiply => .multiply
  | .divide => .divide
  | .modulo => .modulo

/-- The command that is an operation. -/
def Op.command : Op → Whitespace.Command
  | .digit value => .push (.ofNat value)
  | .operate operator => operator.command
  | .duplicate => .duplicate
  | .swap => .swap
  | .discard => .discard
  | .printInt => .printInt
  | .printChar => .printChar
  | .halt => .finish

/-- The machine shows what the calculator has made. -/
structure WhitespaceShows (s : Whitespace.Store) (data : Data) : Prop where
  stack : s.stack.values = data.values
  output : s.output = written Print.plain data.printed

theorem perform_operator (operator : Operator) (s : Whitespace.Store) :
    s.perform operator.command = s.withStack (s.stack.binary operator.apply) := by
  cases operator with
  | divide =>
    have same : Operator.divide.apply = floorDiv? := funext₂ Operator.apply_divide
    rw [same]
    rfl
  | modulo =>
    have same : Operator.modulo.apply = floorMod? := funext₂ Operator.apply_modulo
    rw [same]
    rfl
  | add | subtract | multiply => rfl

/-- **A command of Whitespace does what the calculator does.** -/
theorem obey_command (op : Op) (s : Whitespace.Store) (data : Data)
    (shows : WhitespaceShows s data) :
    (s.obey op.command).Mirrors WhitespaceShows WhitespaceShows
      (fun fault fault' => fault.report.kind = fault'.kind) (perform op data) := by
  obtain ⟨⟨values⟩, heap, output⟩ := s
  obtain ⟨values', printed⟩ := data
  obtain ⟨stack, out⟩ := shows
  obtain rfl : values = values' := stack
  obtain rfl : output = written Print.plain printed := out
  unfold Whitespace.Store.obey
  cases op with
  | digit value => exact .next ⟨rfl, rfl⟩
  | halt => exact .halt ⟨rfl, rfl⟩
  | duplicate =>
    cases values with
    | nil => exact .next ⟨rfl, rfl⟩
    | cons a values => exact .next ⟨rfl, rfl⟩
  | swap =>
    cases values with
    | nil => exact .next ⟨rfl, rfl⟩
    | cons a values =>
      cases values with
      | nil => exact .next ⟨rfl, rfl⟩
      | cons b values => exact .next ⟨rfl, rfl⟩
  | discard =>
    cases values with
    | nil => exact .fault rfl
    | cons a values => exact .next ⟨rfl, rfl⟩
  | printInt =>
    cases values with
    | nil => exact .fault rfl
    | cons a values =>
      exact .next ⟨rfl, (written_concat Print.plain printed (.number a)).symm⟩
  | printChar =>
    cases values with
    | nil => exact .fault rfl
    | cons a values =>
      cases code : toChar? a with
      | some c =>
        rw [perform_of_code code]
        simp only [Op.command, Whitespace.Store.perform, Whitespace.Store.pop, Stack.pop?, bind,
          Except.bind, code]
        refine .next ⟨rfl, ?_⟩
        rw [written_concat]
        exact String.push_eq_append c
      | none =>
        rw [perform_of_no_code code]
        simp only [Op.command, Whitespace.Store.perform, Whitespace.Store.pop, Stack.pop?, bind,
          Except.bind, code]
        exact .fault rfl
  | operate operator =>
    have goes_on : operator.command ≠ .finish := by
      cases operator <;> exact nofun
    have meaning : (Op.operate operator).command = operator.command := rfl
    rw [meaning, if_neg goes_on, perform_operator]
    cases values with
    | nil => exact .fault rfl
    | cons a values =>
      cases values with
      | nil => exact .fault rfl
      | cons b values =>
        cases result : operator.apply b a with
        | some value =>
          rw [perform_of_result result]
          simp only [Stack.binary, result]
          exact .next ⟨rfl, rfl⟩
        | none =>
          rw [perform_of_no_result result]
          simp only [Stack.binary, result]
          exact .fault rfl

/-! ## §4. Both languages. -/

/-- What comes of a program agrees with the calculator: the program ends in the evaluation
that shows its data, or it fails for the same reason at the same operation. -/
def Agrees (evaluation : Data → Evaluation) (site : Nat → Site) :
    Upshot Data Fault → Except Finding Evaluation → Prop
  | .done data, result => result = .ok (evaluation data)
  | .failed fault place, result =>
    ∃ finding, result = .error finding ∧ finding.report.kind = fault.kind
      ∧ finding.site = site place
  | .exhausted place, result =>
    ∃ finding, result = .error finding ∧ finding.report.kind = .stepLimitExceeded
      ∧ finding.site = site place

/-- An engine that carries out what the calculator does agrees with it. -/
theorem agrees_of_carries (e : Engine) {site : Nat → Site}
    {At : Nat → List Op → Data → e.State → Prop} {Shows : e.State → Data → Prop}
    {Cause : e.Cause → Fault → Prop} (carries : Carries e.machine perform site At Shows Cause)
    {evaluation : Data → Evaluation}
    (shown : ∀ s data, Shows s data → e.evaluation s = evaluation data)
    (kind : ∀ cause fault, Cause cause fault → (e.report cause).kind = fault.kind)
    {ops : List Op} (start : At 0 (program ops) ⟨[], []⟩ e.start) (limit : Nat)
    {settings : Settings} (quiet : settings.Quiet) :
    Agrees evaluation site (calculate limit ops) (e.outcome (e.run (settings.limited limit))) := by
  have mirrors := carries.run e.steady ((quiet.limited limit).ofSettings e.defaultLimit) start
  have mirrors : (e.run (settings.limited limit)).Mirrors limit site Shows Cause
      (calculate limit ops) := mirrors
  unfold Engine.outcome
  generalize e.run (settings.limited limit) = r at mirrors
  generalize calculate limit ops = upshot at mirrors
  cases mirrors with
  | done shows => exact congrArg Except.ok (shown _ _ shows)
  | failed causes => exact ⟨_, rfl, kind _ _ causes, rfl⟩
  | exhausted => exact ⟨_, rfl, rfl, rfl⟩

/-- What Befunge leaves: its stack is shown from the bottom. -/
def befungeEvaluation (data : Data) : Evaluation :=
  ⟨.befunge, written Print.spaced data.printed, .stack data.values.reverse⟩

def whitespaceEvaluation (data : Data) : Evaluation :=
  ⟨.whitespace, written Print.plain data.printed, .nothing⟩

theorem readable_command (op : Op) : op.command.number? ≠ some Int64.minValue := by
  cases op with
  | digit value => revert value; decide
  | operate operator => cases operator <;> exact nofun
  | _ => exact nofun

/-- **Befunge and Whitespace have the same stack machine.**  A row of operations before a
last one that halts, as one line of Befunge and written in Whitespace, with one limit for
both: each prints the numbers and characters that the calculator prints, or fails for its
reason at the operation where it fails. -/
theorem run_calculation (ops : List Op) (limit : Nat) {settings : Settings}
    (quiet : settings.Quiet) :
    Agrees befungeEvaluation (fun place => .point 1 (place + 1)) (calculate limit ops)
        (run .befunge (befungeText (program ops)) (settings.limited limit))
      ∧ (∃ source : String, Whitespace.WritesAll ((program ops).map Op.command)
          (source.toList.filterMap Whitespace.Symbol.ofChar?))
      ∧ ∀ source : String, Whitespace.WritesAll ((program ops).map Op.command)
          (source.toList.filterMap Whitespace.Symbol.ofChar?) →
        (Whitespace.decodeAll (Whitespace.scan source)).map Whitespace.Item.content
            = ((program ops).map Op.command).map Except.ok
          ∧ Agrees whitespaceEvaluation
              (Whitespace.itemSite (Whitespace.decodeAll (Whitespace.scan source)))
              (calculate limit ops) (run .whitespace source (settings.limited limit)) := by
  refine ⟨?_, ⟨_, Whitespace.writesAll_text 0 _⟩, ?_⟩
  · have ne : program ops ≠ [] := by simp [program]
    have load : Engine.load .befunge (befungeText (program ops)) settings.input settings.draws
        = .ok (Befunge.engine settings.draws (befungeText (program ops))
            settings.input) := by
      unfold Engine.load
      rw [refusal?_befungeText (by simp [program])]
    rw [run_eq_load, load_limited, load]
    have start : BefungeAt (program ops) 0 (program ops) ⟨[], []⟩
        (.initial (befungeText (program ops)) settings.input) :=
      ⟨rfl, ne, ⟨rfl, rfl⟩, ofSource_befungeText ne, rfl, rfl⟩
    refine agrees_of_carries _ (carries_befunge _ List.getLast?_concat) ?_ ?_ start limit quiet
    · intro s data shows
      show (⟨.befunge, s.output, .stack s.stack.values.reverse⟩ : Evaluation) = _
      rw [shows.stack, shows.output]
      rfl
    · intro cause fault kind
      exact kind
  · intro source text
    have readable : ∀ c ∈ (program ops).map Op.command, c.number? ≠ some Int64.minValue := by
      intro c mem
      obtain ⟨op, -, rfl⟩ := List.mem_map.mp mem
      exact readable_command op
    have contents := Whitespace.map_content_decodeAll text readable
    have carries := (Whitespace.carries_obey
      (Whitespace.decodeAll (Whitespace.scan source))).refine Op.command obey_command
    refine ⟨contents, ?_⟩
    rw [run_eq_load]
    refine agrees_of_carries (Whitespace.engine source) carries ?_ ?_ ?_ limit quiet
    · intro s data shown
      obtain ⟨store, rfl, shows⟩ := shown
      show (⟨.whitespace, s.output, .nothing⟩ : Evaluation) = _
      rw [shows.output]
      rfl
    · intro cause fault caused
      obtain ⟨inner, rfl, kind⟩ := caused
      exact kind
    · exact ⟨.initial, ⟨rfl, rfl, contents⟩, rfl, rfl⟩

/-- Seven modulo minus two is printed, and then zero is divided by zero: the eighth
operation fails in both languages, in Befunge in the eighth column. -/
theorem run_calculation_division :
    ({} : Settings).Quiet
      ∧ calculate 100 [.digit 7, .digit 0, .digit 2, .operate .subtract, .operate .modulo,
          .printInt, .swap, .operate .divide] = .failed .divisionByZero 7
      ∧ (∃ finding, run .befunge "702-%.\\/@" (Machine.Settings.limited {} 100) = .error finding
          ∧ finding.report.kind = .divisionByZero ∧ finding.site = .point 1 8)
      ∧ ∃ source finding,
          run .whitespace source (Machine.Settings.limited {} 100) = .error finding
            ∧ finding.report.kind = .divisionByZero := by
  have quiet : ({} : Settings).Quiet := ⟨nofun, nofun⟩
  have result : calculate 100 [.digit 7, .digit 0, .digit 2, .operate .subtract,
      .operate .modulo, .printInt, .swap, .operate .divide] = .failed .divisionByZero 7 := by
    decide +kernel
  have text : befungeText (program [.digit 7, .digit 0, .digit 2, .operate .subtract,
      .operate .modulo, .printInt, .swap, .operate .divide]) = "702-%.\\/@" := by
    decide +kernel
  obtain ⟨befunge, ⟨source, written⟩, whitespace⟩ := run_calculation [.digit 7, .digit 0,
    .digit 2, .operate .subtract, .operate .modulo, .printInt, .swap, .operate .divide] 100 quiet
  obtain ⟨-, agrees⟩ := whitespace source written
  rw [result, text] at befunge
  rw [result] at agrees
  obtain ⟨finding, failed, kind, -⟩ := agrees
  exact ⟨quiet, result, befunge, source, finding, failed, kind⟩

end Calculator

end Esolang
