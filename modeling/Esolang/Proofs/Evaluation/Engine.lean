/-
  Esolang.Proofs.Evaluation.Engine
  ────────────────────────────────
  **ONE VIEW OF FOUR LANGUAGES.**

  A program of any language is read first and then run by a machine.  An
  `Engine` is a program that has been read, together with its machine: what is
  proved of every engine holds of every language.

    • `run_eq_load` — running a source text is loading an engine and running it.

  Whether a text can be loaded, and which engine it gives, hangs on the text, the
  input and the directions drawn, and on no bound of the run.
-/
import Esolang.Evaluation
import Esolang.Proofs.Machine.Course

namespace Esolang

open Esolang.Diagnostic (Report Finding)
open Esolang.Machine (Settings Input Budget Run)

/-! ## §1. No fault of a language is an exhausted bound. -/

theorem Brainfuck.category_stalled (stall : Loop.Stall) :
    (Brainfuck.stalled stall).kind.category ≠ .resourceExhaustion :=
  nofun

theorem Cow.Fault.category_report (fault : Cow.Fault) :
    fault.report.kind.category ≠ .resourceExhaustion := by
  cases fault <;> exact nofun

theorem Befunge.Fault.category_report (fault : Befunge.Fault) :
    fault.report.kind.category ≠ .resourceExhaustion := by
  cases fault <;> exact nofun

theorem Whitespace.Fault.category_report (fault : Whitespace.Fault) :
    fault.report.kind.category ≠ .resourceExhaustion := by
  cases fault with
  | undecodable fault => cases fault <;> exact nofun
  | stack fault => cases fault <;> exact nofun
  | notACharacter value => exact nofun

/-! ## §2. Engines. -/

/-- A program that has been read, with the machine that runs it. -/
structure Engine where
  State : Type
  Instr : Type
  Cause : Type
  machine : Machine State Instr Cause
  start : State
  /-- The limit that holds if the settings give none. -/
  defaultLimit : Option Nat
  /-- A cause of failure in words. -/
  report : Cause → Report
  /-- What a program that halts has printed and left. -/
  evaluation : State → Evaluation
  /-- The machine trips no token. -/
  steady : machine.Steady
  /-- To fail is not to be stopped from outside. -/
  category_report : ∀ cause, (report cause).kind.category ≠ .resourceExhaustion

def Brainfuck.Program.engine (program : Brainfuck.Program) (input : Input) : Engine where
  State := Brainfuck.State
  Instr := Brainfuck.Instr
  Cause := Loop.Stall
  machine := Brainfuck.machine program
  start := .initial input
  defaultLimit := none
  report := Brainfuck.stalled
  evaluation s := ⟨.brainfuck, s.output, .tape s.tape.cells⟩
  steady _ := rfl
  category_report := Brainfuck.category_stalled

def Cow.Program.engine (program : Cow.Program) (input : Input) : Engine where
  State := Cow.State
  Instr := Cow.Opcode
  Cause := Cow.Fault
  machine := Cow.machine program
  start := .initial program input
  defaultLimit := none
  report := Cow.Fault.report
  evaluation s := ⟨.cow, s.output, .tape s.tape.cells⟩
  steady _ := rfl
  category_report := Cow.Fault.category_report

/-- A Befunge program that is not refused, with the directions it draws. -/
def Befunge.engine (draws : Befunge.Draws) (source : String) (input : Input) : Engine where
  State := Befunge.State
  Instr := Char
  Cause := Befunge.Fault
  machine := Befunge.machine draws none
  start := .initial source input
  defaultLimit := some Befunge.defaultLimit
  report := Befunge.Fault.report
  evaluation s := ⟨.befunge, s.output, .stack s.stack.toList⟩
  steady _ := rfl
  category_report := Befunge.Fault.category_report

/-- A Whitespace program, which is read while it runs. -/
def Whitespace.engine (source : String) : Engine where
  State := Whitespace.State
  Instr := Whitespace.Decoded
  Cause := Whitespace.Fault
  machine := Whitespace.machine
  start := ⟨.initial, Whitespace.scan source⟩
  defaultLimit := none
  report := Whitespace.Fault.report
  evaluation s := ⟨.whitespace, s.output, .nothing⟩
  steady _ := rfl
  category_report := Whitespace.Fault.category_report

namespace Engine

/-- Reads a program, to be run on this input with these directions. -/
def load (language : Language) (source : String) (input : Input) (draws : Befunge.Draws) :
    Except Finding Engine :=
  match language with
  | .brainfuck =>
    match Brainfuck.parse source with
    | .error finding => .error finding
    | .ok program => .ok (program.engine input)
  | .cow =>
    match Cow.parse source with
    | .error finding => .error finding
    | .ok program => .ok (program.engine input)
  | .befunge =>
    match Befunge.refusal? source with
    | some refusal => .error ⟨refusal.report, .finish⟩
    | none => .ok (Befunge.engine draws source input)
  | .whitespace => .ok (Whitespace.engine source)

/-- The budget that an engine is given. -/
def budget (e : Engine) (settings : Settings) : Budget :=
  .ofSettings settings e.defaultLimit

/-- Runs an engine. -/
def run (e : Engine) (settings : Settings) : Run e.State e.Cause :=
  e.machine.run (e.budget settings) e.start

/-- What comes of a run of the engine. -/
def outcome (e : Engine) (r : Run e.State e.Cause) : Except Finding Evaluation :=
  (r.result e.report).map e.evaluation

end Engine

/-! ## §3. A text that cannot be loaded is malformed. -/

theorem Brainfuck.category_unpaired (fault : Loop.PairingFault) :
    (Brainfuck.unpaired fault).kind.category = .structural := by
  cases fault <;> rfl

theorem Cow.Malformation.category_report (fault : Cow.Malformation) :
    fault.report.kind.category = .structural := by
  cases fault with
  | incomplete letters count => rfl
  | unknown triplet => rfl
  | unpaired fault => cases fault <;> rfl

/-- What goes wrong for a list goes wrong for one of its elements. -/
theorem exists_of_mapM_eq_error {α β ε : Type} {f : α → Except ε β} {cause : ε} :
    ∀ {xs : List α}, xs.mapM f = .error cause → ∃ x ∈ xs, f x = .error cause
  | [], h => by
    rw [List.mapM_nil] at h
    cases h
  | x :: xs, h => by
    rw [List.mapM_cons] at h
    cases hx : f x with
    | error e =>
      rw [hx] at h
      cases h
      exact ⟨x, List.mem_cons_self, hx⟩
    | ok y =>
      rw [hx] at h
      cases hxs : xs.mapM f with
      | ok ys =>
        rw [hxs] at h
        cases h
      | error e =>
        rw [hxs] at h
        cases h
        obtain ⟨x', mem, hx'⟩ := exists_of_mapM_eq_error hxs
        exact ⟨x', List.mem_cons_of_mem x mem, hx'⟩

theorem Brainfuck.category_of_parse {source : String} {finding : Finding}
    (h : Brainfuck.parse source = .error finding) :
    finding.report.kind.category = .structural := by
  unfold Brainfuck.parse at h
  dsimp only at h
  split at h <;> cases h
  exact Brainfuck.category_unpaired _

theorem Cow.category_of_parse {source : String} {finding : Finding}
    (h : Cow.parse source = .error finding) :
    finding.report.kind.category = .structural := by
  -- Letters are left over, or a triplet is unknown, or a loop is unpaired.
  unfold Cow.parse at h
  dsimp only at h
  split at h
  · cases h
    exact Cow.Malformation.category_report _
  · split at h
    · next hm =>
      cases h
      obtain ⟨triplet, -, hc⟩ := exists_of_mapM_eq_error hm
      unfold Cow.command at hc
      split at hc <;> cases hc
      exact Cow.Malformation.category_report _
    · split at h <;> cases h
      exact Cow.Malformation.category_report _

/-- A text that cannot be loaded is malformed. -/
theorem Engine.category_of_load {language : Language} {source : String} {input : Input}
    {draws : Befunge.Draws} {finding : Finding}
    (h : Engine.load language source input draws = .error finding) :
    finding.report.kind.category = .structural := by
  unfold Engine.load at h
  cases language with
  | brainfuck =>
    cases hp : Brainfuck.parse source <;> rw [hp] at h <;> cases h
    exact Brainfuck.category_of_parse hp
  | cow =>
    cases hp : Cow.parse source <;> rw [hp] at h <;> cases h
    exact Cow.category_of_parse hp
  | befunge =>
    cases hr : Befunge.refusal? source <;> rw [hr] at h <;> cases h
    rfl
  | whitespace => cases h

/-! ## §4. Loading and running. -/

/-- Running a source text is loading an engine and running it. -/
theorem run_eq_load (language : Language) (source : String) (settings : Settings) :
    run language source settings =
      match Engine.load language source settings.input settings.draws with
      | .error finding => .error finding
      | .ok e => e.outcome (e.run settings) := by
  -- Each language reads its program first, and what follows is the engine's run.
  cases language with
  | brainfuck =>
    show (Brainfuck.run source settings).map _ = _
    unfold Brainfuck.run Engine.load
    cases Brainfuck.parse source <;> rfl
  | cow =>
    show (Cow.run source settings).map _ = _
    unfold Cow.run Engine.load
    cases Cow.parse source <;> rfl
  | befunge =>
    show (Befunge.run source settings).map _ = _
    unfold Befunge.run Befunge.runWith Engine.load
    cases Befunge.refusal? source <;> rfl
  | whitespace => rfl

section
variable {language : Language} {source : String} {settings : Settings}

/-- A text that cannot be loaded is reported as it was found. -/
theorem evaluate_of_load_error {finding : Finding}
    (h : Engine.load language source settings.input settings.draws = .error finding) :
    evaluate language source settings
      = .error (finding.locate (fileName language settings) source) := by
  rw [evaluate, run_eq_load, h]
  rfl

/-- An engine that was loaded is run, and what it finds is reported. -/
theorem evaluate_of_load_ok {e : Engine}
    (h : Engine.load language source settings.input settings.draws = .ok e) :
    evaluate language source settings
      = (e.outcome (e.run settings)).mapError
          (Finding.locate (fileName language settings) source) := by
  rw [evaluate, run_eq_load, h]

end

/-- The text is a program, and left alone it halts. -/
def Halts (language : Language) (source : String) (settings : Settings) : Prop :=
  ∃ e, Engine.load language source settings.input settings.draws = .ok e
    ∧ e.machine.Halts e.start

end Esolang
