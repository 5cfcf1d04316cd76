/-
  Esolang.Proofs.Evaluation.Structural
  ────────────────────────────────────
  **WHEN STRUCTURE IS LOOKED AT.**

  A structural failure is one of the text, and most of them are found before
  anything runs: then no setting makes a difference.  Three languages look at part of
  their structure when they come to it.  Befunge meets its characters on the way, COW
  looks for the partner of a command that `mOO` has written, and Whitespace decodes a
  command when it is due.  Such a failure takes a run that gets there.

    • `Engine.completes_of_structural` — a run that fails so has come to its own end,
    • `evaluate_structural` — what the failure of one evaluation says of another with
      other bounds, another input or another seed,
    • `not_foretold` — pairs of evaluations that the rule does not cover, and that
      differ.
-/
import Mathlib.Control.Monad.Basic
import Esolang.Proofs.Evaluation.StepLimit

namespace Esolang

open Esolang.Diagnostic (Report Finding)
open Esolang.Machine (Settings Input Run Exhaustion)

/-! ## §1. Failures that take a run. -/

/-- The report of a structural failure that is found when the run comes to it. -/
def FoundWhileRunning (language : Language) (report : Report) : Prop :=
  match language with
  | .brainfuck => False
  | .cow => ∃ op, report = (Cow.Fault.unpaired op).report
  | .befunge => ∃ symbol x y, report = (Befunge.Fault.unknown symbol x y).report
  | .whitespace => (∃ letters, report = (Whitespace.DecodeFault.unknown letters).report)
      ∨ ∃ letters, report = (Whitespace.DecodeFault.incomplete letters).report

/-- What may take part in the course of a run is the same in both settings. -/
def SameCourse (language : Language) (a b : Settings) : Prop :=
  match language with
  | .brainfuck | .whitespace => True
  | .cow => a.input = b.input
  | .befunge => a.input = b.input ∧ a.seed = b.seed ∧ a.seed ≠ none
      ∧ a.generator = b.generator

/-- The evaluation was stopped by one of its bounds. -/
def OutOfResources (result : Except Diagnostic Evaluation) : Prop :=
  ∃ d, result = .error d ∧ d.report.kind.category = .resourceExhaustion

theorem Machine.Exhaustion.category_report (reason : Exhaustion) :
    reason.report.kind.category = .resourceExhaustion := by
  cases reason <;> rfl

theorem Cow.Fault.eq_unpaired {fault : Cow.Fault}
    (structural : fault.report.kind.category = .structural) : ∃ op, fault = .unpaired op := by
  cases fault with
  | unpaired op => exact ⟨op, rfl⟩
  | stalled | unselectable => cases structural

theorem Befunge.Fault.eq_unknown {fault : Befunge.Fault}
    (structural : fault.report.kind.category = .structural) :
    ∃ symbol x y, fault = .unknown symbol x y := by
  cases fault with
  | unknown symbol x y => exact ⟨symbol, x, y, rfl⟩
  | underflow | divisionByZero | notACharacter => cases structural

theorem Whitespace.Fault.eq_undecodable {fault : Whitespace.Fault}
    (structural : fault.report.kind.category = .structural) :
    (∃ letters, fault = .undecodable (.unknown letters))
      ∨ ∃ letters, fault = .undecodable (.incomplete letters) := by
  cases fault with
  | undecodable fault =>
    cases fault with
    | unknown letters => exact .inl ⟨letters, rfl⟩
    | incomplete letters => exact .inr ⟨letters, rfl⟩
    | number fault => cases fault <;> cases structural
  | stack fault => cases fault <;> cases structural
  | notACharacter => cases structural

/-- A machine's own structural failures are those that take a run. -/
theorem foundWhileRunning_of_load {language : Language} {source : String} {input : Input}
    {draws : Befunge.Draws} {e : Engine}
    (loaded : Engine.load language source input draws = .ok e) {cause : e.Cause}
    (structural : (e.report cause).kind.category = .structural) :
    FoundWhileRunning language (e.report cause) := by
  unfold Engine.load at loaded
  cases language with
  | brainfuck =>
    dsimp only at loaded
    split at loaded <;> cases loaded
    cases structural
  | cow =>
    dsimp only at loaded
    split at loaded <;> cases loaded
    obtain ⟨op, rfl⟩ := Cow.Fault.eq_unpaired structural
    exact ⟨op, rfl⟩
  | befunge =>
    dsimp only at loaded
    split at loaded <;> cases loaded
    obtain ⟨symbol, x, y, rfl⟩ := Befunge.Fault.eq_unknown structural
    exact ⟨symbol, x, y, rfl⟩
  | whitespace =>
    cases loaded
    rcases Whitespace.Fault.eq_undecodable structural with ⟨letters, rfl⟩ | ⟨letters, rfl⟩
    · exact .inl ⟨letters, rfl⟩
    · exact .inr ⟨letters, rfl⟩

/-! ## §2. Loading and the settings. -/

/-- A text that is refused once is always refused. -/
theorem load_error_congr {language : Language} {source : String} {input : Input}
    {draws : Befunge.Draws} {finding : Finding}
    (refused : Engine.load language source input draws = .error finding) (input' : Input)
    (draws' : Befunge.Draws) : Engine.load language source input' draws' = .error finding := by
  unfold Engine.load at refused ⊢
  cases language with
  | brainfuck =>
    dsimp only at refused ⊢
    split at refused <;> cases refused
    rfl
  | cow =>
    dsimp only at refused ⊢
    split at refused <;> cases refused
    rfl
  | befunge =>
    dsimp only at refused ⊢
    split at refused <;> cases refused
    rfl
  | whitespace => cases refused

/-- Where nothing takes another course the same machine is loaded. -/
theorem load_of_sameCourse {language : Language} {a b : Settings}
    (same : SameCourse language a b) (machine : language ≠ .brainfuck) (source : String) :
    Engine.load language source b.input b.draws
      = Engine.load language source a.input a.draws := by
  cases language with
  | brainfuck => exact absurd rfl machine
  | cow =>
    have input : a.input = b.input := same
    unfold Engine.load
    rw [input]
  | befunge =>
    obtain ⟨input, seed, given, generator⟩ := same
    have draws : b.draws = a.draws := by
      obtain ⟨n, eq⟩ := Option.ne_none_iff_exists'.mp given
      unfold Settings.draws
      rw [← generator, ← seed, eq]
      rfl
    rw [input, draws]
  | whitespace => rfl

/-! ## §3. Runs that fail so. -/

namespace Engine

variable {e : Engine} {settings : Settings}

/-- A run comes to its own end, or one of its bounds stops it. -/
theorem completes_or_exhausted (e : Engine) (settings : Settings) :
    e.Completes (e.run settings)
      ∨ ∃ reason site, (e.run settings).ending = .exhausted reason site := by
  rcases Machine.run_course e.machine (e.budget settings) e.start with
    ⟨r, completes, eq⟩ | ⟨n, t, instr, site, reason, -, -, eq⟩
  · have whole : e.run settings = r := eq.trans r.delay_zero
    rw [whole]
    exact .inl completes
  · have stopped : (e.run settings).ending = .exhausted reason site :=
      congrArg Run.ending eq
    exact .inr ⟨reason, site, stopped⟩

theorem outcome_of_exhausted {reason : Exhaustion} {site : Diagnostic.Site}
    (stopped : (e.run settings).ending = .exhausted reason site) :
    e.outcome (e.run settings) = .error ⟨reason.report, site⟩ := by
  unfold outcome Run.result
  rw [stopped]
  rfl

theorem finding_of_outcome {r : Run e.State e.Cause} {finding : Finding}
    (fails : e.outcome r = .error finding) : r.ending.finding? e.report = some finding := by
  unfold outcome Run.result at fails
  cases found : r.ending.finding? e.report with
  | none =>
    rw [found] at fails
    cases fails
  | some finding' =>
    rw [found] at fails
    cases fails
    rfl

/-- **A run that fails for its structure has come to its own end**, at a cause of the
machine's. -/
theorem completes_of_structural {finding : Finding}
    (fails : e.outcome (e.run settings) = .error finding)
    (structural : finding.report.kind.category = .structural) :
    e.Completes (e.run settings) ∧ ∃ cause, finding.report = e.report cause := by
  rcases e.completes_or_exhausted settings with completes | ⟨reason, site, stopped⟩
  · refine ⟨completes, ?_⟩
    rcases Machine.Ending.cases_of_finding? (finding_of_outcome fails) with
      ⟨cause, site, -, rfl⟩ | ⟨reason, site, stopped, -⟩
    · exact ⟨cause, rfl⟩
    · exact absurd stopped (completes.ending_ne_exhausted reason site)
  · rw [outcome_of_exhausted stopped] at fails
    cases fails
    rw [reason.category_report] at structural
    cases structural

end Engine

/-! ## §4. Two evaluations of one text. -/

/-- **What a structural failure says of other settings.**  If it is not one of those that
take a run, the text is no program, nothing is executed, and every evaluation fails
in the same way.  Otherwise an evaluation that takes the same course fails in the same
way or is stopped by a bound of its own. -/
theorem evaluate_structural {language : Language} {source : String} {a b : Settings}
    {d : Diagnostic} (file : a.file = b.file)
    (fails : evaluate language source a = .error d)
    (structural : d.report.kind.category = .structural) :
    (¬ FoundWhileRunning language d.report →
      (∃ finding, ∀ input draws, Engine.load language source input draws = .error finding)
      ∧ (∀ settings, cyclesOf language source settings = 0)
      ∧ evaluate language source b = .error d)
    ∧ (SameCourse language a b →
      evaluate language source b = .error d ∨ OutOfResources (evaluate language source b)) := by
  have name : fileName language a = fileName language b := by
    unfold fileName
    rw [file]
  cases loaded : Engine.load language source a.input a.draws with
  | error finding =>
    have refused := load_error_congr loaded
    have same : evaluate language source b = .error d := by
      rw [← fails, evaluate_of_load_error loaded, evaluate_of_load_error (refused _ _), name]
    refine ⟨fun _ => ⟨⟨finding, refused⟩, fun settings => ?_, same⟩, fun _ => .inl same⟩
    unfold cyclesOf
    rw [refused]
  | ok e =>
    rw [evaluate_of_load_ok loaded] at fails
    cases out : e.outcome (e.run a) with
    | ok evaluation =>
      rw [out] at fails
      cases fails
    | error finding =>
      rw [out] at fails
      cases fails
      obtain ⟨completes, cause, words⟩ := Engine.completes_of_structural out structural
      have late : FoundWhileRunning language finding.report := by
        rw [words]
        refine foundWhileRunning_of_load loaded ?_
        rw [← words]
        exact structural
      refine ⟨fun early => absurd late early, fun course => ?_⟩
      have machine : language ≠ .brainfuck := by
        rintro rfl
        exact late
      have loaded' := (load_of_sameCourse course machine source).trans loaded
      rw [evaluate_of_load_ok loaded', ← name]
      rcases e.completes_or_exhausted b with completes' | ⟨reason, site, stopped⟩
      · rw [completes'.unique completes, out]
        exact .inl rfl
      · rw [Engine.outcome_of_exhausted stopped]
        exact .inr ⟨_, rfl, reason.category_report⟩

/-- A loop end too many is found in a run that is cancelled before it begins. -/
theorem evaluate_structural_cancelled :
    evaluate .brainfuck "+]" {}
        = .error ⟨Brainfuck.unpaired (.unmatchedClose 1), "<brainfuck>", 1, 2, "+]", 1⟩
      ∧ evaluate .brainfuck "+]" { maxSteps := some 0, token := some true }
        = .error ⟨Brainfuck.unpaired (.unmatchedClose 1), "<brainfuck>", 1, 2, "+]", 1⟩
      ∧ ∀ settings, cyclesOf .brainfuck "+]" settings = 0 := by
  have fails : evaluate .brainfuck "+]" {}
      = .error ⟨Brainfuck.unpaired (.unmatchedClose 1), "<brainfuck>", 1, 2, "+]", 1⟩ := by
    decide +kernel
  have early : ¬ FoundWhileRunning .brainfuck (Brainfuck.unpaired (.unmatchedClose 1)) := id
  obtain ⟨-, cycles, same⟩ := (evaluate_structural
    (b := { maxSteps := some 0, token := some true }) rfl fails rfl).1 early
  exact ⟨fails, same, cycles⟩

/-- If the one evaluation fails for its structure, the other fails in the same way. -/
def Foretold (language : Language) (source : String) (a b : Settings) : Prop :=
  ∀ d, evaluate language source a = .error d → d.report.kind.category = .structural →
    evaluate language source b = .error d

instance (language : Language) (source : String) (a b : Settings) :
    Decidable (Foretold language source a b) :=
  match h : evaluate language source a with
  | .ok _ => isTrue fun d fails => by
    rw [h] at fails
    cases fails
  | .error d => decidable_of_iff
    (d.report.kind.category = .structural → evaluate language source b = .error d)
    ⟨fun same d' fails structural => by
      rw [h] at fails
      cases fails
      exact same structural, fun foretold => foretold d h⟩

/-- **What takes a run is not foretold.**  Befunge meets an unknown character, if the
limit, the input and the seed let it; COW misses the partner of a `MOO` that `mOO` has
written, if the input was 7; Whitespace comes to symbols that are no command, if the
limit lets it. -/
theorem not_foretold :
    cyclesOf .befunge "1.x@" {} = 3
      ∧ ¬ Foretold .befunge "1.x@" {} { maxSteps := some 2 }
      ∧ ¬ Foretold .befunge "&_x@" { input := .ofText "0" } { input := .ofText "1" }
      ∧ ¬ Foretold .befunge "?x@" { seed := some 0 } { seed := some 3 }
      ∧ ¬ Foretold .cow "oom moO MoO MoO MOO mOo mOO OOO moO MOo moo"
          { input := .ofText "7" } { input := .ofText "6" }
      ∧ ¬ Foretold .whitespace " \n \n\t" {} { maxSteps := some 0 } := by
  refine ⟨?_, ?_, ?_, ?_, ?_, ?_⟩
  · decide +kernel
  · decide +kernel
  · decide +kernel
  · decide +kernel
  · decide +kernel
  · decide +kernel

end Esolang
