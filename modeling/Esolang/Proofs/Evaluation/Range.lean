/-
  Esolang.Proofs.Evaluation.Range
  ───────────────────────────────
  **NO EVALUATION LEAVES ITS RANGE.**

  The four machines index tapes, stacks, grids, programs and line tables, cut
  texts into lines, and add to words and to counters.  Each of them keeps to its
  range by another invariant; here they are put together for all languages.

    • `Language.InRange` — what has to hold of a text in a language,
    • `evaluation_inRange` — it holds of every text in every language, for all
      inputs, seeds and budgets.
-/
import Esolang.Proofs.Befunge.Range
import Esolang.Proofs.Brainfuck.Range
import Esolang.Proofs.Cow.Range
import Esolang.Proofs.Evaluation.Engine
import Esolang.Proofs.Whitespace.Range

namespace Esolang

open Esolang.Machine (Settings Budget)
open Esolang.Source (LineTable)

/-- Every index, every slice and every sum of an evaluation of `source` is in range.  The
states that are spoken of are those of the course of the machine, which every run
follows, whatever its budget (`Machine.run_course`). -/
def Language.InRange (language : Language) (source : String) : Prop :=
  match language with
  | .brainfuck => Brainfuck.InRange source
  | .cow => Cow.InRange source
  | .befunge => Befunge.InRange source
  | .whitespace => Whitespace.InRange source

/-- A run counts no more cycles than its budget allows. -/
theorem Engine.cycles_run_le (e : Engine) (settings : Settings) :
    (e.run settings).cycles ≤ (e.budget settings).limit :=
  Machine.cycles_run_le e.machine (e.budget settings) e.start (Nat.zero_le _)

/-- **No evaluation leaves its range**: not in the machine of its language, not in the
line table by which it is reported on, and not in the count of its cycles. -/
theorem evaluation_inRange (language : Language) (source : String) :
    language.InRange source ∧ LineTable.InRange source
      ∧ ∀ settings e,
          Engine.load language source settings.input settings.draws = .ok e →
            (e.run settings).cycles ≤ (e.budget settings).limit := by
  refine ⟨?_, LineTable.inRange source, ?_⟩
  · -- Each language has its own machine, and its own reasons.
    cases language with
    | brainfuck => exact Brainfuck.inRange source
    | cow => exact Cow.inRange source
    | befunge => exact Befunge.inRange source
    | whitespace => exact Whitespace.inRange source
  · intro settings e _
    exact e.cycles_run_le settings

end Esolang
