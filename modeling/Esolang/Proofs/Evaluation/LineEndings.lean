/-
  Esolang.Proofs.Evaluation.LineEndings
  ─────────────────────────────────────
  **HOW LINES END DOES NOT MATTER.**

  A text may come with a carriage return before each newline.  Brainfuck, COW and
  Whitespace take it for a comment, and Befunge drops it from its rows; where lines are
  shown it is left out, and no column is counted behind it but that of the newline.

    • `Befunge.runWith_addReturns` — Befunge does the same, whatever it draws,
    • `evaluate_addReturns` — every language does the same, and only in Whitespace can
      a diagnostic change, by one column.
-/
import Esolang.Proofs.Evaluation.Comments
import Esolang.Proofs.Machine.Course
import Esolang.Proofs.Source.Returns

namespace Esolang

open Esolang.Diagnostic (Site Finding)
open Esolang.Machine (Settings)
open Esolang.Source (TextAlignment addReturns withReturns lines Returned lines_withReturns
  count_withReturns toList_addReturns LineTable)

/-! ## §1. Befunge. -/

namespace Befunge

theorem Grid.dropReturn_of_not_mem {line : List Char} (plain : '\r' ∉ line) :
    dropReturn line = line := by
  unfold dropReturn
  rw [if_neg]
  intro last
  exact plain (List.mem_of_getLast? last)

theorem Grid.dropReturn_returned {line line' : List Char} (plain : '\r' ∉ line)
    (returned : Returned line line') : dropReturn line' = dropReturn line := by
  rcases returned with rfl | rfl
  · rfl
  · rw [dropReturn_of_not_mem plain]
    unfold dropReturn
    simp

/-- The rows of the grid are the same. -/
theorem Grid.ofSource_addReturns {source : String} (plain : '\r' ∉ source.toList) :
    ofSource (addReturns source) = ofSource source := by
  have rows : (lines (withReturns source.toList)).map dropReturn
      = (lines source.toList).map dropReturn := by
    have each : ∀ line ∈ lines source.toList, '\r' ∉ line :=
      fun line mem inside => plain (Source.mem_of_mem_lines mem inside)
    have returned := lines_withReturns source.toList
    generalize lines source.toList = rows at each returned
    generalize lines (withReturns source.toList) = rows' at returned
    induction returned with
    | nil => rfl
    | cons first rest ih =>
      rw [List.forall_mem_cons] at each
      rw [List.map_cons, List.map_cons, dropReturn_returned each.1 first, ih each.2]
  unfold ofSource
  rw [toList_addReturns, rows]

theorem refusal?_addReturns (source : String) :
    refusal? (addReturns source) = refusal? source := by
  have quotes : (withReturns source.toList).count '"' = source.toList.count '"' :=
    count_withReturns (by decide) _
  have halts : '@' ∈ withReturns source.toList ↔ '@' ∈ source.toList := by
    rw [← List.count_pos_iff, ← List.count_pos_iff, count_withReturns (by decide)]
  unfold refusal?
  simp only [toList_addReturns, quotes, halts]

/-- **Befunge does the same**, whatever it draws. -/
theorem runWith_addReturns (draws : Draws) (cancelAt : Option Nat) {source : String}
    (plain : '\r' ∉ source.toList) (settings : Settings) :
    runWith draws cancelAt (addReturns source) settings
      = runWith draws cancelAt source settings := by
  have start : State.initial (addReturns source) settings.input
      = State.initial source settings.input := by
    unfold State.initial
    rw [Grid.ofSource_addReturns plain]
  have runs : runGrid draws cancelAt (addReturns source) settings
      = runGrid draws cancelAt source settings := by
    unfold runGrid
    rw [start]
  unfold runWith
  rw [refusal?_addReturns, runs]

/-- Befunge sites its findings at cells of the grid, or at the end of the text. -/
theorem site_of_runWith {draws : Draws} {cancelAt : Option Nat} {source : String}
    {settings : Settings} {finding : Finding}
    (failed : (runWith draws cancelAt source settings).result = .error finding) :
    finding.site = .finish ∨ ∃ line column, finding.site = .point line column := by
  unfold runWith at failed
  cases refuses : refusal? source with
  | some refusal =>
    rw [refuses] at failed
    cases failed
    exact .inl rfl
  | none =>
    rw [refuses] at failed
    dsimp only at failed
    unfold Machine.Run.result at failed
    split at failed
    · cases failed
    · next found =>
      cases failed
      obtain ⟨t, ⟨instr, fetched⟩ | ⟨cause, fetched⟩⟩ := Machine.exists_fetch_of_finding? found
      · injection fetched with _ site
        exact .inr ⟨_, _, site.symm⟩
      · cases fetched

end Befunge

/-! ## §2. Every language. -/

theorem locate_addReturns (file source : String) {finding : Finding}
    (place : finding.site = .finish ∨ ∃ line column, finding.site = .point line column) :
    finding.locate file (addReturns source) = finding.locate file source := by
  obtain ⟨report, site⟩ := finding
  simp only at place
  rcases place with rfl | ⟨line, column, rfl⟩
  · simp only [Finding.locate, Site.locate, Source.endPosition_addReturns, Source.text_addReturns]
  · simp only [Finding.locate, Site.locate, Source.text_addReturns]

theorem Befunge.evaluate_returns {source : String} (plain : '\r' ∉ source.toList)
    (settings : Settings) :
    evaluate .befunge (addReturns source) settings = evaluate .befunge source settings := by
  have same : Befunge.run (addReturns source) settings = Befunge.run source settings := by
    unfold Befunge.run
    rw [runWith_addReturns _ _ plain]
  unfold evaluate Esolang.run
  rw [same]
  cases result : Befunge.run source settings with
  | ok s => simp only [Except.map, Except.mapError]
  | error finding =>
    simp only [Except.map, Except.mapError]
    rw [locate_addReturns _ source (site_of_runWith result)]

theorem texts_addReturns {language : Language} (prose : language ≠ .befunge) (source : String) :
    (TextAlignment.returns (isSymbol language) source.toList).Texts language source
      (addReturns source) := by
  cases language with
  | brainfuck => exact Source.aligned_returns Brainfuck.scans.meaningful rfl source
  | cow => exact Source.aligned_returns Cow.scans.meaningful rfl source
  | whitespace => exact Source.aligned_returns Whitespace.scans.meaningful rfl source
  | befunge => exact absurd rfl prose

/-- **How lines end does not matter.**  A source without carriage returns evaluates the
same with one before each newline, in Brainfuck, COW and Befunge, where Befunge may draw
what it will.  In Whitespace the column of a diagnostic may be one more, since there a
newline is a symbol and begins behind its return. -/
theorem evaluate_addReturns {source : String} (plain : '\r' ∉ source.toList)
    (settings : Settings) :
    (∀ language, language ≠ .whitespace →
      evaluate language (addReturns source) settings = evaluate language source settings)
    ∧ (∀ draws cancelAt, Befunge.runWith draws cancelAt (addReturns source) settings
        = Befunge.runWith draws cancelAt source settings)
    ∧ ((∃ e, evaluate .whitespace source settings = .ok e
          ∧ evaluate .whitespace (addReturns source) settings = .ok e)
      ∨ ∃ report location column,
          (column = location.column ∨ column = location.column + 1)
          ∧ evaluate .whitespace source settings = .error ⟨report, location⟩
          ∧ evaluate .whitespace (addReturns source) settings
            = .error ⟨report, { location with column }⟩) := by
  refine ⟨?_, fun draws cancelAt => Befunge.runWith_addReturns draws cancelAt plain settings, ?_⟩
  · intro language inked
    by_cases befunge : language = .befunge
    · rw [befunge]
      exact Befunge.evaluate_returns plain settings
    · -- In the other two languages a newline is a comment.
      have newline : isSymbol language '\n' = false := by
        cases language with
        | brainfuck => rfl
        | cow => rfl
        | befunge => exact absurd rfl befunge
        | whitespace => exact absurd rfl inked
      rcases evaluate_aligned (texts_addReturns befunge source) settings with
        ⟨e, eq, eq'⟩ | ⟨report, span, span', spans, eq, eq'⟩
      · rw [eq, eq']
      · obtain ⟨column, same | ⟨symbolic, -⟩, located⟩ :=
          Source.locate_returns (fileName language settings) spans
        · rw [eq, eq', located, same]
        · rw [newline] at symbolic
          cases symbolic
  · have prose : Language.whitespace ≠ .befunge := nofun
    rcases evaluate_aligned (texts_addReturns prose source) settings with
      halted | ⟨report, span, span', spans, eq, eq'⟩
    · exact .inl halted
    · obtain ⟨column, columns, located⟩ :=
        Source.locate_returns (fileName .whitespace settings) spans
      rw [located] at eq'
      exact .inr ⟨report, _, column, columns.imp_right And.right, eq, eq'⟩

/-- The fault on the second line of the grid is reported as before.  The newline with which no
command of Whitespace begins may be reported one column later. -/
theorem evaluate_addReturns_second_line :
    evaluate .befunge "v\r\n>$@" {} = evaluate .befunge "v\n>$@" {}
      ∧ evaluate .whitespace "\n\t" {}
        = .error ⟨(Whitespace.DecodeFault.unknown "lt").report, "<whitespace>", 1, 1, "", 1⟩
      ∧ ∃ column, (column = 1 ∨ column = 2) ∧ evaluate .whitespace "\r\n\t" {}
        = .error ⟨(Whitespace.DecodeFault.unknown "lt").report,
            "<whitespace>", 1, column, "", 1⟩ := by
  have returns : addReturns "v\n>$@" = "v\r\n>$@" := by decide +kernel
  have returns' : addReturns "\n\t" = "\r\n\t" := by decide +kernel
  have plain : '\r' ∉ "v\n>$@".toList := by decide +kernel
  have plain' : '\r' ∉ "\n\t".toList := by decide +kernel
  have fails : evaluate .whitespace "\n\t" {}
      = .error ⟨(Whitespace.DecodeFault.unknown "lt").report,
          "<whitespace>", 1, 1, "", 1⟩ := by
    decide +kernel
  refine ⟨?_, fails, ?_⟩
  · rw [← returns]
    exact (evaluate_addReturns plain {}).1 .befunge nofun
  · rw [← returns']
    rcases (evaluate_addReturns plain' {}).2.2 with
      ⟨e, eq, -⟩ | ⟨report, location, column, columns, eq, eq'⟩
    · rw [fails] at eq
      cases eq
    · rw [fails] at eq
      cases eq
      exact ⟨column, columns, eq'⟩

end Esolang
