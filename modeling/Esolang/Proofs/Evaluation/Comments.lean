/-
  Esolang.Proofs.Evaluation.Comments
  ──────────────────────────────────
  **COMMENTS DO NOT MATTER.**

  Brainfuck, COW and Whitespace are written in a few characters each, and whatever
  stands between these is a comment.  `symbols` strips a text of its comments; what is
  left decides all that is said of the text, except where in it that is.

    • `evaluate_commented` — texts with the same symbols give the same, or fail alike
      at symbols of the same numbers.
-/
import Esolang.Proofs.Evaluation.Aligned

namespace Esolang

open Esolang.Diagnostic (Site)
open Esolang.Machine (Settings)
open Esolang.Source (TextAlignment BeginsAt EndsAt tokens aligned_tokens)

/-! ## §1. The characters of a language. -/

/-- The symbol that a character is, if it is not part of a comment.  In Whitespace U+3164
stands for a tab.  Befunge has no comments. -/
def symbol? : Language → Char → Option Char
  | .brainfuck, c => if c ∈ ['.', ',', '[', ']', '<', '>', '+', '-'] then some c else none
  | .cow, c => if c ∈ ['m', 'o', 'M', 'O'] then some c else none
  | .whitespace, c =>
    if c = '\u3164' then some '\t' else if c ∈ [' ', '\t', '\n'] then some c else none
  | .befunge, c => some c

/-- The symbols of a text, without the comments between them. -/
def symbols (language : Language) (source : String) : List Char :=
  source.toList.filterMap (symbol? language)

/-- The character is a symbol of the language. -/
def isSymbol (language : Language) (c : Char) : Bool :=
  (symbol? language c).isSome

/-- A scanner that gives a meaning to the symbols of a language, and to nothing else. -/
structure Scans {τ : Type} (language : Language) (classify : Char → Option τ) : Prop where
  /-- The meaning of a character hangs on the symbol that it is. -/
  meaning : ∀ c, classify c = (symbol? language c).bind classify
  /-- What is no comment has a meaning. -/
  meaningful : ∀ c, (classify c).isSome = isSymbol language c

theorem Brainfuck.scans : Scans .brainfuck Brainfuck.Instr.ofChar? where
  meaning c := by
    unfold symbol? Brainfuck.Instr.ofChar?
    grind
  meaningful c := by
    unfold isSymbol symbol? Brainfuck.Instr.ofChar?
    simp only [List.mem_cons, List.not_mem_nil, or_false]
    grind

theorem Cow.scans : Scans .cow Cow.letter? where
  meaning c := by
    unfold symbol? Cow.letter?
    grind
  meaningful c := by
    unfold isSymbol symbol? Cow.letter?
    grind

theorem Whitespace.scans : Scans .whitespace Whitespace.Symbol.ofChar? where
  meaning c := by
    unfold symbol? Whitespace.Symbol.ofChar?
    grind
  meaningful c := by
    unfold isSymbol symbol? Whitespace.Symbol.ofChar?
    grind

/-! ## §2. Texts with the same symbols. -/

/-- Bytes of symbols of the same number. -/
def byNumber (language : Language) (source source' : String) : TextAlignment :=
  .bySymbols (isSymbol language) source.toList source'.toList

theorem Scans.aligned_tokens {τ : Type} {language : Language} {classify : Char → Option τ}
    (scans : Scans language classify) {source source' : String}
    (same : symbols language source = symbols language source') :
    List.Forall₂ (byNumber language source source').Tokens (tokens classify source)
      (tokens classify source') := by
  apply Source.aligned_tokens scans.meaningful
  have read (text : String) :
      text.toList.filterMap classify = (symbols language text).filterMap classify := by
    unfold symbols
    rw [List.filterMap_filterMap]
    congr
    funext c
    exact scans.meaning c
  rw [read, read, same]

/-- **Comments do not matter.**  Two texts that have the same symbols give the same
evaluation, or they fail with the same report, at spans that begin with symbols of the
same number and end with symbols of the same number. -/
theorem evaluate_commented {language : Language} (prose : language ≠ .befunge)
    {source source' : String} (same : symbols language source = symbols language source')
    (settings : Settings) :
    (∃ e, evaluate language source settings = .ok e ∧ evaluate language source' settings = .ok e)
      ∨ ∃ report span span',
        evaluate language source settings = .error ⟨report,
            (Site.range span).locate (fileName language settings) (.ofText source)⟩
        ∧ evaluate language source' settings = .error ⟨report,
            (Site.range span').locate (fileName language settings) (.ofText source')⟩
        ∧ (∃ i, BeginsAt (isSymbol language) source.toList i span.start
            ∧ BeginsAt (isSymbol language) source'.toList i span'.start)
        ∧ ∃ j, EndsAt (isSymbol language) source.toList j span.stop
            ∧ EndsAt (isSymbol language) source'.toList j span'.stop := by
  have aligned : (byNumber language source source').Texts language source source' := by
    cases language with
    | brainfuck => exact Brainfuck.scans.aligned_tokens same
    | cow => exact Cow.scans.aligned_tokens same
    | whitespace => exact Whitespace.scans.aligned_tokens same
    | befunge => exact absurd rfl prose
  rcases evaluate_aligned aligned settings with halted | ⟨report, span, span', spans, eq, eq'⟩
  · exact .inl halted
  · exact .inr ⟨report, span, span', eq, eq', spans.begins, spans.ends⟩

/-- A tab is written as U+3164 in the second text, between comments of several bytes.  Both
texts break off inside of the same command. -/
theorem evaluate_commented_incomplete :
    evaluate .whitespace "\t " {} = .error ⟨(Whitespace.DecodeFault.incomplete "ts").report,
        "<whitespace>", 1, 1, "\t ", 2⟩
      ∧ ∃ location, evaluate .whitespace "ü\u3164\r→ " {}
        = .error ⟨(Whitespace.DecodeFault.incomplete "ts").report, location⟩ := by
  have fails : evaluate .whitespace "\t " {}
      = .error ⟨(Whitespace.DecodeFault.incomplete "ts").report,
          "<whitespace>", 1, 1, "\t ", 2⟩ := by
    decide +kernel
  have same : symbols .whitespace "\t " = symbols .whitespace "ü\u3164\r→ " := by decide +kernel
  refine ⟨fails, ?_⟩
  rcases evaluate_commented (show Language.whitespace ≠ .befunge from nofun) same {} with
    ⟨e, eq, -⟩ | ⟨report, span, span', eq, eq', -⟩
  · rw [fails] at eq
    cases eq
  · rw [fails] at eq
    obtain rfl := congrArg Diagnostic.report (Except.error.inj eq)
    exact ⟨_, eq'⟩

end Esolang
