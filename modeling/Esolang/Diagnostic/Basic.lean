/-
  Esolang.Diagnostic.Basic
  ────────────────────────
  **REPORTS, SITES AND DIAGNOSTICS.**

  A `Report` says what went wrong, a `Site` where in the program, and the two
  together are a `Finding`.  Whoever finds a fault need not know the text of the
  program: `Finding.locate` looks the site up in its source and gives the
  `Diagnostic` that is shown.
-/
import Esolang.Diagnostic.Kind
import Esolang.Source.Lines

namespace Esolang

open Esolang.Source (Span LineTable)

namespace Diagnostic

/-! ## §1. What went wrong, and where -/

/-- What went wrong, in words that hang on no place. -/
structure Report where
  /-- Kind of failure. -/
  kind : Kind
  /-- One sentence. -/
  message : String
  /-- Further facts, in order. -/
  notes : List String := []
  /-- What the author of the program may do about it. -/
  suggestion : Option String := none
  deriving DecidableEq, Repr

/-- A place in a program. -/
inductive Site where
  /-- The bytes of a span. -/
  | range (span : Span)
  /-- A line and a column, from one. -/
  | point (line column : Nat)
  /-- Just past the last character. -/
  | finish
  deriving DecidableEq, Repr

/-- A report and the place it is about. -/
structure Finding where
  /-- What went wrong. -/
  report : Report
  /-- Where. -/
  site : Site
  deriving DecidableEq, Repr

/-! ## §2. Diagnostics -/

/-- A site as it is shown to a reader. -/
structure Location where
  /-- Name of the program's file. -/
  file : String
  /-- Line, from one. -/
  line : Nat
  /-- Column in characters, from one. -/
  column : Nat
  /-- What the line says. -/
  text : String
  /-- Number of characters to underline, at least one. -/
  width : Nat
  deriving DecidableEq, Repr

end Diagnostic

open Diagnostic

/-- A report at its location. -/
structure Diagnostic where
  /-- What went wrong. -/
  report : Report
  /-- Where, as a reader sees it. -/
  location : Location
  deriving DecidableEq, Repr

namespace Diagnostic

/-- The diagnostic on one line: place, then message. -/
def summary (d : Diagnostic) : String :=
  d.location.file ++ ":" ++ toString d.location.line ++ ":" ++ toString d.location.column
    ++ ": " ++ d.report.message

/-- The location of a site in a source with these lines.  A span that ends on a
later line is underlined by one character, and an empty one too. -/
def Site.locate (file : String) (table : LineTable) : Site → Location
  | .range span =>
    let first := table.position span.start
    let last := table.position span.stop
    let width := if last.line = first.line then last.column - first.column else 1
    ⟨file, first.line, first.column, table.text first.line, max width 1⟩
  | .point line column => ⟨file, line, column, table.text line, 1⟩
  | .finish =>
    let last := table.endPosition
    ⟨file, last.line, last.column, table.text last.line, 1⟩

/-- The diagnostic for a finding in the program `source` of the file `file`. -/
def Finding.locate (file source : String) (finding : Finding) : Diagnostic :=
  ⟨finding.report, finding.site.locate file (LineTable.ofText source)⟩

end Diagnostic

end Esolang
