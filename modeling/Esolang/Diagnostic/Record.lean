/-
  Esolang.Diagnostic.Record
  ─────────────────────────
  **DIAGNOSTICS AS RECORDS.**

  `Diagnostic.record` is the diagnostic as a JSON object for programs that read
  failures; the field `suggestion` is there only if the report has one.
-/
import Esolang.Diagnostic.Basic
import Esolang.Text.Json

namespace Esolang.Diagnostic

open Esolang.Text (Json)

/-- A location as a record. -/
def Location.record (location : Location) : Json :=
  .record [("file", .text location.file), ("line", .int location.line),
    ("col", .int location.column), ("text", .text location.text),
    ("width", .int location.width)]

/-- A diagnostic as a record. -/
def record (d : Diagnostic) : Json :=
  let report := d.report
  .record ([("severity", .text "error"), ("kind", .text report.kind.name),
    ("code", .text report.kind.code), ("category", .text report.kind.category.name),
    ("message", .text report.message), ("location", d.location.record),
    ("notes", .list (report.notes.map .text))]
    ++ report.suggestion.toList.map fun hint => ("suggestion", .text hint))

end Esolang.Diagnostic
