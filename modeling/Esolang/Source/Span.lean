/-
  Esolang.Source.Span
  ───────────────────
  **BYTE RANGES OF A SOURCE TEXT.**

  Every instruction keeps the range of bytes it was written in, so that a
  failure can be shown at the place that caused it.  `Span.merge` is the least
  range around two others.
-/

namespace Esolang.Source

/-! ## §1. Spans -/

/-- The bytes from `start` up to, and not including, `stop`. -/
structure Span where
  /-- Offset of the first byte. -/
  start : Nat
  /-- Offset just past the last byte. -/
  stop : Nat
  deriving DecidableEq, Repr, Inhabited

namespace Span

/-- The least span that holds both `a` and `b`. -/
def merge (a b : Span) : Span :=
  ⟨min a.start b.start, max a.stop b.stop⟩

end Span

end Esolang.Source
