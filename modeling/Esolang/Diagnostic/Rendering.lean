/-
  Esolang.Diagnostic.Rendering
  ────────────────────────────
  **DIAGNOSTICS ON A TERMINAL.**

  A diagnostic is laid out as a list of pieces of text, some of them styled:
  header, arrow to the location, the source line, carets under the span, notes
  and suggestion.  Colour is added piece by piece, so the layout never depends
  on it.

    • `plain_pieces` — without colour a rendering is the concatenation of the
      pieces' texts.
-/
import Esolang.Diagnostic.Basic

namespace Esolang.Diagnostic

/-! ## §1. Pieces of styled text -/

/-- How a piece of text stands out. -/
inductive Style where
  | header
  | emphasis
  | frame
  | muted
  deriving DecidableEq, Repr

/-- The terminal's parameters for a style. -/
def Style.parameters : Style → String
  | .header => "1;31"
  | .emphasis => "1"
  | .frame => "36"
  | .muted => "2"

/-- A text with an optional style. -/
structure Piece where
  /-- The style, if any. -/
  style : Option Style
  /-- The text. -/
  text : String
  deriving DecidableEq, Repr

namespace Piece

/-- A text without a style. -/
def bare (text : String) : Piece :=
  ⟨none, text⟩

/-- A text with a style. -/
def styled (style : Style) (text : String) : Piece :=
  ⟨some style, text⟩

/-- The piece as text; in colour a styled piece is put between the escape that
opens its style and the one that resets it. -/
def paint (colour : Bool) (piece : Piece) : String :=
  match colour, piece.style with
  | true, some style => "\x1b[" ++ style.parameters ++ "m" ++ piece.text ++ "\x1b[0m"
  | _, _ => piece.text

end Piece

/-! ## §2. Layout -/

/-- The bar between line numbers and source text. -/
def bar : Piece :=
  .styled .frame "|"

/-- A tab shown as one space, so that the carets stand under what they mean. -/
def untab (text : String) : String :=
  String.ofList (text.toList.map fun c => if c == '\t' then ' ' else c)

/-- As many copies of `c` as `n` says. -/
def times (n : Nat) (c : Char) : String :=
  String.ofList (List.replicate n c)

/-- A note or a suggestion under the frame. -/
def remark (label text : String) : List Piece :=
  [.bare "  ", .styled .muted "=", .bare (" " ++ label ++ ": " ++ text ++ "\n")]

/-- The header, the arrow to the location, the source line and the carets. -/
def frame (d : Diagnostic) : List Piece :=
  let loc := d.location
  let number := toString loc.line
  let gutter := times number.length ' '
  [.styled .header ("error[" ++ d.report.kind.code ++ "]"), .bare ": ",
    .styled .emphasis d.report.message, .bare "\n",
    .bare "  ", .styled .frame "-->",
    .bare (" " ++ loc.file ++ ":" ++ toString loc.line ++ ":" ++ toString loc.column ++ "\n"),
    .bare (gutter ++ " "), bar, .bare "\n",
    .styled .frame number, .bare " ", bar, .bare (" " ++ untab loc.text ++ "\n"),
    .bare (gutter ++ " "), bar, .bare (" " ++ times (loc.column - 1) ' '),
    .styled .header (times (max loc.width 1) '^'), .bare "\n",
    .bare (gutter ++ " "), bar, .bare "\n"]

/-- Every piece of a diagnostic, in order. -/
def pieces (d : Diagnostic) : List Piece :=
  frame d ++ d.report.notes.flatMap (remark "note")
    ++ (d.report.suggestion.toList.flatMap (remark "suggestion"))

/-! ## §3. Text -/

/-- The text of a diagnostic, in colour or plain. -/
def render (colour : Bool) (d : Diagnostic) : String :=
  String.join (d.pieces.map (Piece.paint colour))

/-- Without colour only the texts of the pieces remain. -/
theorem plain_pieces (d : Diagnostic) : d.render false = String.join (d.pieces.map Piece.text) := by
  unfold render
  congr 1

end Esolang.Diagnostic
