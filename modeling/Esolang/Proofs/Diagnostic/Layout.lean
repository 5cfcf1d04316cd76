/-
  Esolang.Proofs.Diagnostic.Layout
  ────────────────────────────────
  **THE ROWS OF A RENDERING.**

  A rendering begins with six rows: the header, the arrow to the place, a bar, the source
  line, the carets and a bar.  Nothing but the texts of the diagnostic can put a newline
  or an escape character into them.  In front of the source line stands its number, in
  front of the carets as many blanks, and behind both a bar.

    • `without_untab`, `without_code` — what the layout puts around the texts,
    • `length_blankGutter` — both gutters are equally long,
    • `caretRow_eq_caret_iff` — the columns in which carets stand,
    • `lines_render` — the rows of the plain rendering.
-/
import Esolang.Diagnostic.Rendering
import Esolang.Proofs.Source.Lines

namespace Esolang.Diagnostic

open Esolang.Source (lines lines_append)

/-! ## §1. Characters that stand nowhere in a text. -/

/-- The character stands nowhere in the text. -/
def Without (c : Char) (text : String) : Prop :=
  c ∉ text.toList

instance (c : Char) (text : String) : Decidable (Without c text) :=
  inferInstanceAs (Decidable (c ∉ text.toList))

@[simp] theorem without_append (c : Char) (first second : String) :
    Without c (first ++ second) ↔ Without c first ∧ Without c second := by
  simp [Without]

/-- A number is written in digits. -/
@[simp] theorem without_repr (c : Char) (other : c.isDigit = false) (n : Nat) :
    Without c n.repr := by
  intro member
  rw [Nat.toList_repr] at member
  have digit := Nat.isDigit_of_mem_toDigits (by decide) (by decide) member
  rw [other] at digit
  cases digit

@[simp] theorem without_times (c shown : Char) (other : c ≠ shown) (n : Nat) :
    Without c (times n shown) := by
  intro member
  have found : c ∈ List.replicate n shown := by simpa [times] using member
  exact other (List.eq_of_mem_replicate found)

/-- The characters that are shown for those of a text. -/
theorem toList_untab (text : String) :
    (untab text).toList = text.toList.map fun c => if c = '\t' then ' ' else c := by
  simp [untab]

/-- Only a tab is shown as something else, and only as a space. -/
@[simp] theorem without_untab (c : Char) (noTab : c ≠ '\t') (noSpace : c ≠ ' ') (text : String) :
    Without c (untab text) ↔ Without c text := by
  suffices c ∈ (untab text).toList ↔ c ∈ text.toList from not_congr this
  rw [toList_untab, List.mem_map]
  constructor
  · intro mapped
    obtain ⟨was, found, shown⟩ := mapped
    by_cases tab : was = '\t'
    · rw [if_pos tab] at shown
      exact absurd shown.symm noSpace
    · rw [if_neg tab] at shown
      exact shown ▸ found
  · intro member
    exact ⟨c, member, if_neg noTab⟩

/-- The code of a kind is letters, digits and a dash. -/
theorem code_spelling (kind : Kind) :
    (kind.code.toList.all fun c => c.isAlphanum || c == '-') = true := by
  cases kind <;> decide

@[simp] theorem without_code (c : Char) (other : c.isAlphanum = false) (noDash : c ≠ '-')
    (kind : Kind) : Without c kind.code := by
  intro member
  have spelt := List.all_eq_true.mp (code_spelling kind) c member
  simp [other, noDash] at spelt

/-! ## §2. Rows. -/

/-- What went wrong. -/
def headerRow (d : Diagnostic) : String :=
  "error[" ++ d.report.kind.code ++ "]: " ++ d.report.message

/-- Where. -/
def arrowRow (d : Diagnostic) : String :=
  "  --> " ++ d.location.file ++ ":" ++ d.location.line.repr ++ ":" ++ d.location.column.repr

/-- As many blanks as the line number has digits. -/
def blanks (d : Diagnostic) : String :=
  times d.location.line.repr.length ' '

/-- What stands in front of the source line: its number and a bar. -/
def numberGutter (d : Diagnostic) : String :=
  d.location.line.repr ++ " | "

/-- What stands in front of the carets: blanks and a bar. -/
def blankGutter (d : Diagnostic) : String :=
  blanks d ++ " | "

/-- The source line. -/
def sourceRow (d : Diagnostic) : String :=
  numberGutter d ++ untab d.location.text

/-- The carets. -/
def caretRow (d : Diagnostic) : String :=
  blankGutter d ++ times (d.location.column - 1) ' ' ++ times (max d.location.width 1) '^'

/-- A bar with nothing behind it. -/
def barRow (d : Diagnostic) : String :=
  blanks d ++ " |"

/-- **Both gutters are equally long.** -/
theorem length_blankGutter (d : Diagnostic) :
    (blankGutter d).length = (numberGutter d).length := by
  simp [blankGutter, numberGutter, blanks, times]

/-- Behind text without a character, copies of it stand where they were put. -/
theorem getElem?_append_replicate {front : List Char} {c : Char} (missing : c ∉ front) (n i : Nat) :
    (front ++ List.replicate n c)[i]? = some c ↔ front.length ≤ i ∧ i < front.length + n := by
  by_cases inFront : i < front.length
  · -- Neither side holds in front of the copies.
    rw [List.getElem?_append_left inFront]
    constructor
    · intro found
      exact absurd (List.mem_of_getElem? found) missing
    · intro bounds
      omega
  · rw [List.getElem?_append_right (by omega), List.getElem?_replicate]
    simp
    omega

/-- **The columns in which carets stand**: from the column of the location on, as many as
it is wide. -/
theorem caretRow_eq_caret_iff (d : Diagnostic) (column : 1 ≤ d.location.column)
    (width : 1 ≤ d.location.width) (i : Nat) :
    (caretRow d).toList[i]? = some '^'
      ↔ (blankGutter d).length + d.location.column ≤ i + 1
        ∧ i + 1 < (blankGutter d).length + d.location.column + d.location.width := by
  have noCaret : '^' ∉ (blankGutter d ++ times (d.location.column - 1) ' ').toList := by
    show Without '^' _
    simp +decide [blankGutter, blanks]
  have carets : (times (max d.location.width 1) '^').toList
      = List.replicate d.location.width '^' := by
    rw [Nat.max_eq_left width]
    exact String.toList_ofList
  have front : (blankGutter d ++ times (d.location.column - 1) ' ').toList.length
      = (blankGutter d).length + (d.location.column - 1) := by
    simp [times, String.length_toList]
  unfold caretRow
  rw [String.toList_append, carets, getElem?_append_replicate noCaret, front]
  omega

/-- The text of the plain rendering begins with its six rows, each with a newline. -/
theorem toList_render (d : Diagnostic) :
    ∃ remarks, (d.render false).toList
      = (headerRow d).toList ++ '\n' :: ((arrowRow d).toList ++ '\n' ::
        ((barRow d).toList ++ '\n' :: ((sourceRow d).toList ++ '\n' ::
          ((caretRow d).toList ++ '\n' :: ((barRow d).toList ++ '\n' :: remarks))))) := by
  -- Notes and suggestions follow the six rows, whatever they say.
  refine ⟨(d.report.notes.flatMap (remark "note")
    ++ d.report.suggestion.toList.flatMap (remark "suggestion")).flatMap fun piece =>
      piece.text.toList, ?_⟩
  rw [plain_pieces, String.toList_join, List.flatMap_map, pieces, List.append_assoc,
    List.flatMap_append]
  simp [frame, bar, Piece.bare, Piece.styled, headerRow, arrowRow, barRow, sourceRow, caretRow,
    numberGutter, blankGutter, blanks]

/-- **The rows of the plain rendering**, when no text puts a newline into them. -/
theorem lines_render (d : Diagnostic) (file : Without '\n' d.location.file)
    (message : Without '\n' d.report.message) (text : Without '\n' d.location.text) :
    ∃ below, lines (d.render false).toList
      = [headerRow d, arrowRow d, barRow d, sourceRow d, caretRow d, barRow d].map String.toList
        ++ below := by
  obtain ⟨remarks, rendered⟩ := toList_render d
  have header : Without '\n' (headerRow d) := by
    simp +decide [headerRow, message]
  have arrow : Without '\n' (arrowRow d) := by
    simp +decide [arrowRow, file]
  have bar : Without '\n' (barRow d) := by
    simp +decide [barRow, blanks]
  have source : Without '\n' (sourceRow d) := by
    simp +decide [sourceRow, numberGutter, text]
  have carets : Without '\n' (caretRow d) := by
    simp +decide [caretRow, blankGutter, blanks]
  refine ⟨lines remarks, ?_⟩
  rw [rendered, lines_append header, lines_append arrow, lines_append bar, lines_append source,
    lines_append carets, lines_append bar]
  rfl

end Esolang.Diagnostic
