/-
  Esolang.Proofs.Diagnostic.Colour
  ────────────────────────────────
  **COLOUR ADDS ESCAPES AND NOTHING ELSE.**

  A terminal reads text as characters and ESCAPES: the escape character, `[`, digits and
  semicolons, then `m`.  An escape says how the characters behind it look and takes no
  room.  When nothing in a diagnostic brings an escape character of its own, a terminal
  shows the same characters with colour and without, whatever brackets, digits and letters
  stand in its texts.

    • `escape?_eq_some_iff` — what an escape is,
    • `clear_of_mem_pieces` — the layout brings no escape character into a diagnostic,
    • `glyphs_join_paint` — a terminal reads coloured pieces one after the other,
    • `tidy_pieces` — each piece resets its style before the next one opens its own,
    • `colour_adds_escapes` — a coloured rendering without its escapes is the plain one.
-/
import Esolang.Proofs.Diagnostic.Layout
import Mathlib.Data.List.TakeWhile

namespace Esolang.Diagnostic

/-! ## §1. What a terminal reads. -/

/-- What a terminal reads text as. -/
inductive Glyph where
  /-- A character to show. -/
  | char (c : Char)
  /-- An escape with its parameters. -/
  | escape (parameters : List Char)
  deriving DecidableEq, Repr

/-- What stands between the bracket of an escape and its `m`: digits and semicolons. -/
def isParameter (c : Char) : Bool :=
  c.isDigit || c == ';'

/-- The parameters of the escape that text begins with, and the text behind it. -/
def escape? : List Char → Option (List Char × List Char)
  | '\x1b' :: '[' :: rest =>
    match rest.dropWhile isParameter with
    | 'm' :: behind => some (rest.takeWhile isParameter, behind)
    | _ => none
  | _ => none

/-- An escape, spelt out. -/
def sequence (parameters : List Char) : List Char :=
  '\x1b' :: '[' :: parameters ++ ['m']

/-- **What an escape is**: the escape character, a bracket, digits and semicolons, an `m`. -/
theorem escape?_eq_some_iff (text parameters behind : List Char) :
    escape? text = some (parameters, behind)
      ↔ text = sequence parameters ++ behind ∧ ∀ c ∈ parameters, isParameter c = true := by
  constructor
  · intro found
    unfold escape? at found
    split at found
    case h_1 rest =>
      split at found
      case h_1 behind' rest_eq =>
        obtain ⟨rfl, rfl⟩ : rest.takeWhile isParameter = parameters ∧ behind' = behind := by
          simpa using found
        refine ⟨?_, fun c member => List.mem_takeWhile_imp member⟩
        have whole := List.takeWhile_append_dropWhile (p := isParameter) (l := rest)
        rw [rest_eq] at whole
        simp [sequence, whole]
      case h_2 => simp at found
    case h_2 => simp at found
  · intro spelt
    obtain ⟨rfl, digits⟩ := spelt
    -- `m` is no parameter, so the run of parameters ends where it stands.
    have taken : (parameters ++ 'm' :: behind).takeWhile isParameter = parameters := by
      rw [List.takeWhile_append_of_pos digits]
      simp [isParameter]
    have dropped : (parameters ++ 'm' :: behind).dropWhile isParameter = 'm' :: behind := by
      rw [List.dropWhile_append_of_pos digits]
      simp [isParameter]
    simp [escape?, sequence, taken, dropped]

/-- The text behind an escape is shorter. -/
theorem length_lt_of_escape? {text parameters behind : List Char}
    (found : escape? text = some (parameters, behind)) : behind.length < text.length := by
  obtain ⟨rfl, -⟩ := (escape?_eq_some_iff ..).mp found
  simp only [sequence, List.length_append, List.length_cons]
  omega

/-- Reads text from the left: an escape wherever one begins, a character elsewhere. -/
def glyphs : List Char → List Glyph
  | [] => []
  | c :: rest =>
    match _ : escape? (c :: rest) with
    | some (parameters, behind) => .escape parameters :: glyphs behind
    | none => .char c :: glyphs rest
termination_by text => text.length
decreasing_by
  · exact length_lt_of_escape? ‹_›
  · simp

/-- An escape is read whole. -/
theorem glyphs_of_escape {text parameters behind : List Char}
    (found : escape? text = some (parameters, behind)) :
    glyphs text = .escape parameters :: glyphs behind := by
  cases text with
  | nil => simp [escape?] at found
  | cons c rest =>
    rw [glyphs]
    split
    case h_1 found' =>
      rw [found] at found'
      obtain ⟨rfl, rfl⟩ : parameters = _ ∧ behind = _ := by simpa using found'
      rfl
    case h_2 missing => simp [found] at missing

/-- Where no escape begins, a character is read. -/
theorem glyphs_cons_of_none {c : Char} {rest : List Char} (missing : escape? (c :: rest) = none) :
    glyphs (c :: rest) = .char c :: glyphs rest := by
  rw [glyphs]
  split
  case h_1 found => simp [missing] at found
  case h_2 => rfl

/-- Only an escape character begins an escape. -/
theorem escape?_cons_of_ne {c : Char} (other : c ≠ '\x1b') (rest : List Char) :
    escape? (c :: rest) = none := by
  unfold escape?
  split
  · next begins => exact absurd (List.head_eq_of_cons_eq begins) other
  · rfl

/-- Text without the escape character is read character by character. -/
theorem glyphs_append_of_not_mem (text : List Char) (clear : '\x1b' ∉ text) (rest : List Char) :
    glyphs (text ++ rest) = text.map .char ++ glyphs rest := by
  induction text with
  | nil => rfl
  | cons c text ih =>
    obtain ⟨other, clear⟩ : '\x1b' ≠ c ∧ '\x1b' ∉ text := by simpa using clear
    show glyphs (c :: (text ++ rest)) = .char c :: (text.map .char ++ glyphs rest)
    rw [glyphs_cons_of_none (escape?_cons_of_ne other.symm _), ih clear]

/-- An escape in front of any text is read as that escape. -/
theorem glyphs_sequence_append (parameters : List Char)
    (digits : ∀ c ∈ parameters, isParameter c = true) (rest : List Char) :
    glyphs (sequence parameters ++ rest) = .escape parameters :: glyphs rest :=
  glyphs_of_escape ((escape?_eq_some_iff ..).mpr ⟨rfl, digits⟩)

/-- The characters among glyphs. -/
def shown (read : List Glyph) : List Char :=
  read.filterMap fun
    | .char c => some c
    | .escape _ => none

theorem shown_append (first second : List Glyph) :
    shown (first ++ second) = shown first ++ shown second :=
  List.filterMap_append

theorem shown_map_char (text : List Char) : shown (text.map .char) = text := by
  induction text with
  | nil => rfl
  | cons c text ih =>
    show c :: shown (text.map .char) = c :: text
    rw [ih]

/-- Text with every escape deleted: the characters that a terminal shows. -/
def strip (text : List Char) : List Char :=
  shown (glyphs text)

/-! ## §2. Texts without the escape character. -/

/-- The texts that a diagnostic shows. -/
def texts (d : Diagnostic) : List String :=
  d.location.file :: d.report.message :: d.location.text :: d.report.notes
    ++ d.report.suggestion.toList

/-- A remark is as clear as its text. -/
theorem clear_of_mem_remark (label text : String) (clearLabel : Without '\x1b' label)
    (clear : Without '\x1b' text) :
    ∀ piece ∈ remark label text, Without '\x1b' piece.text := by
  simp +decide [remark, Piece.bare, Piece.styled, clearLabel, clear]

/-- So is the frame around a source line. -/
theorem clear_of_mem_frame (d : Diagnostic) (file : Without '\x1b' d.location.file)
    (message : Without '\x1b' d.report.message) (line : Without '\x1b' d.location.text) :
    ∀ piece ∈ frame d, Without '\x1b' piece.text := by
  simp +decide [frame, bar, Piece.bare, Piece.styled, file, message, line]

/-- **The layout brings no escape character into a diagnostic.** -/
theorem clear_of_mem_pieces (d : Diagnostic) (clear : ∀ text ∈ d.texts, Without '\x1b' text) :
    ∀ piece ∈ d.pieces, Without '\x1b' piece.text := by
  intro piece member
  have member : piece ∈ frame d ∨ (∃ note ∈ d.report.notes, piece ∈ remark "note" note)
      ∨ ∃ hint ∈ d.report.suggestion.toList, piece ∈ remark "suggestion" hint := by
    simpa [pieces, or_assoc] using member
  obtain inFrame | ⟨note, isNote, inNote⟩ | ⟨hint, isHint, inHint⟩ := member
  · exact clear_of_mem_frame d (clear _ (by simp [texts])) (clear _ (by simp [texts]))
      (clear _ (by simp [texts])) piece inFrame
  · exact clear_of_mem_remark _ note (by decide) (clear note (by simp [texts, isNote]))
      piece inNote
  · exact clear_of_mem_remark _ hint (by decide) (clear hint (by simp [texts, isHint]))
      piece inHint

/-! ## §3. Reading a rendering. -/

/-- What a terminal reads a coloured piece as. -/
def Piece.glyphs (piece : Piece) : List Glyph :=
  let inside := piece.text.toList.map .char
  match piece.style with
  | none => inside
  | some style => .escape style.parameters.toList :: inside ++ [.escape ['0']]

/-- The parameters of a style are digits and semicolons. -/
theorem Style.isParameter_of_mem (style : Style) :
    ∀ c ∈ style.parameters.toList, isParameter c = true := by
  have digits : style.parameters.toList.all isParameter = true := by
    cases style <;> decide
  exact List.all_eq_true.mp digits

/-- A coloured piece in front of any text. -/
theorem Piece.glyphs_paint_append (piece : Piece) (clear : Without '\x1b' piece.text)
    (rest : List Char) :
    Diagnostic.glyphs ((piece.paint true).toList ++ rest)
      = piece.glyphs ++ Diagnostic.glyphs rest := by
  obtain ⟨style, text⟩ := piece
  cases style with
  | none => exact glyphs_append_of_not_mem text.toList clear rest
  | some style =>
    -- The painted piece is an escape, its text and a reset: three stretches to read.
    have layout : (paint true ⟨some style, text⟩).toList ++ rest
        = sequence style.parameters.toList ++ (text.toList ++ (sequence ['0'] ++ rest)) := by
      simp [paint, sequence]
    rw [layout, glyphs_sequence_append _ style.isParameter_of_mem,
      glyphs_append_of_not_mem _ clear, glyphs_sequence_append _ (by simp [isParameter])]
    simp [Piece.glyphs]

/-- **A terminal reads coloured pieces one after the other.** -/
theorem glyphs_join_paint (pieces : List Piece)
    (clear : ∀ piece ∈ pieces, Without '\x1b' piece.text) :
    glyphs (String.join (pieces.map (Piece.paint true))).toList = pieces.flatMap Piece.glyphs := by
  rw [String.toList_join, List.flatMap_map]
  induction pieces with
  | nil => simp [glyphs]
  | cons piece others ih =>
    obtain ⟨first, others⟩ := List.forall_mem_cons.mp clear
    rw [List.flatMap_cons, List.flatMap_cons, Piece.glyphs_paint_append piece first, ih others]

/-- The characters among the glyphs of a piece are its text, in a style or without. -/
theorem Piece.shown_glyphs (piece : Piece) : shown piece.glyphs = piece.text.toList := by
  obtain ⟨style, text⟩ := piece
  cases style with
  | none => exact shown_map_char text.toList
  | some style =>
    show shown (text.toList.map .char ++ [.escape ['0']]) = text.toList
    rw [shown_append, shown_map_char]
    exact List.append_nil _

/-! ## §4. Opening and resetting. -/

/-- Text in which every style that is opened is reset before the next one is opened and
before the text ends. -/
inductive Tidy : List Glyph → Prop where
  | nil : Tidy []
  | char (c : Char) {rest : List Glyph} (tidy : Tidy rest) : Tidy (.char c :: rest)
  | styled (parameters inside : List Char) {rest : List Glyph} (opens : parameters ≠ ['0'])
      (tidy : Tidy rest) :
      Tidy (.escape parameters :: inside.map .char ++ .escape ['0'] :: rest)

/-- Characters in front of tidy text leave it tidy. -/
theorem Tidy.append (chars : List Char) {rest : List Glyph} (tidy : Tidy rest) :
    Tidy (chars.map .char ++ rest) := by
  induction chars with
  | nil => exact tidy
  | cons c chars ih => exact .char c ih

/-- Pieces open and reset their styles one after the other. -/
theorem tidy_pieces (pieces : List Piece) : Tidy (pieces.flatMap Piece.glyphs) := by
  induction pieces with
  | nil => exact .nil
  | cons piece others ih =>
    obtain ⟨style, text⟩ := piece
    cases style with
    | none => exact ih.append text.toList
    | some style =>
      have opens : style.parameters.toList ≠ ['0'] := by cases style <;> decide
      simpa [Piece.glyphs] using Tidy.styled _ text.toList opens ih

/-- The coloured rendering opens the style of its header. -/
theorem header_prefix_render (d : Diagnostic) :
    sequence Style.header.parameters.toList <+: (d.render true).toList := by
  obtain ⟨others, first⟩ : ∃ others, d.pieces
      = Piece.styled .header ("error[" ++ d.report.kind.code ++ "]") :: others := ⟨_, rfl⟩
  have opens : sequence Style.header.parameters.toList
      <+: ((Piece.styled .header ("error[" ++ d.report.kind.code ++ "]")).paint true).toList := by
    simp [sequence, Piece.styled, Piece.paint]
  unfold render
  rw [first, String.toList_join, List.map_cons, List.flatMap_cons]
  exact opens.trans (List.prefix_append _ _)

/-- **Colour adds escapes and nothing else.** Unless a text of the diagnostic brings an
escape character, the plain rendering has none, the coloured one without its escapes is the
plain one, and every style is reset before the next one is opened and before the end.  The
coloured rendering has escapes: it begins with the one that opens the style of the header. -/
theorem colour_adds_escapes (d : Diagnostic) (clear : ∀ text ∈ d.texts, Without '\x1b' text) :
    Without '\x1b' (d.render false)
      ∧ strip (d.render true).toList = (d.render false).toList
      ∧ Tidy (glyphs (d.render true).toList)
      ∧ sequence Style.header.parameters.toList <+: (d.render true).toList := by
  have pieces := clear_of_mem_pieces d clear
  have coloured : glyphs (d.render true).toList = d.pieces.flatMap Piece.glyphs :=
    glyphs_join_paint d.pieces pieces
  have plain : (d.render false).toList = d.pieces.flatMap fun piece => piece.text.toList := by
    rw [plain_pieces, String.toList_join, List.flatMap_map]
  refine ⟨?_, ?_, ?_, header_prefix_render d⟩
  · intro member
    rw [plain] at member
    obtain ⟨piece, isPiece, found⟩ := List.mem_flatMap.mp member
    exact pieces piece isPiece found
  · rw [strip, coloured, plain, shown, List.filterMap_flatMap]
    congr 1
    funext piece
    exact piece.shown_glyphs
  · rw [coloured]
    exact tidy_pieces d.pieces

/-- Texts that look like the inside of escapes are left as they are. -/
theorem colour_adds_escapes_lookalikes :
    let d : Diagnostic :=
      ⟨⟨.emptyStack, "pop [0m from [1;31m", ["[m", "\t;0m"], some "[36mpush"⟩,
        ⟨"m[0m.bf", 12, 3, "\t[31m]", 4⟩⟩
    Without '\x1b' (d.render false)
      ∧ strip (d.render true).toList = (d.render false).toList
      ∧ Tidy (glyphs (d.render true).toList)
      ∧ sequence Style.header.parameters.toList <+: (d.render true).toList :=
  colour_adds_escapes _ (by decide)

end Esolang.Diagnostic
