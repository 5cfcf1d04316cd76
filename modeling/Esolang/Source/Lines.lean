/-
  Esolang.Source.Lines
  ────────────────────
  **LINES AND POSITIONS OF A SOURCE TEXT.**

  A text is cut at its newlines.  `LineTable` remembers at which byte every
  line begins and answers two questions: which line and column an offset lies
  on (`LineTable.position`), and what a line says (`LineTable.text`).  Lines and
  columns count from one, columns count characters.

    • `lines_ne_nil` — a text has at least one line,
    • `byteSize_append` — the sizes of texts add up.
-/
import Esolang.Source.Span

namespace Esolang.Source

/-! ## §1. Cutting a text into lines -/

/-- Puts one character before the lines of what follows it. -/
def consLine (c : Char) (rest : List (List Char)) : List (List Char) :=
  if c = '\n' then [] :: rest
  else match rest with
    | line :: lines => (c :: line) :: lines
    | [] => [[c]]

/-- The lines of a text, without the newlines between them. -/
def lines (text : List Char) : List (List Char) :=
  text.foldr consLine [[]]

theorem consLine_ne_nil (c : Char) (rest : List (List Char)) : consLine c rest ≠ [] := by
  unfold consLine
  split
  · simp
  · split <;> simp

/-- A text has at least one line. -/
theorem lines_ne_nil : ∀ text : List Char, lines text ≠ []
  | [] => by simp [lines]
  | c :: cs => by simpa [lines] using consLine_ne_nil c _

/-! ## §2. Sizes in bytes -/

/-- Number of bytes of a text in UTF-8. -/
def byteSize (text : List Char) : Nat :=
  text.foldl (fun n c => n + c.utf8Size) 0

@[simp] theorem byteSize_nil : byteSize [] = 0 := rfl

theorem foldl_utf8Size (text : List Char) :
    ∀ n, text.foldl (fun n c => n + c.utf8Size) n = n + byteSize text := by
  induction text with
  | nil => intro n; rfl
  | cons c cs ih =>
    intro n
    show cs.foldl _ (n + c.utf8Size) = n + cs.foldl _ (0 + c.utf8Size)
    rw [ih, ih]
    omega

@[simp] theorem byteSize_cons (c : Char) (cs : List Char) :
    byteSize (c :: cs) = c.utf8Size + byteSize cs := by
  show cs.foldl _ (0 + c.utf8Size) = _
  rw [foldl_utf8Size]
  omega

@[simp] theorem byteSize_append (cs ds : List Char) :
    byteSize (cs ++ ds) = byteSize cs + byteSize ds := by
  induction cs with
  | nil => simp
  | cons c cs ih => simp [ih, Nat.add_assoc]

/-- Number of characters in the first `bytes` bytes of a text, counted on from
`count`; `none` when a character is cut in two. -/
def charsIn : List Char → Nat → Nat → Option Nat
  | _, 0, count => some count
  | [], _ + 1, _ => none
  | c :: cs, bytes@(_ + 1), count =>
    if c.utf8Size ≤ bytes then charsIn cs (bytes - c.utf8Size) (count + 1) else none

/-! ## §3. Positions -/

/-- A place as a reader counts it: line and column from one. -/
structure Position where
  /-- Line, from one. -/
  line : Nat
  /-- Column in characters, from one. -/
  column : Nat
  deriving DecidableEq, Repr

/-- One line of a text and the byte at which it begins. -/
structure Line where
  /-- Offset of the first byte. -/
  start : Nat
  /-- The characters, without the newline. -/
  chars : List Char
  deriving DecidableEq, Repr

namespace Line

/-- Column of the byte at `offset`.  Inside a character the bytes are counted. -/
def column (line : Line) (offset : Nat) : Nat :=
  (charsIn line.chars (offset - line.start) 0).getD (offset - line.start) + 1

/-- What the line shows: its characters without the carriage returns at its end. -/
def shown (line : Line) : List Char :=
  (line.chars.reverse.dropWhile (· == '\r')).reverse

end Line

/-- The lines of a text with the bytes at which they begin, and the size of the text. -/
structure LineTable where
  /-- The lines, from the top. -/
  entries : Array Line
  /-- Number of bytes of the text. -/
  size : Nat

namespace LineTable

/-- Adds a line to those above it. -/
def push (table : LineTable) (chars : List Char) : LineTable :=
  let start := if table.entries.isEmpty then 0 else table.size + 1
  ⟨table.entries.push ⟨start, chars⟩, start + byteSize chars⟩

/-- The line table of a text. -/
def ofText (text : String) : LineTable :=
  (lines text.toList).foldl push ⟨#[], 0⟩

/-- The number of lines that begin at or before `offset`. -/
def lineAt (table : LineTable) (offset : Nat) : Nat :=
  (table.entries.toList.takeWhile (·.start ≤ offset)).length

/-- Line and column of the byte at `offset`; an offset past the end is the end. -/
def position (table : LineTable) (offset : Nat) : Position :=
  let offset := min offset table.size
  let line := table.lineAt offset
  match table.entries[line - 1]? with
  | some entry => ⟨line, entry.column offset⟩
  | none => ⟨line, offset + 1⟩

/-- The place just past the last character. -/
def endPosition (table : LineTable) : Position :=
  table.position table.size

/-- What line number `line` shows; nothing for a line that is not there. -/
def text (table : LineTable) (line : Nat) : String :=
  if line = 0 then ""
  else match table.entries[line - 1]? with
    | some entry => String.ofList entry.shown
    | none => ""

end LineTable

end Esolang.Source
