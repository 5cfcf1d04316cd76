/-
  Esolang.Proofs.Source.Lines
  ───────────────────────────
  **THE LINES OF A TEXT.**

  A text is a line, or a line, a newline and a text.  What holds of lines is
  proved along this division (`lines_induction`).

    • `entries_ofText` — the entries of a line table are the lines of its text,
      each with the number of bytes before it,
    • `standsAt_of_getElem?` — an entry begins and ends on boundaries of
      characters, and so does the line with its newline,
    • `exists_entry` — every offset in a text lies on or behind the start of the
      line that it is looked up in,
    • `length_lines_le`, `length_le_of_mem_lines` — how many lines there can be, and
      how long they are.
-/
import Esolang.Source.Lines
import Mathlib.Data.List.TakeWhile

namespace Esolang.Source

/-! ## §1. Dividing a text into lines. -/

theorem lines_cons (c : Char) (cs : List Char) : lines (c :: cs) = consLine c (lines cs) := rfl

/-- A text without a newline is one line. -/
theorem lines_of_not_mem {line : List Char} (one : '\n' ∉ line) : lines line = [line] := by
  induction line with
  | nil => rfl
  | cons c cs ih =>
    rw [List.mem_cons, not_or] at one
    rw [lines_cons, ih one.2, consLine, if_neg (Ne.symm one.1)]

/-- A newline ends a line. -/
theorem lines_append {line : List Char} (one : '\n' ∉ line) (rest : List Char) :
    lines (line ++ '\n' :: rest) = line :: lines rest := by
  induction line with
  | nil =>
    show consLine '\n' (lines rest) = [] :: lines rest
    exact if_pos rfl
  | cons c cs ih =>
    rw [List.mem_cons, not_or] at one
    show consLine c (lines (cs ++ '\n' :: rest)) = _
    rw [ih one.2, consLine, if_neg (Ne.symm one.1)]

/-- A line with its newline has one newline. -/
theorem count_line {line : List Char} (one : '\n' ∉ line) (rest : List Char) :
    (line ++ '\n' :: rest).count '\n' = rest.count '\n' + 1 := by
  rw [List.count_append, List.count_eq_zero.mpr one, List.count_cons_self, Nat.zero_add]

/-- A newline takes one byte. -/
theorem byteSize_line (line rest : List Char) :
    byteSize (line ++ '\n' :: rest) = byteSize line + 1 + byteSize rest := by
  have newline : byteSize ('\n' :: rest) = 1 + byteSize rest := byteSize_cons _ _
  rw [byteSize_append, newline, Nat.add_assoc]

/-- What holds of one line, and of a line before a text that it holds of, holds of every
text. -/
theorem lines_induction {P : List Char → Prop} (last : ∀ line, '\n' ∉ line → P line)
    (next : ∀ line rest, '\n' ∉ line → P rest → P (line ++ '\n' :: rest)) (text : List Char) :
    P text := by
  by_cases newline : '\n' ∈ text
  · obtain ⟨line, rest, rfl, one⟩ := List.eq_append_cons_of_mem newline
    have shorter : rest.length < (line ++ '\n' :: rest).length := by
      rw [List.length_append, List.length_cons]
      omega
    exact next line rest one (lines_induction last next rest)
  · exact last text newline
termination_by text.length

/-- A character takes at least one byte. -/
theorem length_le_byteSize (text : List Char) : text.length ≤ byteSize text := by
  induction text with
  | nil => exact Nat.le_refl 0
  | cons c cs ih =>
    have pos : 0 < c.utf8Size := c.utf8Size_pos
    rw [List.length_cons, byteSize_cons]
    omega

/-- A text has one line more than it has newlines, at most. -/
theorem length_lines_le (text : List Char) : (lines text).length ≤ text.length + 1 := by
  induction text using lines_induction with
  | last line one =>
    rw [lines_of_not_mem one, List.length_singleton]
    omega
  | next line rest one ih =>
    rw [lines_append one, List.length_cons, List.length_append, List.length_cons]
    omega

/-- A text has one line more than it has newlines. -/
theorem length_lines (text : List Char) : (lines text).length = text.count '\n' + 1 := by
  induction text using lines_induction with
  | last line one =>
    rw [lines_of_not_mem one, List.length_singleton, List.count_eq_zero.mpr one]
  | next line rest one ih => rw [lines_append one, List.length_cons, ih, count_line one]

theorem length_le_of_mem_lines {text line : List Char} (mem : line ∈ lines text) :
    line.length ≤ text.length := by
  induction text using lines_induction with
  | last only one =>
    rw [lines_of_not_mem one, List.mem_singleton] at mem
    rw [mem]
  | next first rest one ih =>
    rw [lines_append one, List.mem_cons] at mem
    rw [List.length_append, List.length_cons]
    rcases mem with rfl | mem
    · omega
    · have := ih mem
      omega

/-- The characters of a line are characters of the text. -/
theorem mem_of_mem_lines {text line : List Char} {c : Char} (mem : line ∈ lines text)
    (inside : c ∈ line) : c ∈ text := by
  induction text using lines_induction with
  | last only one =>
    rw [lines_of_not_mem one, List.mem_singleton] at mem
    exact mem ▸ inside
  | next first rest one ih =>
    rw [lines_append one, List.mem_cons] at mem
    rcases mem with rfl | mem
    · exact List.mem_append_left _ inside
    · exact List.mem_append_right _ (List.mem_cons_of_mem _ (ih mem))

/-- No line has a newline in it. -/
theorem not_mem_of_mem_lines {text line : List Char} (mem : line ∈ lines text) : '\n' ∉ line := by
  induction text using lines_induction with
  | last only one =>
    rw [lines_of_not_mem one, List.mem_singleton] at mem
    rw [mem]
    exact one
  | next first rest one ih =>
    rw [lines_append one, List.mem_cons] at mem
    rcases mem with rfl | mem
    · exact one
    · exact ih mem

/-! ## §2. The entries of a line table. -/

/-- Lines that stand one behind the other, the first of them at this byte. -/
def entriesFrom (start : Nat) : List (List Char) → List Line
  | [] => []
  | line :: rest => ⟨start, line⟩ :: entriesFrom (start + byteSize line + 1) rest

namespace LineTable

theorem foldl_push (rows : List (List Char)) :
    ∀ table : LineTable, table.entries ≠ #[] →
      (rows.foldl push table).entries.toList
          = table.entries.toList ++ entriesFrom (table.size + 1) rows := by
  induction rows with
  | nil =>
    intro table _
    simp [entriesFrom]
  | cons line rows ih =>
    intro table some_entry
    have pushed : table.push line
        = ⟨table.entries.push ⟨table.size + 1, line⟩, table.size + 1 + byteSize line⟩ := by
      unfold push
      rw [if_neg (by simpa using some_entry)]
    rw [List.foldl_cons, ih _ (by simp [pushed]), pushed]
    simp [entriesFrom]

/-- **The entries of a line table are the lines of its text**, each with the number of
bytes before it. -/
theorem entries_ofText (text : String) :
    (ofText text).entries.toList = entriesFrom 0 (lines text.toList) := by
  unfold ofText
  cases rows : lines text.toList with
  | nil => exact absurd rows (lines_ne_nil _)
  | cons line rows =>
    have first : push ⟨#[], 0⟩ line = ⟨#[⟨0, line⟩], byteSize line⟩ := by
      simp [push]
    rw [List.foldl_cons, first, foldl_push _ _ (by simp)]
    simp [entriesFrom]

theorem size_push (table : LineTable) (line : List Char) (some_entry : table.entries ≠ #[]) :
    (table.push line).size = table.size + 1 + byteSize line := by
  unfold push
  rw [if_neg (by simpa using some_entry)]

theorem push_ne_empty (table : LineTable) (line : List Char) : (table.push line).entries ≠ #[] := by
  simp [push]

theorem size_foldl_push (text : List Char) :
    ∀ table : LineTable, table.entries ≠ #[] →
      ((lines text).foldl push table).size = table.size + 1 + byteSize text := by
  induction text using lines_induction with
  | last line one =>
    intro table some_entry
    rw [lines_of_not_mem one]
    exact size_push table line some_entry
  | next line rest one ih =>
    intro table some_entry
    rw [lines_append one, List.foldl_cons, ih _ (push_ne_empty table line),
      size_push table line some_entry, byteSize_line]
    omega

/-- The size of a line table is the size of its text. -/
theorem size_ofText (text : String) : (ofText text).size = byteSize text.toList := by
  have first (line : List Char) : push ⟨#[], 0⟩ line = ⟨#[⟨0, line⟩], byteSize line⟩ := by
    simp [push]
  unfold ofText
  generalize text.toList = text
  induction text using lines_induction with
  | last line one =>
    rw [lines_of_not_mem one, List.foldl_cons, first]
    rfl
  | next line rest one _ =>
    rw [lines_append one, List.foldl_cons, first, size_foldl_push rest _ (by simp), byteSize_line]

end LineTable

/-! ## §3. Where lines begin and end. -/

/-- The line stands in the text, from a boundary of characters to `stop`, which is another:
there the text ends, or a newline does. -/
def Line.StandsAt (text : List Char) (stop : Nat) (line : Line) : Prop :=
  ∃ before ending after, text = before ++ line.chars ++ ending ++ after
    ∧ byteSize before = line.start ∧ byteSize (before ++ line.chars ++ ending) = stop
    ∧ (ending = ['\n'] ∨ ending = [] ∧ after = [])

/-- Where the line at a place ends: where the next one begins, or where the text ends. -/
def stopOf (size : Nat) (entries : List Line) (i : Nat) : Nat :=
  match entries[i + 1]? with
  | some next => next.start
  | none => size

theorem getElem?_entriesFrom_zero (start : Nat) (text : List Char) :
    ∃ chars, (entriesFrom start (lines text))[0]? = some ⟨start, chars⟩ := by
  cases rows : lines text with
  | nil => exact absurd rows (lines_ne_nil text)
  | cons chars rest => exact ⟨chars, rfl⟩

theorem standsAt_entriesFrom (text : List Char) :
    ∀ (before : List Char) (i : Nat) (line : Line),
      (entriesFrom (byteSize before) (lines text))[i]? = some line →
        line.StandsAt (before ++ text)
          (stopOf (byteSize (before ++ text)) (entriesFrom (byteSize before) (lines text)) i) := by
  induction text using lines_induction with
  | last chars one =>
    intro before i line found
    rw [lines_of_not_mem one] at found ⊢
    cases i with
    | zero =>
      cases found
      exact ⟨before, [], [], by simp, rfl, by simp [stopOf, entriesFrom], .inr ⟨rfl, rfl⟩⟩
    | succ i => cases found
  | next chars rest one ih =>
    intro before i line found
    have start : byteSize before + byteSize chars + 1 = byteSize (before ++ chars ++ ['\n']) := by
      have newline : byteSize ['\n'] = 1 := rfl
      rw [byteSize_append, byteSize_append, newline]
    have same : before ++ (chars ++ '\n' :: rest) = before ++ chars ++ ['\n'] ++ rest := by
      simp
    rw [lines_append one, entriesFrom, start] at found ⊢
    rw [same]
    cases i with
    | zero =>
      cases found
      -- The line ends where the next one begins.
      obtain ⟨chars', next⟩ := getElem?_entriesFrom_zero (byteSize (before ++ chars ++ ['\n'])) rest
      refine ⟨before, ['\n'], rest, rfl, rfl, ?_, .inl rfl⟩
      unfold stopOf
      rw [List.getElem?_cons_succ, next]
    | succ i => exact ih _ i line found

/-- **A line begins and ends on boundaries of characters**, and so does the line with its
newline. -/
theorem LineTable.standsAt_of_getElem? {text : String} {i : Nat} {line : Line}
    (found : (LineTable.ofText text).entries[i]? = some line) :
    line.StandsAt text.toList
      (stopOf (LineTable.ofText text).size (LineTable.ofText text).entries.toList i) := by
  rw [← Array.getElem?_toList, entries_ofText] at found
  rw [entries_ofText, size_ofText]
  exact standsAt_entriesFrom text.toList [] i line found

/-- The last element that is taken has the property, and stands before what is not taken. -/
theorem getElem?_length_takeWhile {α : Type} {p : α → Bool} {xs : List α}
    (taken : xs.takeWhile p ≠ []) :
    ∃ x, xs[(xs.takeWhile p).length - 1]? = some x ∧ p x = true := by
  have some_taken : 0 < (xs.takeWhile p).length := List.length_pos_iff.mpr taken
  obtain ⟨behind, split⟩ := List.takeWhile_prefix p (l := xs)
  refine ⟨(xs.takeWhile p).getLast taken, ?_, ?_⟩
  · have last : (xs.takeWhile p)[(xs.takeWhile p).length - 1]?
        = some ((xs.takeWhile p).getLast taken) := by
      rw [← List.getLast?_eq_getElem?]
      exact List.getLast?_eq_some_getLast taken
    rw [← last]
    calc xs[(xs.takeWhile p).length - 1]?
        = (xs.takeWhile p ++ behind)[(xs.takeWhile p).length - 1]? := by rw [split]
      _ = (xs.takeWhile p)[(xs.takeWhile p).length - 1]? :=
        List.getElem?_append_left (by omega)
  · exact List.mem_takeWhile_imp (List.getLast_mem taken)

/-- **Every offset lies in the line that it is looked up in**, or behind it. -/
theorem LineTable.exists_entry (text : String) (offset : Nat) :
    1 ≤ (LineTable.ofText text).lineAt offset
      ∧ ∃ line, (LineTable.ofText text).entries[(LineTable.ofText text).lineAt offset - 1]?
          = some line ∧ line.start ≤ offset := by
  -- The first line begins at the first byte, so one line at least begins before the offset.
  have taken : (LineTable.ofText text).entries.toList.takeWhile
      (fun line => decide (line.start ≤ offset)) ≠ [] := by
    obtain ⟨chars, first⟩ := getElem?_entriesFrom_zero 0 text.toList
    rw [← entries_ofText] at first
    cases rows : (LineTable.ofText text).entries.toList with
    | nil =>
      rw [rows] at first
      cases first
    | cons row rest =>
      rw [rows] at first
      cases first
      simp
  obtain ⟨line, found, begins⟩ := getElem?_length_takeWhile taken
  rw [Array.getElem?_toList] at found
  exact ⟨List.length_pos_iff.mpr taken, line, found, by simpa using begins⟩

/-- Whatever is looked up in a line table is there: the line of every offset, and the
bytes of every line. -/
structure LineTable.InRange (text : String) : Prop where
  /-- The line that an offset is looked up in begins at or before the offset. -/
  lookup : ∀ offset, 1 ≤ (LineTable.ofText text).lineAt offset
    ∧ ∃ line, (LineTable.ofText text).entries[(LineTable.ofText text).lineAt offset - 1]?
        = some line ∧ line.start ≤ offset
  /-- A line is cut out of the text between two boundaries of characters. -/
  slice : ∀ (i : Nat) (line : Line), (LineTable.ofText text).entries[i]? = some line →
    line.StandsAt text.toList
      (stopOf (LineTable.ofText text).size (LineTable.ofText text).entries.toList i)

theorem LineTable.inRange (text : String) : LineTable.InRange text where
  lookup := LineTable.exists_entry text
  slice _ _ := LineTable.standsAt_of_getElem?

end Esolang.Source
