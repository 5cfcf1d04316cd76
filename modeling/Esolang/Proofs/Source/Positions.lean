/-
  Esolang.Proofs.Source.Positions
  ───────────────────────────────
  **THE POSITION BEHIND A TEXT.**

  The line on which a place lies is one more than the newlines before it, and its column
  one more than the characters since the last of them.  The line table finds the same
  position from the number of bytes before the place.

    • `getElem?_lines` — the line on which a place lies, on both sides of the place,
    • `lineStart_add_lastLine` — what lies before a place: lines, and the beginning of one,
    • `LineTable.position_append` — the position that is looked up behind the beginning of
      a text,
    • `LineTable.endPosition_ofText` — the position at the end of a text,
    • `column_behind_le` — along a line the columns grow.
-/
import Esolang.Proofs.Source.Lines

namespace Esolang.Source

/-! ## §1. The unfinished line. -/

/-- The characters of a text since its last newline. -/
def lastLine (text : List Char) : List Char :=
  (text.reverse.takeWhile (· != '\n')).reverse

/-- The position just behind a text. -/
def Position.behind (text : List Char) : Position :=
  ⟨text.count '\n' + 1, (lastLine text).length + 1⟩

theorem takeWhile_of_not_mem {text : List Char} (one : '\n' ∉ text) :
    text.takeWhile (· != '\n') = text := by
  apply List.takeWhile_eq_self_iff.mpr
  intro c mem
  rw [bne_iff_ne]
  rintro rfl
  exact one mem

theorem lastLine_of_not_mem {line : List Char} (one : '\n' ∉ line) : lastLine line = line := by
  unfold lastLine
  rw [takeWhile_of_not_mem (by simpa using one), List.reverse_reverse]

/-- What comes before a newline does not belong to the last line. -/
theorem lastLine_append (line rest : List Char) :
    lastLine (line ++ '\n' :: rest) = lastLine rest := by
  unfold lastLine
  have reversed : (line ++ '\n' :: rest).reverse = rest.reverse ++ '\n' :: line.reverse := by simp
  rw [reversed, List.takeWhile_append]
  split
  · next all =>
    have stops : ('\n' :: line.reverse).takeWhile (· != '\n') = [] := rfl
    rw [stops, List.append_nil]
    exact congrArg List.reverse (List.takeWhile_prefix _ |>.eq_of_length all).symm
  · rfl

/-- Without a newline the last line goes on. -/
theorem lastLine_append_of_not_mem (text : List Char) {more : List Char} (one : '\n' ∉ more) :
    lastLine (text ++ more) = lastLine text ++ more := by
  unfold lastLine
  rw [List.reverse_append, List.takeWhile_append_of_pos, List.reverse_append,
    List.reverse_reverse]
  intro c mem
  rw [List.mem_reverse] at mem
  rw [bne_iff_ne]
  rintro rfl
  exact one mem

/-- A longer beginning of a text ends on a later line, or on the same line in a later
column. -/
theorem column_behind_le {text more : List Char}
    (same : (Position.behind (text ++ more)).line = (Position.behind text).line) :
    (Position.behind text).column ≤ (Position.behind (text ++ more)).column := by
  have none_more : more.count '\n' = 0 := by
    unfold Position.behind at same
    rw [List.count_append] at same
    simp only at same
    omega
  have one : '\n' ∉ more := List.count_eq_zero.mp none_more
  show (lastLine text).length + 1 ≤ (lastLine (text ++ more)).length + 1
  rw [lastLine_append_of_not_mem text one, List.length_append]
  omega

/-! ## §2. The line of a place. -/

/-- The first line of a text goes on with what is put before it. -/
theorem lines_append_of_not_mem {before : List Char} (one : '\n' ∉ before) (after : List Char) :
    ∃ first rest, lines after = first :: rest
      ∧ lines (before ++ after) = (before ++ first) :: rest := by
  induction before with
  | nil =>
    cases cut : lines after with
    | nil => exact absurd cut (lines_ne_nil after)
    | cons first rest => exact ⟨first, rest, rfl, cut⟩
  | cons c cs ih =>
    rw [List.mem_cons, not_or] at one
    obtain ⟨first, rest, cut, joined⟩ := ih one.2
    refine ⟨first, rest, cut, ?_⟩
    rw [List.cons_append, lines_cons, joined, consLine, if_neg (Ne.symm one.1)]
    rfl

/-- **The line on which a place lies**: what the text has of it before the place, and what
follows up to the next newline. -/
theorem getElem?_lines (before after : List Char) :
    (lines (before ++ after))[before.count '\n']?
      = some (lastLine before ++ after.takeWhile (· != '\n')) := by
  induction before using lines_induction with
  | last before one =>
    obtain ⟨first, rest, cut, joined⟩ := lines_append_of_not_mem one after
    have here : first = after.takeWhile (· != '\n') := by
      by_cases newline : '\n' ∈ after
      · obtain ⟨line, rest', rfl, one'⟩ := List.eq_append_cons_of_mem newline
        have stops : ('\n' :: rest').takeWhile (· != '\n') = [] := rfl
        rw [lines_append one'] at cut
        cases cut
        rw [List.takeWhile_append, takeWhile_of_not_mem one', if_pos rfl, stops, List.append_nil]
      · rw [lines_of_not_mem newline] at cut
        cases cut
        exact (takeWhile_of_not_mem newline).symm
    rw [joined, List.count_eq_zero.mpr one, lastLine_of_not_mem one, here]
    rfl
  | next line before one ih =>
    have whole : line ++ '\n' :: before ++ after = line ++ '\n' :: (before ++ after) := by simp
    rw [whole, lines_append one, count_line one, lastLine_append, List.getElem?_cons_succ, ih]

/-- The byte at which line number `i`, from zero, begins: behind the lines above it, each
with its newline. -/
def lineStart (rows : List (List Char)) (i : Nat) : Nat :=
  (rows.take i).foldr (fun line size => byteSize line + 1 + size) 0

theorem lineStart_cons (line : List Char) (rows : List (List Char)) (i : Nat) :
    lineStart (line :: rows) (i + 1) = byteSize line + 1 + lineStart rows i := rfl

/-- Before a place lie the lines above it and what the text has of its own line. -/
theorem lineStart_add_lastLine (before after : List Char) :
    lineStart (lines (before ++ after)) (before.count '\n') + byteSize (lastLine before)
      = byteSize before := by
  induction before using lines_induction with
  | last before one =>
    rw [List.count_eq_zero.mpr one, lastLine_of_not_mem one]
    simp [lineStart]
  | next line before one ih =>
    have whole : line ++ '\n' :: before ++ after = line ++ '\n' :: (before ++ after) := by simp
    rw [whole, lines_append one, count_line one, lastLine_append, lineStart_cons, byteSize_line]
    omega

/-- The line on which a place lies is as long as the place is far along it, or longer. -/
theorem exists_line_behind {text before after : List Char} (cut : text = before ++ after) :
    ∃ line, (lines text)[(Position.behind before).line - 1]? = some line
      ∧ (Position.behind before).column - 1 ≤ line.length := by
  subst cut
  refine ⟨_, getElem?_lines before after, ?_⟩
  show (lastLine before).length + 1 - 1 ≤ (lastLine before ++ _).length
  rw [List.length_append]
  omega

/-! ## §3. Positions that are looked up. -/

theorem charsIn_append (line rest : List Char) :
    ∀ count, charsIn (line ++ rest) (byteSize line) count = some (count + line.length) := by
  induction line with
  | nil =>
    intro count
    cases rest <;> rfl
  | cons c cs ih =>
    intro count
    have pos : 0 < c.utf8Size := c.utf8Size_pos
    obtain ⟨bytes, size⟩ : ∃ bytes, byteSize (c :: cs) = bytes + 1 :=
      ⟨c.utf8Size + byteSize cs - 1, by rw [byteSize_cons]; omega⟩
    have fits : c.utf8Size ≤ bytes + 1 := by
      rw [← size, byteSize_cons]
      omega
    have left : bytes + 1 - c.utf8Size = byteSize cs := by
      rw [← size, byteSize_cons]
      omega
    rw [size, List.cons_append, charsIn, if_pos fits, left, ih, List.length_cons]
    congr 1
    omega

theorem getElem?_entriesFrom (rows : List (List Char)) :
    ∀ start i : Nat, (entriesFrom start rows)[i]?
      = rows[i]?.map fun chars => ⟨start + lineStart rows i, chars⟩ := by
  induction rows with
  | nil =>
    intro start i
    rfl
  | cons row rows ih =>
    intro start i
    cases i with
    | zero => rfl
    | succ i =>
      rw [entriesFrom, List.getElem?_cons_succ, List.getElem?_cons_succ, ih, lineStart_cons]
      congr 2
      funext chars
      congr 1
      omega

/-- The lines of a table, each where it begins. -/
theorem LineTable.getElem?_entries (source : String) (i : Nat) :
    (ofText source).entries[i]? = (lines source.toList)[i]?.map fun chars =>
      ⟨lineStart (lines source.toList) i, chars⟩ := by
  rw [← Array.getElem?_toList, entries_ofText, getElem?_entriesFrom, Nat.zero_add]

/-- The lines that begin before a place are those of the text before it. -/
theorem length_takeWhile_entriesFrom (before after : List Char) :
    ∀ start, ((entriesFrom start (lines (before ++ after))).takeWhile
        fun line => decide (line.start ≤ start + byteSize before)).length
      = before.count '\n' + 1 := by
  induction before using lines_induction with
  | last before one =>
    intro start
    obtain ⟨first, rest, -, joined⟩ := lines_append_of_not_mem one after
    rw [joined, entriesFrom, List.count_eq_zero.mpr one]
    -- The next line, if there is one, begins behind the place.
    have later : (entriesFrom (start + byteSize (before ++ first) + 1) rest).takeWhile
        (fun line => decide (line.start ≤ start + byteSize before)) = [] := by
      cases rest with
      | nil => rfl
      | cons line rest =>
        have behind : ¬ start + byteSize (before ++ first) + 1 ≤ start + byteSize before := by
          rw [byteSize_append]
          omega
        rw [entriesFrom, List.takeWhile_cons_of_neg (by rwa [decide_eq_true_eq])]
    rw [List.takeWhile_cons_of_pos (by simp), later]
    rfl
  | next line before one ih =>
    intro start
    have place : start + byteSize (line ++ '\n' :: before)
        = start + byteSize line + 1 + byteSize before := by
      rw [byteSize_line]
      omega
    have joined : line ++ '\n' :: before ++ after = line ++ '\n' :: (before ++ after) := by simp
    have begins : start ≤ start + byteSize line + 1 + byteSize before := by omega
    rw [joined, lines_append one, entriesFrom, place, count_line one,
      List.takeWhile_cons_of_pos (by simpa using begins), List.length_cons, ih]

theorem LineTable.lineAt_append {text : String} {before after : List Char}
    (cut : text.toList = before ++ after) :
    (LineTable.ofText text).lineAt (byteSize before) = before.count '\n' + 1 := by
  have taken := length_takeWhile_entriesFrom before after 0
  rw [← cut, ← entries_ofText, Nat.zero_add] at taken
  exact taken

/-- **The position that is looked up behind the beginning of a text.** -/
theorem LineTable.position_append {text : String} {before after : List Char}
    (cut : text.toList = before ++ after) :
    (LineTable.ofText text).position (byteSize before) = .behind before := by
  have inside : min (byteSize before) (LineTable.ofText text).size = byteSize before := by
    rw [size_ofText, cut, byteSize_append]
    omega
  have found := LineTable.getElem?_entries text (before.count '\n')
  rw [cut, getElem?_lines, Option.map_some] at found
  unfold LineTable.position
  simp only [inside, LineTable.lineAt_append cut, Nat.add_sub_cancel, found]
  unfold Position.behind Line.column
  have bytes : byteSize before - lineStart (lines (before ++ after)) (before.count '\n')
      = byteSize (lastLine before) := by
    have place := lineStart_add_lastLine before after
    omega
  rw [bytes, charsIn_append, Nat.zero_add]
  rfl

/-- **The position at the end of a text.** -/
theorem LineTable.endPosition_ofText (text : String) :
    (LineTable.ofText text).endPosition = .behind text.toList := by
  unfold LineTable.endPosition
  rw [size_ofText]
  exact position_append (List.append_nil _).symm

end Esolang.Source
