/-
  Esolang.Proofs.Source.Recovery
  ──────────────────────────────
  **POSITIONS AND LINES LOSE NOTHING.**

  The line and the column of a place say at which byte it is, and places that come later
  in the text have later positions.  The lines of a text, put together again with newlines,
  are the text but for the carriage returns at the ends of its lines.

    • `precedes_behind` — a longer beginning of a text has a later position,
    • `offset?_behind` — the byte at which a position is,
    • `intercalate_lines` — the lines put together again,
    • `LineTable.invertible` — all of this, as the line table of a text answers it.
-/
import Esolang.Proofs.Source.Positions
import Mathlib.Data.List.DropRight

namespace Esolang.Source

/-! ## §1. Positions in order. -/

/-- The position is on an earlier line, or on the same line in an earlier column. -/
def Position.Precedes (p q : Position) : Prop :=
  p.line < q.line ∨ p.line = q.line ∧ p.column < q.column

/-- **A longer beginning of a text has a later position.** -/
theorem precedes_behind (text : List Char) {more : List Char} (ne : more ≠ []) :
    (Position.behind text).Precedes (.behind (text ++ more)) := by
  have length_pos : 0 < more.length := List.length_pos_iff.mpr ne
  unfold Position.Precedes Position.behind
  rw [List.count_append]
  by_cases newline : '\n' ∈ more
  · have counted : 0 < more.count '\n' := List.count_pos_iff.mpr newline
    left
    show text.count '\n' + 1 < text.count '\n' + more.count '\n' + 1
    omega
  · have none_counted : more.count '\n' = 0 := List.count_eq_zero.mpr newline
    right
    rw [lastLine_append_of_not_mem text newline, List.length_append]
    show text.count '\n' + 1 = text.count '\n' + more.count '\n' + 1
      ∧ (lastLine text).length + 1 < (lastLine text).length + more.length + 1
    omega

/-- The byte is a boundary of characters: so many bytes are the beginning of the text. -/
def Boundary (text : List Char) (offset : Nat) : Prop :=
  ∃ before after, text = before ++ after ∧ byteSize before = offset

/-- Of two boundaries the later one has a longer beginning of the text before it. -/
theorem exists_between {text before after before' after' : List Char}
    (cut : text = before ++ after) (cut' : text = before' ++ after')
    (lt : byteSize before < byteSize before') : ∃ more, more ≠ [] ∧ before' = before ++ more := by
  have begins : before <+: text := ⟨after, cut.symm⟩
  have begins' : before' <+: text := ⟨after', cut'.symm⟩
  rcases List.prefix_or_prefix_of_prefix begins begins' with ⟨more, rfl⟩ | ⟨more, rfl⟩
  · refine ⟨more, ?_, rfl⟩
    rintro rfl
    simp at lt
  · rw [byteSize_append] at lt
    omega

/-! ## §2. The byte at which a position is. -/

/-- The byte at which a position of a text is: behind the first characters of its line. -/
def Position.offset? (text : List Char) (p : Position) : Option Nat :=
  (lines text)[p.line - 1]?.map fun line =>
    lineStart (lines text) (p.line - 1) + byteSize (line.take (p.column - 1))

/-- **The byte at which a position is**, read off the position. -/
theorem offset?_behind (before after : List Char) :
    (Position.behind before).offset? (before ++ after) = some (byteSize before) := by
  have line : (Position.behind before).line - 1 = before.count '\n' := Nat.add_sub_cancel _ _
  have column : (Position.behind before).column - 1 = (lastLine before).length :=
    Nat.add_sub_cancel _ _
  unfold Position.offset?
  rw [line, column, getElem?_lines, Option.map_some, List.take_left, lineStart_add_lastLine]

/-! ## §3. The lines put together again. -/

/-- The line without the carriage returns at its end. -/
def trimReturns (line : List Char) : List Char :=
  line.rdropWhile (· == '\r')

/-- Nothing but carriage returns stands before the next newline, or before the end. -/
def endsLine (rest : List Char) : Bool :=
  match rest.dropWhile (· == '\r') with
  | [] => true
  | c :: _ => c == '\n'

/-- The text without the runs of carriage returns before its newlines and at its end. -/
def withoutReturns : List Char → List Char
  | [] => []
  | c :: cs => if c = '\r' ∧ endsLine cs then withoutReturns cs else c :: withoutReturns cs

theorem trimReturns_cons (c : Char) (cs : List Char) :
    trimReturns (c :: cs)
      = if c = '\r' ∧ trimReturns cs = [] then [] else c :: trimReturns cs := by
  unfold trimReturns List.rdropWhile
  rw [List.reverse_cons, List.dropWhile_append]
  by_cases rest : cs.reverse.dropWhile (· == '\r') = []
  · by_cases isReturn : c = '\r' <;> simp [rest, isReturn]
  · simp [rest]

/-- What follows a line: the end of the text, or a newline. -/
def LineEnd (rest : List Char) : Prop :=
  rest = [] ∨ ∃ more, rest = '\n' :: more

theorem endsLine_append {line rest : List Char} (one : '\n' ∉ line) (ends : LineEnd rest) :
    endsLine (line ++ rest) = true ↔ trimReturns line = [] := by
  have stops : endsLine rest = true ∧ rest.dropWhile (· == '\r') = rest := by
    rcases ends with rfl | ⟨more, rfl⟩
    · exact ⟨rfl, rfl⟩
    · exact ⟨rfl, rfl⟩
  have blank : trimReturns line = [] ↔ line.dropWhile (· == '\r') = [] := by
    unfold trimReturns
    rw [List.rdropWhile_eq_nil_iff, List.dropWhile_eq_nil_iff]
  have dropped : (line ++ rest).dropWhile (· == '\r')
      = if (line.dropWhile (· == '\r')).isEmpty then rest.dropWhile (· == '\r')
        else line.dropWhile (· == '\r') ++ rest :=
    List.dropWhile_append
  rw [blank]
  cases left : line.dropWhile (· == '\r') with
  | nil =>
    rw [left, List.isEmpty_nil, if_pos rfl, stops.2] at dropped
    unfold endsLine at stops ⊢
    rw [dropped]
    rw [stops.2] at stops
    simpa using stops.1
  | cons c cs =>
    -- The line goes on with another character, which is no newline.
    rw [left] at dropped
    have inside : c ∈ line := (List.dropWhile_suffix _).subset (left ▸ List.mem_cons_self)
    have other : c ≠ '\n' := by
      rintro rfl
      exact one inside
    unfold endsLine
    rw [dropped]
    simp [other]

/-- A line loses the returns at its end and nothing else. -/
theorem withoutReturns_append {line rest : List Char} (one : '\n' ∉ line) (ends : LineEnd rest) :
    withoutReturns (line ++ rest) = trimReturns line ++ withoutReturns rest := by
  induction line with
  | nil => rfl
  | cons c cs ih =>
    rw [List.mem_cons, not_or] at one
    rw [List.cons_append, withoutReturns, trimReturns_cons, ih one.2]
    simp only [endsLine_append one.2 ends]
    by_cases ending : c = '\r' ∧ trimReturns cs = []
    · rw [if_pos ending, if_pos ending, ending.2]
    · rw [if_neg ending, if_neg ending, List.cons_append]

/-- **The lines put together again.** -/
theorem intercalate_lines (text : List Char) :
    ['\n'].intercalate ((lines text).map trimReturns) = withoutReturns text := by
  induction text using lines_induction with
  | last line one =>
    have trimmed := withoutReturns_append one (.inl rfl)
    rw [List.append_nil] at trimmed
    rw [lines_of_not_mem one, trimmed]
    simp [withoutReturns]
  | next line rest one ih =>
    have more : (lines rest).map trimReturns ≠ [] := by simpa using lines_ne_nil rest
    have newline : withoutReturns ('\n' :: rest) = '\n' :: withoutReturns rest := by
      have other : '\n' ≠ '\r' := by decide
      rw [withoutReturns, if_neg fun both => other both.1]
    rw [lines_append one, List.map_cons, List.intercalate_cons_of_ne_nil more, ih,
      withoutReturns_append one (.inr ⟨rest, rfl⟩), newline]
    simp

/-! ## §4. The answers of a line table. -/

namespace LineTable

/-- A table has one line more than its text has newlines. -/
theorem size_entries (source : String) :
    (ofText source).entries.size = source.toList.count '\n' + 1 := by
  have rows (start : Nat) (rows : List (List Char)) :
      (entriesFrom start rows).length = rows.length := by
    induction rows generalizing start with
    | nil => rfl
    | cons row rows ih => rw [entriesFrom, List.length_cons, List.length_cons, ih]
  rw [← Array.length_toList, entries_ofText, rows, length_lines]

/-- What a line shows. -/
theorem text_succ {source : String} {i : Nat} {line : List Char}
    (found : (lines source.toList)[i]? = some line) :
    (ofText source).text (i + 1) = String.ofList (trimReturns line) := by
  have entry := getElem?_entries source i
  rw [found, Option.map_some] at entry
  unfold LineTable.text
  rw [if_neg (Nat.succ_ne_zero i), Nat.add_sub_cancel, entry]
  rfl

/-- What all lines show, from the first to the last. -/
theorem texts_eq (source : String) :
    (List.range (ofText source).entries.size).map (fun i => (ofText source).text (i + 1))
      = (lines source.toList).map fun line => String.ofList (trimReturns line) := by
  apply List.ext_getElem?
  intro i
  rw [size_entries, ← length_lines, List.getElem?_map, List.getElem?_map]
  by_cases inside : i < (lines source.toList).length
  · rw [List.getElem?_range inside, List.getElem?_eq_getElem inside, Option.map_some,
      Option.map_some, text_succ (List.getElem?_eq_getElem inside)]
  · rw [List.getElem?_eq_none (by rw [List.length_range]; omega),
      List.getElem?_eq_none (by omega)]
    rfl

/-- What the line table of a text says of its places and its lines. -/
structure Invertible (source : String) : Prop where
  /-- The line of a place is one more than the newlines before it, and its column one more
  than the characters since the last of them. -/
  position : ∀ before after, source.toList = before ++ after →
    (ofText source).position (byteSize before)
      = ⟨before.count '\n' + 1, (lastLine before).length + 1⟩
  /-- Later boundaries have later positions. -/
  increasing : ∀ offset offset', Boundary source.toList offset → Boundary source.toList offset' →
    offset < offset' → ((ofText source).position offset).Precedes ((ofText source).position offset')
  /-- The boundary can be recovered from its position. -/
  recovered : ∀ offset, Boundary source.toList offset →
    ((ofText source).position offset).offset? source.toList = some offset
  /-- Lines begin in the table where they begin in the text. -/
  start : ∀ (i : Nat) line, (ofText source).entries[i]? = some line →
    line.start = lineStart (lines source.toList) i
  /-- An offset that is not in the text is the end. -/
  beyond : ∀ offset, byteSize source.toList ≤ offset →
    (ofText source).position offset = (ofText source).endPosition
  /-- There is one line more than there are newlines. -/
  size : (ofText source).entries.size = source.toList.count '\n' + 1
  /-- The lines that are shown, joined by newlines, are the text without its returns at the
  ends of lines. -/
  joined : "\n".intercalate
      ((List.range (ofText source).entries.size).map fun i => (ofText source).text (i + 1))
    = String.ofList (withoutReturns source.toList)

/-- **Positions and lines lose nothing.** -/
theorem invertible (source : String) : Invertible source where
  position before after cut := position_append cut
  increasing := by
    rintro _ _ ⟨before, after, cut, rfl⟩ ⟨before', after', cut', rfl⟩ lt
    obtain ⟨more, ne, rfl⟩ := exists_between cut cut' lt
    rw [position_append cut, position_append cut']
    exact precedes_behind before ne
  recovered := by
    rintro _ ⟨before, after, cut, rfl⟩
    rw [position_append cut, cut]
    exact offset?_behind before after
  start i line found := by
    rw [getElem?_entries] at found
    obtain ⟨chars, -, rfl⟩ := Option.map_eq_some_iff.mp found
    rfl
  beyond offset le := by
    unfold endPosition LineTable.position
    rw [size_ofText, Nat.min_eq_right le, Nat.min_self]
  size := size_entries source
  joined := by
    have shown : ((lines source.toList).map fun line => String.ofList (trimReturns line)).map
        String.toList = (lines source.toList).map trimReturns := by
      rw [List.map_map]
      apply List.map_congr_left
      intro line _
      exact String.toList_ofList
    rw [texts_eq, ← String.toList_inj, String.toList_ofList, String.toList_intercalate, shown,
      ← intercalate_lines]
    rfl

end LineTable

/-- Two returns end the first line, and one stands inside of the second. -/
example : withoutReturns "a\r\r\nb\rc\n".toList = "a\nb\rc\n".toList := by
  decide

end Esolang.Source
