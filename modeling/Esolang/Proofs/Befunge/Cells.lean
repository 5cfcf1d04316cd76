/-
  Esolang.Proofs.Befunge.Cells
  ────────────────────────────
  **THE CELLS OF A GRID ARE PLACES OF ITS TEXT.**

  The rows of a grid and the lines of a line table are cut out of the same text, the rows
  without the one carriage return that may end a line.  A character that ends no line
  stands in the column and the row of its position, counted from zero, and what no
  character stands on is filled with a space.

    • `exists_split_lines` — a character of a line is a character of the text,
    • `getElem?_row`, `exists_inscribed` — the characters of a row are those that are
      inscribed at its positions,
    • `Grid.agrees_ofSource` — grid and line table agree, and what a run reports of a cell
      that it has not written is the position of the character that was read.
-/
import Esolang.Proofs.Befunge.Draws
import Esolang.Proofs.Source.Recovery
import Mathlib.Order.Bounds.Basic

namespace Esolang.Source

/-! ## §1. The characters of the lines. -/

/-- **A character of a line is a character of the text**, on that line and in that column,
and what follows it on the line follows it in the text. -/
theorem exists_split_lines {text front behind : List Char} {c : Char} {row : Nat}
    (found : (lines text)[row]? = some (front ++ c :: behind)) :
    ∃ before after, text = before ++ c :: after ∧ before.count '\n' = row
      ∧ lastLine before = front ∧ after.takeWhile (· != '\n') = behind := by
  induction text using lines_induction generalizing row with
  | last line one =>
    rw [lines_of_not_mem one] at found
    cases row with
    | succ row => cases found
    | zero =>
      cases found
      rw [List.mem_append, List.mem_cons, not_or, not_or] at one
      exact ⟨front, behind, rfl, List.count_eq_zero.mpr one.1, lastLine_of_not_mem one.1,
        takeWhile_of_not_mem one.2.2⟩
  | next line rest one ih =>
    rw [lines_append one] at found
    cases row with
    | zero =>
      cases found
      rw [List.mem_append, List.mem_cons, not_or, not_or] at one
      refine ⟨front, behind ++ '\n' :: rest, by simp, List.count_eq_zero.mpr one.1,
        lastLine_of_not_mem one.1, ?_⟩
      have stops : ('\n' :: rest).takeWhile (· != '\n') = [] := rfl
      rw [List.takeWhile_append, takeWhile_of_not_mem one.2.2, if_pos rfl, stops, List.append_nil]
    | succ row =>
      obtain ⟨before, after, rfl, count, front_eq, behind_eq⟩ := ih found
      refine ⟨line ++ '\n' :: before, after, by simp, ?_, ?_, behind_eq⟩
      · rw [count_line one, count]
      · rw [lastLine_append, front_eq]

/-- The character stands behind `before` and is part of no line's end: it is no newline,
and no carriage return directly before a newline or at the end of the text. -/
def Inscribed (text before : List Char) (c : Char) : Prop :=
  ∃ after, text = before ++ c :: after ∧ c ≠ '\n' ∧ ¬ (c = '\r' ∧ LineEnd after)

/-- Before the end of a line nothing is left of it. -/
theorem lineEnd_iff {after : List Char} :
    LineEnd after ↔ after.takeWhile (· != '\n') = [] := by
  unfold LineEnd
  cases after with
  | nil => simp
  | cons c cs =>
    by_cases newline : c = '\n' <;> simp [newline]

end Esolang.Source

namespace Esolang.Befunge

open Esolang.Machine (Input Budget)
open Esolang.Source (lines lastLine byteSize Inscribed LineTable Position)

/-! ## §2. Rows. -/

namespace Grid

/-- A row has what stands on its line, but for one return at the end. -/
theorem getElem?_dropReturn {front behind : List Char} {c : Char}
    (kept : ¬ (c = '\r' ∧ behind = [])) :
    (dropReturn (front ++ c :: behind))[front.length]? = some c := by
  have here : (front ++ c :: behind)[front.length]? = some c := by simp
  unfold dropReturn
  split
  · next last =>
    -- The return that is dropped stands further to the right.
    have more : behind ≠ [] := by
      rintro rfl
      rw [List.getLast?_concat] at last
      exact kept ⟨Option.some.inj last, rfl⟩
    have length_pos : 0 < behind.length := List.length_pos_iff.mpr more
    rw [List.getElem?_dropLast, if_pos, here]
    rw [List.length_append, List.length_cons]
    omega
  · exact here

/-- What a row has, its line has in the same column, and it is not the return at the end. -/
theorem exists_split_dropReturn {chars : List Char} {column : Nat} {c : Char}
    (found : (dropReturn chars)[column]? = some c) :
    ∃ front behind, chars = front ++ c :: behind ∧ front.length = column
      ∧ ¬ (c = '\r' ∧ behind = []) := by
  obtain ⟨inside, -⟩ := List.getElem?_eq_some_iff.mp found
  obtain ⟨ending, whole⟩ := prefix_dropReturn chars
  have here : chars[column]? = some c := by
    rw [← whole, List.getElem?_append_left inside]
    exact found
  obtain ⟨below, at_column⟩ := List.getElem?_eq_some_iff.mp here
  refine ⟨chars.take column, chars.drop (column + 1), ?_, ?_, ?_⟩
  · rw [← at_column, List.getElem_cons_drop, List.take_append_drop]
  · rw [List.length_take]
    omega
  · -- Had the row the return at the end of its chars, it would be as long as the chars.
    rintro ⟨rfl, nothing⟩
    have length : chars.length ≤ column + 1 := List.drop_eq_nil_iff.mp nothing
    have last : chars.getLast? = some '\r' := by
      rw [List.getLast?_eq_getElem?, show chars.length - 1 = column by omega]
      exact here
    have dropped : dropReturn chars = chars.dropLast := if_pos last
    rw [dropped, List.length_dropLast] at inside
    omega

/-- **A character that ends no line stands in its row**, in the column of its position. -/
theorem getElem?_row {text before : List Char} {c : Char} (inscribed : Inscribed text before c) :
    ((lines text).map dropReturn)[before.count '\n']?.bind
      (fun row => row[(lastLine before).length]?) = some c := by
  obtain ⟨after, rfl, inside, kept⟩ := inscribed
  have goes_on : (c :: after).takeWhile (· != '\n') = c :: after.takeWhile (· != '\n') :=
    List.takeWhile_cons_of_pos (by simpa using inside)
  rw [List.getElem?_map, Source.getElem?_lines, goes_on, Option.map_some, Option.bind_some]
  apply getElem?_dropReturn
  rw [← Source.lineEnd_iff]
  exact kept

/-- **What stands in a row is a character that ends no line**, at the position of its
column. -/
theorem exists_inscribed {text : List Char} {column row : Nat} {c : Char}
    (found : ((lines text).map dropReturn)[row]?.bind (fun cells => cells[column]?) = some c) :
    ∃ before, Inscribed text before c ∧ Position.behind before = ⟨row + 1, column + 1⟩ := by
  rw [List.getElem?_map] at found
  cases entry : (lines text)[row]? with
  | none =>
    rw [entry] at found
    cases found
  | some line =>
    rw [entry, Option.map_some, Option.bind_some] at found
    obtain ⟨front, behind, rfl, rfl, kept⟩ := exists_split_dropReturn found
    have one := Source.not_mem_of_mem_lines (List.mem_of_getElem? entry)
    obtain ⟨before, after, cut, rfl, rfl, rfl⟩ := Source.exists_split_lines entry
    refine ⟨before, ⟨after, cut, ?_, ?_⟩, rfl⟩
    · rintro rfl
      simp at one
    · rw [Source.lineEnd_iff]
      exact kept

/-! ## §3. Cells. -/

/-- The grid is as wide as its widest row, and it has a cell. -/
theorem isLeast_width (source : String) :
    IsLeast {width | 1 ≤ width ∧ ∀ line ∈ lines source.toList, (dropReturn line).length ≤ width}
      (ofSource source).width := by
  obtain ⟨pos, wide⟩ := widest ((lines source.toList).map dropReturn) 1
  refine ⟨⟨pos, ?_⟩, ?_⟩
  · intro line mem
    exact wide _ (List.mem_map_of_mem mem)
  · rintro width ⟨pos', wide'⟩
    refine widest_le _ 1 pos' ?_
    intro row mem
    obtain ⟨line, mem, rfl⟩ := List.mem_map.mp mem
    exact wide' line (by assumption)

/-- A character that ends no line stands in its cell. -/
theorem get?_of_inscribed {source : String} {before : List Char} {c : Char}
    (inscribed : Inscribed source.toList before c) :
    (ofSource source).get? ((Position.behind before).column - 1) ((Position.behind before).line - 1)
      = some c := by
  have row := getElem?_row inscribed
  obtain ⟨line, found, here⟩ := Option.bind_eq_some_iff.mp row
  obtain ⟨inside, -⟩ := List.getElem?_eq_some_iff.mp here
  obtain ⟨below, -⟩ := List.getElem?_eq_some_iff.mp found
  have wide := (widest ((lines source.toList).map dropReturn) 1).2 line
    (List.mem_of_getElem? found)
  have x_lt : (lastLine before).length < (ofSource source).width := Nat.lt_of_lt_of_le inside wide
  have y_lt : before.count '\n' < (ofSource source).height := by
    rw [height_ofSource]
    simpa using below
  show (ofSource source).get? ((lastLine before).length + 1 - 1) (before.count '\n' + 1 - 1) = some c
  rw [Nat.add_sub_cancel, Nat.add_sub_cancel, get?_ofSource x_lt y_lt, parsed, row]
  rfl

/-- A cell on which no character stands is filled with a space. -/
theorem eq_space_of_get? {source : String} {column row : Nat} {c : Char}
    (found : (ofSource source).get? column row = some c)
    (bare : ∀ before d, Inscribed source.toList before d →
      Position.behind before ≠ ⟨row + 1, column + 1⟩) : c = ' ' := by
  have inside : column < (ofSource source).width ∧ row < (ofSource source).height := by
    by_contra beyond
    rw [(full_ofSource source).get?_eq_none beyond] at found
    cases found
  rw [get?_ofSource inside.1 inside.2] at found
  cases found
  unfold parsed
  cases stands : ((lines source.toList).map dropReturn)[row]?.bind fun chars => chars[column]? with
  | none => rfl
  | some d =>
    obtain ⟨before, inscribed, place⟩ := exists_inscribed stands
    exact absurd place (bare before d inscribed)

end Grid

/-! ## §4. What a run reports. -/

/-- In the first `n` cycles nothing is written in this column and row. -/
def Untouched (draws : Draws) (cancelAt : Option Nat) (source : String) (input : Input)
    (n column row : Nat) : Prop :=
  ∀ j u d, j < n → (machine draws cancelAt).after? j (.initial source input) = some u →
    ¬ u.PutsAt column row d

section
variable {draws : Draws} {cancelAt : Option Nat} {source : String} {input : Input} {n : Nat}
  {s : State}

/-- An untouched cell still has what was parsed. -/
theorem symbol_of_untouched
    (reached : (machine draws cancelAt).after? n (.initial source input) = some s)
    (untouched : Untouched draws cancelAt source input n s.pointer.x s.pointer.y) :
    (Grid.ofSource source).get? s.pointer.x s.pointer.y = some s.symbol := by
  have here := (inRange source).state draws cancelAt input n s reached
  have on := here.grid.pointer
  have x_lt : s.pointer.x < (Grid.ofSource source).width := here.grid.width ▸ on.x_lt
  have y_lt : s.pointer.y < (Grid.ofSource source).height := here.grid.height ▸ on.y_lt
  obtain ⟨c, cell, recorded⟩ := recorded_of_after? x_lt y_lt reached
  rw [here.cell] at cell
  rw [Grid.get?_ofSource x_lt y_lt]
  cases recorded with
  | put before ht puts last => exact absurd puts (untouched _ _ _ before ht)
  | parsed _ eq => rw [cell, eq]

/-- What ends a run is reported at the pointer of its last state. -/
theorem site_of_finding? {b : Budget} {finding : Diagnostic.Finding}
    (ends : ((machine draws cancelAt).run b s).ending.finding? Fault.report = some finding) :
    finding.site = ((machine draws cancelAt).run b s).state.site := by
  rcases Machine.run_course (machine draws cancelAt) b s with
    ⟨_, ⟨n, t, last, -, hlast, rfl⟩, eq⟩ | ⟨n, t, symbol, site, reason, -, hv, eq⟩
  · rw [eq] at ends ⊢
    cases hlast with
    | finished hf => cases hf
    | unreadable hf => cases hf
    | halt hf hx => cases ends
    | fault hf hx =>
      cases hf
      cases ends
      rfl
  · rw [eq] at ends ⊢
    cases Machine.visit?_eq_some.mp hv
    cases ends
    rfl

end

/-! ## §5. Grid and line table. -/

namespace Grid

/-- What the grid of a text and its line table have to do with each other. -/
structure Agrees (source : String) : Prop where
  /-- The grid has as many rows as the table has lines. -/
  height : (ofSource source).height = (LineTable.ofText source).entries.size
  /-- All rows have the width of the grid. -/
  rows : ∀ row ∈ (ofSource source).rows, row.size = (ofSource source).width
  /-- That is the width of the widest, and at least one. -/
  width : IsLeast
    {width | 1 ≤ width ∧ ∀ line ∈ lines source.toList, (dropReturn line).length ≤ width}
    (ofSource source).width
  /-- A character that ends no line stands in the cell of its position. -/
  cell : ∀ before c line column, Inscribed source.toList before c →
    (LineTable.ofText source).position (byteSize before) = ⟨line, column⟩ →
      (ofSource source).get? (column - 1) (line - 1) = some c
  /-- Every other cell is a space. -/
  padding : ∀ x y c, (ofSource source).get? x y = some c →
    (∀ before d, Inscribed source.toList before d →
      (LineTable.ofText source).position (byteSize before) ≠ ⟨y + 1, x + 1⟩) → c = ' '
  /-- Whatever a run reports of a cell that is no padding, and that has not been written, is
  reported at the position of the character that stands there. -/
  reported : ∀ draws cancelAt b input finding,
    ((machine draws cancelAt).run b (.initial source input)).ending.finding? Fault.report
        = some finding →
      ∃ n s, ((machine draws cancelAt).run b (.initial source input)).state = s
        ∧ (machine draws cancelAt).after? n (.initial source input) = some s
        ∧ (∀ file, (finding.locate file source).location.line = s.pointer.y + 1
            ∧ (finding.locate file source).location.column = s.pointer.x + 1)
        ∧ (Untouched draws cancelAt source input n s.pointer.x s.pointer.y →
            ∀ before d, Inscribed source.toList before d →
              (LineTable.ofText source).position (byteSize before)
                  = ⟨s.pointer.y + 1, s.pointer.x + 1⟩ →
                s.symbol = d)

/-- **The cells of a grid are places of its text.** -/
theorem agrees_ofSource (source : String) : Agrees source where
  height := by
    rw [height_ofSource, LineTable.size_entries, Source.length_lines]
  rows := (full_ofSource source).size_row
  width := isLeast_width source
  cell := by
    intro before c line column inscribed place
    obtain ⟨after, cut, -⟩ := id inscribed
    rw [LineTable.position_append cut] at place
    have cell := get?_of_inscribed inscribed
    rwa [place] at cell
  padding := by
    intro x y c found bare
    refine eq_space_of_get? found ?_
    intro before d inscribed
    obtain ⟨after, cut, -⟩ := id inscribed
    rw [← LineTable.position_append cut]
    exact bare before d inscribed
  reported := by
    intro draws cancelAt b input finding ends
    obtain ⟨n, ⟨reached, -⟩, -⟩ :=
      Machine.exists_last (still_machine draws cancelAt) b (.initial source input)
    refine ⟨n, _, rfl, reached, ?_, ?_⟩
    · intro file
      unfold Diagnostic.Finding.locate
      rw [site_of_finding? ends]
      exact ⟨rfl, rfl⟩
    intro untouched before d inscribed place
    obtain ⟨after, cut, -⟩ := id inscribed
    rw [LineTable.position_append cut] at place
    have cell := get?_of_inscribed inscribed
    rw [place] at cell
    have parsed := symbol_of_untouched reached untouched
    exact Option.some.inj (parsed.symm.trans cell)

end Grid

end Esolang.Befunge
