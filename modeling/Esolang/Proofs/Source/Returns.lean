/-
  Esolang.Proofs.Source.Returns
  ─────────────────────────────
  **CARRIAGE RETURNS BEFORE NEWLINES.**

  Some systems end a line with a newline and others with a carriage return before it.
  The returns move every byte behind them, but they stand at the ends of lines: no line
  begins elsewhere in its column, and none shows its return.

    • `behind_withReturns` — a place behind the same characters has the same position,
    • `text_addReturns` — every line shows the same text,
    • `aligned_returns` — a scanner to which a return is a comment finds the same tokens,
    • `locate_returns` — the location of a span is the same, except that a newline
      begins one column later.
-/
import Esolang.Diagnostic.Basic
import Esolang.Proofs.Source.Alignment
import Esolang.Proofs.Source.Positions

namespace Esolang.Source

open Esolang.Diagnostic (Site Location)

/-! ## §1. Texts with returns. -/

/-- The text with a carriage return before each newline. -/
def withReturns (text : List Char) : List Char :=
  text.flatMap fun c => if c = '\n' then ['\r', '\n'] else [c]

/-- The source with a carriage return before each newline. -/
def addReturns (source : String) : String :=
  String.ofList (withReturns source.toList)

@[simp] theorem toList_addReturns (source : String) :
    (addReturns source).toList = withReturns source.toList :=
  String.toList_ofList

@[simp] theorem withReturns_nil : withReturns [] = [] := rfl

@[simp] theorem withReturns_append (text text' : List Char) :
    withReturns (text ++ text') = withReturns text ++ withReturns text' :=
  List.flatMap_append

theorem withReturns_newline (rest : List Char) :
    withReturns ('\n' :: rest) = '\r' :: '\n' :: withReturns rest := rfl

theorem withReturns_cons {c : Char} (inside : c ≠ '\n') (rest : List Char) :
    withReturns (c :: rest) = c :: withReturns rest := by
  unfold withReturns
  rw [List.flatMap_cons, if_neg inside]
  rfl

theorem withReturns_of_not_mem {line : List Char} (one : '\n' ∉ line) :
    withReturns line = line := by
  induction line with
  | nil => rfl
  | cons c cs ih =>
    rw [List.mem_cons, not_or] at one
    rw [withReturns_cons (Ne.symm one.1), ih one.2]

/-- A line is ended by a return and a newline. -/
theorem withReturns_line {line : List Char} (one : '\n' ∉ line) (rest : List Char) :
    withReturns (line ++ '\n' :: rest) = (line ++ ['\r']) ++ '\n' :: withReturns rest := by
  rw [withReturns_append, withReturns_of_not_mem one, withReturns_newline]
  simp

theorem not_mem_return {line : List Char} (one : '\n' ∉ line) : '\n' ∉ line ++ ['\r'] := by
  simpa using one

/-- Other characters are as many as before. -/
theorem count_withReturns {c : Char} (other : c ≠ '\r') (text : List Char) :
    (withReturns text).count c = text.count c := by
  induction text with
  | nil => rfl
  | cons d ds ih =>
    by_cases newline : d = '\n'
    · subst newline
      rw [withReturns_newline, List.count_cons_of_ne (Ne.symm other), List.count_cons,
        List.count_cons, ih]
    · rw [withReturns_cons newline, List.count_cons, List.count_cons, ih]

/-! ## §2. Positions and lines. -/

theorem lastLine_withReturns (text : List Char) :
    lastLine (withReturns text) = lastLine text := by
  induction text using lines_induction with
  | last line one => rw [withReturns_of_not_mem one]
  | next line rest one ih => rw [withReturns_line one, lastLine_append, lastLine_append, ih]

/-- **A place behind the same characters has the same position.** -/
theorem behind_withReturns (text : List Char) :
    Position.behind (withReturns text) = .behind text := by
  unfold Position.behind
  rw [count_withReturns (c := '\n') (by decide), lastLine_withReturns]

/-- Behind a return the column is one more. -/
theorem behind_return (text : List Char) :
    Position.behind (withReturns text ++ ['\r'])
      = ⟨(Position.behind text).line, (Position.behind text).column + 1⟩ := by
  have one : '\n' ∉ ['\r'] := by decide
  unfold Position.behind
  rw [List.count_append, count_withReturns (c := '\n') (by decide),
    lastLine_append_of_not_mem _ one, lastLine_withReturns, List.length_append]
  rfl

/-- A line, or the line with a return at its end. -/
def Returned (line line' : List Char) : Prop :=
  line' = line ∨ line' = line ++ ['\r']

/-- The lines are the same but for the returns at their ends. -/
theorem lines_withReturns (text : List Char) :
    List.Forall₂ Returned (lines text) (lines (withReturns text)) := by
  induction text using lines_induction with
  | last line one =>
    rw [withReturns_of_not_mem one, lines_of_not_mem one]
    exact .cons (.inl rfl) .nil
  | next line rest one ih =>
    rw [withReturns_line one, lines_append one, lines_append (not_mem_return one)]
    exact .cons (.inr rfl) ih

theorem Returned.shown {line line' : List Char} (returned : Returned line line')
    (start start' : Nat) : (Line.mk start' line').shown = (Line.mk start line).shown := by
  unfold Line.shown
  rcases returned with rfl | rfl
  · rfl
  · simp

theorem shown_entriesFrom {rows rows' : List (List Char)}
    (returned : List.Forall₂ Returned rows rows') :
    ∀ start start' i : Nat, ((entriesFrom start' rows')[i]?).map Line.shown
      = ((entriesFrom start rows)[i]?).map Line.shown := by
  induction returned with
  | nil =>
    intro start start' i
    rfl
  | cons first rest ih =>
    intro start start' i
    cases i with
    | zero => exact congrArg some (first.shown start start')
    | succ i => exact ih _ _ i

/-- **Every line shows the same text.** -/
theorem text_addReturns (source : String) (line : Nat) :
    (LineTable.ofText (addReturns source)).text line = (LineTable.ofText source).text line := by
  have text_eq (table : LineTable) (line : Nat) : table.text line = if line = 0 then "" else
      ((table.entries.toList[line - 1]?).map fun entry => String.ofList entry.shown).getD "" := by
    unfold LineTable.text
    rw [Array.getElem?_toList]
    cases table.entries[line - 1]? <;> rfl
  have shown := shown_entriesFrom (lines_withReturns source.toList) 0 0 (line - 1)
  have texts := congrArg (Option.map String.ofList) shown
  rw [Option.map_map, Option.map_map] at texts
  rw [text_eq, text_eq, LineTable.entries_ofText, LineTable.entries_ofText, toList_addReturns]
  exact congrArg (fun found => if line = 0 then "" else found.getD "") texts

theorem endPosition_addReturns (source : String) :
    (LineTable.ofText (addReturns source)).endPosition = (LineTable.ofText source).endPosition := by
  rw [LineTable.endPosition_ofText, LineTable.endPosition_ofText, toList_addReturns,
    behind_withReturns]

/-! ## §3. Tokens and their spans. -/

/-- Bytes before and behind the same character.  A newline begins behind its return. -/
def TextAlignment.returns (significant : Char → Bool) (text : List Char) : TextAlignment where
  begins offset offset' :=
    ∃ before c after, text = before ++ c :: after ∧ significant c ∧ byteSize before = offset
      ∧ byteSize (withReturns before) + (if c = '\n' then 1 else 0) = offset'
  ends offset offset' :=
    ∃ before after, text = before ++ after ∧ byteSize before = offset
      ∧ byteSize (withReturns before) = offset'

theorem byteSize_withReturns_concat (before : List Char) (c : Char) :
    byteSize (withReturns (before ++ [c]))
      = byteSize (withReturns before) + (if c = '\n' then 1 else 0) + c.utf8Size := by
  rw [withReturns_append, byteSize_append, Nat.add_assoc]
  congr 1
  by_cases newline : c = '\n'
  · subst newline
    rfl
  · rw [withReturns_cons newline, if_neg newline, Nat.zero_add]
    exact byteSize_cons c []

section
variable {τ : Type} {classify : Char → Option τ} {significant : Char → Bool}

/-- The token of one character, if it is one. -/
def placedAt (classify : Char → Option τ) (offset : Nat) (c : Char) : List (Token τ) :=
  ((classify c).map fun symbol => ⟨symbol, offset, offset + c.utf8Size⟩).toList

theorem placed_cons (classify : Char → Option τ) (offset : Nat) (c : Char) (cs : List Char) :
    placed classify offset (c :: cs)
      = placedAt classify offset c ++ placed classify (offset + c.utf8Size) cs := by
  unfold placedAt
  rw [placed]
  cases classify c <;> rfl

theorem placed_withReturns (comment : classify '\r' = none) (before : List Char) (c : Char)
    (cs : List Char) :
    placed classify (byteSize (withReturns before)) (withReturns (c :: cs))
      = placedAt classify (byteSize (withReturns before) + if c = '\n' then 1 else 0) c
        ++ placed classify (byteSize (withReturns (before ++ [c]))) (withReturns cs) := by
  rw [byteSize_withReturns_concat]
  by_cases newline : c = '\n'
  · subst newline
    have skipped (offset : Nat) : placedAt classify offset '\r' = [] := by
      unfold placedAt
      rw [comment]
      rfl
    have one_byte : '\r'.utf8Size = 1 := rfl
    rw [withReturns_newline, placed_cons, skipped, placed_cons, List.nil_append, one_byte,
      if_pos rfl]
  · rw [withReturns_cons newline, placed_cons, if_neg newline, Nat.add_zero]

theorem aligned_placed_returns (agrees : ∀ c, (classify c).isSome = significant c)
    (comment : classify '\r' = none) (text : List Char) :
    ∀ before, List.Forall₂ (TextAlignment.returns significant (before ++ text)).Tokens
      (placed classify (byteSize before) text)
      (placed classify (byteSize (withReturns before)) (withReturns text)) := by
  induction text with
  | nil =>
    intro before
    exact .nil
  | cons c cs ih =>
    intro before
    have whole : before ++ c :: cs = before ++ [c] ++ cs := by simp
    have size : byteSize before + c.utf8Size = byteSize (before ++ [c]) := by simp
    rw [placed_withReturns comment, placed_cons, size]
    refine List.rel_append ?_ (by rw [whole]; exact ih (before ++ [c]))
    unfold placedAt
    cases meaning : classify c with
    | none => exact .nil
    | some symbol =>
      have symbolic : significant c = true := by rw [← agrees, meaning]; rfl
      refine .cons ⟨rfl, ⟨before, c, cs, rfl, symbolic, rfl, rfl⟩, ?_⟩ .nil
      exact ⟨before ++ [c], cs, whole, size.symm, byteSize_withReturns_concat before c⟩

/-- **A scanner to which a return is a comment finds the same tokens.** -/
theorem aligned_returns (agrees : ∀ c, (classify c).isSome = significant c)
    (comment : classify '\r' = none) (source : String) :
    List.Forall₂ (TextAlignment.returns significant source.toList).Tokens
      (tokens classify source) (tokens classify (addReturns source)) := by
  rw [tokens_eq_placed, tokens_eq_placed, toList_addReturns]
  exact aligned_placed_returns agrees comment source.toList []

end

/-! ## §4. Locations. -/

section
variable {significant : Char → Bool} {source : String}

/-- Where a symbol begins. -/
theorem position_begins {offset offset' : Nat}
    (begins : (TextAlignment.returns significant source.toList).begins offset offset') :
    ∃ before c after, source.toList = before ++ c :: after ∧ significant c
      ∧ (LineTable.ofText source).position offset = .behind before
      ∧ (LineTable.ofText (addReturns source)).position offset'
        = ⟨(Position.behind before).line,
            (Position.behind before).column + if c = '\n' then 1 else 0⟩ := by
  obtain ⟨before, c, after, cut, symbolic, rfl, rfl⟩ := begins
  refine ⟨before, c, after, cut, symbolic, LineTable.position_append cut, ?_⟩
  by_cases newline : c = '\n'
  · subst newline
    have cut' : (addReturns source).toList
        = (withReturns before ++ ['\r']) ++ '\n' :: withReturns after := by
      rw [toList_addReturns, cut, withReturns_append, withReturns_newline]
      simp
    have size : byteSize (withReturns before) + 1 = byteSize (withReturns before ++ ['\r']) := by
      rw [byteSize_append]
      rfl
    rw [if_pos rfl, size, LineTable.position_append cut', behind_return]
  · have cut' : (addReturns source).toList = withReturns before ++ withReturns (c :: after) := by
      rw [toList_addReturns, cut, withReturns_append]
    rw [if_neg newline, Nat.add_zero, Nat.add_zero, LineTable.position_append cut',
      behind_withReturns]

/-- Where a symbol ends. -/
theorem position_ends {offset offset' : Nat}
    (ends : (TextAlignment.returns significant source.toList).ends offset offset') :
    ∃ before after, source.toList = before ++ after
      ∧ (LineTable.ofText source).position offset = .behind before
      ∧ (LineTable.ofText (addReturns source)).position offset' = .behind before := by
  obtain ⟨before, after, cut, rfl, rfl⟩ := ends
  have cut' : (addReturns source).toList = withReturns before ++ withReturns after := by
    rw [toList_addReturns, cut, withReturns_append]
  refine ⟨before, after, cut, LineTable.position_append cut, ?_⟩
  rw [LineTable.position_append cut', behind_withReturns]

/-- What ends on the line of a newline does not end behind that newline. -/
theorem column_le_of_newline {before after upto beyond : List Char}
    (cut : before ++ '\n' :: after = upto ++ beyond)
    (same : (Position.behind upto).line = (Position.behind before).line) :
    (Position.behind upto).column ≤ (Position.behind before).column := by
  rcases List.append_eq_append_iff.mp cut with ⟨more, rfl, split⟩ | ⟨more, rfl, split⟩
  · cases more with
    | nil => rw [List.append_nil]
    | cons c more =>
      -- The newline would have been passed.
      cases split
      unfold Position.behind at same
      rw [List.count_append, List.count_cons_self] at same
      simp only at same
      omega
  · exact column_behind_le same.symm

/-- **The location of a span is the same, except that a newline begins one column later.** -/
theorem locate_returns {span span' : Span} (file : String)
    (spans : (TextAlignment.returns significant source.toList).Spans span span') :
    ∃ column, (column = ((Site.range span).locate file (.ofText source)).column
        ∨ significant '\n' ∧ column = ((Site.range span).locate file (.ofText source)).column + 1)
      ∧ (Site.range span').locate file (.ofText (addReturns source))
        = { (Site.range span).locate file (.ofText source) with column } := by
  obtain ⟨before, c, after, cut, symbolic, first, first'⟩ := position_begins spans.begins
  obtain ⟨upto, beyond, cut', last, last'⟩ := position_ends spans.ends
  by_cases newline : c = '\n'
  · subst newline
    -- The span ends on a later line, or it is not behind the newline.
    have width : max (if (Position.behind upto).line = (Position.behind before).line then
          (Position.behind upto).column - ((Position.behind before).column + 1) else 1) 1
        = max (if (Position.behind upto).line = (Position.behind before).line then
          (Position.behind upto).column - (Position.behind before).column else 1) 1 := by
      split
      · next same =>
        have le := column_le_of_newline (cut.symm.trans cut') same
        omega
      · rfl
    refine ⟨(Position.behind before).column + 1, .inr ⟨symbolic, ?_⟩, ?_⟩
    · unfold Site.locate
      simp only [first]
    · unfold Site.locate
      simp only [first, first', last, last', text_addReturns, if_true, width]
  · refine ⟨(Position.behind before).column, .inl ?_, ?_⟩
    · unfold Site.locate
      simp only [first]
    · unfold Site.locate
      simp only [first, first', last, last', text_addReturns, newline, if_false, Nat.add_zero]

end

end Esolang.Source
