/-
  Esolang.Proofs.Diagnostic.Underline
  ───────────────────────────────────
  **WHAT IS UNDERLINED IS THE SPAN.**

  A span counts bytes, a location counts characters, and a rendering puts carets under
  columns.  On the way nothing shifts: the characters that a location underlines are those
  of the span, and the carets stand below them, however many bytes the characters before
  them take, how many digits the line number has, and wherever tabs stand.

    • `trimReturns_append` — returns are taken off the end of a line and nowhere else,
    • `underlined_locate` — the location of a span underlines the text of the span,
    • `framed` — the source line of a rendering and the carets below it,
    • `aboveCarets_render` — above the carets stands the text of the span,
    • `underlined_is_span` — columns of a location, and carets below them.
-/
import Esolang.Proofs.Diagnostic.Layout
import Esolang.Proofs.Source.Recovery

/-! ## §1. Ends of lines. -/

namespace Esolang.Source

/-- Behind the first characters without a newline stands the end of a line. -/
theorem lineEnd_dropWhile (text : List Char) : LineEnd (text.dropWhile (· != '\n')) := by
  induction text with
  | nil => exact .inl rfl
  | cons c cs ih =>
    by_cases newline : c = '\n'
    · subst newline
      exact .inr ⟨cs, rfl⟩
    · rw [List.dropWhile_cons_of_pos (by simpa using newline)]
      exact ih

/-- Nothing but returns stands before the end of the line just when nothing is left of the
line without them. -/
theorem endsLine_iff (after : List Char) :
    endsLine after = true ↔ trimReturns (after.takeWhile (· != '\n')) = [] := by
  have one : '\n' ∉ after.takeWhile (· != '\n') := by
    intro mem
    simpa using List.mem_takeWhile_imp mem
  have ends := endsLine_append one (lineEnd_dropWhile after)
  rwa [List.takeWhile_append_dropWhile] at ends

/-- **Returns are taken off the end of a line and nowhere else.** -/
theorem trimReturns_append {kept : List Char} (rest : List Char)
    (visible : kept.getLast? = some '\r' → trimReturns rest ≠ []) :
    trimReturns (kept ++ rest) = kept ++ trimReturns rest := by
  have trimmed (line : List Char) :
      trimReturns line = (line.reverse.dropWhile (· == '\r')).reverse := rfl
  rw [trimmed (kept ++ rest), List.reverse_append, List.dropWhile_append]
  by_cases nothing : trimReturns rest = []
  · have dropped : rest.reverse.dropWhile (· == '\r') = [] := by
      simpa [trimmed] using nothing
    -- The last character that is kept is no return.
    have stops : kept.reverse.dropWhile (· == '\r') = kept.reverse := by
      cases backwards : kept.reverse with
      | nil => rfl
      | cons c cs =>
        have last : kept.getLast? = some c := by
          rw [← List.head?_reverse, backwards]
          rfl
        have other : c ≠ '\r' := by
          intro isReturn
          exact visible (isReturn ▸ last) nothing
        exact List.dropWhile_cons_of_neg (by simpa using other)
    rw [dropped, List.isEmpty_nil, if_pos rfl, stops, nothing]
    simp
  · have left : rest.reverse.dropWhile (· == '\r') ≠ [] := by
      simpa [trimmed] using nothing
    rw [if_neg (by simpa using left)]
    simp [trimmed]

end Esolang.Source

namespace Esolang.Diagnostic

open Esolang.Source (Span byteSize endsLine endsLine_iff lastLine lastLine_append_of_not_mem lines
  LineTable Position takeWhile_of_not_mem trimReturns trimReturns_append getElem?_lines
  not_mem_of_mem_lines)

/-! ## §2. From a span to a location. -/

/-- What a line shows has no newline. -/
theorem without_lineText (source : String) (line : Nat) :
    Without '\n' ((LineTable.ofText source).text line) := by
  cases line with
  | zero => exact List.not_mem_nil
  | succ i =>
    cases row : (lines source.toList)[i]? with
    | none =>
      have missing := LineTable.getElem?_entries source i
      rw [row, Option.map_none] at missing
      unfold LineTable.text
      rw [if_neg (Nat.succ_ne_zero i), Nat.add_sub_cancel, missing]
      decide
    | some chars =>
      have one : '\n' ∉ chars := not_mem_of_mem_lines (List.mem_of_getElem? row)
      rw [LineTable.text_succ row]
      unfold Without
      rw [String.toList_ofList]
      intro member
      exact one ((List.rdropWhile_prefix _ _).subset member)

/-- `marked` is a stretch of one line of the source, behind `before`, which ends before the
returns and the newline at the end of the line. -/
structure OnLine (source : String) (before marked after : List Char) : Prop where
  /-- Where it stands in the source. -/
  cut : source.toList = before ++ marked ++ after
  /-- It has at least one character. -/
  ne_nil : marked ≠ []
  /-- It goes over no end of a line. -/
  one : '\n' ∉ marked
  /-- If a return is its last character, more than returns stands behind it on the line. -/
  visible : marked.getLast? = some '\r' → endsLine after = false

/-- The bytes of a stretch of text. -/
def spanOf (before marked : List Char) : Span :=
  ⟨byteSize before, byteSize (before ++ marked)⟩

/-- The characters of a location's line that are underlined. -/
def Location.underlined (loc : Location) : List Char :=
  (loc.text.toList.drop (loc.column - 1)).take loc.width

/-- The location of a span on one line. -/
theorem locate_range (file : String) {source : String} {before marked after : List Char}
    (stretch : OnLine source before marked after) :
    (Site.range (spanOf before marked)).locate file (LineTable.ofText source)
      = ⟨file, before.count '\n' + 1, (lastLine before).length + 1,
          String.ofList (lastLine before ++ marked
            ++ trimReturns (after.takeWhile (· != '\n'))), marked.length⟩ := by
  obtain ⟨cut, some_marked, one, visible⟩ := stretch
  have first : (LineTable.ofText source).position (byteSize before) = .behind before :=
    LineTable.position_append (by rw [cut, List.append_assoc])
  have last : (LineTable.ofText source).position (byteSize (before ++ marked))
      = .behind (before ++ marked) :=
    LineTable.position_append cut
  have sameLine : (before ++ marked).count '\n' = before.count '\n' := by
    rw [List.count_append, List.count_eq_zero.mpr one, Nat.add_zero]
  have width : (lastLine (before ++ marked)).length + 1 - ((lastLine before).length + 1)
      = marked.length := by
    rw [lastLine_append_of_not_mem before one, List.length_append]
    omega
  have some_width : 0 < marked.length := List.length_pos_iff.mpr some_marked
  have text : (LineTable.ofText source).text (before.count '\n' + 1)
      = String.ofList (lastLine before ++ marked
          ++ trimReturns (after.takeWhile (· != '\n'))) := by
    have row := getElem?_lines before (marked ++ after)
    have reached : (marked ++ after).takeWhile (· != '\n')
        = marked ++ after.takeWhile (· != '\n') := by
      rw [List.takeWhile_append, takeWhile_of_not_mem one, if_pos rfl]
    rw [← List.append_assoc, ← cut, reached] at row
    rw [LineTable.text_succ row, ← List.append_assoc, trimReturns_append]
    -- What is underlined ends with a return only if more than returns follows.
    intro isReturn
    rw [List.getLast?_append_of_ne_nil _ some_marked] at isReturn
    intro ends
    rw [(endsLine_iff after).mpr ends] at visible
    cases visible isReturn
  unfold Site.locate spanOf
  simp only [first, last, Position.behind, sameLine, width, text, if_true]
  rw [Nat.max_eq_left some_width]

/-- **The location of a span underlines the text of the span.** -/
theorem underlined_locate (file : String) {source : String} {before marked after : List Char}
    (stretch : OnLine source before marked after) :
    ((Site.range (spanOf before marked)).locate file (LineTable.ofText source)).underlined
      = marked := by
  rw [locate_range file stretch]
  simp [Location.underlined]

/-! ## §3. From a location to a rendering. -/

/-- What the plain rendering shows of a location: behind two gutters of one length the
source line, each tab as a space, and below it the carets. -/
structure Framed (d : Diagnostic) (source carets : List Char) : Prop where
  /-- The source line is the fourth row, and the carets are the fifth. -/
  rows : (lines (d.render false).toList)[3]? = some source
    ∧ (lines (d.render false).toList)[4]? = some carets
  /-- Both gutters are equally long. -/
  gutters : (blankGutter d).length = (numberGutter d).length
  /-- Behind the number the source line shows its characters, each tab as one space. -/
  line : source = (numberGutter d).toList
    ++ d.location.text.toList.map fun c => if c = '\t' then ' ' else c
  /-- In front of the carets stands the other gutter. -/
  gutter : (blankGutter d).toList <+: carets
  /-- Carets stand in the columns that the location underlines, and nowhere else. -/
  columns : ∀ i, carets[i]? = some '^'
    ↔ (blankGutter d).length + d.location.column ≤ i + 1
      ∧ i + 1 < (blankGutter d).length + d.location.column + d.location.width

/-- **The source line and the carets below it.** -/
theorem framed (d : Diagnostic) (column : 1 ≤ d.location.column) (width : 1 ≤ d.location.width)
    (file : Without '\n' d.location.file) (message : Without '\n' d.report.message)
    (text : Without '\n' d.location.text) :
    Framed d (sourceRow d).toList (caretRow d).toList where
  rows := by
    obtain ⟨below, rows⟩ := lines_render d file message text
    rw [rows]
    exact ⟨rfl, rfl⟩
  gutters := length_blankGutter d
  line := by
    rw [sourceRow, String.toList_append, toList_untab]
  gutter := by
    rw [caretRow, String.append_assoc, String.toList_append]
    exact List.prefix_append _ _
  columns := caretRow_eq_caret_iff d column width

/-! ## §4. From a span to a rendering. -/

/-- The characters of a source line that have a caret below them. -/
def aboveCarets (source carets : List Char) : List Char :=
  ((source.zip carets).filter fun column => column.2 == '^').map Prod.fst

/-- Columns on the left are looked at by themselves. -/
theorem aboveCarets_append {front blank : List Char} (length : front.length = blank.length)
    (source carets : List Char) :
    aboveCarets (front ++ source) (blank ++ carets)
      = aboveCarets front blank ++ aboveCarets source carets := by
  simp [aboveCarets, List.zip_append length]

/-- Where no carets stand, nothing is above them. -/
theorem aboveCarets_of_not_mem (front : List Char) {blank : List Char} (missing : '^' ∉ blank) :
    aboveCarets front blank = [] := by
  unfold aboveCarets
  rw [List.map_eq_nil_iff, List.filter_eq_nil_iff]
  intro column member isCaret
  have below : column.2 ∈ blank := (List.of_mem_zip member).2
  rw [beq_iff_eq.mp isCaret] at below
  exact missing below

/-- As many characters as there are carets stand above them. -/
theorem aboveCarets_replicate (marked rest : List Char) :
    aboveCarets (marked ++ rest) (List.replicate marked.length '^') = marked := by
  induction marked with
  | nil => simp [aboveCarets]
  | cons c marked ih =>
    show c :: aboveCarets (marked ++ rest) (List.replicate marked.length '^') = c :: marked
    rw [ih]

/-- **The carets stand below the text of the span**, each tab of it shown as a space. -/
theorem aboveCarets_render (file : String) {source : String} (report : Report)
    {before marked after : List Char} (stretch : OnLine source before marked after)
    (oneFile : Without '\n' file) (oneMessage : Without '\n' report.message) :
    let d := Finding.locate file source ⟨report, .range (spanOf before marked)⟩
    let rows := lines (d.render false).toList
    ∃ above below, rows[3]? = some above ∧ rows[4]? = some below
      ∧ aboveCarets above below = marked.map fun c => if c = '\t' then ' ' else c := by
  intro d rows
  let start := lastLine before
  let rest := trimReturns (after.takeWhile (· != '\n'))
  have located : d.location = ⟨file, before.count '\n' + 1, start.length + 1,
      String.ofList (start ++ marked ++ rest), marked.length⟩ :=
    locate_range file stretch
  obtain ⟨below, rendered⟩ := lines_render d oneFile oneMessage (without_lineText source _)
  refine ⟨(sourceRow d).toList, (caretRow d).toList, ?_, ?_, ?_⟩
  · show (lines (d.render false).toList)[3]? = _
    rw [rendered]
    rfl
  · show (lines (d.render false).toList)[4]? = _
    rw [rendered]
    rfl
  -- Three stretches on both rows: the gutters, what stands before the span, and the span.
  let shown := List.map fun c => if c = '\t' then ' ' else c
  have source_eq : (sourceRow d).toList
      = (numberGutter d).toList ++ (shown start ++ (shown marked ++ shown rest)) := by
    rw [sourceRow, String.toList_append, toList_untab, located]
    simp [shown]
  have some_width : 1 ≤ marked.length := List.length_pos_iff.mpr stretch.ne_nil
  have carets_eq : (caretRow d).toList
      = (blankGutter d).toList
        ++ (List.replicate start.length ' ' ++ List.replicate (shown marked).length '^') := by
    unfold caretRow
    rw [located]
    simp [times, shown, Nat.max_eq_left some_width]
  have gutters : (numberGutter d).toList.length = (blankGutter d).toList.length := by
    rw [String.length_toList, String.length_toList, length_blankGutter]
  have noCaret : '^' ∉ (blankGutter d).toList := by
    show Without '^' _
    simp +decide [blankGutter, blanks]
  rw [source_eq, carets_eq, aboveCarets_append gutters, aboveCarets_of_not_mem _ noCaret,
    aboveCarets_append (by simp [shown]), aboveCarets_of_not_mem _ (by simp),
    aboveCarets_replicate]
  rfl

/-- **What is underlined is the span.** The location of a span on one line, which does not
reach into the returns or the newline at its end, underlines the text of the span; below
the source line of any location the carets stand under what it underlines; and so the carets
of a span stand below its text. -/
theorem underlined_is_span :
    (∀ (file source : String) (report : Report) (before marked after : List Char),
      OnLine source before marked after →
        let d := Finding.locate file source ⟨report, .range (spanOf before marked)⟩
        1 ≤ d.location.column ∧ d.location.width = marked.length
          ∧ d.location.underlined = marked)
      ∧ (∀ d : Diagnostic, 1 ≤ d.location.column → 1 ≤ d.location.width →
        Without '\n' d.location.file → Without '\n' d.report.message →
        Without '\n' d.location.text → ∃ source carets, Framed d source carets)
      ∧ ∀ (file source : String) (report : Report) (before marked after : List Char),
        OnLine source before marked after → Without '\n' file → Without '\n' report.message →
          let d := Finding.locate file source ⟨report, .range (spanOf before marked)⟩
          let rows := lines (d.render false).toList
          ∃ above below, rows[3]? = some above ∧ rows[4]? = some below
            ∧ aboveCarets above below = marked.map fun c => if c = '\t' then ' ' else c := by
  refine ⟨?_, ?_, fun file _ report _ _ _ => aboveCarets_render file report⟩
  · intro file source report before marked after stretch
    have located := locate_range file stretch
    refine ⟨?_, ?_, underlined_locate file stretch⟩
    · show 1 ≤ (Site.locate file _ _).column
      rw [located]
      exact Nat.succ_pos _
    · show (Site.locate file _ _).width = _
      rw [located]
  · intro d column width file message text
    exact ⟨_, _, framed d column width file message text⟩

/-- A stretch behind two lines, on a line with a tab, characters of three bytes and two
returns at its end. -/
theorem underlined_is_span_wide :
    let before := "a\nb\r\n\tㅤ".toList
    let marked := "→\tㅤ".toList
    let report : Report := ⟨.emptyStack, "pop from empty stack", [], none⟩
    let d := Finding.locate "<cow>" "a\nb\r\n\tㅤ→\tㅤ \r\r\n"
      ⟨report, .range (spanOf before marked)⟩
    (1 ≤ d.location.column ∧ d.location.width = marked.length ∧ d.location.underlined = marked)
      ∧ (∃ source carets, Framed d source carets)
      ∧ ∃ above below, (lines (d.render false).toList)[3]? = some above
        ∧ (lines (d.render false).toList)[4]? = some below
        ∧ aboveCarets above below = "→ ㅤ".toList := by
  intro before marked report d
  have stretch : OnLine "a\nb\r\n\tㅤ→\tㅤ \r\r\n" before marked " \r\r\n".toList :=
    ⟨by decide, by decide, by decide, by decide⟩
  obtain ⟨located, framed, above⟩ := underlined_is_span
  exact ⟨located _ _ report _ _ _ stretch,
    framed d (by decide) (by decide) (by decide) (by decide) (by decide),
    above "<cow>" _ report _ _ _ stretch (by decide) (by decide)⟩

end Esolang.Diagnostic
