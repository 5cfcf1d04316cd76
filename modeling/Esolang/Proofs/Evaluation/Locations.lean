/-
  Esolang.Proofs.Evaluation.Locations
  ───────────────────────────────────
  **EVERY DIAGNOSTIC POINTS AT A REAL PLACE.**

  A finding is sited at bytes of the source, at a cell of the grid, or at the end of the
  text.  All of these are places of the source: the line is one of its lines, and the
  column is on the line or just behind it, or on the grid.  In the three languages that
  are scanned, the place is that of the first character of an instruction: of the one
  that fails, or of the one that would have been executed next.

    • `Machine.EndsAt` — the state whose instruction a finding is about,
    • `Location.real_of_isBehind` — a place behind a beginning of the source is real,
    • `Brainfuck.FailsAt`, `Cow.FailsAt`, `Whitespace.FailsAt` — the instruction at fault,
    • `evaluate_located` — where the diagnostic of an evaluation points.
-/
import Esolang.Proofs.Befunge.Range
import Esolang.Proofs.Brainfuck.Range
import Esolang.Proofs.Cow.Spelling
import Esolang.Proofs.Evaluation.Structural
import Esolang.Proofs.Source.Positions
import Esolang.Proofs.Whitespace.Cycle

namespace Esolang

open Esolang.Diagnostic (Report Site Finding Location)
open Esolang.Machine (Settings Input Run Exhaustion)
open Esolang.Source (Span Token Position LineTable IsCharacter lines byteSize)

/-! ## §1. The state that a finding is about. -/

namespace Machine

variable {σ ι ε : Type}

/-- The finding that ends a run from `s` of so many cycles, and the state whose
instruction it is about. -/
inductive EndsAt (m : Machine σ ι ε) (report : ε → Report) (s : σ) (cycles : Nat) :
    Finding → σ → Prop where
  /-- The machine comes to its own end at an instruction that fails. -/
  | failed {n : Nat} {t : σ} {last : Run σ ε} {cause : ε} {site : Site}
      (reached : m.after? n s = some t) (stops : m.Stops t last)
      (fails : last.ending = .failed cause site) :
      EndsAt m report s cycles ⟨report cause, site⟩ t
  /-- The run is stopped before the instruction that it would have executed next. -/
  | stopped {t : σ} {instr : ι} {site : Site} (reason : Exhaustion)
      (reached : m.after? cycles s = some t) (next : m.visit? t = some (instr, site)) :
      EndsAt m report s cycles ⟨reason.report, site⟩ t

theorem endsAt_of_finding? {m : Machine σ ι ε} {b : Budget} {s : σ} {report : ε → Report}
    {finding : Finding} (fresh : b.cycles = 0)
    (h : (m.run b s).ending.finding? report = some finding) :
    ∃ t, m.EndsAt report s (m.run b s).cycles finding t := by
  rcases run_course m b s with
    ⟨_, ⟨n, t, last, ht, hlast, rfl⟩, eq⟩ | ⟨n, t, instr, site, reason, ht, hv, eq⟩
  · rw [eq, Run.ending_delay, Run.ending_delay] at h
    rcases Ending.cases_of_finding? h with ⟨cause, site, fails, rfl⟩ | ⟨reason, site, stopped, -⟩
    · exact ⟨t, .failed ht hlast fails⟩
    · cases hlast <;> cases stopped
  · rw [eq] at h
    cases h
    refine ⟨t, .stopped reason ?_ hv⟩
    rw [eq, fresh, Nat.zero_add]
    exact ht

namespace EndsAt

variable {m : Machine σ ι ε} {report : ε → Report} {s t : σ} {cycles : Nat} {finding : Finding}

theorem exists_after? (h : m.EndsAt report s cycles finding t) :
    ∃ n, m.after? n s = some t := by
  cases h with
  | failed reached => exact ⟨_, reached⟩
  | stopped reason reached => exact ⟨_, reached⟩

/-- The site is that of the instruction, or of what cannot be read as one. -/
theorem fetch (h : m.EndsAt report s cycles finding t) :
    (∃ instr, m.fetch t = .found instr finding.site)
      ∨ ∃ cause, m.fetch t = .unreadable cause finding.site := by
  cases h with
  | failed reached stops fails =>
    cases stops with
    | finished | halt => cases fails
    | unreadable hf =>
      cases fails
      exact .inr ⟨_, hf⟩
    | fault hf =>
      cases fails
      exact .inl ⟨_, hf⟩
  | stopped reason reached next => exact .inl ⟨_, visit?_eq_some.mp next⟩

end EndsAt

end Machine

/-- The program cannot be read, or its run ends, and this is the finding. -/
def FailsWith (language : Language) (source : String) (settings : Settings)
    (finding : Finding) : Prop :=
  Engine.load language source settings.input settings.draws = .error finding
    ∨ ∃ e t, Engine.load language source settings.input settings.draws = .ok e
      ∧ e.machine.EndsAt e.report e.start (e.run settings).cycles finding t

/-- An evaluation fails when its program is read, or when it is run. -/
theorem exists_finding {language : Language} {source : String} {settings : Settings}
    {d : Diagnostic} (failed : evaluate language source settings = .error d) :
    ∃ finding : Finding, d = finding.locate (fileName language settings) source
      ∧ FailsWith language source settings finding := by
  unfold FailsWith
  cases loaded : Engine.load language source settings.input settings.draws with
  | error finding =>
    rw [evaluate_of_load_error loaded] at failed
    cases failed
    exact ⟨finding, rfl, .inl rfl⟩
  | ok e =>
    rw [evaluate_of_load_ok loaded] at failed
    cases out : e.outcome (e.run settings) with
    | ok evaluation =>
      rw [out] at failed
      cases failed
    | error finding =>
      rw [out] at failed
      cases failed
      obtain ⟨t, ends⟩ := Machine.endsAt_of_finding? rfl (Engine.finding_of_outcome out)
      exact ⟨finding, rfl, .inr ⟨e, t, rfl, ends⟩⟩

/-- **What is stopped from outside is stopped before its next instruction.** -/
theorem FailsWith.siteAfter? {language : Language} {source : String} {settings : Settings}
    {finding : Finding} (fails : FailsWith language source settings finding)
    (exhausted : finding.report.kind.category = .resourceExhaustion) :
    Esolang.siteAfter? language source settings (cyclesOf language source settings)
      = some finding.site := by
  rcases fails with refused | ⟨e, t, loaded, ends⟩
  · rw [Engine.category_of_load refused] at exhausted
    cases exhausted
  · cases ends with
    | failed => exact absurd exhausted (e.category_report _)
    | stopped reason reached next =>
      unfold Esolang.siteAfter? cyclesOf
      simp only [loaded]
      exact Engine.siteAfter?_eq_some reached next

/-! ## §2. Real places. -/

namespace Diagnostic

/-- The location is on a line of the source, and shows it. -/
structure Location.Real (source : String) (l : Location) : Prop where
  line_pos : 1 ≤ l.line
  line_le : l.line ≤ 1 + source.toList.count '\n'
  text : l.text = (LineTable.ofText source).text l.line
  width_pos : 1 ≤ l.width
  column_pos : 1 ≤ l.column

/-- The location is just behind this beginning of the source. -/
def Location.IsBehind (before : List Char) (l : Location) : Prop :=
  (⟨l.line, l.column⟩ : Position) = .behind before

theorem Site.text_locate (file : String) (table : LineTable) (site : Site) :
    (site.locate file table).text = table.text (site.locate file table).line := by
  cases site <;> rfl

theorem Site.width_locate_pos (file : String) (table : LineTable) (site : Site) :
    1 ≤ (site.locate file table).width := by
  cases site with
  | range span => exact Nat.le_max_right _ _
  | point line column => exact Nat.le_refl 1
  | finish => exact Nat.le_refl 1

section
variable {source : String} {before after : List Char} {file : String} {site : Site}

theorem Site.isBehind_range {span : Span} (cut : source.toList = before ++ after)
    (start : span.start = byteSize before) :
    ((Site.range span).locate file (LineTable.ofText source)).IsBehind before := by
  have place := LineTable.position_append cut
  rw [← start] at place
  exact place

theorem Site.isBehind_finish :
    (Site.finish.locate file (LineTable.ofText source)).IsBehind source.toList :=
  LineTable.endPosition_ofText source

/-- **A place behind a beginning of the source is real**, and on its line or just behind
it. -/
theorem Site.real_of_isBehind (cut : source.toList = before ++ after)
    (behind : (site.locate file (LineTable.ofText source)).IsBehind before) :
    (site.locate file (LineTable.ofText source)).Real source
      ∧ ∃ line, (lines source.toList)[(site.locate file (LineTable.ofText source)).line - 1]?
            = some line
          ∧ (site.locate file (LineTable.ofText source)).column - 1 ≤ line.length := by
  have line : (site.locate file (LineTable.ofText source)).line = before.count '\n' + 1 :=
    congrArg Position.line behind
  have column : (site.locate file (LineTable.ofText source)).column
      = (Source.lastLine before).length + 1 := congrArg Position.column behind
  refine ⟨⟨by omega, ?_, Site.text_locate _ _ site, Site.width_locate_pos _ _ site, by omega⟩, ?_⟩
  · rw [line, cut, List.count_append]
    omega
  · rw [line, column]
    exact Source.exists_line_behind cut

end

end Diagnostic

/-! ## §3. Brainfuck. -/

namespace Brainfuck

/-- The instruction of a text, told by its number, that an evaluation fails at, and what
is reported of it. -/
inductive FailsAt (source : String) (settings : Settings) (report : Report) (k : Nat) :
    Prop where
  /-- The program cannot be read, for this loop instruction has no partner. -/
  | unpaired {fault : Loop.PairingFault} (unpairable : pair (scan source) = .error fault)
      (words : report = Brainfuck.unpaired fault) (number : k = fault.index)
  | running {program : Program} {site : Site} {t : State} (parsed : parse source = .ok program)
      (ends : (machine program).EndsAt stalled (.initial settings.input)
        (program.run settings).cycles ⟨report, site⟩ t)
      (number : k = t.index)

theorem Instr.char_of_bracket? {c : Char} {instr : Instr} {b : Loop.Bracket}
    (meaning : ofChar? c = some instr) (bracket : instr.bracket? = some b) :
    c = match b with
      | .opening => '['
      | .closing => ']' := by
  unfold ofChar? at meaning
  split at meaning <;> cases meaning <;> cases bracket <;> rfl

/-- Only the end of a loop fails. -/
theorem execute_eq_fault {program : Program} {instr : Instr} {s : State} {stall : Loop.Stall}
    (h : execute program instr s = .fault stall) : instr = .loopClose := by
  cases instr <;> first | rfl | cases h

section
variable {source : String} {finding : Finding} (file : String)

/-- An instruction of a text stands at its character. -/
theorem exists_character {k : Nat} {instr : Instr} {span : Span}
    (found : (scan source)[k]? = some ⟨instr, span⟩) :
    ∃ before c, IsCharacter Instr.ofChar? source.toList before c k
      ∧ Instr.ofChar? c = some instr
      ∧ ((Site.range span).locate file (LineTable.ofText source)).IsBehind before := by
  obtain ⟨before, c, character, meaning, place⟩ := Source.character_of_getElem?_tokens found
  obtain ⟨after, cut⟩ := character.split
  exact ⟨before, c, character, meaning, Site.isBehind_range cut (congrArg Span.start place)⟩

/-- **A text that is refused is refused at a loop instruction**: at an end that is too
many, or at a beginning. -/
theorem located_of_parse (settings : Settings) (refused : parse source = .error finding) :
    ∃ k before c, FailsAt source settings finding.report k
      ∧ IsCharacter Instr.ofChar? source.toList before c k
      ∧ (finding.site.locate file (LineTable.ofText source)).IsBehind before
      ∧ (finding.report.kind = .mismatchedBracket → c = ']')
      ∧ (finding.report.kind = .trailingBracket → c = '[')
      ∧ finding.report.kind ≠ .infiniteLoop := by
  cases paired : pair (scan source) with
  | ok loops =>
    unfold parse at refused
    simp only [paired] at refused
    cases refused
  | error fault =>
    obtain ⟨⟨instr, span⟩, here, bracket, eq⟩ := parse_of_pair_eq_error paired
    rw [eq] at refused
    cases refused
    obtain ⟨before, c, character, meaning, behind⟩ := exists_character file here
    have char := Instr.char_of_bracket? meaning bracket
    refine ⟨fault.index, before, c, .unpaired paired rfl rfl, character, behind, ?_⟩
    cases fault with
    | unmatchedClose i => exact ⟨fun _ => char, nofun, nofun⟩
    | unclosedOpen i => exact ⟨nofun, fun _ => char, nofun⟩

/-- **A run fails at an instruction of the text**, and a loop that is stalled at its end. -/
theorem located_of_endsAt {settings : Settings} {program : Program} {t : State}
    (parsed : parse source = .ok program)
    (ends : (machine program).EndsAt stalled (.initial settings.input)
      (program.run settings).cycles finding t) :
    ∃ k before c, FailsAt source settings finding.report k
      ∧ IsCharacter Instr.ofChar? source.toList before c k
      ∧ (finding.site.locate file (LineTable.ofText source)).IsBehind before
      ∧ (finding.report.kind = .infiniteLoop → c = ']')
      ∧ finding.report.kind ≠ .mismatchedBracket ∧ finding.report.kind ≠ .trailingBracket := by
  have code := (eq_of_parse parsed).2
  have scanned {instr : Instr} (fetched : (machine program).fetch t = .found instr finding.site) :
      ∃ span, (scan source)[t.index]? = some ⟨instr, span⟩ ∧ finding.site = .range span := by
    obtain ⟨span, here, site⟩ := fetch_eq_found fetched
    rw [code, List.getElem?_toArray] at here
    exact ⟨span, here, site⟩
  -- No instruction of a program that was read is unreadable, so the run fails at one.
  obtain ⟨instr, fetched⟩ : ∃ instr, (machine program).fetch t = .found instr finding.site := by
    rcases ends.fetch with found | ⟨cause, unreadable⟩
    · exact found
    · simp only [machine] at unreadable
      split at unreadable <;> cases unreadable
  obtain ⟨span, here, site⟩ := scanned fetched
  obtain ⟨before, c, character, meaning, behind⟩ := exists_character file here
  rw [site]
  refine ⟨t.index, before, c, .running parsed ends rfl, character, behind, ?_⟩
  cases ends with
  | failed reached stops fails =>
    refine ⟨fun _ => ?_, by rintro ⟨⟩, by rintro ⟨⟩⟩
    cases stops with
    | finished | halt => cases fails
    | unreadable hf =>
      rw [fetched] at hf
      cases hf
    | fault hf hx =>
      rw [fetched] at hf
      cases hf
      have closing := execute_eq_fault hx
      subst closing
      exact Instr.char_of_bracket? meaning rfl
  | stopped reason =>
    cases reason <;> exact ⟨by rintro ⟨⟩, by rintro ⟨⟩, by rintro ⟨⟩⟩

end

end Brainfuck

/-! ## §4. COW. -/

/-- What is made of a list is made of its elements, in order. -/
theorem getElem?_of_mapM_eq_ok {α β ε : Type} {f : α → Except ε β} {xs : List α} :
    ∀ {ys : List β} {i : Nat} {y : β}, xs.mapM f = .ok ys → ys[i]? = some y →
      ∃ x, xs[i]? = some x ∧ f x = .ok y := by
  induction xs with
  | nil =>
    intro ys i y h found
    rw [List.mapM_nil] at h
    cases h
    cases found
  | cons x xs ih =>
    intro ys i y h found
    rw [List.mapM_cons] at h
    cases hx : f x with
    | error e =>
      rw [hx] at h
      cases h
    | ok z =>
      cases hxs : xs.mapM f with
      | error e =>
        rw [hx, hxs] at h
        cases h
      | ok zs =>
        rw [hx, hxs] at h
        cases h
        cases i with
        | zero =>
          cases found
          exact ⟨x, rfl, hx⟩
        | succ i => exact ih hxs found

/-- What goes wrong for a list goes wrong for the first of its elements that it can go wrong
for. -/
theorem exists_first_of_mapM_eq_error {α β ε : Type} {f : α → Except ε β} {cause : ε}
    {xs : List α} :
    xs.mapM f = .error cause → ∃ (i : Nat) (x : α), xs[i]? = some x ∧ f x = .error cause
      ∧ ∀ k < i, ∀ x', xs[k]? = some x' → ∃ y, f x' = .ok y := by
  induction xs with
  | nil =>
    intro h
    rw [List.mapM_nil] at h
    cases h
  | cons x xs ih =>
    intro h
    rw [List.mapM_cons] at h
    cases hx : f x with
    | error e =>
      rw [hx] at h
      cases h
      exact ⟨0, x, rfl, hx, fun k lt => absurd lt (Nat.not_lt_zero k)⟩
    | ok y =>
      rw [hx] at h
      cases hxs : xs.mapM f with
      | ok ys =>
        rw [hxs] at h
        cases h
      | error e =>
        rw [hxs] at h
        cases h
        obtain ⟨i, x', here, wrong, before⟩ := ih hxs
        refine ⟨i + 1, x', here, wrong, fun k lt x'' found => ?_⟩
        cases k with
        | zero =>
          cases found
          exact ⟨y, hx⟩
        | succ k => exact before k (by omega) x'' found

namespace Cow

/-- The command of a text, told by the number of its triplet, that an evaluation fails at,
and what is reported of it. -/
inductive FailsAt (source : String) (settings : Settings) (report : Report) (k : Nat) :
    Prop where
  /-- The letters behind the last triplet are no command. -/
  | incomplete {rest : Token String} (left : (split (scan source)).rest = some rest)
      (words : report = (Malformation.incomplete rest.symbol (scan source).length).report)
      (number : k = (split (scan source)).triplets.length)
  /-- This is the first triplet that is no command. -/
  | unknown {triplet : Token String} (whole : (split (scan source)).rest = none)
      (here : (split (scan source)).triplets[k]? = some triplet)
      (none : Opcode.ofTriplet? triplet.symbol = none)
      (before : ∀ i < k, ∀ earlier, (split (scan source)).triplets[i]? = some earlier →
        (Opcode.ofTriplet? earlier.symbol).isSome)
      (words : report = (Malformation.unknown triplet.symbol).report)
  /-- This loop command has no partner. -/
  | unpaired {code : List (Token Opcode)} {fault : Loop.PairingFault}
      (whole : (split (scan source)).rest = none)
      (read : (split (scan source)).triplets.mapM command = .ok code)
      (unpairable : pair code = .error fault)
      (words : report = (Malformation.unpaired fault).report) (number : k = fault.index)
  | running {program : Program} {site : Site} {t : State} (parsed : parse source = .ok program)
      (ends : (machine program).EndsAt Fault.report (.initial program settings.input)
        (program.run settings).cycles ⟨report, site⟩ t)
      (number : k = t.index)

theorem command_eq_ok {triplet : Token String} {token : Token Opcode}
    (h : command triplet = .ok token) :
    (Opcode.ofTriplet? triplet.symbol).isSome ∧ token.span = triplet.span := by
  unfold command at h
  split at h
  · next found =>
    cases h
    exact ⟨by rw [found]; rfl, rfl⟩
  · cases h

theorem command_eq_error {triplet : Token String} {finding : Finding}
    (h : command triplet = .error finding) :
    Opcode.ofTriplet? triplet.symbol = none
      ∧ finding = ⟨(Malformation.unknown triplet.symbol).report, .range triplet.span⟩ := by
  unfold command at h
  split at h
  · cases h
  · next none =>
    cases h
    exact ⟨none, rfl⟩

section
variable {source : String} {finding : Finding} (file : String)

/-- A site that begins with a letter of the text stands at its character. -/
theorem exists_character {k : Nat} {letter : Token Char} {span : Span}
    (found : (scan source)[k]? = some letter) (start : span.start = letter.span.start) :
    ∃ before c, IsCharacter letter? source.toList before c k
      ∧ ((Site.range span).locate file (LineTable.ofText source)).IsBehind before := by
  obtain ⟨before, c, character, -, place⟩ := Source.character_of_getElem?_tokens found
  obtain ⟨after, cut⟩ := character.split
  exact ⟨before, c, character, Site.isBehind_range cut (start.trans (congrArg Span.start place))⟩

/-- A command that was read stands at the first letter of its triplet. -/
theorem exists_first_letter {code : List (Token Opcode)}
    (read : (split (scan source)).triplets.mapM command = .ok code) {i : Nat}
    {token : Token Opcode} (found : code[i]? = some token) :
    ∃ before c, IsCharacter letter? source.toList before c (3 * i)
      ∧ ((Site.range token.span).locate file (LineTable.ofText source)).IsBehind before := by
  obtain ⟨triplet, here, command⟩ := getElem?_of_mapM_eq_ok read found
  obtain ⟨letter, _, first, -, span⟩ := span_of_triplet here
  refine exists_character file first ?_
  rw [(command_eq_ok command).2, span]

/-- **A text that is refused is refused at a triplet**, or at what is left behind the last. -/
theorem located_of_parse (settings : Settings) (refused : parse source = .error finding) :
    ∃ k before c, FailsAt source settings finding.report k
      ∧ IsCharacter letter? source.toList before c (3 * k)
      ∧ (finding.site.locate file (LineTable.ofText source)).IsBehind before := by
  cases rest : (split (scan source)).rest with
  | some token =>
    unfold parse at refused
    simp only [rest] at refused
    cases refused
    obtain ⟨-, letter, _, first, -, span⟩ := rest_of_split rest
    have start : token.span.start = letter.span.start := by rw [span]
    obtain ⟨before, c, character, behind⟩ := exists_character file first start
    exact ⟨_, before, c, .incomplete rest rfl rfl, character, behind⟩
  | none =>
    cases read : (split (scan source)).triplets.mapM command with
    | error unknown =>
      unfold parse at refused
      simp only [rest, read] at refused
      cases refused
      obtain ⟨i, triplet, here, wrong, before⟩ := exists_first_of_mapM_eq_error read
      obtain ⟨none, rfl⟩ := command_eq_error wrong
      obtain ⟨letter, _, first, -, span⟩ := span_of_triplet here
      have start : triplet.span.start = letter.span.start := by rw [span]
      obtain ⟨before', c, character, behind⟩ := exists_character file first start
      refine ⟨i, before', c, .unknown rest here none ?_ rfl, character, behind⟩
      intro k lt earlier found
      obtain ⟨token, command⟩ := before k lt earlier found
      exact (command_eq_ok command).1
    | ok code =>
      cases paired : pair code with
      | ok loops =>
        unfold parse at refused
        simp only [rest, read, paired] at refused
        cases refused
      | error fault =>
        obtain ⟨token, here, -, eq⟩ := parse_of_pair_eq_error rest read paired
        rw [eq] at refused
        cases refused
        obtain ⟨before, c, character, behind⟩ := exists_first_letter file read here
        exact ⟨fault.index, before, c, .unpaired rest read paired rfl rfl, character, behind⟩

/-- **A run fails at a triplet of the text**, whatever `mOO` has made of it. -/
theorem located_of_endsAt {settings : Settings} {program : Program} {t : State}
    (parsed : parse source = .ok program)
    (ends : (machine program).EndsAt Fault.report (.initial program settings.input)
      (program.run settings).cycles finding t) :
    ∃ k before c, FailsAt source settings finding.report k
      ∧ IsCharacter letter? source.toList before c (3 * k)
      ∧ (finding.site.locate file (LineTable.ofText source)).IsBehind before := by
  obtain ⟨op, fetched⟩ : ∃ op, (machine program).fetch t = .found op finding.site := by
    rcases ends.fetch with found | ⟨cause, unreadable⟩
    · exact found
    · simp only [machine] at unreadable
      split at unreadable <;> cases unreadable
  obtain ⟨span, here, site⟩ := fetch_eq_found fetched
  -- `mOO` may have put another command here, but with the span of the one that was read.
  obtain ⟨n, reached⟩ := ends.exists_after?
  obtain ⟨written, there, -⟩ := (confined_of_after? (paired_of_parse parsed) reached).parsed here
  rw [← Array.getElem?_toList] at there
  obtain ⟨before, c, character, behind⟩ :=
    exists_first_letter file (commands_of_parse parsed) there
  rw [site]
  exact ⟨t.index, before, c, .running parsed ends rfl, character, behind⟩

end

end Cow

/-! ## §5. Whitespace. -/

namespace Whitespace

/-- The command of a text, told by the number of its first symbol, that an evaluation
fails at, and what is reported of it. -/
inductive FailsAt (source : String) (settings : Settings) (report : Report) (k : Nat) :
    Prop where
  | running {site : Site} {t : State}
      (ends : machine.EndsAt Fault.report ⟨.initial, scan source⟩
        (runSource source settings).cycles ⟨report, site⟩ t)
      (left : t.symbols = (scan source).drop k) (some_left : k < (scan source).length)

/-- **A run fails at a symbol of the text**, where a command begins. -/
theorem located_of_endsAt {source : String} {settings : Settings} (file : String)
    {finding : Finding} {t : State}
    (ends : machine.EndsAt Fault.report ⟨.initial, scan source⟩
      (runSource source settings).cycles finding t) :
    ∃ k before c, FailsAt source settings finding.report k
      ∧ IsCharacter Symbol.ofChar? source.toList before c k
      ∧ (finding.site.locate file (LineTable.ofText source)).IsBehind before := by
  obtain ⟨item, read, site⟩ : ∃ item, next? t.symbols = some item
      ∧ finding.site = .range item.span := by
    rcases ends.fetch with ⟨decoded, found⟩ | ⟨cause, unreadable⟩
    · obtain ⟨item, read, site, -⟩ := fetch_eq_found found
      exact ⟨item, read, site⟩
    · exact fetch_eq_unreadable unreadable
  obtain ⟨n, reached⟩ := ends.exists_after?
  have suffix := suffix_of_after? reached
  -- The command at fault begins with the first symbol that is not yet done.
  obtain ⟨first, others, written, start⟩ := next?_eq_some (inOrder_of_suffix suffix) read
  obtain ⟨done, split⟩ := suffix
  rw [written] at split
  have here : (scan source)[done.length]? = some first := by
    rw [← split, List.getElem?_append_right (Nat.le_refl _), Nat.sub_self]
    rfl
  have left : t.symbols = (scan source).drop done.length := by
    rw [← split, List.drop_left, written]
  have some_left : done.length < (scan source).length := (List.getElem?_eq_some_iff.mp here).1
  obtain ⟨before, c, character, -, place⟩ := Source.character_of_getElem?_tokens here
  obtain ⟨after, cut⟩ := character.split
  rw [site]
  exact ⟨done.length, before, c, .running ends left some_left, character,
    Site.isBehind_range cut (start.trans (congrArg Span.start place))⟩

end Whitespace

/-! ## §6. Befunge. -/

namespace Befunge

/-- **A run fails at a cell of the grid**, on the line of its row. -/
theorem located_of_endsAt {draws : Draws} {source : String} {input : Input} {cycles : Nat}
    (file : String) {finding : Finding} {t : State}
    (ends : (machine draws none).EndsAt Fault.report (.initial source input) cycles finding t) :
    (finding.site.locate file (LineTable.ofText source)).Real source
      ∧ (finding.site.locate file (LineTable.ofText source)).column - 1
          < (Grid.ofSource source).width := by
  have site : finding.site = t.site := by
    rcases ends.fetch with ⟨symbol, found⟩ | ⟨cause, unreadable⟩
    · exact (Machine.Fetch.found.inj found).2.symm
    · cases unreadable
  obtain ⟨n, reached⟩ := ends.exists_after?
  have here := ((inRange source).state draws none input n t reached).grid
  -- The grid has a row for every line, so a row of the pointer is a line of the source.
  have rows : (Grid.ofSource source).height = source.toList.count '\n' + 1 := by
    rw [Grid.height_ofSource, Source.length_lines]
  have x_lt := here.pointer.x_lt
  have y_lt := here.pointer.y_lt
  rw [here.width] at x_lt
  rw [here.height, rows] at y_lt
  rw [site]
  refine ⟨⟨Nat.le_add_left 1 _, ?_, rfl, Nat.le_refl 1, Nat.le_add_left 1 _⟩, x_lt⟩
  show t.pointer.y + 1 ≤ _
  omega

end Befunge

/-! ## §7. All languages. -/

/-- The diagnostic points at the first character of the instruction at fault.  In Brainfuck
it points at the very bracket that is at fault.  Befunge has no instructions but those that
its pointer meets, and nothing is said of it. -/
def PointsAtFault (language : Language) (source : String) (settings : Settings)
    (d : Diagnostic) : Prop :=
  match language with
  | .brainfuck => ∃ k before c, Brainfuck.FailsAt source settings d.report k
      ∧ IsCharacter Brainfuck.Instr.ofChar? source.toList before c k
      ∧ d.location.IsBehind before
      ∧ (d.report.kind = .mismatchedBracket ∨ d.report.kind = .infiniteLoop → c = ']')
      ∧ (d.report.kind = .trailingBracket → c = '[')
  | .cow => ∃ k before c, Cow.FailsAt source settings d.report k
      ∧ IsCharacter Cow.letter? source.toList before c (3 * k)
      ∧ d.location.IsBehind before
  | .whitespace => ∃ k before c, Whitespace.FailsAt source settings d.report k
      ∧ IsCharacter Whitespace.Symbol.ofChar? source.toList before c k
      ∧ d.location.IsBehind before
  | .befunge => True

/-- The text is a grid that is run. -/
def RunsOnGrid (language : Language) (source : String) : Prop :=
  language = .befunge ∧ Befunge.refusal? source = none

section
variable {source : String} {settings : Settings} {finding : Finding} (file : String)

theorem Brainfuck.pointsAtFault (fails : FailsWith .brainfuck source settings finding) :
    PointsAtFault .brainfuck source settings (finding.locate file source) := by
  unfold FailsWith Engine.load at fails
  cases parsed : parse source with
  | error refusal =>
    rw [parsed] at fails
    rcases fails with eq | ⟨e, t, eq, -⟩
    · cases eq
      obtain ⟨k, before, c, fault, character, behind, closing, opening, other⟩ :=
        located_of_parse file settings parsed
      exact ⟨k, before, c, fault, character, behind,
        fun kind => kind.elim closing fun kind => absurd kind other, opening⟩
    · cases eq
  | ok program =>
    rw [parsed] at fails
    rcases fails with eq | ⟨e, t, eq, ends⟩
    · cases eq
    · cases eq
      obtain ⟨k, before, c, fault, character, behind, closing, other, other'⟩ :=
        located_of_endsAt file parsed ends
      exact ⟨k, before, c, fault, character, behind,
        fun kind => kind.elim (fun kind => absurd kind other) closing,
        fun kind => absurd kind other'⟩

theorem Cow.pointsAtFault (fails : FailsWith .cow source settings finding) :
    PointsAtFault .cow source settings (finding.locate file source) := by
  unfold FailsWith Engine.load at fails
  cases parsed : parse source with
  | error refusal =>
    rw [parsed] at fails
    rcases fails with eq | ⟨e, t, eq, -⟩
    · cases eq
      exact located_of_parse file settings parsed
    · cases eq
  | ok program =>
    rw [parsed] at fails
    rcases fails with eq | ⟨e, t, eq, ends⟩
    · cases eq
    · cases eq
      exact located_of_endsAt file parsed ends

theorem Whitespace.pointsAtFault (fails : FailsWith .whitespace source settings finding) :
    PointsAtFault .whitespace source settings (finding.locate file source) := by
  rcases fails with eq | ⟨e, t, eq, ends⟩
  · cases eq
  · cases eq
    exact located_of_endsAt file ends

end

/-- Whatever an evaluation fails with, it is sited at the instruction at fault. -/
theorem FailsWith.pointsAtFault {language : Language} {source : String} {settings : Settings}
    {finding : Finding} (file : String) (fails : FailsWith language source settings finding) :
    PointsAtFault language source settings (finding.locate file source) := by
  cases language with
  | brainfuck => exact Brainfuck.pointsAtFault file fails
  | cow => exact Cow.pointsAtFault file fails
  | befunge => trivial
  | whitespace => exact Whitespace.pointsAtFault file fails

/-- The first character of an instruction stands behind a beginning of the source. -/
theorem PointsAtFault.exists_isBehind {language : Language} {source : String}
    {settings : Settings} {d : Diagnostic} (points : PointsAtFault language source settings d)
    (scanned : language ≠ .befunge) :
    ∃ before after, source.toList = before ++ after ∧ d.location.IsBehind before := by
  cases language with
  | brainfuck =>
    obtain ⟨k, before, c, -, ⟨⟨after, cut⟩, -, -⟩, behind, -⟩ := points
    exact ⟨before, c :: after, cut, behind⟩
  | cow | whitespace =>
    obtain ⟨k, before, c, -, ⟨⟨after, cut⟩, -, -⟩, behind⟩ := points
    exact ⟨before, c :: after, cut, behind⟩
  | befunge => exact absurd rfl scanned

/-- A text that is no program for the grid is refused at its end, and any other fails on
the grid. -/
theorem Befunge.real_of_failsWith {source : String} {settings : Settings} {finding : Finding}
    (file : String) (fails : FailsWith .befunge source settings finding) :
    (refusal? source = none →
        (finding.site.locate file (LineTable.ofText source)).Real source
          ∧ (finding.site.locate file (LineTable.ofText source)).column - 1
            < (Grid.ofSource source).width)
      ∧ (refusal? source ≠ none → finding.site = .finish) := by
  unfold FailsWith Engine.load at fails
  cases refused : refusal? source with
  | some refusal =>
    rw [refused] at fails
    refine ⟨nofun, fun _ => ?_⟩
    rcases fails with eq | ⟨e, t, eq, -⟩
    · cases eq
      rfl
    · cases eq
  | none =>
    rw [refused] at fails
    refine ⟨fun _ => ?_, fun ne => absurd rfl ne⟩
    rcases fails with eq | ⟨e, t, eq, ends⟩
    · cases eq
    · cases eq
      exact located_of_endsAt file ends

/-- **Every diagnostic points at a real place.** Its line is a line of the source, which it
shows, and its column is on that line or just behind it; when a grid has been run, its
column is on the grid.  In the languages that are scanned it points at the first character
of the instruction at fault, and if the evaluation was stopped from outside, it points at
the instruction that would have been executed next. -/
theorem evaluate_located {language : Language} {source : String} {settings : Settings}
    {d : Diagnostic} (failed : evaluate language source settings = .error d) :
    d.location.Real source
      ∧ (RunsOnGrid language source →
          d.location.column - 1 < (Befunge.Grid.ofSource source).width)
      ∧ (¬ RunsOnGrid language source →
          ∃ line, (lines source.toList)[d.location.line - 1]? = some line
            ∧ d.location.column - 1 ≤ line.length)
      ∧ PointsAtFault language source settings d
      ∧ (d.report.kind.category = .resourceExhaustion →
          ∃ site, siteAfter? language source settings (cyclesOf language source settings)
              = some site
            ∧ d.location
              = site.locate (fileName language settings) (LineTable.ofText source)) := by
  obtain ⟨finding, rfl, fails⟩ := exists_finding failed
  have points := fails.pointsAtFault (fileName language settings)
  have next (exhausted : finding.report.kind.category = .resourceExhaustion) :
      ∃ site, siteAfter? language source settings (cyclesOf language source settings) = some site
        ∧ (finding.locate (fileName language settings) source).location
          = site.locate (fileName language settings) (LineTable.ofText source) :=
    ⟨finding.site, fails.siteAfter? exhausted, rfl⟩
  by_cases grid : RunsOnGrid language source
  · obtain ⟨rfl, accepted⟩ := id grid
    obtain ⟨real, on_grid⟩ :=
      (Befunge.real_of_failsWith (fileName .befunge settings) fails).1 accepted
    exact ⟨real, fun _ => on_grid, fun other => absurd grid other, points, next⟩
  · -- Everywhere else the place is behind a beginning of the source, which may be all of it.
    have behind : ∃ before after, source.toList = before ++ after
        ∧ (finding.locate (fileName language settings) source).location.IsBehind before := by
      by_cases scanned : language = .befunge
      · subst scanned
        have finish := (Befunge.real_of_failsWith (fileName .befunge settings) fails).2
          fun accepted => grid ⟨rfl, accepted⟩
        refine ⟨source.toList, [], (List.append_nil _).symm, ?_⟩
        show (finding.site.locate _ _).IsBehind _
        rw [finish]
        exact Site.isBehind_finish
      · exact points.exists_isBehind scanned
    obtain ⟨before, after, cut, place⟩ := behind
    obtain ⟨real, on_line⟩ := Site.real_of_isBehind cut place
    exact ⟨real, fun run => absurd run grid, fun _ => on_line, points, next⟩

/-- A loop that stalls on the second line, behind a character of two bytes. -/
theorem evaluate_located_second_line :
    ∃ d, evaluate .brainfuck "a\nß +[]" {} = .error d
      ∧ d.report.kind = .infiniteLoop ∧ d.location.line = 2 ∧ d.location.column = 5
      ∧ ∃ k before, IsCharacter Brainfuck.Instr.ofChar? "a\nß +[]".toList before ']' k
          ∧ d.location.IsBehind before := by
  have failed : evaluate .brainfuck "a\nß +[]" {}
      = .error ⟨Brainfuck.stalled ⟨0, 1⟩, "<brainfuck>", 2, 5, "ß +[]", 1⟩ := by
    decide +kernel
  refine ⟨_, failed, rfl, rfl, rfl, ?_⟩
  obtain ⟨-, -, -, ⟨k, before, c, -, character, behind, closing, -⟩, -⟩ := evaluate_located failed
  cases closing (.inr rfl)
  exact ⟨k, before, character, behind⟩

end Esolang
