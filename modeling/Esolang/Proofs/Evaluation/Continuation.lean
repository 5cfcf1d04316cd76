/-
  Esolang.Proofs.Evaluation.Continuation
  ──────────────────────────────────────
  **WHITESPACE IS READ NO FURTHER THAN IT IS RUN.**

  A command is executed as soon as it is decoded, so a run knows of its text what it has
  consumed and nothing else.  A text that is continued is run as before, up to where the
  text itself has no whole command left: there the two runs may part.

    • `next?_append` — what is decoded first hangs on no symbol behind it,
    • `lockstep_append` — the runs of a text and of a continuation go in lockstep until
      the symbols of the text are spent,
    • `locate_append` — a place of a text is the same place of a continuation, on a line
      that may be longer,
    • `evaluate_append` — what a program has come to is not changed by what is put behind
      it.
-/
import Esolang.Proofs.Evaluation.Aligned
import Esolang.Proofs.Machine.Agreement
import Esolang.Proofs.Source.Recovery

namespace Esolang

open Esolang.Diagnostic (Site Location Finding)
open Esolang.Machine (Settings Budget Run LockstepUntil)
open Esolang.Source (Span Token TextAlignment InOrder Boundary LineTable extent byteSize tokens
  placed)

/-! ## §1. The places of a text in its continuations. -/

/-- The same place, shown in this source. -/
def Diagnostic.Location.shownIn (l : Location) (source : String) : Location :=
  { l with text := (LineTable.ofText source).text l.line }

/-- Every boundary of the text answers to itself. -/
def Source.TextAlignment.boundaries (text : List Char) : TextAlignment where
  begins offset offset' := offset' = offset ∧ Boundary text offset
  ends offset offset' := offset' = offset ∧ Boundary text offset

/-- A token begins and ends at boundaries. -/
theorem Source.boundaries_of_mem_tokens {τ : Type} {classify : Char → Option τ} {source : String}
    {token : Token τ} (mem : token ∈ tokens classify source) :
    (TextAlignment.boundaries source.toList).Tokens token token := by
  obtain ⟨before, c, after, cut, -, span⟩ := standsIn_of_mem_tokens mem
  refine ⟨rfl, ?_⟩
  rw [span]
  have behind : source.toList = before ++ [c] ++ after := by
    rw [cut, List.append_assoc, List.singleton_append]
  exact ⟨⟨rfl, before, c :: after, cut, rfl⟩, ⟨rfl, before ++ [c], after, behind, by simp⟩⟩

/-- **A boundary has the same position in every continuation of the text.** -/
theorem Source.LineTable.position_of_boundary {source : String} {offset : Nat}
    (boundary : Boundary source.toList offset) (more : String) :
    (ofText (source ++ more)).position offset = (ofText source).position offset := by
  obtain ⟨before, after, cut, rfl⟩ := boundary
  have continued : (source ++ more).toList = before ++ (after ++ more.toList) := by
    rw [String.toList_append, cut, List.append_assoc]
  rw [position_append cut, position_append continued]

/-- **A place of a text is the same place of a continuation**, on a line that may be
longer. -/
theorem Diagnostic.Site.locate_append {source : String} {span span' : Span} (file more : String)
    (spans : (TextAlignment.boundaries source.toList).Spans span span') :
    (Site.range span').locate file (.ofText (source ++ more))
      = ((Site.range span).locate file (.ofText source)).shownIn (source ++ more) := by
  obtain ⟨⟨start, first⟩, ⟨stop, last⟩⟩ := spans
  unfold Site.locate Location.shownIn
  simp only [start, stop, LineTable.position_of_boundary first,
    LineTable.position_of_boundary last]

namespace Whitespace

/-! ## §2. The symbols of a text before others. -/

/-- No whole command is left: there are no symbols, or they break off. -/
inductive Spent (symbols : List (Token Symbol)) : Prop where
  | finished (none_left : next? symbols = none)
  | incomplete {letters : String} {span : Span} {rest : List (Token Symbol)}
      (breaks : next? symbols = some ⟨.error (.incomplete letters), span, rest⟩)

/-- **What is decoded first hangs on no symbol behind it**, unless the symbols are spent. -/
theorem next?_append {symbols : List (Token Symbol)} (order : InOrder symbols)
    (more : List (Token Symbol)) :
    Spent symbols
      ∨ ∃ phrase rest content, symbols = phrase ++ rest ∧ phrase ≠ []
          ∧ next? symbols = some ⟨content, extent phrase, rest⟩
          ∧ next? (symbols ++ more) = some ⟨content, extent phrase, rest ++ more⟩ := by
  rcases eq_nil_or_breaksOff_or_reads symbols with
    rfl | breaks | ⟨phrase, rest, content, rfl, reads⟩
  · exact .inl (.finished rfl)
  · exact .inl (.incomplete (next?_of_breaksOff breaks order))
  · refine .inr ⟨phrase, rest, content, rfl, reads.tokens_ne_nil,
      next?_of_reads reads order.append_left rest, ?_⟩
    rw [List.append_assoc]
    exact next?_of_reads reads order.append_left (rest ++ more)

/-- A run that comes to the end of its symbols ends there, without another cycle. -/
theorem Spent.run {s : State} (spent : Spent s.symbols) (b : Budget) :
    machine.run b s = ⟨s, b.cycles, .halted⟩
      ∨ ∃ letters site, machine.run b s
          = ⟨s, b.cycles, .failed (.undecodable (.incomplete letters)) site⟩ := by
  cases spent with
  | finished none_left =>
    left
    rw [Machine.run_eq, fetch_of_none none_left]
  | @incomplete letters span rest breaks =>
    refine .inr ⟨letters, .range span, ?_⟩
    rw [Machine.run_eq, fetch_of_fault breaks]

/-- A state of a run of a text, and the state of a run of a continuation that has done the
same: behind the symbols of the text there are more. -/
structure State.Continued (source : String) (more : List (Token Symbol)) (s s' : State) :
    Prop where
  store : s'.toStore = s.toStore
  symbols : s'.symbols = s.symbols ++ more
  left : s.symbols <:+ scan source

/-! ## §3. A run and the run of a continuation. -/

/-- **The runs go in lockstep until the symbols of the text are spent.** -/
theorem lockstep_append (source : String) (more : List (Token Symbol)) :
    LockstepUntil machine machine (State.Continued source more) Eq
      (TextAlignment.boundaries source.toList).Sites (fun s => Spent s.symbols) where
  trips _ := rfl
  cycle := by
    intro s s' continued
    rcases next?_append (inOrder_of_suffix continued.left) more with
      spent | ⟨phrase, rest, content, cut, ne, here, there⟩
    · exact .inl spent
    · rw [← continued.symbols] at there
      obtain ⟨consumed, scanned⟩ := continued.left
      -- The phrase is made of tokens of the text, so it lies between boundaries.
      have inside : ∀ t ∈ phrase, t ∈ scan source := by
        intro t mem
        rw [← scanned, cut]
        exact List.mem_append_right consumed (List.mem_append_left rest mem)
      have aligned : List.Forall₂ (TextAlignment.boundaries source.toList).Tokens phrase phrase :=
        List.forall₂_same.mpr fun t mem => Source.boundaries_of_mem_tokens (inside t mem)
      have left : rest <:+ scan source := by
        refine ⟨consumed ++ phrase, ?_⟩
        rw [← scanned, cut, List.append_assoc]
      exact .inr (abreast_of_next? here there (.range (TextAlignment.extent aligned ne)) continued
        continued.store.symm fun _ => ⟨rfl, rfl, left⟩)

/-- The run of a text has the result of the run of a continuation, or it comes to where the
symbols of the text are spent. -/
theorem run_append (source more : String) (settings : Settings) :
    (TextAlignment.boundaries source.toList).Results
        (State.Continued source (placed Symbol.ofChar? (byteSize source.toList) more.toList))
        (run source settings) (run (source ++ more) settings)
      ∨ ∃ b s, Spent s.symbols ∧ runSource source settings = machine.run b s := by
  have start : State.Continued source
      (placed Symbol.ofChar? (byteSize source.toList) more.toList)
      ⟨.initial, scan source⟩ ⟨.initial, scan (source ++ more)⟩ :=
    ⟨rfl, Source.tokens_append _ _ _, List.suffix_rfl⟩
  rcases (lockstep_append source _).run (.ofSettings settings none) start with alike | parted
  · exact .inl (.of_alike Fault.report alike)
  · exact .inr parted

/-! ## §4. Commands that are executed. -/

/-- The command that stands after `n` cycles of a program that is left alone. -/
def commandAfter? (source : String) (n : Nat) : Option Command :=
  ((machine.after? n ⟨.initial, scan source⟩).bind machine.visit?).map fun visited =>
    visited.1.command

/-- One of the cycles of the run executes this command. -/
def Executes (source : String) (settings : Settings) (command : Command) : Prop :=
  ∃ n, n < (runSource source settings).cycles ∧ commandAfter? source n = some command

instance (source : String) (settings : Settings) (command : Command) :
    Decidable (Executes source settings command) :=
  inferInstanceAs (Decidable (∃ n, n < _ ∧ _))

/-- A run that executes the command that halts has halted before it. -/
theorem runSource_of_executes_finish {source : String} {settings : Settings}
    (executes : Executes source settings .finish) :
    ∃ s cycles decoded site, runSource source settings = ⟨s, cycles, .halted⟩
      ∧ machine.fetch s = .found decoded site := by
  obtain ⟨n, within, command⟩ := executes
  unfold commandAfter? at command
  obtain ⟨⟨decoded, site⟩, visited, finish⟩ := Option.map_eq_some_iff.mp command
  obtain ⟨s, ht, hv⟩ := Option.bind_eq_some_iff.mp visited
  have fetched : machine.fetch s = .found decoded site := Machine.visit?_eq_some.mp hv
  have executed : machine.execute decoded s = .halt s := by
    show execute decoded s = .halt s
    unfold execute
    simp only at finish
    rw [finish]
  have stops : machine.Stops s ⟨s, 1, .halted⟩ := .halt fetched executed
  refine ⟨s, _, decoded, site, Machine.run_of_stops ht stops ?_, fetched⟩
  rw [show (Budget.ofSettings settings none).cycles = 0 from rfl, Nat.zero_add]
  exact within

/-- The symbols are not spent where a command is found. -/
theorem Spent.fetch_ne_found {s : State} (spent : Spent s.symbols) (decoded : Decoded)
    (site : Site) : machine.fetch s ≠ .found decoded site := by
  intro fetched
  cases spent with
  | finished none_left =>
    rw [fetch_of_none none_left] at fetched
    cases fetched
  | incomplete breaks =>
    rw [fetch_of_fault breaks] at fetched
    cases fetched

end Whitespace

/-! ## §5. The evaluation of a continuation. -/

/-- A text and a continuation of it give the same, or they fail with the same report at the
same place, or the run comes to where the symbols of the text are spent. -/
theorem evaluate_append_or_spent (source more : String) (settings : Settings) :
    (∃ e, evaluate .whitespace source settings = .ok e
        ∧ evaluate .whitespace (source ++ more) settings = .ok e)
      ∨ (∃ d, evaluate .whitespace source settings = .error d
        ∧ evaluate .whitespace (source ++ more) settings
          = .error ⟨d.report, d.location.shownIn (source ++ more)⟩)
      ∨ ∃ b s, Whitespace.Spent s.symbols
          ∧ Whitespace.runSource source settings = Whitespace.machine.run b s := by
  rcases Whitespace.run_append source more settings with results | spent
  · unfold evaluate Esolang.run
    generalize Whitespace.run source settings = x at results
    generalize Whitespace.run (source ++ more) settings = x' at results
    cases results with
    | @ok s s' continued =>
      refine .inl ⟨⟨.whitespace, s.output, .nothing⟩, rfl, ?_⟩
      show Except.ok (Evaluation.mk _ s'.toStore.output _) = _
      rw [continued.store]
    | @error finding finding' findings =>
      obtain ⟨report, site⟩ := finding
      obtain ⟨report', site'⟩ := finding'
      obtain ⟨same, sites⟩ := findings
      refine .inr (.inl ⟨_, rfl, ?_⟩)
      cases sites with
      | range spans =>
        show Except.error (Diagnostic.mk report' _) = _
        rw [Site.locate_append _ more spans, ← show report = report' from same]
        rfl
  · exact .inr (.inr spent)

/-- **A Whitespace program is decided by what it has consumed.**  If it executes the command
that halts, or fails otherwise than by ending inside of a command, then whatever is put behind
it changes nothing, except that the line at fault may be shown longer. -/
theorem evaluate_append (source more : String) (settings : Settings) :
    (Whitespace.Executes source settings .finish →
      ∃ e, evaluate .whitespace source settings = .ok e
        ∧ evaluate .whitespace (source ++ more) settings = .ok e)
    ∧ ∀ d, evaluate .whitespace source settings = .error d → d.report.kind ≠ .trailingCommand →
        evaluate .whitespace (source ++ more) settings
          = .error ⟨d.report, d.location.shownIn (source ++ more)⟩ := by
  constructor
  · intro executes
    obtain ⟨s, cycles, decoded, site, halted, fetched⟩ :=
      Whitespace.runSource_of_executes_finish executes
    rcases evaluate_append_or_spent source more settings with
      same | ⟨d, failed, -⟩ | ⟨b, t, spent, eq⟩
    · exact same
    · unfold evaluate Esolang.run Whitespace.run at failed
      rw [halted] at failed
      cases failed
    · -- The symbols are not spent where the last command was found.
      rw [halted] at eq
      rcases spent.run b with ended | ⟨letters, site', ended⟩
      · rw [ended] at eq
        cases eq
        exact absurd fetched (spent.fetch_ne_found decoded site)
      · rw [ended] at eq
        cases eq
  · intro d failed other
    rcases evaluate_append_or_spent source more settings with
      ⟨e, evaluated, -⟩ | ⟨d', failed', continued⟩ | ⟨b, t, spent, eq⟩
    · rw [failed] at evaluated
      cases evaluated
    · rw [failed] at failed'
      cases failed'
      exact continued
    · unfold evaluate Esolang.run Whitespace.run at failed
      rw [eq] at failed
      rcases spent.run b with ended | ⟨letters, site, ended⟩
      · rw [ended] at failed
        cases failed
      · rw [ended] at failed
        cases failed
        exact absurd rfl other

/-- The first program prints `1` and halts, and what is put behind it begins no command.  The
second one adds with nothing on its stack, and its only line is continued. -/
theorem evaluate_append_halted :
    Whitespace.Executes "   \t\n\t\n \t\n\n\n" {} .finish
      ∧ evaluate .whitespace ("   \t\n\t\n \t\n\n\n" ++ "\n\t") {}
        = .ok ⟨.whitespace, "1", .nothing⟩
      ∧ evaluate .whitespace ("\t   " ++ "x\n") {}
        = .error ⟨(Whitespace.Fault.stack .empty).report, "<whitespace>", 1, 1, "\t   x", 4⟩ := by
  have executes : Whitespace.Executes "   \t\n\t\n \t\n\n\n" {} .finish := by decide +kernel
  have prints : evaluate .whitespace "   \t\n\t\n \t\n\n\n" {}
      = .ok ⟨.whitespace, "1", .nothing⟩ := by
    decide +kernel
  have fails : evaluate .whitespace "\t   " {}
      = .error ⟨(Whitespace.Fault.stack .empty).report, "<whitespace>", 1, 1, "\t   ", 4⟩ := by
    decide +kernel
  refine ⟨executes, ?_, ?_⟩
  · obtain ⟨e, before, behind⟩ := (evaluate_append _ "\n\t" {}).1 executes
    rw [prints] at before
    cases before
    exact behind
  · rw [(evaluate_append _ "x\n" {}).2 _ fails nofun]
    decide +kernel

end Esolang
