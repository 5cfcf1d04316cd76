/-
  Esolang.Proofs.Evaluation.Aligned
  ─────────────────────────────────
  **ALIGNED PROGRAMS DO THE SAME.**

  Where the symbols of a program stand matters to nothing but the places of its
  findings.  Two programs whose tokens are aligned are read alike, and their machines
  go in lockstep, so they give the same, or fail in the same words at places that
  answer to each other.

    • `Brainfuck.run_aligned`, `Cow.run_aligned`, `Whitespace.run_aligned` — the three
      languages that are written in tokens,
    • `evaluate_aligned` — what is made of aligned texts.
-/
import Esolang.Evaluation
import Esolang.Proofs.Brainfuck.Range
import Esolang.Proofs.Cow.Range
import Esolang.Proofs.Cow.Specialisation
import Esolang.Proofs.Machine.Lockstep
import Esolang.Proofs.Source.Alignment
import Esolang.Proofs.Whitespace.Cycle

namespace Esolang

open Esolang.Diagnostic (Report Site Finding)
open Esolang.Machine (Settings Run Lockstep)
open Esolang.Source (Token TextAlignment InOrder extent)

/-! ## §1. Results that are aligned. -/

namespace Source.TextAlignment

variable {σ σ' ρ ρ' ε : Type}

/-- Spans that answer to each other. -/
inductive Sites (align : TextAlignment) : Site → Site → Prop where
  | range {span span' : Span} (h : align.Spans span span') :
      Sites align (.range span) (.range span')

/-- The same report, at sites that answer to each other. -/
structure Findings (align : TextAlignment) (finding finding' : Finding) : Prop where
  report : finding.report = finding'.report
  site : align.Sites finding.site finding'.site

/-- Values that are related, or findings that answer to each other. -/
inductive Results (align : TextAlignment) (R : σ → σ' → Prop) :
    Except Finding σ → Except Finding σ' → Prop where
  | ok {s : σ} {s' : σ'} (h : R s s') : Results align R (.ok s) (.ok s')
  | error {finding finding' : Finding} (h : align.Findings finding finding') :
      Results align R (.error finding) (.error finding')

variable {align : TextAlignment} {R : σ → σ' → Prop}

theorem Results.bind {S : ρ → ρ' → Prop} {x : Except Finding σ} {x' : Except Finding σ'}
    {f : σ → Except Finding ρ} {f' : σ' → Except Finding ρ'} (h : align.Results R x x')
    (each : ∀ s s', R s s' → align.Results S (f s) (f' s')) :
    align.Results S (x >>= f) (x' >>= f') := by
  cases h with
  | ok related => exact each _ _ related
  | error finding => exact .error finding

theorem Results.map {f : σ → ρ} {f' : σ' → ρ} {x : Except Finding σ} {x' : Except Finding σ'}
    (h : align.Results R x x') (same : ∀ s s', R s s' → f s = f' s') :
    align.Results Eq (x.map f) (x'.map f') := by
  cases h with
  | ok related => exact .ok (same _ _ related)
  | error finding => exact .error finding

/-- Runs that are alike have results that are aligned. -/
theorem Results.of_alike {r : Run σ ε} {r' : Run σ' ε} (report : ε → Report)
    (alike : r.Alike R Eq align.Sites r') :
    align.Results R (r.result report) (r'.result report) := by
  obtain ⟨s, cycles, ending⟩ := r
  obtain ⟨s', cycles', ending'⟩ := r'
  obtain ⟨related, -, endings⟩ := alike
  unfold Machine.Run.result
  cases endings with
  | halted => exact .ok related
  | failed why place =>
    rw [why]
    exact .error ⟨rfl, place⟩
  | exhausted place => exact .error ⟨rfl, place⟩

end Source.TextAlignment

/-! ## §2. Effects that are the same. -/

theorem Machine.Effect.mirrors_self {σ ε : Type} (effect : Effect σ ε) :
    effect.Mirrors Eq Eq Eq effect := by
  cases effect with
  | next s => exact .next rfl
  | halt s => exact .halt rfl
  | fault cause => exact .fault rfl

/-! ## §3. Brainfuck. -/

namespace Brainfuck

variable {align : TextAlignment}

/-- The instructions are aligned, and the loops are the same. -/
structure Program.Aligned (align : TextAlignment) (p p' : Program) : Prop where
  code : List.Forall₂ align.Tokens p.code.toList p'.code.toList
  loops : p.loops = p'.loops

theorem parse_aligned {source source' : String}
    (aligned : List.Forall₂ align.Tokens (scan source) (scan source')) :
    align.Results (Program.Aligned align) (parse source) (parse source') := by
  have same : pair (scan source') = pair (scan source) := by
    unfold pair
    rw [TextAlignment.map_symbol aligned]
  cases paired : pair (scan source) with
  | ok loops =>
    rw [paired] at same
    unfold parse
    simp only [paired, same]
    exact .ok ⟨aligned, rfl⟩
  | error fault =>
    rw [paired] at same
    obtain ⟨t, here, -, refused⟩ := parse_of_pair_eq_error paired
    obtain ⟨t', there, -, refused'⟩ := parse_of_pair_eq_error same
    rw [refused, refused']
    have tokens := TextAlignment.tokens_of_getElem? aligned here there
    exact .error ⟨rfl, .range tokens.span⟩

/-- The machine looks at the spans of a program for the site of an instruction only. -/
theorem lockstep_aligned {p p' : Program} (aligned : p.Aligned align p') :
    Lockstep (machine p) (machine p') Eq Eq align.Sites where
  trips _ := rfl
  cycle := by
    intro s _ same
    subst same
    rcases TextAlignment.lookup aligned.code s.index with
      ⟨none, none'⟩ | ⟨t, t', here, there, tokens⟩
    · rw [Array.getElem?_toList] at none none'
      refine .finished ?_ ?_
      · simp only [machine, none]
      · simp only [machine, none']
    · rw [Array.getElem?_toList] at here there
      have fetched : (machine p).fetch s = .found t.symbol (.range t.span) := by
        simp only [machine, here]
      have fetched' : (machine p').fetch s = .found t.symbol (.range t'.span) := by
        simp only [machine, there, tokens.symbol]
      refine .found fetched fetched' (.range tokens.span) ?_
      have executed : execute p' t.symbol s = execute p t.symbol s := by
        cases t.symbol <;> simp only [execute, State.jump, aligned.loops]
      show Machine.Effect.Mirrors _ _ _ (execute p t.symbol s) (execute p' t.symbol s)
      rw [executed]
      exact Machine.Effect.mirrors_self _

/-- **Aligned texts give the same in Brainfuck.** -/
theorem run_aligned {source source' : String}
    (aligned : List.Forall₂ align.Tokens (scan source) (scan source')) (settings : Settings) :
    align.Results Eq (run source settings) (run source' settings) := by
  refine (parse_aligned aligned).bind ?_
  intro p p' programs
  exact .of_alike stalled ((lockstep_aligned programs).run _ rfl)

end Brainfuck

/-! ## §4. COW. -/

namespace Cow

variable {align : TextAlignment}

/-- Triplets that are aligned, and letters left over that are aligned. -/
structure Split.Aligned (align : TextAlignment) (pieces pieces' : Split) : Prop where
  triplets : List.Forall₂ align.Tokens pieces.triplets pieces'.triplets
  rest : (pieces.rest = none ∧ pieces'.rest = none)
    ∨ ∃ t t', pieces.rest = some t ∧ pieces'.rest = some t' ∧ align.Tokens t t'

theorem word_aligned {a a' b b' : Token Char} {letters letters' : List (Token Char)}
    (first : align.Tokens a a') (last : align.Tokens b b')
    (aligned : List.Forall₂ align.Tokens letters letters') :
    align.Tokens (word a b letters) (word a' b' letters') where
  symbol := by
    show String.ofList _ = String.ofList _
    rw [TextAlignment.map_symbol aligned]
  span := ⟨first.span.begins, last.span.ends⟩

theorem splitOnto_aligned {letters letters' : List (Token Char)}
    {found found' : Array (Token String)}
    (before : List.Forall₂ align.Tokens found.toList found'.toList)
    (aligned : List.Forall₂ align.Tokens letters letters') :
    (splitOnto found letters).Aligned align (splitOnto found' letters') := by
  fun_induction splitOnto found letters generalizing found' letters' with
  | case1 found a b c letters ih =>
    cases aligned with
    | cons ha aligned =>
    cases aligned with
    | cons hb aligned =>
    cases aligned with
    | cons hc aligned =>
    have triplet := word_aligned ha hc (.cons ha (.cons hb (.cons hc .nil)))
    apply ih _ aligned
    rw [Array.toList_push, Array.toList_push]
    exact List.rel_append before (.cons triplet .nil)
  | case2 found a b =>
    cases aligned with
    | cons ha aligned =>
    cases aligned with
    | cons hb aligned =>
    cases aligned
    exact ⟨before, .inr ⟨_, _, rfl, rfl, word_aligned ha hb (.cons ha (.cons hb .nil))⟩⟩
  | case3 found a =>
    cases aligned with
    | cons ha aligned =>
    cases aligned
    exact ⟨before, .inr ⟨_, _, rfl, rfl, word_aligned ha ha (.cons ha .nil)⟩⟩
  | case4 found =>
    cases aligned
    exact ⟨before, .inl ⟨rfl, rfl⟩⟩

theorem command_aligned {t t' : Token String} (tokens : align.Tokens t t') :
    align.Results align.Tokens (command t) (command t') := by
  unfold command
  rw [tokens.symbol]
  cases Opcode.ofTriplet? t'.symbol with
  | some op => exact .ok ⟨rfl, tokens.span⟩
  | none => exact .error ⟨rfl, .range tokens.span⟩

theorem commands_aligned {triplets triplets' : List (Token String)}
    (aligned : List.Forall₂ align.Tokens triplets triplets') :
    align.Results (List.Forall₂ align.Tokens) (triplets.mapM command)
      (triplets'.mapM command) := by
  induction aligned with
  | nil => exact .ok .nil
  | cons first rest ih =>
    rw [List.mapM_cons, List.mapM_cons]
    refine (command_aligned first).bind fun op op' ops => ih.bind fun more more' aligned => ?_
    exact .ok (.cons ops aligned)

/-- The commands are aligned, and the loops are the same. -/
structure Program.Aligned (align : TextAlignment) (p p' : Program) : Prop where
  code : List.Forall₂ align.Tokens p.code.toList p'.code.toList
  loops : p.loops = p'.loops

theorem parse_aligned {source source' : String}
    (aligned : List.Forall₂ align.Tokens (scan source) (scan source')) :
    align.Results (Program.Aligned align) (parse source) (parse source') := by
  have pieces : (split (scan source)).Aligned align (split (scan source')) :=
    splitOnto_aligned .nil aligned
  have count : (scan source').length = (scan source).length := aligned.length_eq.symm
  rcases pieces.rest with ⟨whole, whole'⟩ | ⟨t, t', left, left', tokens⟩
  · have commands := commands_aligned pieces.triplets
    generalize read : (split (scan source)).triplets.mapM command = found at commands
    generalize read' : (split (scan source')).triplets.mapM command = found' at commands
    cases commands with
    | error finding =>
      unfold parse
      simp only [whole, whole', read, read']
      exact .error finding
    | @ok code code' codes =>
      have same : pair code' = pair code := by
        unfold pair
        rw [TextAlignment.map_symbol codes]
      cases paired : pair code with
      | ok loops =>
        rw [paired] at same
        unfold parse
        simp only [whole, whole', read, read', paired, same]
        exact .ok ⟨codes, rfl⟩
      | error fault =>
        rw [paired] at same
        obtain ⟨u, here, -, refused⟩ := parse_of_pair_eq_error whole read paired
        obtain ⟨u', there, -, refused'⟩ := parse_of_pair_eq_error whole' read' same
        rw [refused, refused']
        have tokens := TextAlignment.tokens_of_getElem? codes here there
        exact .error ⟨rfl, .range tokens.span⟩
  · unfold parse
    simp only [left, left', count, tokens.symbol]
    exact .error ⟨rfl, .range tokens.span⟩

/-- Two copies of a program that are aligned, and the same of everything else. -/
structure State.Aligned (align : TextAlignment) (s s' : State) : Prop where
  code : List.Forall₂ align.Tokens s.code.toList s'.code.toList
  rest : s' = s.withCode s'.code

theorem State.Aligned.withCode {s : State} {code code' : Array (Token Opcode)}
    (aligned : List.Forall₂ align.Tokens code.toList code'.toList) :
    (s.withCode code).Aligned align (s.withCode code') :=
  ⟨aligned, rfl⟩

/-- A command has the same effect on both copies. -/
theorem mirrors_aligned {program : Program} {op : Opcode} {s s' : State}
    (aligned : s.Aligned align s') :
    (execute program op s).Mirrors (State.Aligned align) (State.Aligned align) Eq
      (execute program op s') := by
  obtain ⟨code, rest⟩ := aligned
  generalize s'.code = code' at code rest
  subst rest
  by_cases select : op = .select
  · subst select
    show Machine.Effect.Mirrors _ _ _ (execute program .select s)
      (execute program .select (s.withCode code'))
    simp only [execute]
    rw [show (s.withCode code').tape = s.tape from rfl]
    cases Opcode.ofCell? s.tape.current with
    | some selected =>
      refine .next ⟨?_, rfl⟩
      show List.Forall₂ align.Tokens (s.code.modify _ _).toList (code'.modify _ _).toList
      rw [Array.toList_modify, Array.toList_modify]
      exact TextAlignment.modify code s.index selected
    | none => exact .fault rfl
  · -- Nothing else writes in the copy.
    have unwritten : execute program op s = effectWithCode s.code (execute program op s) :=
      execute_withCode select
    rw [execute_withCode select]
    generalize execute program op s = effect at unwritten ⊢
    rw [unwritten]
    cases effect with
    | next t => exact .next (.withCode code)
    | halt t => exact .halt (.withCode code)
    | fault cause => exact .fault rfl

theorem lockstep_aligned (program : Program) (align : TextAlignment) :
    Lockstep (machine program) (machine program) (State.Aligned align) Eq align.Sites where
  trips _ := rfl
  cycle := by
    intro s s' aligned
    have index : s'.index = s.index := by
      rw [aligned.rest]
      rfl
    rcases TextAlignment.lookup aligned.code s.index with
      ⟨none, none'⟩ | ⟨t, t', here, there, tokens⟩
    · rw [Array.getElem?_toList] at none none'
      refine .finished ?_ ?_
      · simp only [machine, none]
      · simp only [machine, index, none']
    · rw [Array.getElem?_toList] at here there
      have fetched : (machine program).fetch s = .found t.symbol (.range t.span) := by
        simp only [machine, here]
      have fetched' : (machine program).fetch s' = .found t.symbol (.range t'.span) := by
        simp only [machine, index, there, tokens.symbol]
      exact .found fetched fetched' (.range tokens.span) (mirrors_aligned aligned)

/-- **Aligned texts give the same in COW**, but for the spans in the copy of the program. -/
theorem run_aligned {source source' : String}
    (aligned : List.Forall₂ align.Tokens (scan source) (scan source')) (settings : Settings) :
    align.Results (State.Aligned align) (run source settings) (run source' settings) := by
  refine (parse_aligned aligned).bind ?_
  intro p p' programs
  have start : (State.initial p settings.input).Aligned align (.initial p' settings.input) :=
    ⟨programs.code, rfl⟩
  have alike := (lockstep_aligned p align).run (.ofSettings settings none) start
  refine .of_alike Fault.report ?_
  unfold Program.run
  rw [← machine_of_loops programs.loops]
  exact alike

end Cow

/-! ## §5. Whitespace. -/

namespace Whitespace

variable {align : TextAlignment}

/-- What is decoded from aligned symbols. -/
structure Item.Aligned (align : TextAlignment) (item item' : Item) : Prop where
  content : item.content = item'.content
  span : align.Spans item.span item'.span
  rest : List.Forall₂ align.Tokens item.rest item'.rest
  order : InOrder item.rest
  order' : InOrder item'.rest

/-- **From aligned symbols the same is decoded**, from spans that answer to each other. -/
theorem next?_aligned {ts ts' : List (Token Symbol)} (aligned : List.Forall₂ align.Tokens ts ts')
    (order : InOrder ts) (order' : InOrder ts') :
    (next? ts = none ∧ next? ts' = none)
      ∨ ∃ item item', next? ts = some item ∧ next? ts' = some item' ∧ item.Aligned align item' := by
  rcases eq_nil_or_breaksOff_or_reads ts with
    rfl | breaks | ⟨phrase, rest, content, rfl, reads⟩
  · cases aligned
    exact .inl ⟨rfl, rfl⟩
  · have symbols := TextAlignment.map_symbol aligned
    have breaks' := breaks
    rw [symbols] at breaks'
    refine .inr ⟨_, _, next?_of_breaksOff breaks order, next?_of_breaksOff breaks' order', ?_⟩
    exact ⟨by rw [symbols], TextAlignment.extent aligned breaks.tokens_ne_nil, .nil,
      ⟨nofun, .nil⟩, ⟨nofun, .nil⟩⟩
  · have first : List.Forall₂ align.Tokens phrase (ts'.take phrase.length) := by
      simpa using List.forall₂_take phrase.length aligned
    have more : List.Forall₂ align.Tokens rest (ts'.drop phrase.length) := by
      simpa using List.forall₂_drop phrase.length aligned
    have whole : ts'.take phrase.length ++ ts'.drop phrase.length = ts' :=
      List.take_append_drop _ _
    generalize ts'.take phrase.length = phrase' at first whole
    generalize ts'.drop phrase.length = rest' at more whole
    subst whole
    have reads' := reads
    rw [TextAlignment.map_symbol first] at reads'
    refine .inr ⟨_, _, next?_of_reads reads order.append_left rest,
      next?_of_reads reads' order'.append_left rest', ?_⟩
    exact ⟨rfl, TextAlignment.extent first reads.tokens_ne_nil, more, order.append_right,
      order'.append_right⟩

/-- The same store, and aligned symbols that are still to be decoded. -/
structure State.Aligned (align : TextAlignment) (s s' : State) : Prop where
  store : s.toStore = s'.toStore
  symbols : List.Forall₂ align.Tokens s.symbols s'.symbols
  order : InOrder s.symbols
  order' : InOrder s'.symbols

theorem lockstep_aligned (align : TextAlignment) :
    Lockstep machine machine (State.Aligned align) Eq align.Sites where
  trips _ := rfl
  cycle := by
    intro s s' aligned
    rcases next?_aligned aligned.symbols aligned.order aligned.order' with
      ⟨none, none'⟩ | ⟨⟨content, span, rest⟩, ⟨_, span', rest'⟩, here, there, items⟩
    · exact .finished (fetch_of_none none) (fetch_of_none none')
    · obtain ⟨rfl, spans, rests, order, order'⟩ := items
      exact abreast_of_next? here there (.range spans) aligned aligned.store
        fun _ => ⟨rfl, rests, order, order'⟩

/-- **Aligned texts give the same in Whitespace**, but for the symbols that are left. -/
theorem run_aligned {source source' : String}
    (aligned : List.Forall₂ align.Tokens (scan source) (scan source')) (settings : Settings) :
    align.Results (State.Aligned align) (run source settings) (run source' settings) := by
  have start : State.Aligned align ⟨.initial, scan source⟩ ⟨.initial, scan source'⟩ :=
    ⟨rfl, aligned, Source.inOrder_tokens _ _, Source.inOrder_tokens _ _⟩
  exact .of_alike Fault.report ((lockstep_aligned align).run (.ofSettings settings none) start)

end Whitespace

/-! ## §6. Every language that is written in tokens. -/

/-- The texts are written in aligned tokens.  Befunge is not written in tokens. -/
def Source.TextAlignment.Texts (align : TextAlignment) (language : Language)
    (source source' : String) : Prop :=
  match language with
  | .brainfuck => List.Forall₂ align.Tokens (Brainfuck.scan source) (Brainfuck.scan source')
  | .cow => List.Forall₂ align.Tokens (Cow.scan source) (Cow.scan source')
  | .whitespace => List.Forall₂ align.Tokens (Whitespace.scan source) (Whitespace.scan source')
  | .befunge => False

/-- **Aligned texts give the same**, or fail alike at sites that answer to each other. -/
theorem run_aligned {align : TextAlignment} {language : Language} {source source' : String}
    (aligned : align.Texts language source source') (settings : Settings) :
    align.Results Eq (run language source settings) (run language source' settings) := by
  cases language with
  | brainfuck =>
    refine (Brainfuck.run_aligned aligned settings).map ?_
    rintro s _ rfl
    rfl
  | cow =>
    refine (Cow.run_aligned aligned settings).map ?_
    intro s s' states
    rw [states.rest]
    rfl
  | whitespace =>
    refine (Whitespace.run_aligned aligned settings).map ?_
    intro s s' states
    show Evaluation.mk _ s.toStore.output _ = Evaluation.mk _ s'.toStore.output _
    rw [states.store]
  | befunge => exact aligned.elim

/-- Evaluations of aligned texts are equal, or diagnostics that differ in their location. -/
theorem evaluate_aligned {align : TextAlignment} {language : Language} {source source' : String}
    (aligned : align.Texts language source source') (settings : Settings) :
    (∃ e, evaluate language source settings = .ok e ∧ evaluate language source' settings = .ok e)
      ∨ ∃ report span span', align.Spans span span'
          ∧ evaluate language source settings = .error ⟨report,
              (Site.range span).locate (fileName language settings) (.ofText source)⟩
          ∧ evaluate language source' settings = .error ⟨report,
              (Site.range span').locate (fileName language settings) (.ofText source')⟩ := by
  have results := run_aligned aligned settings
  unfold evaluate
  generalize run language source settings = x at results ⊢
  generalize run language source' settings = x' at results ⊢
  cases results with
  | @ok e _ same =>
    subst same
    exact .inl ⟨e, rfl, rfl⟩
  | @error finding finding' findings =>
    obtain ⟨report, site⟩ := finding
    obtain ⟨report', site'⟩ := finding'
    obtain ⟨same, sites⟩ := findings
    cases sites with
    | @range span span' spans =>
      subst same
      exact .inr ⟨report, span, span', spans, rfl, rfl⟩

end Esolang
