/-
  Esolang.Proofs.Cow.Parsing
  ──────────────────────────
  **WHICH TEXTS ARE COW PROGRAMS.**

  Nothing but the letters of a text decides whether it is a program: their number,
  the triplets that they form, and the loops among these.  The commands write the
  same letters again, and each of them has the span from the first to the last
  letter of its triplet, with whatever comment stands between them.  What is wrong
  with a text is looked for in this order: letters left over, triplets that are no
  command, loops.

  Main results:
    • `covers_of_triplet`, `spans_apart` — where triplets stand in the text,
    • `parse_of_leftover`, `parse_of_unknown`, `parse_of_known` — the three kinds of text,
    • `parse_exact` — the program, or the first thing that is wrong.
-/
import Esolang.Proofs.Cow.Spelling
import Esolang.Proofs.Loop.Matching

namespace Esolang.Cow

open Esolang.Source (Span Token IsCharacter byteSize)
open Esolang.Loop (Bracket Balanced Blamed Pairing PairingFault brackets signs)
open Esolang.Diagnostic (Report Site Finding)

/-! ## §1. What a text has to be. -/

/-- The letters of a text, in order. -/
def letters (source : String) : List Char :=
  source.toList.filterMap letter?

/-- The letters, three at a time. -/
def triplets : List Char → List (List Char)
  | a :: b :: c :: letters => [a, b, c] :: triplets letters
  | _ => []

/-- The triplet writes a command. -/
def IsCommand (triplet : List Char) : Prop :=
  ∃ op : Opcode, op.triplet.toList = triplet

/-- Which end of a loop a triplet is, if any. -/
def sign? (triplet : List Char) : Option Bracket :=
  if triplet = "MOO".toList then some .opening
  else if triplet = "moo".toList then some .closing
  else none

/-- The ends of loops among the triplets of a text, each with the number of its triplet. -/
def loopEnds (source : String) : List (Nat × Bracket) :=
  brackets sign? (triplets (letters source))

/-- The letters of the text form triplets, which are commands and whose loops are balanced. -/
structure WellFormed (source : String) : Prop where
  whole : (letters source).length % 3 = 0
  known : ∀ triplet ∈ triplets (letters source), IsCommand triplet
  balanced : Balanced (signs (loopEnds source))

/-- The span goes from the first byte of one letter of the text to the last byte of another. -/
structure Covers (source : String) (first last : Nat) (span : Span) : Prop where
  begins : ∃ before c, IsCharacter letter? source.toList before c first
    ∧ span.start = byteSize before
  ends : ∃ before c, IsCharacter letter? source.toList before c last
    ∧ span.stop = byteSize (before ++ [c])
  forward : span.start < span.stop
  inside : span.stop ≤ byteSize source.toList

/-- The commands are those of the text: they write its letters again, each has the span of its
triplet, and each ends before the next begins. -/
structure ReadFrom (source : String) (code : List (Token Opcode)) : Prop where
  again : (code.flatMap fun token => token.symbol.triplet.toList) = letters source
  covers : ∀ (i : Nat) (token : Token Opcode), code[i]? = some token →
    Covers source (3 * i) (3 * i + 2) token.span
  apart : code.Pairwise fun token later => token.span.stop ≤ later.span.start

/-! ## §2. Cutting letters. -/

/-- The scanner finds the letters of the text. -/
theorem symbols_scan (source : String) : (scan source).map Token.symbol = letters source :=
  Source.map_symbol_tokens letter? source

/-- It finds as many as there are. -/
theorem length_scan (source : String) : (scan source).length = (letters source).length := by
  rw [← symbols_scan, List.length_map]

/-- Splitting takes letters by threes. -/
theorem symbols_split : ∀ ts : List (Token Char),
    (split ts).triplets.map Token.symbol = (triplets (ts.map Token.symbol)).map String.ofList
  | a :: b :: c :: ts => by
    rw [split_cons, List.map_cons, symbols_split ts]
    rfl
  | [a, b] | [a] | [] => rfl

/-- No letters are left over if their number can be divided by three. -/
theorem rest_eq_none_iff : ∀ ts : List (Token Char), (split ts).rest = none ↔ ts.length % 3 = 0
  | a :: b :: c :: ts => by
    rw [split_cons]
    show (split ts).rest = none ↔ (ts.length + 3) % 3 = 0
    rw [rest_eq_none_iff ts, Nat.add_mod_right]
  | [a, b] | [a] | [] => by simp [split, splitOnto]

/-- There are a third as many triplets as letters. -/
theorem length_triplets : ∀ ts : List (Token Char), (split ts).triplets.length = ts.length / 3
  | a :: b :: c :: ts => by
    rw [split_cons]
    show (split ts).triplets.length + 1 = (ts.length + 3) / 3
    rw [length_triplets ts, Nat.add_div_right _ (by decide)]
  | [a, b] | [a] | [] => by simp [split, splitOnto]

/-! ## §3. Spans in the text. -/

/-- A letter ends before a later one begins. -/
theorem stop_le_start {source : String} {i j : Nat} {first last : Token Char} (lt : i < j)
    (here : (scan source)[i]? = some first) (there : (scan source)[j]? = some last) :
    first.span.stop ≤ last.span.start := by
  have order : Source.InOrder (scan source) := Source.inOrder_tokens letter? source
  obtain ⟨inI, atI⟩ := List.getElem?_eq_some_iff.mp here
  obtain ⟨inJ, atJ⟩ := List.getElem?_eq_some_iff.mp there
  have behind := List.pairwise_iff_getElem.mp order.behind i j inI inJ lt
  rwa [atI, atJ] at behind

/-- From the beginning of one letter to the end of the same or a later one. -/
theorem covers_of_getElem? {source : String} {i j : Nat} {first last : Token Char} (le : i ≤ j)
    (here : (scan source)[i]? = some first) (there : (scan source)[j]? = some last) :
    Covers source i j ⟨first.span.start, last.span.stop⟩ := by
  obtain ⟨before, c, isFirst, -, spanFirst⟩ := Source.character_of_getElem?_tokens here
  obtain ⟨before', c', isLast, -, spanLast⟩ := Source.character_of_getElem?_tokens there
  obtain ⟨after, split⟩ := isLast.split
  have start : first.span.start = byteSize before := congrArg Span.start spanFirst
  have stop : last.span.stop = byteSize (before' ++ [c']) := by
    rw [spanLast, Source.byteSize_append]
    exact congrArg (byteSize before' + ·) (Source.byteSize_cons c' []).symm
  have wide := c'.utf8Size_pos
  have forth : first.span.start ≤ last.span.start := by
    rcases Nat.eq_or_lt_of_le le with rfl | lt
    · rw [here] at there
      cases there
      exact Nat.le_refl _
    · have behind := stop_le_start lt here there
      rw [spanFirst] at behind ⊢
      dsimp only at behind ⊢
      omega
  refine ⟨⟨before, c, isFirst, start⟩, ⟨before', c', isLast, stop⟩, ?_, ?_⟩
  · show first.span.start < last.span.stop
    rw [spanLast] at forth ⊢
    dsimp only at forth ⊢
    omega
  · show last.span.stop ≤ _
    rw [stop, split, Source.byteSize_append, Source.byteSize_append]
    show _ ≤ byteSize before' + byteSize ([c'] ++ after)
    rw [Source.byteSize_append]
    omega

/-- The span of a triplet goes from its first letter to its third. -/
theorem covers_of_triplet {source : String} {i : Nat} {triplet : Token String}
    (found : (split (scan source)).triplets[i]? = some triplet) :
    Covers source (3 * i) (3 * i + 2) triplet.span := by
  obtain ⟨first, last, here, there, span⟩ := span_of_triplet found
  rw [span]
  exact covers_of_getElem? (Nat.le_add_right _ 2) here there

/-- **Each triplet ends before the next begins.** -/
theorem spans_apart (source : String) :
    (spans source).Pairwise fun span later => span.stop ≤ later.start := by
  unfold spans
  rw [List.pairwise_map, List.pairwise_iff_getElem]
  intro i j inI inJ lt
  obtain ⟨_, last, _, there, span⟩ := span_of_triplet (List.getElem?_eq_getElem inI)
  obtain ⟨first, _, here, _, later⟩ := span_of_triplet (List.getElem?_eq_getElem inJ)
  rw [span, later]
  exact stop_le_start (by omega) there here

/-! ## §4. Letters left over. -/

/-- Letters that are left over are reported before anything else. -/
theorem parse_of_leftover {source : String} (leftover : (letters source).length % 3 ≠ 0) :
    ∃ span, Covers source (3 * ((letters source).length / 3)) ((letters source).length - 1) span
      ∧ parse source = .error
          ⟨(Malformation.incomplete
              (String.ofList ((letters source).drop (3 * ((letters source).length / 3))))
              (letters source).length).report,
            .range span⟩ := by
  rw [← length_scan] at leftover ⊢
  cases left : (split (scan source)).rest with
  | none => exact absurd ((rest_eq_none_iff _).mp left) leftover
  | some rest =>
    obtain ⟨symbol, first, last, here, there, span⟩ := rest_of_split left
    rw [length_triplets] at symbol here
    refine ⟨rest.span, ?_, ?_⟩
    · rw [span]
      exact covers_of_getElem? (by omega) here there
    · unfold parse
      simp only [left]
      rw [symbol, symbols_scan]

/-! ## §5. Triplets that are no command. -/

/-- Three letters that are no command stand for none. -/
theorem ofTriplet?_eq_none {triplet : List Char} (unknown : ¬ IsCommand triplet) :
    Opcode.ofTriplet? (String.ofList triplet) = none := by
  refine List.find?_eq_none.mpr fun op _ same => unknown ⟨op, ?_⟩
  rw [beq_iff_eq.mp same, String.toList_ofList]

/-- They are reported, where they stand. -/
theorem command_of_unknown {triplet : Token String} {letters : List Char}
    (symbol : triplet.symbol = String.ofList letters) (unknown : ¬ IsCommand letters) :
    command triplet
      = .error ⟨(Malformation.unknown (String.ofList letters)).report, .range triplet.span⟩ := by
  unfold command
  rw [symbol, ofTriplet?_eq_none unknown]

/-- Three letters that are a command become its token. -/
theorem command_of_known {triplet : Token String} {letters : List Char}
    (symbol : triplet.symbol = String.ofList letters) (known : IsCommand letters) :
    ∃ token, command triplet = .ok token := by
  obtain ⟨op, rfl⟩ := known
  rw [String.ofList_toList] at symbol
  exact ⟨_, command_of_symbol symbol⟩

/-- A list fails at the first of its elements that fails. -/
theorem mapM_eq_error {α β ε : Type} {f : α → Except ε β} {x : α} {cause : ε}
    (wrong : f x = .error cause) {xs : List α} :
    ∀ {i : Nat}, xs[i]? = some x → (∀ k < i, ∀ y, xs[k]? = some y → ∃ z, f y = .ok z) →
      xs.mapM f = .error cause := by
  induction xs with
  | nil =>
    intro i here
    cases here
  | cons y xs ih =>
    intro i here before
    rw [List.mapM_cons]
    cases i with
    | zero =>
      cases here
      rw [wrong]
      rfl
    | succ i =>
      obtain ⟨z, fine⟩ := before 0 (Nat.succ_pos i) y rfl
      rw [fine, ih here fun k lt y found => before (k + 1) (Nat.succ_lt_succ lt) y found]
      rfl

/-- A triplet that was cut has the letters with its number. -/
theorem symbol_of_triplet {source : String} {k : Nat} {token : Token String}
    (found : (split (scan source)).triplets[k]? = some token) :
    ∃ triplet, (triplets (letters source))[k]? = some triplet
      ∧ token.symbol = String.ofList triplet := by
  have symbols : ((split (scan source)).triplets.map Token.symbol)[k]?
      = ((triplets (letters source)).map String.ofList)[k]? := by
    rw [symbols_split, symbols_scan]
  rw [List.getElem?_map, List.getElem?_map, found] at symbols
  obtain ⟨triplet, here, same⟩ := Option.map_eq_some_iff.mp symbols.symm
  exact ⟨triplet, here, same.symm⟩

/-- The letters of a triplet are cut as one. -/
theorem exists_token {source : String} {k : Nat} {triplet : List Char}
    (here : (triplets (letters source))[k]? = some triplet) :
    ∃ token, (split (scan source)).triplets[k]? = some token
      ∧ token.symbol = String.ofList triplet := by
  have symbols : ((split (scan source)).triplets.map Token.symbol)[k]?
      = ((triplets (letters source)).map String.ofList)[k]? := by
    rw [symbols_split, symbols_scan]
  rw [List.getElem?_map, List.getElem?_map, here] at symbols
  exact Option.map_eq_some_iff.mp symbols

/-- Of the triplets that are no commands the first is reported. -/
theorem parse_of_unknown {source : String} (whole : (letters source).length % 3 = 0) {i : Nat}
    {triplet : List Char} (here : (triplets (letters source))[i]? = some triplet)
    (unknown : ¬ IsCommand triplet)
    (before : ∀ k < i, ∀ earlier, (triplets (letters source))[k]? = some earlier →
      IsCommand earlier) :
    ∃ span, Covers source (3 * i) (3 * i + 2) span
      ∧ parse source
          = .error ⟨(Malformation.unknown (String.ofList triplet)).report, .range span⟩ := by
  have no_rest : (split (scan source)).rest = none := by
    rw [rest_eq_none_iff, length_scan]
    exact whole
  obtain ⟨token, found, symbol⟩ := exists_token here
  have read : (split (scan source)).triplets.mapM command
      = .error ⟨(Malformation.unknown (String.ofList triplet)).report, .range token.span⟩ := by
    refine mapM_eq_error (command_of_unknown symbol unknown) found ?_
    intro k lt earlier found
    obtain ⟨letters, here, symbol⟩ := symbol_of_triplet found
    exact command_of_known symbol (before k lt letters here)
  refine ⟨token.span, covers_of_triplet found, ?_⟩
  unfold parse
  simp only [no_rest, read]

/-! ## §6. Commands and their loops. -/

/-- The letters of a command tell whether it opens or closes a loop. -/
theorem sign?_triplet (op : Opcode) : sign? op.triplet.toList = op.bracket? := by
  cases op <;> decide

/-- Triplets that are commands spell them. -/
theorem exists_ops : ∀ {letters : List Char}, letters.length % 3 = 0 →
    (∀ triplet ∈ triplets letters, IsCommand triplet) →
      ∃ ops : List Opcode, letters = ops.flatMap (fun op => op.triplet.toList)
        ∧ triplets letters = ops.map fun op => op.triplet.toList
  | a :: b :: c :: letters, whole, known => by
    have shorter : letters.length % 3 = 0 := by
      rw [List.length_cons, List.length_cons, List.length_cons] at whole
      omega
    obtain ⟨op, first⟩ := known [a, b, c] List.mem_cons_self
    obtain ⟨ops, spelled, commands⟩ :=
      exists_ops shorter fun triplet mem => known triplet (List.mem_cons_of_mem _ mem)
    refine ⟨op :: ops, ?_, ?_⟩
    · rw [List.flatMap_cons, first, ← spelled]
      rfl
    · rw [List.map_cons, first, ← commands]
      rfl
  | [a, b], whole, _ | [a], whole, _ => by
    simp at whole
  | [], _, _ => ⟨[], rfl, rfl⟩

/-- **A text whose triplets are commands** is read as these, each at its triplet, and only their
loops may be at fault. -/
theorem parse_of_known {source : String} (whole : (letters source).length % 3 = 0)
    (known : ∀ triplet ∈ triplets (letters source), IsCommand triplet) :
    ∃ code : List (Token Opcode), ReadFrom source code
      ∧ (code.map fun token => token.symbol.triplet.toList) = triplets (letters source)
      ∧ parse source = match Pairing.ofBrackets (loopEnds source) with
        | .ok loops => .ok ⟨code.toArray, loops⟩
        | .error fault =>
          .error ⟨(Malformation.unpaired fault).report, siteAt code fault.index⟩ := by
  obtain ⟨ops, spelled, commands⟩ := exists_ops whole known
  have spells : Spells source ops := spelled
  obtain ⟨code, symbols, places, parsed⟩ := parse_of_spells spells
  have loops : pair code = Pairing.ofBrackets (loopEnds source) := by
    unfold pair loopEnds
    rw [symbols, commands, Loop.brackets_map]
    exact congrArg (fun bracket? => Pairing.ofBrackets (brackets bracket? ops))
      (funext fun op => (sign?_triplet op).symm)
  have covers : ∀ (i : Nat) (token : Token Opcode), code[i]? = some token →
      Covers source (3 * i) (3 * i + 2) token.span := by
    intro i token found
    have place : (code.map Token.span)[i]?
        = ((split (scan source)).triplets.map Token.span)[i]? := by
      rw [places]
      rfl
    rw [List.getElem?_map, List.getElem?_map, found] at place
    obtain ⟨triplet, here, span⟩ := Option.map_eq_some_iff.mp place.symm
    rw [← span]
    exact covers_of_triplet here
  have apart := spans_apart source
  rw [← places, List.pairwise_map] at apart
  refine ⟨code, ⟨?_, covers, apart⟩, ?_, ?_⟩
  · rw [spelled, ← symbols, List.flatMap_map]
  · rw [commands, ← symbols, List.map_map]
    rfl
  · rw [← loops]
    exact parsed

/-- What does not hold of all elements of a list fails first for one of them. -/
theorem exists_first {α : Type} {P : α → Prop} {xs : List α} :
    (¬ ∀ x ∈ xs, P x) → ∃ (i : Nat) (x : α), xs[i]? = some x ∧ ¬ P x
      ∧ ∀ k < i, ∀ y, xs[k]? = some y → P y := by
  induction xs with
  | nil => exact fun not_all => absurd nofun not_all
  | cons x xs ih =>
    intro not_all
    by_cases here : P x
    · obtain ⟨i, y, found, fails, before⟩ :=
        ih fun all => not_all (List.forall_mem_cons.mpr ⟨here, all⟩)
      refine ⟨i + 1, y, found, fails, fun k lt z at_k => ?_⟩
      cases k with
      | zero =>
        cases at_k
        exact here
      | succ k => exact before k (Nat.lt_of_succ_lt_succ lt) z at_k
    · exact ⟨0, x, rfl, here, fun k lt => absurd lt (Nat.not_lt_zero k)⟩

/-- The ends of loops are listed in order. -/
theorem sorted_loopEnds (source : String) : (loopEnds source).Pairwise (·.1 < ·.1) :=
  Loop.sorted_brackets sign? (triplets (letters source))

/-- Only a well-formed text is accepted. -/
theorem wellFormed_of_parse {source : String} {program : Program}
    (parsed : parse source = .ok program) : WellFormed source := by
  have whole : (letters source).length % 3 = 0 := by
    by_contra leftover
    obtain ⟨_, -, refused⟩ := parse_of_leftover leftover
    rw [parsed] at refused
    cases refused
  have known : ∀ triplet ∈ triplets (letters source), IsCommand triplet := by
    by_contra not_all
    obtain ⟨i, triplet, here, unknown, before⟩ := exists_first not_all
    obtain ⟨_, -, refused⟩ := parse_of_unknown whole here unknown before
    rw [parsed] at refused
    cases refused
  refine ⟨whole, known, ?_⟩
  obtain ⟨code, -, -, read⟩ := parse_of_known whole known
  cases paired : Pairing.ofBrackets (loopEnds source) with
  | ok loops => exact Loop.balanced_of_ofBrackets paired
  | error fault =>
    rw [parsed, paired] at read
    cases read

/-- Every well-formed text is accepted, and its commands stand where they were read. -/
theorem parse_of_wellFormed {source : String} (h : WellFormed source) :
    ∃ (code : List (Token Opcode)) (loops : Pairing),
      parse source = .ok ⟨code.toArray, loops⟩ ∧ ReadFrom source code := by
  obtain ⟨code, readFrom, -, read⟩ := parse_of_known h.whole h.known
  cases paired : Pairing.ofBrackets (loopEnds source) with
  | ok loops =>
    rw [paired] at read
    exact ⟨code, loops, read, readFrom⟩
  | error fault =>
    have blamed := Loop.blamed_of_ofBrackets (sorted_loopEnds source) paired
    exact absurd h.balanced blamed.unbalanced

/-- In a text of commands the end of a loop without a partner is reported. -/
theorem parse_of_unbalanced {source : String} (whole : (letters source).length % 3 = 0)
    (known : ∀ triplet ∈ triplets (letters source), IsCommand triplet)
    (unbalanced : ¬ Balanced (signs (loopEnds source))) :
    ∃ fault span, Pairing.ofBrackets (loopEnds source) = .error fault
      ∧ Blamed (loopEnds source) fault
      ∧ Covers source (3 * fault.index) (3 * fault.index + 2) span
      ∧ parse source = .error ⟨(Malformation.unpaired fault).report, .range span⟩ := by
  obtain ⟨code, readFrom, cut, read⟩ := parse_of_known whole known
  cases paired : Pairing.ofBrackets (loopEnds source) with
  | ok loops => exact absurd (Loop.balanced_of_ofBrackets paired) unbalanced
  | error fault =>
    -- The index of the fault is the number of a triplet, and so of a command.
    obtain ⟨triplet, here, -⟩ := Loop.mem_brackets.mp (Pairing.mem_of_ofBrackets_eq_error paired)
    rw [← cut, List.getElem?_map] at here
    obtain ⟨token, found, -⟩ := Option.map_eq_some_iff.mp here
    refine ⟨fault, token.span, rfl, Loop.blamed_of_ofBrackets (sorted_loopEnds source) paired,
      readFrom.covers fault.index token found, ?_⟩
    rw [read, paired]
    show Except.error (Finding.mk _ (siteAt code fault.index)) = _
    rw [siteAt, found]

/-! ## §7. All texts. -/

/-- **Which texts are programs, and what is wrong with the others.**  A text is read if its letters
form triplets that are commands with balanced loops.  The commands then write its letters again,
the span of each goes from the first to the third of its letters, and the spans lie one behind the
other.  If letters are left over, these are reported, whatever else is wrong; otherwise the first
triplet that is no command; otherwise the bracket that the pairing of the loops blames. -/
theorem parse_exact (source : String) :
    ((∃ program, parse source = .ok program) ↔ WellFormed source)
    ∧ (∀ program, parse source = .ok program → ReadFrom source program.code.toList)
    ∧ ((letters source).length % 3 ≠ 0 →
        ∃ span, Covers source (3 * ((letters source).length / 3)) ((letters source).length - 1) span
          ∧ parse source = .error
              ⟨(Malformation.incomplete
                  (String.ofList ((letters source).drop (3 * ((letters source).length / 3))))
                  (letters source).length).report,
                .range span⟩)
    ∧ ((letters source).length % 3 = 0 →
        ∀ (i : Nat) (triplet : List Char), (triplets (letters source))[i]? = some triplet →
          ¬ IsCommand triplet →
          (∀ k < i, ∀ earlier, (triplets (letters source))[k]? = some earlier →
            IsCommand earlier) →
          ∃ span, Covers source (3 * i) (3 * i + 2) span
            ∧ parse source
                = .error ⟨(Malformation.unknown (String.ofList triplet)).report, .range span⟩)
    ∧ ((letters source).length % 3 = 0 →
        (∀ triplet ∈ triplets (letters source), IsCommand triplet) →
        ¬ Balanced (signs (loopEnds source)) →
        ∃ fault span, Pairing.ofBrackets (loopEnds source) = .error fault
          ∧ Blamed (loopEnds source) fault
          ∧ Covers source (3 * fault.index) (3 * fault.index + 2) span
          ∧ parse source = .error ⟨(Malformation.unpaired fault).report, .range span⟩) := by
  refine ⟨⟨fun ⟨program, parsed⟩ => wellFormed_of_parse parsed, ?wellFormed⟩, ?program,
    parse_of_leftover, ?unknown, parse_of_unbalanced⟩
  case wellFormed =>
    intro h
    obtain ⟨code, loops, parsed, -⟩ := parse_of_wellFormed h
    exact ⟨_, parsed⟩
  case program =>
    intro program parsed
    obtain ⟨code, loops, read, readFrom⟩ := parse_of_wellFormed (wellFormed_of_parse parsed)
    rw [parsed] at read
    cases read
    exact readFrom
  case unknown =>
    intro whole i triplet here unknown before
    exact parse_of_unknown whole here unknown before

/-- A triplet that is no command is reported, with the comment inside it, although a loop in
front of it has no partner. -/
theorem parse_exact_unknown :
    ∃ span, Covers "moo é MéMm" 3 5 span
      ∧ parse "moo é MéMm" = .error ⟨(Malformation.unknown "MMm").report, .range span⟩ := by
  have first : ∀ k < 1, ∀ earlier, (triplets (letters "moo é MéMm"))[k]? = some earlier →
      IsCommand earlier := by
    intro k lt earlier found
    obtain rfl : k = 0 := by omega
    cases found
    exact ⟨.loopClose, by decide⟩
  have unknown : ¬ IsCommand ['M', 'M', 'm'] := by
    rintro ⟨op, eq⟩
    cases op <;> exact absurd eq (by decide)
  exact (parse_exact "moo é MéMm").2.2.2.1 (by decide) 1 ['M', 'M', 'm'] (by decide) unknown first

end Esolang.Cow
