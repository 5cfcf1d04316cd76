/-
  Esolang.Proofs.Cow.Range
  ────────────────────────
  **COW STAYS IN RANGE.**

  The machine works on a copy of the program and looks spans up in the program
  itself.  `mOO` writes commands and no spans, so that the copy is as long as the
  program and each of its slots has the span that the program has there.

    • `parse_of_pair_eq_error`, `site_of_parse` — a text that is refused is refused
      at a span of the text,
    • `State.InRange.next` — one cycle keeps tape, index and input in range,
    • `inRange` — all of this, for every text and every state of every run.
-/
import Esolang.Proofs.Cow.SelfModification
import Esolang.Proofs.Evaluation.Engine
import Esolang.Proofs.Memory.Strip
import Esolang.Proofs.Source.Lines
import Esolang.Proofs.Source.Placement

namespace Esolang.Cow

open Esolang.Diagnostic (Site Finding)
open Esolang.Loop (Pairing PairingFault)
open Esolang.Machine (Input Effect)
open Esolang.Source (Span Token byteSize)

/-! ## §1. Reading a text. -/

/-- Three letters make a triplet. -/
theorem length_splitOnto (letters : List (Token Char)) (found : Array (Token String)) :
    3 * (splitOnto found letters).triplets.length ≤ 3 * found.size + letters.length := by
  fun_induction splitOnto found letters with
  | case1 found a b c letters ih =>
    rw [Array.size_push] at ih
    simp only [List.length_cons]
    omega
  | case2 found a b =>
    show 3 * found.toList.length ≤ _
    rw [Array.length_toList]
    omega
  | case3 found a =>
    show 3 * found.toList.length ≤ _
    rw [Array.length_toList]
    omega
  | case4 found =>
    show 3 * found.toList.length ≤ _
    rw [Array.length_toList]
    omega

/-- Where nothing goes wrong, each element of a list has a result. -/
theorem length_of_mapM_eq_ok {α β ε : Type} {f : α → Except ε β} {xs : List α} :
    ∀ {ys : List β}, xs.mapM f = .ok ys → ys.length = xs.length := by
  induction xs with
  | nil =>
    intro ys h
    rw [List.mapM_nil] at h
    cases h
    rfl
  | cons x xs ih =>
    intro ys h
    rw [List.mapM_cons] at h
    cases hx : f x with
    | error e =>
      rw [hx] at h
      cases h
    | ok y =>
      cases hxs : xs.mapM f with
      | error e =>
        rw [hx, hxs] at h
        cases h
      | ok more =>
        rw [hx, hxs] at h
        cases h
        rw [List.length_cons, List.length_cons, ih hxs]

section
variable {source : String} {program : Program}

theorem commands_of_parse (parsed : parse source = .ok program) :
    (split (scan source)).triplets.mapM command = .ok program.code.toList := by
  unfold parse at parsed
  dsimp only at parsed
  split at parsed
  · cases parsed
  · split at parsed
    · cases parsed
    · next read =>
      split at parsed
      · cases parsed
        exact read
      · cases parsed

/-- A program has no more commands than its text has bytes. -/
theorem size_code_le (parsed : parse source = .ok program) :
    program.code.size ≤ byteSize source.toList := by
  have commands := length_of_mapM_eq_ok (commands_of_parse parsed)
  have triplets := length_splitOnto (scan source) #[]
  have letters : (scan source).length ≤ source.toList.length := Source.length_tokens_le _ source
  have bytes := Source.length_le_byteSize source.toList
  rw [Array.length_toList] at commands
  rw [List.size_toArray, List.length_nil] at triplets
  have whole : (splitOnto #[] (scan source)).triplets = (split (scan source)).triplets := rfl
  rw [whole] at triplets
  omega

/-- **A text whose loops cannot be paired is refused at a loop command of the text.** -/
theorem parse_of_pair_eq_error {code : List (Token Opcode)} {fault : PairingFault}
    (whole : (split (scan source)).rest = none)
    (read : (split (scan source)).triplets.mapM command = .ok code)
    (unpairable : pair code = .error fault) :
    ∃ token, code[fault.index]? = some token ∧ token.symbol.bracket? = some fault.bracket
      ∧ parse source = .error ⟨(Malformation.unpaired fault).report, .range token.span⟩ := by
  obtain ⟨token, here, bracket⟩ := Pairing.getElem?_of_eq_error unpairable
  refine ⟨token, here, bracket, ?_⟩
  unfold parse siteAt
  simp only [whole, read, unpairable, here]

/-- Whatever a text is refused for, it is refused at a span. -/
theorem site_of_parse {finding : Finding} (refused : parse source = .error finding) :
    ∃ span, finding.site = .range span := by
  -- Letters are left over, or a triplet is unknown, or a loop is unpaired.
  cases rest : (split (scan source)).rest with
  | some token =>
    unfold parse at refused
    simp only [rest] at refused
    cases refused
    exact ⟨_, rfl⟩
  | none =>
    cases read : (split (scan source)).triplets.mapM command with
    | error unknown =>
      unfold parse at refused
      simp only [rest, read] at refused
      cases refused
      obtain ⟨triplet, -, no_command⟩ := exists_of_mapM_eq_error read
      unfold command at no_command
      split at no_command <;> cases no_command
      exact ⟨triplet.span, rfl⟩
    | ok code =>
      cases paired : pair code with
      | ok loops =>
        unfold parse at refused
        simp only [rest, read, paired] at refused
        cases refused
      | error fault =>
        obtain ⟨token, -, -, eq⟩ := parse_of_pair_eq_error rest read paired
        rw [eq] at refused
        cases refused
        exact ⟨token.span, rfl⟩

end

/-! ## §2. One cycle. -/

section
variable {program : Program} {op : Opcode} {s s' : State}

theorem reach_exchange (s : State) :
    s.exchange.tape.cursor = s.tape.cursor ∧ s.exchange.input.rest <:+ s.input.rest := by
  unfold State.exchange
  split
  · exact ⟨rfl, s.input.suffix_readByte⟩
  · exact ⟨rfl, List.suffix_refl _⟩

theorem reach_useRegister (s : State) :
    s.useRegister.tape.cursor = s.tape.cursor ∧ s.useRegister.input.rest <:+ s.input.rest := by
  unfold State.useRegister
  split <;> exact ⟨rfl, List.suffix_refl _⟩

/-- A command moves the cursor by one cell at most, and reads from the front of the
input. -/
theorem reach_of_execute (h : execute program op s = .next s') :
    s'.tape.cursor ≤ s.tape.cursor + 1 ∧ s'.input.rest <:+ s.input.rest := by
  have still : s.tape.cursor ≤ s.tape.cursor + 1 := Nat.le_succ _
  have unread : s.input.rest <:+ s.input.rest := List.suffix_refl _
  cases op with
  | right =>
    cases h
    exact ⟨Nat.le_of_eq s.tape.cursor_moveRight, unread⟩
  | left =>
    cases h
    exact ⟨Nat.le_succ_of_le s.tape.cursor_moveLeft_le, unread⟩
  | increment | decrement | zero | printInt =>
    cases h
    exact ⟨still, unread⟩
  | exchange =>
    cases h
    obtain ⟨cursor, input⟩ := reach_exchange s
    exact ⟨Nat.le_succ_of_le (Nat.le_of_eq cursor), input⟩
  | register =>
    cases h
    obtain ⟨cursor, input⟩ := reach_useRegister s
    exact ⟨Nat.le_succ_of_le (Nat.le_of_eq cursor), input⟩
  | readInt =>
    cases h
    exact ⟨still, s.input.suffix_readInteger⟩
  | select =>
    unfold execute at h
    dsimp only at h
    split at h <;> cases h
    exact ⟨still, unread⟩
  | loopOpen =>
    unfold execute at h
    dsimp only at h
    split at h
    · obtain ⟨j, -, rfl⟩ := jump_eq_next.mp h
      exact ⟨still, unread⟩
    · cases h
      exact ⟨still, unread⟩
  | loopClose =>
    unfold execute at h
    dsimp only at h
    split at h
    · cases h
      exact ⟨still, unread⟩
    · obtain ⟨j, -, rfl⟩ := jump_eq_next.mp h
      exact ⟨still, unread⟩
    · cases h

/-- A move leads to a command, or just past the last. -/
theorem Move.index_le (move : Move program s op s') (paired : program.Paired)
    (lt : s.index < program.code.size) : s'.index ≤ program.code.size := by
  cases move with
  | plain bracket ne code index guard => omega
  | enter => exact lt
  | skip partner => exact Pairing.Matches.partner?_lt paired partner
  | leave => exact lt
  | again partner => exact Pairing.Matches.partner?_lt paired partner
  | rewrite selects => exact Nat.le_of_lt lt

end

/-! ## §3. All cycles. -/

/-- What a state may be after so many cycles. -/
structure State.InRange (program : Program) (input : Input) (cycles : Nat) (s : State) :
    Prop where
  /-- The cell that is read and written is there. -/
  tape : s.tape.InRange
  /-- The cursor has moved by no more than one cell in each cycle, and so its place is a
  64-bit number as long as the count of the cycles is one. -/
  cursor : s.tape.cursor ≤ cycles
  /-- There is a command at the index, or the index is just past the last. -/
  index : s.index ≤ program.code.size
  /-- The copy is as long as the program. -/
  size : s.code.size = program.code.size
  /-- The span of each command of the copy is found in the program. -/
  span : ∀ (i : Nat) (op : Opcode) (span : Span), s.code[i]? = some ⟨op, span⟩ →
    ∃ parsed : Opcode, program.code[i]? = some ⟨parsed, span⟩
  /-- What is left of the input is its end. -/
  input : s.input.rest <:+ input.rest

section
variable {program : Program} {input : Input} {cycles : Nat} {s s' : State}

theorem State.InRange.of_confined (c : Confined program s) (cursor : s.tape.cursor ≤ cycles)
    (index : s.index ≤ program.code.size) (suffix : s.input.rest <:+ input.rest) :
    s.InRange program input cycles where
  tape := s.tape.inRange
  cursor := cursor
  index := index
  size := c.size
  span _ _ _ code := by
    obtain ⟨parsed, token, -⟩ := c.parsed code
    exact ⟨parsed, token⟩
  input := suffix

theorem State.InRange.initial (program : Program) (input : Input) :
    (State.initial program input).InRange program input 0 :=
  .of_confined (.initial program input) (Nat.le_refl 0) (Nat.zero_le _) (List.suffix_refl _)

/-- **What one cycle keeps.** -/
theorem State.InRange.next (h : s.InRange program input cycles) (paired : program.Paired)
    (c : Confined program s) (hn : (machine program).next? s = some s') :
    s'.InRange program input (cycles + 1) := by
  obtain ⟨op, site, fetched, executed⟩ := Machine.next?_eq_some.mp hn
  obtain ⟨span, here, -⟩ := fetch_eq_found fetched
  obtain ⟨moved, read⟩ := reach_of_execute executed
  have lt : s.index < program.code.size := by
    rw [← h.size]
    exact (Array.getElem?_eq_some_iff.mp here).1
  have cursor := h.cursor
  exact .of_confined (c.next paired hn) (by omega)
    ((move_of_execute executed).index_le paired lt) (read.trans h.input)

theorem inRange_of_after? (paired : program.Paired) {n : Nat}
    (hs : (machine program).after? n (.initial program input) = some s) :
    s.InRange program input n := by
  -- A state is confined as well as in range, and a cycle needs both.
  have both : Confined program s ∧ s.InRange program input (0 + n) := by
    refine Machine.after?_counts
      (P := fun k s => Confined program s ∧ s.InRange program input k) ?_
      ⟨.initial program input, .initial program input⟩ hs
    intro k u u' hu hn
    exact ⟨hu.1.next paired hn, hu.2.next paired hu.1 hn⟩
  have inside := both.2
  rwa [Nat.zero_add] at inside

end

/-- What a text may be, and what comes of it: a text that is refused is refused at a
span, one whose loops cannot be paired at that of a loop command, a partner is a
command, and no state of a run is out of range. -/
structure InRange (source : String) : Prop where
  fault : ∀ code fault, (split (scan source)).rest = none →
    (split (scan source)).triplets.mapM command = .ok code → pair code = .error fault →
      ∃ token, code[fault.index]? = some token ∧ token.symbol.bracket? = some fault.bracket
        ∧ parse source = .error ⟨(Malformation.unpaired fault).report, .range token.span⟩
  site : ∀ finding, parse source = .error finding → ∃ span, finding.site = .range span
  size : ∀ program, parse source = .ok program → program.code.size ≤ byteSize source.toList
  partner : ∀ program, parse source = .ok program → ∀ i j,
    program.loops.partner? i = some j → j < program.code.size
  state : ∀ program, parse source = .ok program → ∀ input n s,
    (machine program).after? n (.initial program input) = some s →
      s.InRange program input n

/-- **No text and no input takes the machine out of range.** -/
theorem inRange (source : String) : InRange source where
  fault _ _ whole read unpairable := parse_of_pair_eq_error whole read unpairable
  site _ refused := site_of_parse refused
  size _ parsed := size_code_le parsed
  partner _ parsed _ _ partner := Pairing.Matches.partner?_lt (paired_of_parse parsed) partner
  state _ parsed _ _ _ hs := inRange_of_after? (paired_of_parse parsed) hs

end Esolang.Cow
