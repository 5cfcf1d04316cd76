/-
  Esolang.Proofs.Brainfuck.Range
  ──────────────────────────────
  **BRAINFUCK STAYS IN RANGE.**

  A program that was read has a partner for every loop instruction, so no jump
  falls back on the instruction that it starts from.  A text with a loop
  instruction too many is refused at that instruction, so no refusal falls back
  on the end of the text.

    • `State.InRange` — tape, index and input of a state are where they may be,
    • `State.InRange.next` — one cycle keeps them there,
    • `inRange` — all of this, for every text and every state of every run.
-/
import Esolang.Proofs.Brainfuck.Structured
import Esolang.Proofs.Memory.Strip
import Esolang.Proofs.Source.Lines
import Esolang.Proofs.Source.Placement

namespace Esolang.Brainfuck

open Esolang.Diagnostic (Finding)
open Esolang.Loop (Bracket Guard Pairing PairingFault)
open Esolang.Machine (Input Effect)
open Esolang.Source (Token byteSize)

/-! ## §1. Loop instructions with a partner, and without. -/

/-- In a program that was read a jump leads to the instruction behind a partner. -/
theorem Program.Paired.exists_partner {program : Program} (paired : program.Paired) {i : Nat}
    {token : Token Instr} {b : Bracket} (here : program.code[i]? = some token)
    (bracket : token.symbol.bracket? = some b) :
    ∃ j, program.loops.partner? i = some j ∧ j < program.code.size := by
  have listed : (program.code.toList.map Token.symbol)[i]? = some token.symbol := by
    simp [here]
  obtain ⟨j, partner⟩ := paired.covers (Loop.mem_brackets.mpr ⟨_, listed, bracket⟩)
  exact ⟨j, partner, Pairing.Matches.partner?_lt paired partner⟩

/-- **A text that cannot be paired is refused at a loop instruction of the text.** -/
theorem parse_of_pair_eq_error {source : String} {fault : PairingFault}
    (unpairable : pair (scan source) = .error fault) :
    ∃ token, (scan source)[fault.index]? = some token
      ∧ token.symbol.bracket? = some fault.bracket
      ∧ parse source = .error ⟨unpaired fault, .range token.span⟩ := by
  obtain ⟨token, here, bracket⟩ := Pairing.getElem?_of_eq_error unpairable
  refine ⟨token, here, bracket, ?_⟩
  unfold parse siteAt
  simp only [unpairable, here]

theorem eq_of_parse {source : String} {program : Program} (parsed : parse source = .ok program) :
    pair (scan source) = .ok program.loops ∧ program.code = (scan source).toArray := by
  unfold parse at parsed
  dsimp only at parsed
  split at parsed
  · next paired =>
    cases parsed
    exact ⟨paired, rfl⟩
  · cases parsed

theorem paired_of_parse {source : String} {program : Program}
    (parsed : parse source = .ok program) : program.Paired := by
  obtain ⟨paired, code⟩ := eq_of_parse parsed
  unfold Program.Paired
  rw [code]
  exact paired_of_pair paired

/-- A program has no more instructions than its text has bytes. -/
theorem size_code_le {source : String} {program : Program} (parsed : parse source = .ok program) :
    program.code.size ≤ byteSize source.toList := by
  have tokens : (scan source).length ≤ source.toList.length := Source.length_tokens_le _ source
  have bytes := Source.length_le_byteSize source.toList
  rw [(eq_of_parse parsed).2, List.size_toArray]
  omega

/-! ## §2. One cycle. -/

section
variable {program : Program} {instr : Instr} {s s' : State}

/-- An instruction moves the cursor by one cell at most, and reads from the front of
the input. -/
theorem reach_of_execute (h : execute program instr s = .next s') :
    s'.tape.cursor ≤ s.tape.cursor + 1 ∧ s'.input.rest <:+ s.input.rest := by
  have still : s.tape.cursor ≤ s.tape.cursor + 1 := Nat.le_succ _
  have unread : s.input.rest <:+ s.input.rest := List.suffix_refl _
  cases instr with
  | right =>
    cases h
    exact ⟨Nat.le_of_eq s.tape.cursor_moveRight, unread⟩
  | left =>
    cases h
    exact ⟨Nat.le_succ_of_le s.tape.cursor_moveLeft_le, unread⟩
  | increment | decrement | output =>
    cases h
    exact ⟨still, unread⟩
  | input =>
    cases h
    exact ⟨still, s.input.suffix_readByte⟩
  | loopOpen =>
    unfold execute at h
    cases h
    split <;> exact ⟨still, unread⟩
  | loopClose =>
    unfold execute at h
    dsimp only at h
    split at h <;> cases h
    · exact ⟨still, unread⟩
    · exact ⟨still, unread⟩

/-- Only a loop instruction goes elsewhere than to the next one. -/
theorem index_of_execute (h : execute program instr s = .next s') :
    s'.index = s.index + 1
      ∨ ∃ b, instr.bracket? = some b ∧ s'.index = (s.jump program).index := by
  cases instr with
  | right | left | increment | decrement | output | input =>
    cases h
    exact .inl rfl
  | loopOpen =>
    unfold execute at h
    cases h
    split
    · exact .inr ⟨.opening, rfl, rfl⟩
    · exact .inl rfl
  | loopClose =>
    unfold execute at h
    dsimp only at h
    split at h <;> cases h
    · exact .inl rfl
    · exact .inr ⟨.closing, rfl, rfl⟩

end

/-! ## §3. All cycles. -/

/-- What a state may be after so many cycles. -/
structure State.InRange (program : Program) (input : Input) (cycles : Nat) (s : State) :
    Prop where
  /-- The cell that is read and written is there. -/
  tape : s.tape.InRange
  /-- The cursor has moved by no more than one cell in each cycle, and so its place is a
  64-bit number as long as the count of the cycles is one. -/
  cursor : s.tape.cursor ≤ cycles
  /-- There is an instruction at the index, or the index is just past the last. -/
  index : s.index ≤ program.code.size
  /-- What is left of the input is its end. -/
  input : s.input.rest <:+ input.rest

theorem State.InRange.initial (program : Program) (input : Input) :
    (State.initial input).InRange program input 0 where
  tape := Memory.Tape.inRange _
  cursor := Nat.le_refl 0
  index := Nat.zero_le _
  input := List.suffix_refl _

/-- **What one cycle keeps.** -/
theorem State.InRange.next {program : Program} (paired : program.Paired) {input : Input}
    {cycles : Nat} {s s' : State} (h : s.InRange program input cycles)
    (hn : (machine program).next? s = some s') : s'.InRange program input (cycles + 1) := by
  obtain ⟨instr, site, fetched, executed⟩ := Machine.next?_eq_some.mp hn
  obtain ⟨span, here, -⟩ := fetch_eq_found fetched
  obtain ⟨moved, read⟩ := reach_of_execute executed
  have lt : s.index < program.code.size := (Array.getElem?_eq_some_iff.mp here).1
  have cursor := h.cursor
  refine ⟨s'.tape.inRange, by omega, ?_, read.trans h.input⟩
  rcases index_of_execute executed with next | ⟨b, bracket, jumped⟩
  · omega
  · -- Behind the partner of a loop instruction the program goes on, or ends.
    obtain ⟨j, partner, inside⟩ := paired.exists_partner here bracket
    have target : (s.jump program).index = j + 1 := by
      show (program.loops.partner? s.index).getD s.index + 1 = j + 1
      rw [partner]
      rfl
    omega

/-- What a text may be, and what comes of it: the fault of a text that cannot be paired
lies at one of its loop instructions, a program has all partners, and no state of
a run is out of range. -/
structure InRange (source : String) : Prop where
  fault : ∀ fault, pair (scan source) = .error fault →
    ∃ token, (scan source)[fault.index]? = some token
      ∧ token.symbol.bracket? = some fault.bracket
      ∧ parse source = .error ⟨unpaired fault, .range token.span⟩
  size : ∀ program, parse source = .ok program → program.code.size ≤ byteSize source.toList
  partner : ∀ program, parse source = .ok program → ∀ i token b,
    program.code[i]? = some token → token.symbol.bracket? = some b →
      ∃ j, program.loops.partner? i = some j ∧ j < program.code.size
  state : ∀ program, parse source = .ok program → ∀ input n s,
    (machine program).after? n (.initial input) = some s → s.InRange program input n

/-- **No text and no input takes the machine out of range.** -/
theorem inRange (source : String) : InRange source where
  fault _ unpairable := parse_of_pair_eq_error unpairable
  size _ parsed := size_code_le parsed
  partner _ parsed _ _ _ here bracket := (paired_of_parse parsed).exists_partner here bracket
  state program parsed input n s hs := by
    have counted : s.InRange program input (0 + n) :=
      Machine.after?_counts (fun _ _ _ h hn => h.next (paired_of_parse parsed) hn)
        (.initial program input) hs
    rwa [Nat.zero_add] at counted

end Esolang.Brainfuck
