/-
  Esolang.Proofs.Cow.SelfModification
  ───────────────────────────────────
  **WHAT A COW PROGRAM CAN DO TO ITSELF.**

  The machine works on a copy of the program, in which `mOO` replaces itself, and
  jumps by a pairing that was made before the run.  The two stay in step: a slot
  that holds another command than the program has there was written as `mOO`, and
  such a slot has no partner.

    • `Move` — all that one command can do to the copy, the index and the guard,
    • `Confined` — what every reachable state satisfies,
    • `Confined.kept` — a slot that has been rewritten is never rewritten again,
    • `fault_of_failed` — where a run can fail for want of a partner or of progress,
    • `selfModification_confined` — the confinement of all runs of a program.
-/
import Esolang.Proofs.Loop.Nesting
import Esolang.Proofs.Machine.Course
import Esolang.Cow.Machine

namespace Esolang.Cow

open Esolang.Source (Span Token)
open Esolang.Diagnostic (Site Finding)
open Esolang.Loop (Bracket Pairing Guard brackets)
open Esolang.Machine (Input Effect Settings Ending)

/-! ## §1. What one command can do. -/

/-- What the command `op` can do in the state `s`, seen by the copy of the program,
the index and the guard. -/
inductive Move (program : Program) (s : State) : Opcode → State → Prop where
  /-- A command that is neither a loop command nor `mOO`. -/
  | plain {op : Opcode} {s' : State} (bracket : op.bracket? = none) (ne : op ≠ .select)
      (code : s'.code = s.code) (index : s'.index = s.index + 1)
      (guard : s'.guard = s.guard) : Move program s op s'
  | enter : Move program s .loopOpen s.advance
  | skip {j : Nat} (partner : program.loops.partner? s.index = some j) :
      Move program s .loopOpen { s with index := j + 1 }
  | leave : Move program s .loopClose { s with guard := s.guard.forget s.index }.advance
  | again {j : Nat} (partner : program.loops.partner? s.index = some j) :
      Move program s .loopClose
        { s with guard := s.guard.remember s.index s.tape.current, index := j + 1 }
  /-- `mOO` becomes what the cell selects. -/
  | rewrite {selected : Opcode} (selects : Opcode.ofCell? s.tape.current = some selected) :
      Move program s .select (s.rewrite selected)

section
variable {program : Program} {op : Opcode} {s s' : State}

/-- To exchange a character is no matter of the code, of the place or of the guard. -/
theorem frame_exchange (s : State) :
    s.exchange.code = s.code ∧ s.exchange.index = s.index ∧ s.exchange.guard = s.guard := by
  unfold State.exchange
  split <;> exact ⟨rfl, rfl, rfl⟩

/-- Nor is it to use the register. -/
theorem frame_useRegister (s : State) :
    s.useRegister.code = s.code ∧ s.useRegister.index = s.index
      ∧ s.useRegister.guard = s.guard := by
  unfold State.useRegister
  split <;> exact ⟨rfl, rfl, rfl⟩

/-- A jump leads behind the partner of the bracket. -/
theorem jump_eq_next :
    s.jump program op = .next s' ↔
      ∃ j, program.loops.partner? s.index = some j ∧ s' = { s with index := j + 1 } := by
  unfold State.jump
  cases program.loops.partner? s.index <;> simp [eq_comm]

/-- **A command that goes on makes one of these moves.** -/
theorem move_of_execute (h : execute program op s = .next s') : Move program s op s' := by
  cases op with
  | loopClose =>
    simp only [execute, Guard.arrive] at h
    by_cases zero : s.tape.current = 0
    · simp only [zero, if_true, Effect.next.injEq] at h
      subst h
      exact .leave
    · by_cases same : s.guard.last? s.index = some s.tape.current
      · simp [zero, same] at h
      · simp only [zero, same, if_false] at h
        obtain ⟨j, partner, rfl⟩ := jump_eq_next.mp h
        exact .again partner
  | loopOpen =>
    simp only [execute] at h
    split at h
    · obtain ⟨j, partner, rfl⟩ := jump_eq_next.mp h
      exact .skip partner
    · cases h
      exact .enter
  | select =>
    simp only [execute] at h
    split at h
    · next selected selects =>
      cases h
      exact .rewrite selects
    · cases h
  | exchange =>
    cases h
    obtain ⟨code, index, guard⟩ := frame_exchange s
    exact .plain rfl nofun code (congrArg (· + 1) index) guard
  | register =>
    cases h
    obtain ⟨code, index, guard⟩ := frame_useRegister s
    exact .plain rfl nofun code (congrArg (· + 1) index) guard
  | _ =>
    cases h
    exact .plain rfl nofun rfl rfl rfl

/-- What a command can fail of. -/
inductive Failure (program : Program) (s : State) : Opcode → Fault → Prop where
  | stalled (same : s.guard.last? s.index = some s.tape.current) :
      Failure program s .loopClose (.stalled ⟨s.tape.cursor, s.tape.current⟩)
  | unselectable (none : Opcode.ofCell? s.tape.current = none) :
      Failure program s .select (.unselectable s.tape.current)
  | unpaired {op : Opcode} {b : Bracket} (bracket : op.bracket? = some b)
      (alone : program.loops.partner? s.index = none) : Failure program s op (.unpaired op)

/-- A jump fails where the bracket has no partner, and for no other reason. -/
theorem jump_eq_fault {cause : Fault} :
    s.jump program op = .fault cause ↔
      program.loops.partner? s.index = none ∧ cause = .unpaired op := by
  unfold State.jump
  cases program.loops.partner? s.index <;> simp [eq_comm]

/-- Every failure of an execution has one of the causes that are listed. -/
theorem failure_of_execute {cause : Fault} (h : execute program op s = .fault cause) :
    Failure program s op cause := by
  cases op with
  | loopClose =>
    simp only [execute, Guard.arrive] at h
    by_cases zero : s.tape.current = 0
    · simp [zero] at h
    · by_cases same : s.guard.last? s.index = some s.tape.current
      · simp only [zero, same, if_false, if_true, Effect.fault.injEq] at h
        subst h
        exact .stalled same
      · simp only [zero, same, if_false] at h
        obtain ⟨alone, rfl⟩ := jump_eq_fault.mp h
        exact .unpaired rfl alone
  | loopOpen =>
    simp only [execute] at h
    split at h
    · obtain ⟨alone, rfl⟩ := jump_eq_fault.mp h
      exact .unpaired rfl alone
    · cases h
  | select =>
    simp only [execute] at h
    split at h
    · cases h
    · next none =>
      cases h
      exact .unselectable none
  | _ => cases h

end

/-- A command that is fetched stands in the code where the state is. -/
theorem fetch_eq_found {program : Program} {s : State} {op : Opcode} {site : Site}
    (h : (machine program).fetch s = .found op site) :
    ∃ span, s.code[s.index]? = some ⟨op, span⟩ ∧ site = .range span := by
  simp only [machine] at h
  split at h
  · next token code =>
    cases h
    exact ⟨token.span, code, rfl⟩
  · cases h

/-- Every cycle is one of the moves that are listed. -/
theorem move_of_next? {program : Program} {s s' : State}
    (hn : (machine program).next? s = some s') :
    ∃ op span, s.code[s.index]? = some ⟨op, span⟩ ∧ Move program s op s' := by
  obtain ⟨op, site, hf, hx⟩ := Machine.next?_eq_some.mp hn
  obtain ⟨span, code, -⟩ := fetch_eq_found hf
  exact ⟨op, span, code, move_of_execute hx⟩

/-! ## §2. The copy and the program. -/

/-- The brackets of a program are paired by its loops. -/
def Program.Paired (program : Program) : Prop :=
  program.loops.Matches (brackets Opcode.bracket? (program.code.toList.map Token.symbol))

/-- A program that was parsed has the pairs of its code. -/
theorem pair_of_parse {source : String} {program : Program}
    (parsed : parse source = .ok program) : pair program.code.toList = .ok program.loops := by
  unfold parse at parsed
  simp only at parsed
  split at parsed
  · cases parsed
  · split at parsed
    · cases parsed
    · split at parsed
      · next paired =>
        cases parsed
        exact paired
      · cases parsed

/-- So its brackets are paired. -/
theorem paired_of_parse {source : String} {program : Program}
    (parsed : parse source = .ok program) : program.Paired :=
  Pairing.matches_of_brackets (pair_of_parse parsed)

/-- What every reachable state satisfies. -/
structure Confined (program : Program) (s : State) : Prop where
  /-- The copy is as long as the program. -/
  size : s.code.size = program.code.size
  /-- A slot is as in the program, or it is `mOO` in the program and has become a
  command that is neither `mOO` nor `oom`. -/
  slot : ∀ {i : Nat} {token : Token Opcode}, program.code[i]? = some token →
    s.code[i]? = some token
      ∨ token.symbol = .select
          ∧ ∃ op, s.code[i]? = some ⟨op, token.span⟩ ∧ op ≠ .select ∧ op ≠ .readInt
  /-- The guard remembers only loops around the index. -/
  guard : s.guard.Within program.loops s.index

/-- A run begins with the program as it was parsed. -/
theorem Confined.initial (program : Program) (input : Input) :
    Confined program (.initial program input) where
  size := rfl
  slot token := .inl token
  guard := .fresh _ _

/-- Every slot of the copy is one of the program. -/
theorem Confined.parsed {program : Program} {s : State} (c : Confined program s) {i : Nat}
    {op : Opcode} {span : Span} (code : s.code[i]? = some ⟨op, span⟩) :
    ∃ parsed, program.code[i]? = some ⟨parsed, span⟩ ∧ (parsed = op ∨ parsed = .select) := by
  obtain ⟨lt, -⟩ := Array.getElem?_eq_some_iff.mp code
  have inside : i < program.code.size := c.size ▸ lt
  obtain ⟨⟨parsed, span'⟩, token⟩ : ∃ token, program.code[i]? = some token :=
    ⟨_, Array.getElem?_eq_getElem inside⟩
  rcases c.slot token with same | ⟨select, op', slot, -, -⟩
  · rw [code] at same
    cases same
    exact ⟨op, token, .inl rfl⟩
  · rw [code] at slot
    cases slot
    exact ⟨parsed, token, .inr select⟩

section
variable {program : Program} {s s' : State}

/-- A slot that holds `mOO` is `mOO` in the program. -/
theorem Confined.of_select (c : Confined program s) {i : Nat} {span : Span}
    (code : s.code[i]? = some ⟨.select, span⟩) : program.code[i]? = some ⟨.select, span⟩ := by
  obtain ⟨parsed, token, rfl | rfl⟩ := c.parsed code
  · exact token
  · exact token

/-- The command of a token, at the place of the token. -/
theorem symbol_getElem? {i : Nat} {op : Opcode} {span : Span}
    (token : program.code[i]? = some ⟨op, span⟩) :
    (program.code.toList.map Token.symbol)[i]? = some op := by
  simp [token]

/-- A slot with a partner holds the loop command that the program has there. -/
theorem Confined.of_partner (c : Confined program s) (paired : program.Paired) {i j : Nat}
    {op : Opcode} {span : Span} (code : s.code[i]? = some ⟨op, span⟩)
    (partner : program.loops.partner? i = some j) : program.code[i]? = some ⟨op, span⟩ := by
  obtain ⟨parsed, token, rfl | rfl⟩ := c.parsed code
  · exact token
  · rw [paired.partner?_eq_none (symbol_getElem? token) rfl] at partner
    cases partner

/-- A loop command without partner is written in the place of `mOO`. -/
theorem Confined.of_alone (c : Confined program s) (paired : program.Paired) {i : Nat}
    {op : Opcode} {span : Span} {b : Bracket} (code : s.code[i]? = some ⟨op, span⟩)
    (bracket : op.bracket? = some b) (alone : program.loops.partner? i = none) :
    program.code[i]? = some ⟨.select, span⟩ := by
  obtain ⟨parsed, token, rfl | rfl⟩ := c.parsed code
  · obtain ⟨j, partner⟩ :=
      paired.covers (Loop.mem_brackets.mpr ⟨parsed, symbol_getElem? token, bracket⟩)
    rw [alone] at partner
    cases partner
  · exact token

/-- Where no loop ends nothing is remembered of one. -/
theorem Confined.last?_eq_none (c : Confined program s) (paired : program.Paired) {op : Opcode}
    {span : Span} (token : program.code[s.index]? = some ⟨op, span⟩)
    (ne : op.bracket? ≠ some .closing) : s.guard.last? s.index = none :=
  c.guard.last?_eq_none paired (Loop.not_mem_brackets (symbol_getElem? token) ne)

/-- That holds also of code that has been rewritten. -/
theorem Confined.last?_eq_none_of_code (c : Confined program s) (paired : program.Paired)
    {op : Opcode} {span : Span} (code : s.code[s.index]? = some ⟨op, span⟩)
    (ne : op.bracket? ≠ some .closing) : s.guard.last? s.index = none := by
  obtain ⟨parsed, token, rfl | rfl⟩ := c.parsed code
  · exact c.last?_eq_none paired token ne
  · exact c.last?_eq_none paired token nofun

/-- A rewriting changes one command and no span. -/
theorem getElem?_rewrite (op : Opcode) (s : State) (i : Nat) :
    (s.rewrite op).code[i]? =
      if s.index = i then s.code[i]?.map fun slot => { slot with symbol := op }
      else s.code[i]? := by
  simp only [State.rewrite, Array.getElem?_modify]

/-- **What one cycle keeps**: the state is confined. -/
theorem Confined.next (c : Confined program s) (paired : program.Paired)
    (hn : (machine program).next? s = some s') : Confined program s' := by
  obtain ⟨op, span, code, move⟩ := move_of_next? hn
  cases move with
  | plain bracket ne copy index guard =>
    refine ⟨copy ▸ c.size, fun token => copy ▸ c.slot token, ?_⟩
    rw [guard, index]
    exact c.guard.advance (c.last?_eq_none_of_code paired code (by rw [bracket]; exact nofun))
  | enter =>
    exact ⟨c.size, c.slot, c.guard.advance (c.last?_eq_none_of_code paired code nofun)⟩
  | skip partner =>
    -- Only a command of the program has a partner, and it comes after `MOO`.
    have here := symbol_getElem? (c.of_partner paired code partner)
    obtain ⟨j, partner', lt⟩ := paired.of_opening here rfl
    rw [partner] at partner'
    cases partner'
    exact ⟨c.size, c.slot,
      c.guard.skip paired.toNested (c.last?_eq_none_of_code paired code nofun) partner lt⟩
  | leave => exact ⟨c.size, c.slot, c.guard.leave⟩
  | again partner =>
    have here := symbol_getElem? (c.of_partner paired code partner)
    obtain ⟨j, partner', lt⟩ := paired.of_closing here rfl
    rw [partner] at partner'
    cases partner'
    exact ⟨c.size, c.slot, c.guard.again paired.toNested partner lt⟩
  | @rewrite selected selects =>
    -- The slot held `mOO`, so it is `mOO` in the program, and takes what a cell selects.
    refine ⟨by simpa [State.rewrite] using c.size, fun {i token} parsed => ?_, c.guard⟩
    rw [getElem?_rewrite]
    by_cases here : s.index = i
    · subst here
      have select := c.of_select code
      rw [parsed] at select
      cases select
      rw [if_pos rfl, code]
      exact .inr ⟨rfl, selected, rfl, Opcode.ofCell?_ne selects⟩
    · rw [if_neg here]
      exact c.slot parsed

/-- **Every reachable state is confined.** -/
theorem confined_of_after? (paired : program.Paired) {input : Input} {n : Nat}
    (hs : (machine program).after? n (.initial program input) = some s) :
    Confined program s :=
  Machine.after?_preserves (fun _ _ c => c.next paired) (.initial program input) hs

/-! ## §3. A slot is rewritten once. -/

/-- A cycle changes no slot but the one at the index, and only if it holds `mOO`. -/
theorem select_of_changed (hn : (machine program).next? s = some s') {i : Nat}
    (changed : s'.code[i]? ≠ s.code[i]?) :
    s.index = i ∧ ∃ span selected, s.code[i]? = some ⟨.select, span⟩
      ∧ Opcode.ofCell? s.tape.current = some selected ∧ s' = s.rewrite selected := by
  obtain ⟨op, span, code, move⟩ := move_of_next? hn
  cases move with
  | plain bracket ne copy index guard => exact absurd (by rw [copy]) changed
  | enter => exact absurd rfl changed
  | skip partner => exact absurd rfl changed
  | leave => exact absurd rfl changed
  | again partner => exact absurd rfl changed
  | @rewrite selected selects =>
    rw [getElem?_rewrite] at changed
    by_cases here : s.index = i
    · subst here
      exact ⟨rfl, span, selected, code, selects, rfl⟩
    · exact absurd (if_neg here) changed

/-- A slot that does not hold `mOO` is as it is for good. -/
theorem kept_of_after? {i : Nat} {n : Nat} {t : State}
    (ne : ∀ span, s.code[i]? ≠ some ⟨.select, span⟩)
    (ht : (machine program).after? n s = some t) : t.code[i]? = s.code[i]? := by
  refine Machine.after?_preserves (P := fun t => t.code[i]? = s.code[i]?) ?_ rfl ht
  -- A cycle that changed the slot would find `mOO` in it.
  intro u u' hu hn
  by_cases changed : u'.code[i]? = u.code[i]?
  · rw [changed, hu]
  · obtain ⟨-, span, -, select, -⟩ := select_of_changed hn changed
    rw [hu] at select
    exact absurd select (ne span)

/-- A slot that differs from the program does not hold `mOO`. -/
theorem Confined.ne_select (c : Confined program s) {i : Nat}
    (rewritten : s.code[i]? ≠ program.code[i]?) (span : Span) :
    s.code[i]? ≠ some ⟨.select, span⟩ := by
  intro select
  rw [c.of_select select] at rewritten
  exact rewritten select

/-- **A slot that has been rewritten is never rewritten again.** -/
theorem Confined.kept (c : Confined program s) {i n : Nat} {t : State}
    (rewritten : s.code[i]? ≠ program.code[i]?) (ht : (machine program).after? n s = some t) :
    t.code[i]? = s.code[i]? :=
  kept_of_after? (c.ne_select rewritten) ht

end

/-- The cycle after the first `n` rewrites the slot `i`. -/
def RewritesAt (program : Program) (input : Input) (n i : Nat) : Prop :=
  ∃ s s', (machine program).after? n (.initial program input) = some s
    ∧ (machine program).next? s = some s' ∧ s'.code[i]? ≠ s.code[i]?

section
variable {program : Program} {input : Input}

/-- Only `mOO` is rewritten. -/
theorem RewritesAt.parsed (paired : program.Paired) {n i : Nat}
    (h : RewritesAt program input n i) : ∃ span, program.code[i]? = some ⟨.select, span⟩ := by
  obtain ⟨s, s', hs, hn, changed⟩ := h
  obtain ⟨-, span, -, code, -⟩ := select_of_changed hn changed
  exact ⟨span, (confined_of_after? paired hs).of_select code⟩

/-- Of two rewritings of one slot none is the earlier, so there is only one. -/
theorem RewritesAt.not_lt (paired : program.Paired) {n k i : Nat}
    (h : RewritesAt program input n i) (h' : RewritesAt program input k i) : ¬ n < k := by
  intro lt
  obtain ⟨s, s', hs, hn, changed⟩ := h
  obtain ⟨t, t', ht, hn', changed'⟩ := h'
  have later : (machine program).after? (n + 1) (.initial program input) = some s' :=
    Machine.after?_succ_last.mpr ⟨s, hs, hn⟩
  obtain ⟨u, hu, hut⟩ := Machine.after?_of_le ht lt
  rw [later] at hu
  cases hu
  -- After the first rewrite the slot differs from the program, so it is kept until `t'`.
  have c := confined_of_after? paired later
  obtain ⟨-, span, selected, code, selects, rfl⟩ := select_of_changed hn changed
  have rewritten : (s.rewrite selected).code[i]? ≠ program.code[i]? := by
    rw [(confined_of_after? paired hs).of_select code, ← code]
    exact changed
  have until_t := c.kept rewritten hut
  have until_t' := c.kept rewritten (Machine.after?_succ_last.mpr ⟨t, hut, hn'⟩)
  exact changed' (until_t'.trans until_t.symm)

/-- **A slot is rewritten at most once.** -/
theorem RewritesAt.unique (paired : program.Paired) {n k i : Nat}
    (h : RewritesAt program input n i) (h' : RewritesAt program input k i) : n = k := by
  have := h.not_lt paired h'
  have := h'.not_lt paired h
  omega

end

/-! ## §4. Where control goes. -/

/-- How control passes from `s` to `s'`. -/
inductive Transfer (program : Program) (s s' : State) : Prop where
  /-- To the next command. -/
  | advance (index : s'.index = s.index + 1)
  /-- To the command that has just been written over `mOO`. -/
  | stay {selected : Opcode} {span : Span} (parsed : program.code[s.index]? = some ⟨.select, span⟩)
      (written : s'.code[s.index]? = some ⟨selected, span⟩) (ne : selected ≠ .select)
      (index : s'.index = s.index)
  /-- From a loop command of the program to the command after its partner. -/
  | jump {op : Opcode} {span : Span} {j : Nat} (loop : op = .loopOpen ∨ op = .loopClose)
      (parsed : program.code[s.index]? = some ⟨op, span⟩)
      (partner : program.loops.partner? s.index = some j) (index : s'.index = j + 1)

section
variable {program : Program} {s s' : State}

/-- Every cycle passes control on in one of these ways. -/
theorem Confined.transfer (c : Confined program s) (paired : program.Paired)
    (hn : (machine program).next? s = some s') : Transfer program s s' := by
  obtain ⟨op, span, code, move⟩ := move_of_next? hn
  cases move with
  | plain bracket ne copy index guard => exact .advance index
  | enter => exact .advance rfl
  | skip partner => exact .jump (.inl rfl) (c.of_partner paired code partner) partner rfl
  | leave => exact .advance rfl
  | again partner => exact .jump (.inr rfl) (c.of_partner paired code partner) partner rfl
  | @rewrite selected selects =>
    refine .stay (c.of_select code) ?_ (Opcode.ofCell?_ne selects).1 rfl
    rw [getElem?_rewrite, if_pos rfl, code]
    rfl

/-- A command that `mOO` has written leads to the next command and nowhere else. -/
theorem Confined.advance_of_rewritten (c : Confined program s) (paired : program.Paired)
    (rewritten : s.code[s.index]? ≠ program.code[s.index]?)
    (hn : (machine program).next? s = some s') : s'.index = s.index + 1 := by
  obtain ⟨op, span, code, move⟩ := move_of_next? hn
  cases move with
  | plain bracket ne copy index guard => exact index
  | enter => rfl
  | skip partner => exact absurd (code.trans (c.of_partner paired code partner).symm) rewritten
  | leave => rfl
  | again partner => exact absurd (code.trans (c.of_partner paired code partner).symm) rewritten
  | rewrite selects => exact absurd code (c.ne_select rewritten span)

end

/-! ## §5. Where a run fails. -/

/-- The command that a run failed at is the one that its last state stands before. -/
theorem fault_of_failed {program : Program} {settings : Settings} {cause : Fault} {site : Site}
    (failed : (program.run settings).ending = .failed cause site) :
    ∃ n op span,
      (machine program).after? n (.initial program settings.input)
          = some (program.run settings).state
        ∧ (program.run settings).state.code[(program.run settings).state.index]?
          = some ⟨op, span⟩
        ∧ site = .range span ∧ Failure program (program.run settings).state op cause := by
  -- A run that fails has completed its course, by an instruction that faults.
  rcases Machine.run_course (machine program) (.ofSettings settings none)
      (.initial program settings.input) with
    ⟨r, ⟨n, t, last, ht, hlast, rfl⟩, eq⟩ | ⟨n, t, op, site', reason, ht, hv, eq⟩
  · unfold Program.run at failed ⊢
    rw [eq] at failed ⊢
    cases hlast with
    | finished hf => cases failed
    | unreadable hf =>
      simp only [machine] at hf
      split at hf <;> cases hf
    | halt hf hx => cases failed
    | @fault op site' cause' hf hx =>
      cases failed
      obtain ⟨span, code, rfl⟩ := fetch_eq_found hf
      exact ⟨n, op, span, ht, code, rfl, failure_of_execute hx⟩
  · unfold Program.run at failed
    rw [eq] at failed
    cases failed

section
variable {program : Program} {settings : Settings} {finding : Finding}

/-- Without a partner fails only a command written in the place of `mOO`. -/
theorem select_of_mismatchedBracket (paired : program.Paired)
    (ends : (program.run settings).ending.finding? Fault.report = some finding)
    (kind : finding.report.kind = .mismatchedBracket) :
    ∃ span, program.code[(program.run settings).state.index]? = some ⟨.select, span⟩
      ∧ finding.site = .range span := by
  rcases Ending.cases_of_finding? ends with ⟨cause, site, failed, rfl⟩ | ⟨reason, site, -, rfl⟩
  · obtain ⟨n, op, span, hs, code, rfl, failure⟩ := fault_of_failed failed
    cases failure with
    | stalled same => cases kind
    | unselectable none => cases kind
    | unpaired bracket alone =>
      exact ⟨span, (confined_of_after? paired hs).of_alone paired code bracket alone, rfl⟩
  · cases reason <;> cases kind

/-- For want of progress fails only the end of a loop of the program. -/
theorem loopClose_of_infiniteLoop (paired : program.Paired)
    (ends : (program.run settings).ending.finding? Fault.report = some finding)
    (kind : finding.report.kind = .infiniteLoop) :
    ∃ span, program.code[(program.run settings).state.index]? = some ⟨.loopClose, span⟩
      ∧ finding.site = .range span := by
  rcases Ending.cases_of_finding? ends with ⟨cause, site, failed, rfl⟩ | ⟨reason, site, -, rfl⟩
  · obtain ⟨n, op, span, hs, code, rfl, failure⟩ := fault_of_failed failed
    cases failure with
    | unselectable none => cases kind
    | unpaired bracket alone => cases kind
    | stalled same =>
      -- What is remembered about the command shows that it has a partner.
      have c := confined_of_after? paired hs
      obtain ⟨first, partner, -⟩ := c.guard _ (by rw [same]; exact nofun)
      exact ⟨span, c.of_partner paired code partner, rfl⟩
  · cases reason <;> cases kind

end

/-! ## §6. Confinement. -/

/-- **What a program does to itself is confined.**  In every reachable state the copy
differs from the program in slots of `mOO` only, a slot that differs is kept for good,
control goes where the program says, and the guard remembers only loops around the
index; no slot is rewritten twice; and a run fails for want of a partner only at a
`mOO` of the program, and for want of progress only at a `moo` of it. -/
theorem selfModification_confined (source : String) (program : Program)
    (parsed : parse source = .ok program) :
    (∀ input n s, (machine program).after? n (.initial program input) = some s →
      Confined program s
        ∧ (∀ (i k : Nat) (t : State), s.code[i]? ≠ program.code[i]? →
            (machine program).after? k s = some t → t.code[i]? = s.code[i]?)
        ∧ ∀ s', (machine program).next? s = some s' →
            Transfer program s s'
              ∧ (s.code[s.index]? ≠ program.code[s.index]? → s'.index = s.index + 1))
      ∧ (∀ input n i, RewritesAt program input n i →
          (∃ span, program.code[i]? = some ⟨.select, span⟩)
            ∧ ∀ k, RewritesAt program input k i → n = k)
      ∧ ∀ settings finding,
          (program.run settings).ending.finding? Fault.report = some finding →
            (finding.report.kind = .mismatchedBracket →
              ∃ span, program.code[(program.run settings).state.index]? = some ⟨.select, span⟩
                ∧ finding.site = .range span)
              ∧ (finding.report.kind = .infiniteLoop →
                ∃ span,
                  program.code[(program.run settings).state.index]? = some ⟨.loopClose, span⟩
                    ∧ finding.site = .range span) := by
  have paired := paired_of_parse parsed
  refine ⟨fun input n s hs => ?_, fun input n i rewrites => ?_, fun settings finding ends => ?_⟩
  · have c := confined_of_after? paired hs
    exact ⟨c, fun i k t rewritten ht => c.kept rewritten ht,
      fun s' hn => ⟨c.transfer paired hn, fun rewritten =>
        c.advance_of_rewritten paired rewritten hn⟩⟩
  · exact ⟨rewrites.parsed paired, fun k again => rewrites.unique paired again⟩
  · exact ⟨select_of_mismatchedBracket paired ends, loopClose_of_infiniteLoop paired ends⟩

/-- In this text `mOO` becomes `MOO` in the first pass of a loop, and fails in the
second for want of a partner. -/
theorem selfModification_confined_written_loop :
    ∃ program finding,
      parse "MoOMoOMoOMoOMoOMoOMoOmoOMoOMoOMOOmOomOOOOOmoOMOomoo" = .ok program
        ∧ (program.run {}).ending.finding? Fault.report = some finding
        ∧ finding.report.kind = .mismatchedBracket
        ∧ ∃ span, program.code[(program.run {}).state.index]? = some ⟨.select, span⟩
          ∧ finding.site = .range span := by
  have fails :
      (((parse "MoOMoOMoOMoOMoOMoOMoOmoOMoOMoOMOOmOomOOOOOmoOMOomoo").toOption.bind
        fun program => (program.run {}).ending.finding? Fault.report).map
          fun finding => finding.report.kind) = some .mismatchedBracket := by
    decide +kernel
  cases read : parse "MoOMoOMoOMoOMoOMoOMoOmoOMoOMoOMOOmOomOOOOOmoOMOomoo" with
  | error malformed =>
    rw [read] at fails
    cases fails
  | ok program =>
    rw [read] at fails
    obtain ⟨finding, ends, kind⟩ := Option.map_eq_some_iff.mp fails
    have confined := selfModification_confined _ program read
    exact ⟨program, finding, rfl, ends, kind, (confined.2.2 {} finding ends).1 kind⟩

end Esolang.Cow
