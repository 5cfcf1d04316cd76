/-
  Esolang.Proofs.Cow.Specialisation
  ─────────────────────────────────
  **SELF-MODIFICATION IS SPECIALISATION.**

  A program whose `mOO` never becomes a loop command could have been written with
  the commands that its `mOO` become.  The run of that other program is the same
  but for the cycles in which a `mOO` is replaced: there the other program stands
  still.

    • `Becomes` — what a `mOO` of the program becomes in its course,
    • `next?_withCode` — a cycle that rewrites nothing does the same with the final
      copy in place of the present one,
    • `completes_withCode` — with the final copy the machine comes to the same end,
      in one cycle less for each slot that is still to be rewritten,
    • `run_specialised` — the two runs of a program.
-/
import Esolang.Proofs.Cow.SelfModification
import Mathlib.Data.Finset.Card
import Mathlib.Data.Finset.Range

namespace Esolang.Cow

open Esolang.Source (Token)
open Esolang.Machine (Input Effect Settings Budget Run)

/-! ## §1. What a `mOO` becomes. -/

/-- The `mOO` in the slot `i` is executed and becomes `op`. -/
def Becomes (program : Program) (input : Input) (i : Nat) (op : Opcode) : Prop :=
  ∃ n s span, (machine program).after? n (.initial program input) = some s
    ∧ s.index = i ∧ s.code[i]? = some ⟨.select, span⟩
    ∧ Opcode.ofCell? s.tape.current = some op

section
variable {program : Program} {s t : State} {i : Nat}

theorem next?_of_select {span : Source.Span} {op : Opcode}
    (code : s.code[s.index]? = some ⟨.select, span⟩)
    (selects : Opcode.ofCell? s.tape.current = some op) :
    (machine program).next? s = some (s.rewrite op) := by
  refine Machine.next?_eq_some.mpr ⟨.select, .range span, ?_, ?_⟩
  · simp only [machine, code]
  · show execute program .select s = _
    simp only [execute, selects]

/-- A slot that changes in the course is a `mOO` that is executed. -/
theorem select_of_changed_after? :
    ∀ {n : Nat} {t : State}, (machine program).after? n s = some t →
      t.code[i]? ≠ s.code[i]? →
      ∃ k u span op, (machine program).after? k s = some u ∧ u.index = i
        ∧ u.code[i]? = some ⟨.select, span⟩ ∧ Opcode.ofCell? u.tape.current = some op
  | 0, t, ht, changed => by
    cases ht
    exact absurd rfl changed
  | n + 1, t, ht, changed => by
    obtain ⟨u, hu, hn⟩ := Machine.after?_succ_last.mp ht
    by_cases earlier : u.code[i]? = s.code[i]?
    · rw [← earlier] at changed
      obtain ⟨here, span, op, code, selects, -⟩ := select_of_changed hn changed
      exact ⟨n, u, span, op, hu, here, code, selects⟩
    · exact select_of_changed_after? hu earlier

end

theorem becomes_of_changed {program : Program} {input : Input} {n i : Nat} {t : State}
    (ht : (machine program).after? n (.initial program input) = some t)
    (changed : t.code[i]? ≠ program.code[i]?) : ∃ op, Becomes program input i op := by
  obtain ⟨k, u, span, op, hu, here, code, selects⟩ := select_of_changed_after? ht changed
  exact ⟨op, k, u, span, hu, here, code, selects⟩

theorem Becomes.ne_select {program : Program} {input : Input} {i : Nat} {op : Opcode}
    (becomes : Becomes program input i op) : op ≠ .select := by
  obtain ⟨_, _, _, _, _, _, selects⟩ := becomes
  exact (Opcode.ofCell?_ne selects).1

/-- What a `mOO` has become is there when the machine comes to its end. -/
theorem Becomes.code {program : Program} {input : Input} {i : Nat} {op : Opcode}
    (becomes : Becomes program input i op) (paired : program.Paired) {n : Nat} {t : State}
    (ht : (machine program).after? n (.initial program input) = some t)
    (stopped : (machine program).next? t = none) :
    ∃ span, program.code[i]? = some ⟨.select, span⟩ ∧ t.code[i]? = some ⟨op, span⟩ := by
  obtain ⟨k, s, span, hs, rfl, code, selects⟩ := becomes
  have goes_on : (machine program).next? s = some (s.rewrite op) := next?_of_select code selects
  have later : (machine program).after? (k + 1) (.initial program input)
      = some (s.rewrite op) := Machine.after?_succ_last.mpr ⟨s, hs, goes_on⟩
  -- The machine goes on from `s` and not from `t`, so `t` comes later.
  have le : k + 1 ≤ n := by
    by_contra more
    obtain ⟨u, hu, hut⟩ := Machine.after?_of_le later (show n ≤ k + 1 by omega)
    rw [ht] at hu
    cases hu
    rw [show k + 1 - n = (k - n) + 1 by omega] at hut
    obtain ⟨t', hn, -⟩ := Machine.after?_succ.mp hut
    rw [stopped] at hn
    cases hn
  obtain ⟨u, hu, hut⟩ := Machine.after?_of_le ht le
  rw [later] at hu
  cases hu
  have written : (s.rewrite op).code[s.index]? = some ⟨op, span⟩ := by
    rw [getElem?_rewrite, if_pos rfl, code]
    rfl
  refine ⟨span, (confined_of_after? paired hs).of_select code, ?_⟩
  rw [← written]
  refine kept_of_after? (fun span' select => ?_) hut
  rw [written] at select
  cases select
  exact (Opcode.ofCell?_ne selects).1 rfl

/-! ## §2. The course with the final copy. -/

/-- The state with another copy of the program. -/
def State.withCode (s : State) (code : Array (Token Opcode)) : State :=
  { s with code }

/-- The effect with another copy of the program. -/
def effectWithCode (code : Array (Token Opcode)) : Effect State Fault → Effect State Fault
  | .next s => .next (s.withCode code)
  | .halt s => .halt (s.withCode code)
  | .fault cause => .fault cause

section
variable {program : Program} {code : Array (Token Opcode)} {s s' t : State}

theorem execute_withCode {op : Opcode} (ne : op ≠ .select) :
    execute program op (s.withCode code) = effectWithCode code (execute program op s) := by
  cases op with
  | select => exact absurd rfl ne
  | loopClose =>
    simp only [execute, State.withCode]
    cases s.guard.arrive s.index s.tape.current with
    | leave guard => rfl
    | stalled => rfl
    | again guard =>
      simp only [State.jump]
      cases program.loops.partner? s.index <;> rfl
  | loopOpen =>
    simp only [execute, State.withCode, State.jump]
    by_cases zero : s.tape.current = 0
    · simp only [zero, if_true]
      cases program.loops.partner? s.index <;> rfl
    · simp only [zero, if_false]
      rfl
  | exchange =>
    simp only [execute, State.exchange, State.withCode]
    by_cases zero : s.tape.current = 0
    · simp only [zero, if_true]
      rfl
    · simp only [zero, if_false]
      rfl
  | register =>
    simp only [execute, State.useRegister, State.withCode]
    cases s.register <;> rfl
  | _ => rfl

/-- A cycle that rewrites nothing does the same with another copy that agrees with
the present one at the index. -/
theorem next?_withCode {op : Opcode} {span : Source.Span} (ne : op ≠ .select)
    (here : s.code[s.index]? = some ⟨op, span⟩) (there : code[s.index]? = s.code[s.index]?)
    (hn : (machine program).next? s = some s') :
    (machine program).next? (s.withCode code) = some (s'.withCode code) := by
  obtain ⟨op', site, hf, hx⟩ := Machine.next?_eq_some.mp hn
  obtain ⟨span', here', rfl⟩ := fetch_eq_found hf
  rw [here] at here'
  cases here'
  refine Machine.next?_eq_some.mpr ⟨op, .range span, ?_, ?_⟩
  · simp only [machine, State.withCode, there, here]
  · have executed : execute program op s = .next s' := hx
    show execute program op (s.withCode code) = _
    rw [execute_withCode ne, executed]
    rfl

/-- The slots in which a copy differs from the present one. -/
def pendingSlots (code : Array (Token Opcode)) (s : State) : Finset Nat :=
  {i ∈ Finset.range code.size | code[i]? ≠ s.code[i]?}

theorem mem_pendingSlots {i : Nat} (size : code.size = s.code.size) :
    i ∈ pendingSlots code s ↔ code[i]? ≠ s.code[i]? := by
  simp only [pendingSlots, Finset.mem_filter, Finset.mem_range, and_iff_right_iff_imp]
  intro differs
  by_contra outside
  rw [Array.getElem?_eq_none (by omega), Array.getElem?_eq_none (by omega)] at differs
  exact differs rfl

theorem pendingSlots_self (s : State) : pendingSlots s.code s = ∅ := by
  simp [pendingSlots]

/-- Rewriting a slot as in the final copy settles this slot. -/
theorem card_pendingSlots_rewrite {selected : Opcode} {span : Source.Span}
    (ne : selected ≠ .select) (here : s.code[s.index]? = some ⟨.select, span⟩)
    (there : code[s.index]? = some ⟨selected, span⟩) :
    (pendingSlots code s).card = (pendingSlots code (s.rewrite selected)).card + 1 := by
  have inside : s.index < code.size := (Array.getElem?_eq_some_iff.mp there).1
  have settled : s.index ∉ pendingSlots code (s.rewrite selected) := by
    simp only [pendingSlots, Finset.mem_filter, not_and, not_not]
    intro _
    rw [getElem?_rewrite, if_pos rfl, here, there]
    rfl
  -- The other slots are pending in both states, or in none.
  rw [← Finset.card_insert_of_notMem settled]
  congr 1
  ext i
  simp only [pendingSlots, Finset.mem_filter, Finset.mem_insert, Finset.mem_range,
    getElem?_rewrite]
  by_cases at_index : s.index = i
  · subst at_index
    simp only [here, there, inside, true_and, true_or, iff_true]
    intro same
    cases same
    exact ne rfl
  · simp only [if_neg at_index, Ne.symm at_index, false_or]

end

/-- **With the final copy the machine comes to the same end**, in one cycle less for
each slot that is still to be rewritten. -/
theorem completes_withCode {program : Program} {last : Run State Fault} {t : State}
    (hlast : (machine program).Stops t last) :
    ∀ {n : Nat} {s : State}, (machine program).after? n s = some t →
      ∃ r, (machine program).Completes (s.withCode t.code) r ∧ r.state = last.state
        ∧ r.ending = last.ending
        ∧ r.cycles + (pendingSlots t.code s).card = n + last.cycles
  | 0, s, ht => by
    cases ht
    exact ⟨last, .of_stops hlast, rfl, rfl, by rw [pendingSlots_self]; simp⟩
  | n + 1, s, ht => by
    obtain ⟨s', hn, ht'⟩ := Machine.after?_succ.mp ht
    obtain ⟨r, completes, state, ending, cycles⟩ := completes_withCode hlast ht'
    obtain ⟨op, span, here, move⟩ := move_of_next? hn
    by_cases select : op = .select
    · -- The other program stands still: it has the replacement already.
      subst select
      cases move with
      | plain bracket ne => exact absurd rfl ne
      | @rewrite selected selects =>
        have ne := (Opcode.ofCell?_ne selects).1
        have written : (s.rewrite selected).code[s.index]? = some ⟨selected, span⟩ := by
          rw [getElem?_rewrite, if_pos rfl, here]
          rfl
        have there : t.code[s.index]? = some ⟨selected, span⟩ := by
          rw [← written]
          refine kept_of_after? (fun span' holds => ?_) ht'
          rw [written] at holds
          cases holds
          exact ne rfl
        refine ⟨r, completes, state, ending, ?_⟩
        rw [card_pendingSlots_rewrite ne here there]
        omega
    · -- Both take a cycle, and no slot changes.
      have there : t.code[s.index]? = s.code[s.index]? := by
        refine kept_of_after? (fun span' holds => ?_) ht
        rw [here] at holds
        cases holds
        exact select rfl
      have same : s'.code = s.code := by
        cases move with
        | plain bracket ne copy => exact copy
        | rewrite selects => exact absurd rfl select
        | _ => rfl
      refine ⟨r.delay 1, completes.of_next (next?_withCode select here there hn), state,
        ending, ?_⟩
      rw [pendingSlots, same] at cycles
      rw [Run.cycles_delay, pendingSlots]
      omega

/-! ## §3. The specialised program. -/

theorem Opcode.bracket?_eq_none {op : Opcode} (h : op ≠ .loopOpen ∧ op ≠ .loopClose) :
    op.bracket? = none := by
  cases op with
  | loopOpen => exact absurd rfl h.1
  | loopClose => exact absurd rfl h.2
  | _ => rfl

theorem execute_of_loops {p q : Program} (loops : p.loops = q.loops) (op : Opcode) (s : State) :
    execute p op s = execute q op s := by
  cases op <;> simp only [execute, State.jump, loops]

/-- The machine looks at the copy in its state, and of the program at its loops only. -/
theorem machine_of_loops {p q : Program} (loops : p.loops = q.loops) :
    machine p = machine q := by
  have same : execute p = execute q := by
    funext op s
    exact execute_of_loops loops op s
  unfold machine
  rw [same]

section
variable {program : Program} {input : Input} {n : Nat} {t : State}

/-- At the end of the course the slots that have become something are those that are
not as in the program. -/
theorem changed_iff_becomes (paired : program.Paired)
    (ht : (machine program).after? n (.initial program input) = some t)
    (stopped : (machine program).next? t = none) (i : Nat) :
    t.code[i]? ≠ program.code[i]? ↔ ∃ op, Becomes program input i op := by
  constructor
  · exact becomes_of_changed ht
  · rintro ⟨op, becomes⟩ same
    obtain ⟨span, before, after⟩ := becomes.code paired ht stopped
    rw [before, after] at same
    cases same
    exact becomes.ne_select rfl

/-- If nothing has become a loop command, the copy at the end of the course has the
loops of the program. -/
theorem pair_of_loopless (paired : program.Paired)
    (ht : (machine program).after? n (.initial program input) = some t)
    (stopped : (machine program).next? t = none)
    (loopless : ∀ i op, Becomes program input i op → op ≠ .loopOpen ∧ op ≠ .loopClose) :
    pair t.code.toList = pair program.code.toList := by
  unfold pair
  congr 1
  refine Loop.brackets_congr (List.ext_getElem? fun i => ?_)
  simp only [List.getElem?_map, Array.getElem?_toList, Option.map_map]
  by_cases kept : t.code[i]? = program.code[i]?
  · rw [kept]
  · -- Neither `mOO` nor what it has become is an end of a loop.
    obtain ⟨op, becomes⟩ := (changed_iff_becomes paired ht stopped i).mp kept
    obtain ⟨span, before, after⟩ := becomes.code paired ht stopped
    have written : op.bracket? = none := Opcode.bracket?_eq_none (loopless i op becomes)
    rw [before, after]
    simp only [Option.map_some, Function.comp_apply, written]
    rfl

end

/-- **A program whose `mOO` becomes no loop command runs as the program with the
commands that its `mOO` become.**  That is a program with the same loops; its run ends
in the same state and in the same way, in one cycle less for each `mOO` that becomes
something. -/
theorem run_specialised (source : String) (program : Program) (settings : Settings)
    (parsed : parse source = .ok program) (quiet : settings.Quiet)
    (finite : ∀ reason site, (program.run settings).ending ≠ .exhausted reason site)
    (loopless : ∀ i op, Becomes program settings.input i op →
      op ≠ .loopOpen ∧ op ≠ .loopClose) :
    ∃ (special : Program) (rewritten : Finset Nat),
      (∀ i, i ∈ rewritten ↔ ∃ op, Becomes program settings.input i op)
        ∧ special.code.size = program.code.size
        ∧ (∀ i, i ∉ rewritten → special.code[i]? = program.code[i]?)
        ∧ (∀ i op, Becomes program settings.input i op →
            ∃ span, program.code[i]? = some ⟨.select, span⟩
              ∧ special.code[i]? = some ⟨op, span⟩)
        ∧ pair special.code.toList = .ok special.loops
        ∧ (special.run settings).state = (program.run settings).state
        ∧ (special.run settings).ending = (program.run settings).ending
        ∧ (special.run settings).cycles + rewritten.card = (program.run settings).cycles := by
  have paired := paired_of_parse parsed
  have steady : (machine program).Steady := fun _ => rfl
  -- A quiet run that is not exhausted takes the whole course.
  rcases Machine.run_quiet steady (quiet.ofSettings none) (Nat.zero_le _)
      (.initial program settings.input) with
    ⟨_, ⟨n, t, last, ht, hlast, rfl⟩, fits, run_eq⟩ | ⟨t, op, site, -, -, run_eq⟩
  swap
  · exact absurd (congrArg Run.ending run_eq) (finite _ _)
  have stopped := hlast.next?_eq_none
  have size := (confined_of_after? paired ht).size
  have program_run : program.run settings = last.delay n :=
    run_eq.trans (last.delay n).delay_zero
  obtain ⟨r, completes, state, ending, cycles⟩ := completes_withCode hlast ht
  have special_run : Program.run ⟨t.code, program.loops⟩ settings = r := by
    have same : machine ⟨t.code, program.loops⟩ = machine program := machine_of_loops rfl
    have fits' : (Budget.ofSettings settings none).cycles + r.cycles
        ≤ (Budget.ofSettings settings none).limit := by
      rw [Run.cycles_delay] at fits
      omega
    unfold Program.run
    rw [same]
    exact (Machine.run_completes steady (quiet.ofSettings none) completes fits').trans
      r.delay_zero
  refine ⟨⟨t.code, program.loops⟩, pendingSlots t.code (.initial program settings.input),
    fun i => (mem_pendingSlots size).trans (changed_iff_becomes paired ht stopped i), size,
    fun i outside => ?_, fun i op becomes => becomes.code paired ht stopped, ?_, ?_, ?_, ?_⟩
  · by_contra changed
    exact outside ((mem_pendingSlots size).mpr changed)
  · rw [pair_of_loopless paired ht stopped loopless, pair_of_parse parsed]
  · rw [special_run, program_run, state, Run.state_delay]
  · rw [special_run, program_run, ending, Run.ending_delay]
  · rw [special_run, program_run, cycles, Run.cycles_delay]

/-- In this text `mOO` becomes `MoO` in the first pass of a loop, and is `MoO` in the
second. -/
theorem run_specialised_persisting :
    ∃ (program special : Program) (rewritten : Finset Nat),
      parse "MoOMoOMOOmoOMoOMoOMoOMoOMoOMoOmOOmOoMOomoo" = .ok program
        ∧ 10 ∈ rewritten ∧ pair special.code.toList = .ok special.loops
        ∧ (special.run {}).state = (program.run {}).state
        ∧ (special.run {}).cycles + rewritten.card = (program.run {}).cycles := by
  -- The run takes 26 cycles, and what has become of the one `mOO` is seen at its end.
  have checked :
      (parse "MoOMoOMOOmoOMoOMoOMoOMoOMoOMoOmOOmOoMOomoo").toOption.any (fun program =>
        decide ((program.run {}).ending = .halted)
          && ((machine program).after? 26 (.initial program ⟨[]⟩)).any fun t =>
            ((machine program).next? t).isNone
              && decide (t.code[10]? ≠ program.code[10]?)
              && decide (∀ i < program.code.size,
                program.code[i]?.map Token.symbol = some .select →
                  t.code[i]?.map Token.symbol = some .increment)) = true := by
    decide +kernel
  cases read : parse "MoOMoOMOOmoOMoOMoOMoOMoOMoOMoOmOOmOoMOomoo" with
  | error malformed =>
    rw [read] at checked
    cases checked
  | ok program =>
    simp only [read, Except.toOption, Option.any_some, Bool.and_eq_true, decide_eq_true_eq,
      Option.any_eq_true, Option.isNone_iff_eq_none] at checked
    obtain ⟨halted, t, ht, ⟨stopped, changed⟩, becomes_increment⟩ := checked
    have paired := paired_of_parse read
    have loopless : ∀ i op, Becomes program ⟨[]⟩ i op → op ≠ .loopOpen ∧ op ≠ .loopClose := by
      intro i op becomes
      obtain ⟨span, before, after⟩ := becomes.code paired ht stopped
      have inside : i < program.code.size := (Array.getElem?_eq_some_iff.mp before).1
      have eq := becomes_increment i inside (by rw [before]; rfl)
      rw [after] at eq
      cases eq
      exact ⟨nofun, nofun⟩
    obtain ⟨special, rewritten, mem, -, -, -, loops, state, -, cycles⟩ :=
      run_specialised _ program {} read ⟨nofun, nofun⟩ (by rw [halted]; exact nofun) loopless
    exact ⟨program, special, rewritten, rfl, (mem 10).mpr (becomes_of_changed ht changed),
      loops, state, cycles⟩

end Esolang.Cow
