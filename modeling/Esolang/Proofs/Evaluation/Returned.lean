/-
  Esolang.Proofs.Evaluation.Returned
  ──────────────────────────────────
  **THE TAPE THAT A PROGRAM RETURNS.**

  A cycle of a machine with a tape leaves the tape alone or performs one operation on it.
  So the tape of every state of a run is what some operations make of a blank tape, and
  the places that the cursor has come to in the run are those that it comes to on the
  walk of these operations.

    • `Plays.exists_operations` — the operations behind a state, with the places reached,
    • `Brainfuck.plays_machine`, `Cow.plays_machine` — one cycle of the two machines,
    • `Engine.exists_tape` — an engine that leaves a tape is a machine that plays on it,
    • `exists_operations` — and so it is made by operations that come to the same places,
    • **`tape_returned`** — it has one entry for each cell up to the rightmost one visited.
-/
import Esolang.Proofs.Cow.SelfModification
import Esolang.Proofs.Evaluation.Engine
import Esolang.Proofs.Machine.Agreement
import Esolang.Proofs.Memory.Window

namespace Esolang

open Esolang.Machine (Settings Budget Effect)
open Esolang.Memory (Tape Operation walk)

/-! ## §1. Machines with a tape. -/

namespace Machine

variable {σ ι ε : Type}

/-- Each cycle leaves the tape alone or performs one operation on it. -/
def Plays (m : Machine σ ι ε) (tape : σ → Tape) : Prop :=
  ∀ s s', m.next? s = some s' → tape s' = tape s ∨ ∃ op, tape s' = (tape s).perform op

/-- The places at which the cursor stands in the first `n` cycles, and behind them. -/
def placesUpTo (m : Machine σ ι ε) (tape : σ → Tape) (s : σ) (n : Nat) : Set Nat :=
  {place | ∃ k u, k ≤ n ∧ m.after? k s = some u ∧ (tape u).cursor = place}

/-- One cycle more comes to the place of the cursor behind it. -/
theorem placesUpTo_succ {m : Machine σ ι ε} {tape : σ → Tape} {s t : σ} {n : Nat}
    (ht : m.after? (n + 1) s = some t) :
    m.placesUpTo tape s (n + 1) = insert (tape t).cursor (m.placesUpTo tape s n) := by
  ext place
  constructor
  · intro mem
    obtain ⟨k, u, le, hu, stands⟩ := mem
    by_cases last : k = n + 1
    · subst last
      rw [ht] at hu
      cases hu
      exact .inl stands.symm
    · exact .inr ⟨k, u, by omega, hu, stands⟩
  · intro mem
    rcases mem with here | ⟨k, u, le, hu, stands⟩
    · exact ⟨n + 1, t, Nat.le_refl _, ht, here.symm⟩
    · exact ⟨k, u, by omega, hu, stands⟩

/-- **Behind every state are operations that make its tape of a blank one**, and their
walk comes to the places to which the machine has come. -/
theorem Plays.exists_operations {m : Machine σ ι ε} {tape : σ → Tape} (plays : m.Plays tape)
    {s : σ} (blank : tape s = .blank) {n : Nat} :
    ∀ {t : σ}, m.after? n s = some t →
      ∃ ops, tape t = .after ops ∧ m.placesUpTo tape s n = Tape.reached ops := by
  induction n with
  | zero =>
    -- Before the first cycle the cursor has come to the first place and to no other.
    intro t ht
    cases ht
    refine ⟨[], blank, ?_⟩
    ext place
    constructor
    · intro mem
      obtain ⟨k, u, le, hu, stands⟩ := mem
      obtain rfl : k = 0 := by omega
      cases hu
      rw [blank] at stands
      exact ⟨[], List.nil_prefix, congrArg Nat.cast stands⟩
    · intro mem
      obtain ⟨before, pre, stands⟩ := mem
      rw [List.prefix_nil.mp pre] at stands
      refine ⟨0, s, Nat.le_refl 0, rfl, ?_⟩
      rw [blank]
      exact Int.natCast_inj.mp stands
  | succ n ih =>
    intro t ht
    obtain ⟨u, hu, hn⟩ := after?_succ_last.mp ht
    obtain ⟨ops, made, places⟩ := ih hu
    rw [placesUpTo_succ ht, places]
    rcases plays u t hn with same | ⟨op, performed⟩
    · -- The cursor stays where the walk has led it.
      refine ⟨ops, same.trans made, ?_⟩
      have already : (tape t).cursor ∈ Tape.reached ops := by
        rw [same, made]
        exact ⟨ops, List.prefix_refl ops, (Tape.cursor_after ops).symm⟩
      exact Set.insert_eq_of_mem already
    · -- The walk goes on by one operation, to where the cursor is now.
      have made' : tape t = .after (ops ++ [op]) := by rw [performed, made, Tape.after_concat]
      refine ⟨ops ++ [op], made', ?_⟩
      rw [Tape.reached_concat, made']

/-- The places at which the cursor stands in the states of a run. -/
def visited (m : Machine σ ι ε) (tape : σ → Tape) (b : Budget) (s : σ) : Set Nat :=
  {place | ∃ n t, m.Reaches b s n t ∧ (tape t).cursor = place}

/-- Behind the last state of a run are operations whose walk comes to the places that the
run has come to. -/
theorem Plays.exists_operations_run {m : Machine σ ι ε} {tape : σ → Tape} (plays : m.Plays tape)
    (still : m.Still) (b : Budget) {s : σ} (blank : tape s = .blank) :
    ∃ ops, tape (m.run b s).state = .after ops ∧ m.visited tape b s = Tape.reached ops := by
  obtain ⟨n, reached, latest, -⟩ := exists_last still b s
  obtain ⟨ops, made, places⟩ := plays.exists_operations blank reached.1
  refine ⟨ops, made, ?_⟩
  -- A run comes to the states of its first `n` cycles and to no later one.
  rw [← places]
  ext place
  constructor
  · intro mem
    obtain ⟨k, u, reached', stands⟩ := mem
    exact ⟨k, u, latest k u reached', reached'.1, stands⟩
  · intro mem
    obtain ⟨k, u, le, hu, stands⟩ := mem
    have within := reached.2
    exact ⟨k, u, ⟨hu, by omega⟩, stands⟩

/-- A machine that never halts by executing does not change its state when it stops. -/
theorem still_of_execute {m : Machine σ ι ε}
    (goesOn : ∀ instr s s', m.execute instr s ≠ .halt s') : m.Still := by
  intro s last stops
  cases stops with
  | finished fetched => rfl
  | unreadable fetched => rfl
  | halt fetched executed => exact absurd executed (goesOn _ _ _)
  | fault fetched executed => rfl

end Machine

/-! ## §2. The two machines with a tape. -/

namespace Brainfuck

variable {program : Program}

/-- An instruction leaves the tape alone or performs one operation on it. -/
theorem tape_of_execute {instr : Instr} {s s' : State}
    (h : execute program instr s = .next s') :
    s'.tape = s.tape ∨ ∃ op, s'.tape = s.tape.perform op := by
  cases instr with
  | right =>
    cases h
    exact .inr ⟨.right, rfl⟩
  | left =>
    cases h
    exact .inr ⟨.left, rfl⟩
  | increment =>
    cases h
    exact .inr ⟨.increment, rfl⟩
  | decrement =>
    cases h
    exact .inr ⟨.decrement, rfl⟩
  | output =>
    cases h
    exact .inl rfl
  | input =>
    cases h
    exact .inr ⟨.write _, rfl⟩
  | loopOpen =>
    unfold execute at h
    cases h
    left
    split <;> rfl
  | loopClose =>
    unfold execute at h
    dsimp only at h
    split at h <;> cases h
    · exact .inl rfl
    · exact .inl rfl

theorem plays_machine (program : Program) : (machine program).Plays State.tape := by
  intro s s' hn
  obtain ⟨instr, site, -, executed⟩ := Machine.next?_eq_some.mp hn
  exact tape_of_execute executed

theorem still_machine (program : Program) : (machine program).Still := by
  apply Machine.still_of_execute
  intro instr s s' executed
  cases instr with
  | loopClose =>
    unfold machine execute at executed
    dsimp only at executed
    split at executed <;> cases executed
  | _ => cases executed

end Brainfuck

namespace Cow

variable {program : Program}

/-- A command leaves the tape alone or performs one operation on it. -/
theorem tape_of_execute {op : Opcode} {s s' : State} (h : execute program op s = .next s') :
    s'.tape = s.tape ∨ ∃ op, s'.tape = s.tape.perform op := by
  cases op with
  | left =>
    cases h
    exact .inr ⟨.left, rfl⟩
  | right =>
    cases h
    exact .inr ⟨.right, rfl⟩
  | increment =>
    cases h
    exact .inr ⟨.increment, rfl⟩
  | decrement =>
    cases h
    exact .inr ⟨.decrement, rfl⟩
  | zero | readInt =>
    cases h
    exact .inr ⟨.write _, rfl⟩
  | printInt =>
    cases h
    exact .inl rfl
  | exchange =>
    cases h
    show s.exchange.tape = s.tape ∨ ∃ op, s.exchange.tape = s.tape.perform op
    unfold State.exchange
    split
    · exact .inr ⟨.write _, rfl⟩
    · exact .inl rfl
  | register =>
    cases h
    show s.useRegister.tape = s.tape ∨ ∃ op, s.useRegister.tape = s.tape.perform op
    unfold State.useRegister
    split
    · exact .inr ⟨.write _, rfl⟩
    · exact .inl rfl
  | select =>
    unfold execute at h
    dsimp only at h
    split at h <;> cases h
    exact .inl rfl
  | loopOpen =>
    unfold execute at h
    dsimp only at h
    split at h
    · obtain ⟨j, -, rfl⟩ := jump_eq_next.mp h
      exact .inl rfl
    · cases h
      exact .inl rfl
  | loopClose =>
    unfold execute at h
    dsimp only at h
    split at h
    · cases h
      exact .inl rfl
    · obtain ⟨j, -, rfl⟩ := jump_eq_next.mp h
      exact .inl rfl
    · cases h

theorem plays_machine (program : Program) : (machine program).Plays State.tape := by
  intro s s' hn
  obtain ⟨op, site, -, executed⟩ := Machine.next?_eq_some.mp hn
  exact tape_of_execute executed

theorem jump_ne_halt (op : Opcode) (s s' : State) : s.jump program op ≠ .halt s' := by
  unfold State.jump
  split <;> exact nofun

theorem still_machine (program : Program) : (machine program).Still := by
  apply Machine.still_of_execute
  intro op s s' executed
  replace executed : execute program op s = .halt s' := executed
  cases op with
  | loopClose =>
    unfold execute at executed
    dsimp only at executed
    split at executed
    · cases executed
    · exact jump_ne_halt _ _ _ executed
    · cases executed
  | loopOpen =>
    unfold execute at executed
    dsimp only at executed
    split at executed
    · exact jump_ne_halt _ _ _ executed
    · cases executed
  | select =>
    unfold execute at executed
    dsimp only at executed
    split at executed <;> cases executed
  | _ => cases executed

end Cow

/-! ## §3. Places that a run comes to. -/

/-- The places that the cursor comes to when a program is run. -/
def Brainfuck.Program.places (program : Brainfuck.Program) (settings : Settings) : Set Nat :=
  (Brainfuck.machine program).visited Brainfuck.State.tape (.ofSettings settings none)
    (.initial settings.input)

/-- The places that the cursor comes to when a program is run. -/
def Cow.Program.places (program : Cow.Program) (settings : Settings) : Set Nat :=
  (Cow.machine program).visited Cow.State.tape (.ofSettings settings none)
    (.initial program settings.input)

/-- The run of a text in a language with a tape comes to this place. -/
inductive Visits (source : String) (settings : Settings) : Language → Nat → Prop where
  | brainfuck {program : Brainfuck.Program} {place : Nat}
      (parsed : Brainfuck.parse source = .ok program) (visited : place ∈ program.places settings) :
      Visits source settings .brainfuck place
  | cow {program : Cow.Program} {place : Nat} (parsed : Cow.parse source = .ok program)
      (visited : place ∈ program.places settings) : Visits source settings .cow place

/-! ## §4. Tapes that are returned. -/

/-- The machine of the engine plays on this tape, which is blank at first. -/
structure Engine.PlaysOn (e : Engine) (tape : e.State → Tape) : Prop where
  /-- Each cycle leaves the tape alone or performs one operation on it. -/
  plays : e.machine.Plays tape
  /-- The machine does not change its state when it stops. -/
  still : e.machine.Still
  /-- A run begins with a blank tape. -/
  blank : tape e.start = .blank

/-- A run that gives an evaluation gives the one of its last state. -/
theorem Engine.evaluation_of_outcome {e : Engine} {r : Machine.Run e.State e.Cause}
    {evaluation : Evaluation} (given : e.outcome r = .ok evaluation) :
    e.evaluation r.state = evaluation := by
  unfold outcome Machine.Run.result at given
  split at given <;> cases given
  rfl

/-- A program that is evaluated was loaded, and what it gives is the evaluation of the last
state of its run. -/
theorem exists_engine {language : Language} {source : String} {settings : Settings}
    {evaluation : Evaluation} (evaluated : evaluate language source settings = .ok evaluation) :
    ∃ e, Engine.load language source settings.input settings.draws = .ok e
      ∧ e.evaluation (e.run settings).state = evaluation := by
  cases loaded : Engine.load language source settings.input settings.draws with
  | error finding =>
    rw [evaluate_of_load_error loaded] at evaluated
    cases evaluated
  | ok e =>
    rw [evaluate_of_load_ok loaded] at evaluated
    cases given : e.outcome (e.run settings) with
    | error finding =>
      rw [given] at evaluated
      cases evaluated
    | ok evaluation =>
      rw [given] at evaluated
      cases evaluated
      exact ⟨e, rfl, Engine.evaluation_of_outcome given⟩

/-- **An engine that leaves a tape plays on it**, and comes to the places to which its
program comes. -/
theorem Engine.exists_tape {language : Language} {source : String} {settings : Settings}
    {e : Engine} {cells : List UInt8}
    (loaded : Engine.load language source settings.input settings.draws = .ok e)
    (left : (e.evaluation (e.run settings).state).remains = .tape cells) :
    ∃ tape : e.State → Tape, e.PlaysOn tape ∧ (tape (e.run settings).state).cells = cells
      ∧ {place | Visits source settings language place}
        = e.machine.visited tape (e.budget settings) e.start := by
  unfold Engine.load at loaded
  -- Two languages leave a tape.  A text is parsed in one way, so no other run is meant.
  cases language with
  | brainfuck =>
    cases parsed : Brainfuck.parse source <;> rw [parsed] at loaded <;> cases loaded
    cases left
    refine ⟨Brainfuck.State.tape,
      ⟨Brainfuck.plays_machine _, Brainfuck.still_machine _, rfl⟩, rfl, ?_⟩
    ext place
    constructor
    · intro visits
      cases visits with
      | brainfuck parsed' visited =>
        cases parsed.symm.trans parsed'
        exact visited
    · exact .brainfuck parsed
  | cow =>
    cases parsed : Cow.parse source <;> rw [parsed] at loaded <;> cases loaded
    cases left
    refine ⟨Cow.State.tape, ⟨Cow.plays_machine _, Cow.still_machine _, rfl⟩, rfl, ?_⟩
    ext place
    constructor
    · intro visits
      cases visits with
      | cow parsed' visited =>
        cases parsed.symm.trans parsed'
        exact visited
    · exact .cow parsed
  | befunge =>
    cases refused : Befunge.refusal? source <;> rw [refused] at loaded <;> cases loaded
    cases left
  | whitespace =>
    cases loaded
    cases left

/-- **A tape that is returned is made by operations that come to the places of the run.** -/
theorem exists_operations {language : Language} {source output : String} {settings : Settings}
    {cells : List UInt8}
    (evaluated : evaluate language source settings = .ok ⟨language, output, .tape cells⟩) :
    ∃ ops, cells = (Tape.after ops).cells
      ∧ {place | Visits source settings language place} = Tape.reached ops := by
  obtain ⟨e, loaded, left⟩ := exists_engine evaluated
  obtain ⟨tape, playsOn, same, visits⟩ := Engine.exists_tape loaded (congrArg (·.remains) left)
  obtain ⟨ops, made, places⟩ :=
    playsOn.plays.exists_operations_run playsOn.still (e.budget settings) playsOn.blank
  refine ⟨ops, ?_, visits.trans places⟩
  rw [← same]
  exact congrArg Tape.cells made

/-- **A tape is a window of an endless one, and the tape that a program returns has one
entry for each cell up to the rightmost one visited.** -/
theorem tape_returned :
    (∀ ops, Tape.Window ops)
      ∧ ∀ language source settings output cells,
          evaluate language source settings = .ok ⟨language, output, .tape cells⟩ →
          (∃ ops, cells = (Tape.after ops).cells
            ∧ {place | Visits source settings language place} = Tape.reached ops)
          ∧ ∃ rightmost, IsGreatest {place | Visits source settings language place} rightmost
            ∧ cells.length = 1 + rightmost := by
  refine ⟨Tape.window, ?_⟩
  intro language source settings output cells evaluated
  have made := exists_operations evaluated
  refine ⟨made, ?_⟩
  obtain ⟨ops, eq, places⟩ := made
  rw [eq, places]
  exact (Tape.window ops).length

/-- A COW program that reads nothing, goes two cells to the right and one back: the tape it
returns has a third entry. -/
theorem tape_returned_behind_cursor :
    evaluate .cow "moO MoO moO mOo" {} = .ok ⟨.cow, "", .tape [0, 1, 0]⟩
      ∧ ∃ rightmost, IsGreatest {place | Visits "moO MoO moO mOo" {} .cow place} rightmost
        ∧ 3 = 1 + rightmost := by
  have evaluated : evaluate .cow "moO MoO moO mOo" {} = .ok ⟨.cow, "", .tape [0, 1, 0]⟩ := by
    decide +kernel
  exact ⟨evaluated, (tape_returned.2 _ _ _ _ _ evaluated).2⟩

end Esolang
