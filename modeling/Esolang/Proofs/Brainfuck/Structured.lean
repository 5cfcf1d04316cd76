/-
  Esolang.Proofs.Brainfuck.Structured
  ───────────────────────────────────
  **JUMPS ARE STRUCTURED LOOPS.**

  The machine has a flat program, a pairing to jump by and one guard for all loops.
  A structured run has none of these: it walks over a block, and a loop keeps the
  cell of its previous pass for itself while it is being repeated.

    • `Stretch.passes` — the passes of one activation of a loop,
    • `Block.run` — a structured run of a block,
    • `resume_eq_stretch` — from the start of a block the machine runs as the block
      does and goes on behind it, with the guard that it had at the start,
    • `within_of_after?` — the guard remembers only loops around the instruction,
    • `run_structured` — the two runs of a balanced source text are the same.
-/
import Esolang.Proofs.Brainfuck.Block
import Esolang.Proofs.Machine.Course
import Esolang.Brainfuck.Machine

namespace Esolang.Brainfuck

open Esolang.Source (Span Token)
open Esolang.Diagnostic (Site Report)
open Esolang.Loop (Pairing Guard Stall brackets)
open Esolang.Machine (Input Effect Settings Budget Run)
open Esolang.Memory (Tape)

/-! ## §1. Structured runs. -/

/-- What a program works on. -/
structure Store where
  tape : Tape
  input : Input
  output : String

/-- The store in which a run begins. -/
def Store.initial (input : Input) : Store :=
  ⟨.blank, input, ""⟩

/-- What an action does to the store. -/
def Action.apply : Action → Store → Store
  | .right, s => { s with tape := s.tape.moveRight }
  | .left, s => { s with tape := s.tape.moveLeft }
  | .increment, s => { s with tape := s.tape.increment }
  | .decrement, s => { s with tape := s.tape.decrement }
  | .output, s => { s with output := s.output.push s.tape.glyph }
  | .input, s =>
    let (byte, rest) := s.input.readByte
    { s with tape := s.tape.write (byte.getD 0), input := rest }

/-- How far a run has come: its budget and its store. -/
structure Progress where
  budget : Budget
  store : Store

/-- The progress of a run that goes on, or a run that has come to its end. -/
abbrev Outcome :=
  Except (Run Store Stall) Progress

namespace Progress

/-- Cycles that may still be taken. -/
def remaining (p : Progress) : Nat :=
  p.budget.limit - p.budget.cycles

/-- Begins the cycle of the instruction at `site`. -/
def tick (site : Site) (p : Progress) : Outcome :=
  match p.budget.tick with
  | .ok budget => .ok { p with budget }
  | .error (reason, budget) => .error ⟨p.store, budget.cycles, .exhausted reason site⟩

/-- A tick that succeeds leaves fewer cycles. -/
theorem remaining_of_tick {site : Site} {p q : Progress} (h : p.tick site = .ok q) :
    q.remaining < p.remaining := by
  unfold tick at h
  split at h
  · next budget ticked =>
    cases h
    exact Budget.tick_lt ticked
  · cases h

end Progress

/-- What is done in two steps succeeds if both do. -/
theorem Outcome.bind_eq_ok {o : Outcome} {next : Progress → Outcome} {q : Progress} :
    o >>= next = .ok q ↔ ∃ p, o = .ok p ∧ next p = .ok q := by
  cases o <;> simp [bind, Except.bind]

/-- A stretch of a run, which never adds to the cycles that remain. -/
structure Stretch where
  /-- What becomes of the progress so far. -/
  run : Progress → Outcome
  /-- The cycles taken are not given back. -/
  remaining_le : ∀ {p q}, run p = .ok q → q.remaining ≤ p.remaining

namespace Stretch

/-- Nothing is done. -/
def skip : Stretch where
  run := .ok
  remaining_le h := by
    cases h
    exact Nat.le_refl _

/-- One action. -/
def act (action : Action) (span : Span) : Stretch where
  run p := do
    let q ← p.tick (.range span)
    .ok { q with store := action.apply q.store }
  remaining_le h := by
    obtain ⟨p', ticked, hq⟩ := Outcome.bind_eq_ok.mp h
    have lt := Progress.remaining_of_tick ticked
    cases hq
    exact Nat.le_of_lt lt

/-- One stretch, then another. -/
def seq (first second : Stretch) : Stretch where
  run p := first.run p >>= second.run
  remaining_le h := by
    obtain ⟨p', hp, hq⟩ := Outcome.bind_eq_ok.mp h
    exact Nat.le_trans (second.remaining_le hq) (first.remaining_le hp)

/-- One pass of a loop over its body, up to the decision at its end. -/
def pass (body : Stretch) (last : Span) (p : Progress) : Outcome :=
  body.run p >>= Progress.tick (.range last)

/-- A pass of a loop takes at least the tick of its end. -/
theorem remaining_of_pass {body : Stretch} {last : Span} {p q : Progress}
    (h : body.pass last p = .ok q) : q.remaining < p.remaining := by
  obtain ⟨p', hp, hq⟩ := Outcome.bind_eq_ok.mp h
  exact Nat.lt_of_lt_of_le (Progress.remaining_of_tick hq) (body.remaining_le hp)

/-- The passes of a loop, when the previous one ended with the cell `previous`.  At
the end of a pass the loop is left if the cell is zero, it fails if the cell is what
it was at the end of the previous pass, and otherwise the next pass begins. -/
def passes (body : Stretch) (last : Span) (previous : Option UInt8) (p : Progress) : Outcome :=
  match _passed : body.pass last p with
  | .error r => .error r
  | .ok q =>
    let cell := q.store.tape.current
    if cell = 0 then .ok q
    else if previous = some cell then
      .error ⟨q.store, q.budget.cycles, .failed ⟨q.store.tape.cursor, cell⟩ (.range last)⟩
    else passes body last (some cell) q
termination_by p.remaining
decreasing_by
  exact remaining_of_pass _passed

/-- The passes of a loop: one of them, and then the others, unless the cell is zero or what it was
before. -/
theorem passes_eq (body : Stretch) (last : Span) (previous : Option UInt8) (p : Progress) :
    body.passes last previous p = body.pass last p >>= fun q =>
      let cell := q.store.tape.current
      if cell = 0 then .ok q
      else if previous = some cell then
        .error ⟨q.store, q.budget.cycles, .failed ⟨q.store.tape.cursor, cell⟩ (.range last)⟩
      else body.passes last (some cell) q := by
  rw [passes]
  split
  · next hp =>
    rw [hp]
    rfl
  · next hp =>
    rw [hp]
    rfl

/-- So passes leave no more cycles than there were. -/
theorem remaining_of_passes {body : Stretch} {last : Span} {previous : Option UInt8}
    {p q : Progress} (h : body.passes last previous p = .ok q) : q.remaining ≤ p.remaining := by
  rw [passes_eq] at h
  obtain ⟨p', hp, hq⟩ := Outcome.bind_eq_ok.mp h
  have lt := remaining_of_pass hp
  simp only at hq
  split at hq
  · cases hq
    exact Nat.le_of_lt lt
  · split at hq
    · cases hq
    · exact Nat.le_trans (remaining_of_passes hq) (Nat.le_of_lt lt)
termination_by p.remaining

/-- A loop: it is skipped if the cell is zero, and otherwise repeated. -/
def loop (first : Span) (body : Stretch) (last : Span) : Stretch where
  run p := do
    let q ← p.tick (.range first)
    if q.store.tape.current = 0 then .ok q else body.passes last none q
  remaining_le h := by
    obtain ⟨p', ticked, hq⟩ := Outcome.bind_eq_ok.mp h
    have lt := Progress.remaining_of_tick ticked
    split at hq
    · cases hq
      exact Nat.le_of_lt lt
    · exact Nat.le_trans (remaining_of_passes hq) (Nat.le_of_lt lt)

end Stretch

namespace Block

/-- The stretch of a run that a block takes. -/
def stretch : Block → Stretch
  | .done => .skip
  | .act action span rest => (Stretch.act action span).seq rest.stretch
  | .loop first body last rest => (Stretch.loop first body.stretch last).seq rest.stretch

end Block

/-- The run that ends as the outcome says, or by `next` if it goes on. -/
def Outcome.finish (next : Progress → Run Store Stall) : Outcome → Run Store Stall
  | .error r => r
  | .ok q => next q

/-- A structured run of a block. -/
def Block.run (block : Block) (settings : Settings) : Run Store Stall :=
  (block.stretch.run ⟨.ofSettings settings none, .initial settings.input⟩).finish
    fun p => ⟨p.store, p.budget.cycles, .halted⟩

@[simp] theorem Outcome.finish_bind (o : Outcome) (f : Progress → Outcome)
    (next : Progress → Run Store Stall) :
    Outcome.finish next (o >>= f) = o.finish fun q => (f q).finish next := by
  cases o <;> rfl

@[simp] theorem Outcome.finish_ok (p : Progress) (next : Progress → Run Store Stall) :
    Outcome.finish next (.ok p) = next p := rfl

@[simp] theorem Outcome.finish_error (r : Run Store Stall)
    (next : Progress → Run Store Stall) : Outcome.finish next (.error r) = r := rfl

/-! ## §2. The machine, seen by its store. -/

/-- The store of a state. -/
def State.store (s : State) : Store :=
  ⟨s.tape, s.input, s.output⟩

/-- The state before the instruction at `i` with this store and this guard. -/
def Store.state (s : Store) (i : Nat) (g : Guard) : State :=
  ⟨i, s.tape, s.input, s.output, g⟩

/-- A run of the machine, of which only the store is kept. -/
def storeRun (r : Run State Stall) : Run Store Stall :=
  ⟨r.state.store, r.cycles, r.ending⟩

/-- The run of the machine from the instruction at `i` on. -/
def resume (program : Program) (i : Nat) (g : Guard) (p : Progress) : Run Store Stall :=
  storeRun ((machine program).run p.budget (p.store.state i g))

section
variable {program : Program} {i j : Nat} {g : Guard} {span : Span}

/-- Behind the last instruction a run is over. -/
theorem resume_end (code : program.code[i]? = none) (p : Progress) :
    resume program i g p = ⟨p.store, p.budget.cycles, .halted⟩ := by
  have fetched : (machine program).fetch (p.store.state i g) = .finished := by
    simp [machine, Store.state, code]
  unfold resume
  rw [Machine.run_eq, fetched]
  rfl

/-- An instruction takes a tick and is executed. -/
theorem resume_found {instr : Instr} (code : program.code[i]? = some ⟨instr, span⟩)
    (p : Progress) :
    resume program i g p = (p.tick (.range span)).finish fun q =>
      match execute program instr (q.store.state i g) with
      | .next s => resume program s.index s.guard ⟨q.budget, s.store⟩
      | .halt s => ⟨s.store, q.budget.cycles, .halted⟩
      | .fault cause => ⟨q.store, q.budget.cycles, .failed cause (.range span)⟩ := by
  have fetched : (machine program).fetch (p.store.state i g) = .found instr (.range span) := by
    simp [machine, Store.state, code]
  unfold resume
  rw [Machine.run_eq, fetched]
  have settled : (machine program).settle p.budget (p.store.state i g) = p.budget := rfl
  simp only [settled]
  unfold Progress.tick
  cases p.budget.tick with
  | error refused => rfl
  | ok budget =>
    have executes : (machine program).execute instr = execute program instr := rfl
    simp only [Outcome.finish_ok, executes]
    cases execute program instr (p.store.state i g) <;> rfl

/-- An action goes on to the next instruction, and neither loops nor guards take part in it. -/
theorem execute_action (action : Action) (s : Store) :
    execute program action.instr (s.state i g) = .next ((action.apply s).state (i + 1) g) := by
  cases action <;> rfl

/-- A run that comes to an action ticks, acts, and goes on behind it. -/
theorem resume_action {action : Action} (code : program.code[i]? = some ⟨action.instr, span⟩)
    (p : Progress) :
    resume program i g p = (p.tick (.range span)).finish fun q =>
      resume program (i + 1) g { q with store := action.apply q.store } := by
  rw [resume_found code]
  simp only [execute_action]
  rfl

/-- The beginning of a loop leads into it, or behind its end. -/
theorem resume_open (code : program.code[i]? = some ⟨.loopOpen, span⟩)
    (forth : program.loops.partner? i = some j) (p : Progress) :
    resume program i g p = (p.tick (.range span)).finish fun q =>
      if q.store.tape.current = 0 then resume program (j + 1) g q
      else resume program (i + 1) g q := by
  rw [resume_found code]
  congr
  funext q
  by_cases zero : q.store.tape.current = 0
  · simp only [execute, Store.state, State.jump, forth, zero, if_true]
    rfl
  · simp only [execute, Store.state, zero, if_false]
    rfl

/-- What the end of a loop leads to hangs on the guard. -/
theorem resume_close (code : program.code[i]? = some ⟨.loopClose, span⟩)
    (back : program.loops.partner? i = some j) (p : Progress) :
    resume program i g p = (p.tick (.range span)).finish fun q =>
      match g.arrive i q.store.tape.current with
      | .leave g' => resume program (i + 1) g' q
      | .again g' => resume program (j + 1) g' q
      | .stalled => ⟨q.store, q.budget.cycles,
          .failed ⟨q.store.tape.cursor, q.store.tape.current⟩ (.range span)⟩ := by
  rw [resume_found code]
  congr
  funext q
  simp only [execute, Store.state]
  cases g.arrive i q.store.tape.current with
  | leave g' => rfl
  | again g' =>
    simp only [State.jump, back]
    rfl
  | stalled => rfl

end

/-! ## §3. The guard of one activation. -/

/-- The guard when the loop ending at `close` is repeated: what it remembers besides,
and the cell that the previous pass of this activation ended with. -/
def noting (g : Guard) (close : Nat) : Option UInt8 → Guard
  | none => g
  | some cell => g.remember close cell

/-- To forget what is not known changes nothing. -/
theorem forget_eq_self {g : Guard} {close : Nat} (free : g.last? close = none) :
    g.forget close = g := by
  unfold Guard.forget
  congr
  refine List.filter_eq_self.mpr fun pass mem => ?_
  have ne := List.lookup_eq_none_iff.mp free pass mem
  rwa [bne_comm]

/-- What is noted of a loop is forgotten when it is left. -/
theorem forget_noting {g : Guard} {close : Nat} (free : g.last? close = none)
    (previous : Option UInt8) : (noting g close previous).forget close = g := by
  cases previous with
  | none => exact forget_eq_self free
  | some cell =>
    show (g.remember close cell).forget close = g
    rw [Guard.remember, forget_eq_self free]
    unfold Guard.forget
    rw [List.filter_cons_of_neg (by simp)]
    exact forget_eq_self free

/-- A note of one loop is none of another. -/
theorem last?_noting_of_ne {g : Guard} {close k : Nat} (ne : k ≠ close)
    (previous : Option UInt8) : (noting g close previous).last? k = g.last? k := by
  cases previous with
  | none => rfl
  | some cell => rw [noting, Guard.last?_remember, if_neg ne]

/-- What is noted of a loop is what is found for it. -/
theorem last?_noting_self {g : Guard} {close : Nat} (free : g.last? close = none)
    (previous : Option UInt8) : (noting g close previous).last? close = previous := by
  cases previous with
  | none => exact free
  | some cell => rw [noting, Guard.last?_remember, if_pos rfl]

/-- The guard decides by the previous pass of the same activation alone. -/
theorem arrive_noting {g : Guard} {close : Nat} (free : g.last? close = none)
    (previous : Option UInt8) (cell : UInt8) :
    (noting g close previous).arrive close cell =
      if cell = 0 then .leave g
      else if previous = some cell then .stalled
      else .again (noting g close (some cell)) := by
  unfold Guard.arrive
  rw [last?_noting_self free, forget_noting free]
  have eq : (noting g close previous).remember close cell = noting g close (some cell) := by
    show Guard.mk ((close, cell) :: ((noting g close previous).forget close).passes) = _
    rw [forget_noting free, noting, Guard.remember, forget_eq_self free]
  rw [eq]

/-! ## §4. The machine runs as the block does. -/

/-- The guard remembers no loop that ends at one of `size` indices from `i` on. -/
def FreeFrom (g : Guard) (i size : Nat) : Prop :=
  ∀ k, i ≤ k → k < i + size → g.last? k = none

/-- The passes of a loop, given what its body does. -/
theorem resume_passes {program : Program} {i size : Nat} {last : Span} {body : Stretch}
    {g : Guard}
    (inside : ∀ g' p, FreeFrom g' (i + 1) size →
      resume program (i + 1) g' p = (body.run p).finish (resume program (i + 1 + size) g'))
    (closing : program.code[i + size + 1]? = some ⟨.loopClose, last⟩)
    (back : program.loops.partner? (i + size + 1) = some i)
    (free : FreeFrom g (i + 1) (size + 1)) (previous : Option UInt8) (p : Progress) :
    resume program (i + 1) (noting g (i + size + 1) previous) p
      = (body.passes last previous p).finish (resume program (i + size + 2) g) := by
  -- The cell is noted behind the body, so the body meets a guard that is free in it.
  have unnoted : FreeFrom (noting g (i + size + 1) previous) (i + 1) size := by
    intro k le lt
    rw [last?_noting_of_ne (by omega)]
    exact free k le (by omega)
  rw [inside _ _ unnoted, Stretch.passes_eq, Stretch.pass]
  simp only [Outcome.finish_bind]
  cases passed : body.run p with
  | error r => rfl
  | ok p' =>
    simp only [Outcome.finish_ok]
    rw [show i + 1 + size = i + size + 1 by omega, resume_close closing back]
    cases ticked : p'.tick (.range last) with
    | error r => rfl
    | ok q =>
      simp only [Outcome.finish_ok]
      rw [arrive_noting (free _ (by omega) (by omega))]
      by_cases zero : q.store.tape.current = 0
      · simp only [zero, if_true, Outcome.finish_ok]
      · by_cases same : previous = some q.store.tape.current
        · simp only [zero, same, if_false, if_true, Outcome.finish_error]
        · simp only [zero, same, if_false]
          -- The next pass has fewer cycles left.
          have lt : q.remaining < p.remaining :=
            Stretch.remaining_of_pass (Outcome.bind_eq_ok.mpr ⟨p', passed, ticked⟩)
          exact resume_passes inside closing back free _ q
termination_by p.remaining

/-- **From the start of a block the machine runs as the block does**, and goes on
behind it with the guard that it had at the start. -/
theorem resume_eq_stretch {program : Program} {i : Nat} {block : Block}
    (lies : block.LiesAt program i) :
    ∀ (g : Guard) (p : Progress), FreeFrom g i block.size →
      resume program i g p
        = (block.stretch.run p).finish (resume program (i + block.size) g) := by
  induction lies with
  | done => exact fun g p _ => rfl
  | @act i action span rest code _ ih =>
    intro g p free
    have behind : FreeFrom g (i + 1) rest.size := fun k le lt =>
      free k (by omega) (by simp only [Block.size]; omega)
    show _ = Outcome.finish _ ((Stretch.act action span).run p >>= rest.stretch.run)
    simp only [Stretch.act, Outcome.finish_bind, Outcome.finish_ok]
    rw [resume_action code]
    congr
    funext q
    rw [ih g _ behind]
    congr 2
    simp only [Block.size]
    omega
  | @loop i first body last rest opening _ closing forth back _ ihBody ihRest =>
    intro g p free
    have around : FreeFrom g (i + 1) (body.size + 1) := fun k le lt =>
      free k (by omega) (by simp only [Block.size]; omega)
    have behind : FreeFrom g (i + body.size + 2) rest.size := fun k le lt =>
      free k (by omega) (by simp only [Block.size]; omega)
    have goes_on : ∀ q, resume program (i + body.size + 2) g q
        = (rest.stretch.run q).finish
            (resume program (i + (Block.loop first body last rest).size) g) := by
      intro q
      rw [ihRest g q behind]
      congr 2
      simp only [Block.size]
      omega
    -- Skipped or passed through, the loop hands its guard on to the rest.
    show _ = Outcome.finish _
      ((Stretch.loop first body.stretch last).run p >>= rest.stretch.run)
    simp only [Stretch.loop, Outcome.finish_bind]
    rw [resume_open opening forth]
    congr
    funext q
    by_cases zero : q.store.tape.current = 0
    · simp only [zero, if_true, Outcome.finish_ok]
      exact goes_on q
    · simp only [zero, if_false]
      rw [← funext goes_on]
      exact resume_passes ihBody closing back around none q

/-! ## §5. The guard remembers loops around the instruction. -/

/-- The brackets of a program are paired by its loops. -/
def Program.Paired (program : Program) : Prop :=
  program.loops.Matches (brackets Instr.bracket? (program.code.toList.map Token.symbol))

/-- A program that was paired is one in which all brackets are. -/
theorem paired_of_pair {code : List (Token Instr)} {loops : Pairing}
    (h : pair code = .ok loops) : Program.Paired ⟨code.toArray, loops⟩ :=
  Pairing.matches_of_brackets h

/-- An instruction that is fetched stands in the program where the state is. -/
theorem fetch_eq_found {program : Program} {s : State} {instr : Instr} {site : Site}
    (h : (machine program).fetch s = .found instr site) :
    ∃ span, program.code[s.index]? = some ⟨instr, span⟩ ∧ site = .range span := by
  simp only [machine] at h
  split at h
  · next token code =>
    cases h
    exact ⟨token.span, code, rfl⟩
  · cases h

/-- What one cycle keeps: the guard remembers only loops around the instruction. -/
theorem within_of_next? {program : Program} (paired : program.Paired) {s s' : State}
    (w : s.guard.Within program.loops s.index) (hn : (machine program).next? s = some s') :
    s'.guard.Within program.loops s'.index := by
  obtain ⟨instr, site, hf, hx⟩ := Machine.next?_eq_some.mp hn
  obtain ⟨span, code, -⟩ := fetch_eq_found hf
  replace hx : execute program instr s = .next s' := hx
  have here : (program.code.toList.map Token.symbol)[s.index]? = some instr := by
    simp [code]
  have free (ne : instr.bracket? ≠ some .closing) : s.guard.last? s.index = none :=
    w.last?_eq_none paired (Loop.not_mem_brackets here ne)
  -- An action leaves the guard, the beginning of a loop does too, the end changes it.
  rcases instr.cases_kind with ⟨action, rfl⟩ | rfl | rfl
  · rw [show s = s.store.state s.index s.guard from rfl, execute_action] at hx
    cases hx
    exact w.advance (free (by simp))
  · obtain ⟨j, forth, lt⟩ := paired.of_opening here rfl
    simp only [execute, Effect.next.injEq] at hx
    subst hx
    split
    · simp only [State.jump, forth, Option.getD_some]
      exact w.skip paired.toNested (free nofun) forth lt
    · exact w.advance (free nofun)
  · obtain ⟨j, back, lt⟩ := paired.of_closing here rfl
    simp only [execute, Guard.arrive] at hx
    by_cases zero : s.tape.current = 0
    · simp only [zero, if_true, Effect.next.injEq] at hx
      subst hx
      exact w.leave
    · by_cases same : s.guard.last? s.index = some s.tape.current
      · simp [zero, same] at hx
      · simp only [zero, same, if_false, Effect.next.injEq] at hx
        subst hx
        simp only [State.jump, back, Option.getD_some]
        exact w.again paired.toNested back lt

/-- **The guard of every state of a run remembers only loops whose body is around
the instruction.** -/
theorem within_of_after? {program : Program} (paired : program.Paired) {input : Input} {n : Nat}
    {s : State} (hs : (machine program).after? n (.initial input) = some s) :
    s.guard.Within program.loops s.index :=
  Machine.after?_preserves (fun _ _ => within_of_next? paired) (.fresh _ _) hs

/-! ## §6. Balanced programs run as their loops. -/

/-- The program that is read from a block runs as the block does. -/
theorem storeRun_run (block : Block) (settings : Settings) :
    storeRun (Program.run ⟨block.tokens.toArray, block.pairing .empty 0⟩ settings)
      = block.run settings := by
  have same := resume_eq_stretch block.liesAt_zero .fresh
    ⟨.ofSettings settings none, .initial settings.input⟩ fun _ _ _ => rfl
  refine Eq.trans same ?_
  unfold Block.run
  congr
  funext p
  refine resume_end ?_ p
  simp [← block.length_tokens]

/-- A loop that walks over equal cells stalls, for only the cell is compared. -/
example :
    (Block.ofTokens? (scan "+[>+]")).map (fun block => (block.run {}).ending)
      = some (.failed ⟨2, 1⟩ (.range ⟨4, 5⟩)) := by
  decide +kernel

/-- A run of stores has the result of the run, as far as stores show it. -/
theorem result_storeRun (r : Run State Stall) (report : Stall → Report) :
    (storeRun r).result report = (r.result report).map State.store := by
  unfold Run.result storeRun
  simp only
  cases r.ending.finding? report <;> rfl

/-- **A source text with balanced brackets runs as the tree of its loops**: the tree
is written out as the instructions of the text, for all settings the two runs take
the same cycles to the same ending with the same store, and the guard never
remembers a loop whose body is not around the instruction. -/
theorem run_structured (source : String) (balanced : BalancedSource source) :
    ∃ program block,
      parse source = .ok program ∧ Block.ofTokens? (scan source) = some block
        ∧ block.tokens = scan source
        ∧ (∀ settings,
            storeRun (program.run settings) = block.run settings
              ∧ (run source settings).map State.store = (block.run settings).result stalled)
        ∧ ∀ input n s, (machine program).after? n (.initial input) = some s →
            s.guard.Within program.loops s.index := by
  obtain ⟨block, read⟩ := Block.exists_ofTokens? balanced
  have written := Block.tokens_of_ofTokens? read
  have paired := block.pair_tokens
  have parsed : parse source = .ok ⟨block.tokens.toArray, block.pairing .empty 0⟩ := by
    simp only [parse, ← written, paired]
  refine ⟨_, block, parsed, read, written, fun settings => ⟨storeRun_run block settings, ?_⟩, ?_⟩
  · rw [← storeRun_run, result_storeRun]
    simp only [run, parsed, bind, Except.bind]
  · intro input n s hs
    exact within_of_after? (paired_of_pair paired) hs

/-- The inner loop of this text comes to its end with the same cells each time it is
entered, and does not stall. -/
theorem run_structured_reentered :
    BalancedSource "++[>++[-]<-]"
      ∧ ∃ block, Block.ofTokens? (scan "++[>++[-]<-]") = some block
        ∧ ∀ settings, (run "++[>++[-]<-]" settings).map State.store
            = (block.run settings).result stalled := by
  have balanced : BalancedSource "++[>++[-]<-]" := by decide +kernel
  obtain ⟨_, block, _, read, _, same, _⟩ := run_structured "++[>++[-]<-]" balanced
  exact ⟨balanced, block, read, fun settings => (same settings).2⟩

end Esolang.Brainfuck
