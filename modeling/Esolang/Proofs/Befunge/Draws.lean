/-
  Esolang.Proofs.Befunge.Draws
  ────────────────────────────
  **WHAT IS DRAWN, AND WHAT HANGS ON IT.**

  Only `?` looks at the directions that are drawn.  It is executed outside of
  strings, and each time it takes the next direction and no other.

    • `execute_congr` — a cycle that executes no `?` is the same with other draws,
    • `draws_of_next` — a cycle draws once if it executes `?`, and else not at all,
    • `runWith_determined` — an outcome hangs on the directions that were drawn, and
      there are as many of them as cycles that execute `?`,
    • `runWith_cancelled` — a token that is tripped by a draw stops the run before
      the next instruction.
-/
import Esolang.Evaluation
import Esolang.Proofs.Befunge.Refusal
import Esolang.Proofs.Machine.Agreement

namespace Esolang.Befunge

open Esolang.Diagnostic (Finding)
open Esolang.Machine (Settings Budget Run Exhaustion)

/-! ## §1. The instruction that draws. -/

/-- The machine is about to draw a direction: it stands on a `?` outside of a string. -/
def State.Drawing (s : State) : Prop :=
  s.mode = .literal ∧ s.symbol = '?'

instance (s : State) : Decidable s.Drawing :=
  inferInstanceAs (Decidable (_ ∧ _))

/-- The state after a `?` that has drawn this direction. -/
def State.drawn (direction : Direction) (s : State) : State :=
  { s with pointer := (s.pointer.turn direction).advance s.grid, draws := s.draws + 1 }

section
variable {draws draws' : Draws} {cancelAt : Option Nat} {s s' : State}

theorem drawing_of_ofChar? (literal : s.mode = .literal)
    (read : Instr.ofChar? s.symbol = some .draw) : s.Drawing :=
  ⟨literal, (Instr.char_of_ofChar? read).symm⟩

/-- Instructions other than `?` do not look at the draws. -/
theorem perform_congr {instr : Instr} {symbol : Char}
    (same : instr = .draw → draws' s.draws = draws s.draws) :
    perform draws' instr symbol s = perform draws instr symbol s := by
  cases instr with
  | draw =>
    show Except.ok { s.turn (draws' s.draws) with draws := s.draws + 1 } = _
    rw [same rfl]
    rfl
  | _ => rfl

/-- **A cycle that draws nothing else is the same with other draws.** -/
theorem execute_congr (same : s.Drawing → draws' s.draws = draws s.draws) :
    execute draws' s.symbol s = execute draws s.symbol s := by
  unfold execute
  cases mode : s.mode with
  | string => rfl
  | literal =>
    dsimp only
    cases read : Instr.ofChar? s.symbol with
    | none => rfl
    | some instr =>
      have performed : perform draws' instr s.symbol s = perform draws instr s.symbol s := by
        apply perform_congr
        intro draw
        rw [draw] at read
        exact same (drawing_of_ofChar? mode read)
      cases instr with
      | halt => rfl
      | _ => simp only [performed]

/-- An instruction draws once if it is `?`, and else not at all. -/
theorem draws_of_perform {instr : Instr} {symbol : Char} {t : State}
    (h : perform draws instr symbol s = .ok t) :
    t.draws = s.draws + if instr = .draw then 1 else 0 := by
  cases instr with
  | operate operator =>
    obtain ⟨⟨a, s₁⟩, popped, h⟩ := bind_eq_ok h
    obtain ⟨⟨b, s₂⟩, popped', h⟩ := bind_eq_ok h
    obtain ⟨stack, rfl⟩ := pop_eq_ok popped
    obtain ⟨stack', rfl⟩ := pop_eq_ok popped'
    dsimp only at h
    split at h <;> cases h
    rfl
  | not | discard | printInt =>
    obtain ⟨⟨a, s₁⟩, popped, h⟩ := bind_eq_ok h
    obtain ⟨stack, rfl⟩ := pop_eq_ok popped
    cases h
    rfl
  | printChar =>
    obtain ⟨⟨a, s₁⟩, popped, h⟩ := bind_eq_ok h
    obtain ⟨c, _, h⟩ := bind_eq_ok h
    obtain ⟨stack, rfl⟩ := pop_eq_ok popped
    cases h
    rfl
  | fetch =>
    obtain ⟨⟨y, s₁⟩, popped, h⟩ := bind_eq_ok h
    obtain ⟨⟨x, s₂⟩, popped', h⟩ := bind_eq_ok h
    obtain ⟨stack, rfl⟩ := pop_eq_ok popped
    obtain ⟨stack', rfl⟩ := pop_eq_ok popped'
    cases h
    rfl
  | store =>
    obtain ⟨⟨y, s₁⟩, popped, h⟩ := bind_eq_ok h
    obtain ⟨⟨x, s₂⟩, popped', h⟩ := bind_eq_ok h
    obtain ⟨⟨value, s₃⟩, popped'', h⟩ := bind_eq_ok h
    obtain ⟨c, _, h⟩ := bind_eq_ok h
    obtain ⟨stack, rfl⟩ := pop_eq_ok popped
    obtain ⟨stack', rfl⟩ := pop_eq_ok popped'
    obtain ⟨stack'', rfl⟩ := pop_eq_ok popped''
    cases h
    rfl
  | _ =>
    cases h
    rfl

/-- **A cycle draws once if it executes `?`, and else not at all.** -/
theorem draws_of_next (hn : (machine draws cancelAt).next? s = some s') :
    s'.draws = s.draws + if s.Drawing then 1 else 0 := by
  have executed := next?_eq_some.mp hn
  unfold execute at executed
  cases mode : s.mode with
  | string =>
    rw [mode] at executed
    cases executed
    have idle : ¬ s.Drawing := fun drawing => by
      rw [drawing.1] at mode
      cases mode
    rw [if_neg idle]
    show (collect s.symbol s).draws = s.draws
    unfold collect
    split <;> rfl
  | literal =>
    rw [mode] at executed
    dsimp only at executed
    split at executed
    · cases executed
    · next instr _ read =>
      split at executed
      · next t performed =>
        cases executed
        have drawing : instr = .draw ↔ s.Drawing := by
          constructor
          · rintro rfl
            exact drawing_of_ofChar? mode read
          · intro drawing
            rw [drawing.2] at read
            cases read
            rfl
        show t.draws = _
        rw [draws_of_perform performed]
        simp only [drawing]
      · cases executed
    · cases executed

/-- `?` turns the pointer to the direction that is drawn and moves it. -/
theorem State.Drawing.next? (drawing : s.Drawing) :
    (machine draws cancelAt).next? s = some (s.drawn (draws s.draws)) := by
  obtain ⟨literal, symbol⟩ := drawing
  rw [next?_eq_some]
  unfold execute
  rw [literal, symbol]
  rfl

/-- The machine stops in the state in which it comes to its end. -/
theorem still_machine (draws : Draws) (cancelAt : Option Nat) :
    (machine draws cancelAt).Still := by
  intro s last stops
  cases stops with
  | finished fetched | unreadable fetched => cases fetched
  | halt fetched executed =>
    cases fetched
    exact (execute_eq_halt.mp executed).2.2
  | fault fetched executed => rfl

/-- **A state has drawn as often as the cycles before it have executed `?`.** -/
theorem draws_of_after? {n : Nat} {t : State}
    (ht : (machine draws cancelAt).after? n s = some t) :
    t.draws = s.draws
      + (machine draws cancelAt).countAt (fun s => decide s.Drawing) s n := by
  apply Machine.eq_add_countAt _ ht
  intro u u' hn
  simpa using draws_of_next hn

theorem draws_le_of_after? {n : Nat} {t : State}
    (ht : (machine draws cancelAt).after? n s = some t) : s.draws ≤ t.draws := by
  rw [draws_of_after? ht]
  exact Nat.le_add_right _ _

/-- No state of a run has drawn more than the last. -/
theorem draws_le_of_reaches {b : Budget} {n : Nat} {t : State}
    (reached : (machine draws cancelAt).Reaches b s n t) :
    t.draws ≤ ((machine draws cancelAt).run b s).state.draws := by
  obtain ⟨last, ⟨hlast, -⟩, none_behind, -⟩ :=
    Machine.exists_last (still_machine draws cancelAt) b s
  obtain ⟨u, hu, rest⟩ := Machine.after?_of_le hlast (none_behind n t reached)
  rw [reached.1] at hu
  cases hu
  exact draws_le_of_after? rest

/-! ## §2. What a run hangs on. -/

/-- **A run hangs on the directions that it draws.** -/
theorem run_of_agreeing {b : Budget}
    (agree : ∀ k, k < ((machine draws cancelAt).run b s).state.draws → draws' k = draws k) :
    (machine draws' cancelAt).run b s = (machine draws cancelAt).run b s := by
  apply Machine.run_congr
  · intro t
    rfl
  · intro n t _
    rfl
  · intro n t symbol site reached within fetched
    cases fetched
    apply execute_congr
    intro drawing
    -- The draw leads to a state of the run that has drawn one direction more.
    have later : (machine draws cancelAt).Reaches b s (n + 1) (t.drawn (draws t.draws)) :=
      ⟨Machine.after?_succ_last.mpr ⟨t, reached.1, drawing.next?⟩, within⟩
    exact agree t.draws (draws_le_of_reaches later)

/-- Number of the cycles of a run that execute `?`: they read it outside of strings. -/
def drawingCycles (draws : Draws) (cancelAt : Option Nat) (source : String)
    (settings : Settings) : Nat :=
  match refusal? source with
  | some _ => 0
  | none =>
    (machine draws cancelAt).countAt (fun s => decide s.Drawing)
      (.initial source settings.input) (runGrid draws cancelAt source settings).cycles

/-- A run draws as often as it executes `?`. -/
theorem draws_run {b : Budget} (fresh : b.cycles = 0) :
    ((machine draws cancelAt).run b s).state.draws
      = s.draws + (machine draws cancelAt).countAt (fun s => decide s.Drawing) s
          ((machine draws cancelAt).run b s).cycles := by
  obtain ⟨n, ⟨hlast, -⟩, -, cycles⟩ := Machine.exists_last (still_machine draws cancelAt) b s
  have count := draws_of_after? hlast
  rw [fresh, Nat.zero_add] at cycles
  rcases cycles with cycles | ⟨cycles, stops⟩
  · rw [count, cycles]
  · -- A last cycle that goes nowhere draws nothing.
    have idle : ¬ ((machine draws cancelAt).run b s).state.Drawing := by
      intro drawing
      rw [drawing.next?] at stops
      cases stops
    rw [count, cycles, Machine.countAt_succ hlast, if_neg (by simpa using idle), Nat.add_zero]

end

section
variable {draws : Draws} {cancelAt : Option Nat} {source : String} {settings : Settings}

/-- An outcome hangs on the directions that were drawn. -/
theorem runWith_of_agreeing {draws' : Draws}
    (agree : ∀ k, k < (runWith draws cancelAt source settings).draws → draws' k = draws k) :
    runWith draws' cancelAt source settings = runWith draws cancelAt source settings := by
  cases refuses : refusal? source with
  | some refusal => rw [runWith_of_refused refuses, runWith_of_refused refuses]
  | none =>
    rw [runWith_of_accepted refuses] at agree
    have same : runGrid draws' cancelAt source settings = runGrid draws cancelAt source settings :=
      run_of_agreeing agree
    rw [runWith_of_accepted refuses, runWith_of_accepted refuses, same]

theorem draws_runWith (draws : Draws) (cancelAt : Option Nat) (source : String)
    (settings : Settings) :
    (runWith draws cancelAt source settings).draws
      = drawingCycles draws cancelAt source settings := by
  unfold drawingCycles
  cases refuses : refusal? source with
  | some refusal => rw [runWith_of_refused refuses]
  | none =>
    rw [runWith_of_accepted refuses]
    exact (draws_run rfl).trans (Nat.zero_add _)

end

/-- **An outcome hangs on the directions that were drawn.**  Draws that begin with them
give the same outcome, after as many draws.  There is one for each cycle that executes
`?`, and none for any other; and where a seed draws nothing every seed gives the same. -/
theorem runWith_determined (draws : Draws) (cancelAt : Option Nat) (source : String)
    (settings : Settings) :
    (∀ draws', (∀ k, k < (runWith draws cancelAt source settings).draws →
        draws' k = draws k) →
      runWith draws' cancelAt source settings = runWith draws cancelAt source settings)
    ∧ (runWith draws cancelAt source settings).draws
        = drawingCycles draws cancelAt source settings
    ∧ (∀ s s', (machine draws cancelAt).next? s = some s' →
        s'.draws = s.draws + if s.mode = .literal ∧ s.symbol = '?' then 1 else 0)
    ∧ ∀ seed, (runWith (settings.generator seed) none source settings).draws = 0 →
        ∀ seed', evaluate .befunge source { settings with seed := some seed' }
          = evaluate .befunge source { settings with seed := some seed } := by
  refine ⟨fun draws' => runWith_of_agreeing, draws_runWith draws cancelAt source settings,
    fun s s' => draws_of_next, ?_⟩
  intro seed none_drawn seed'
  have same : runWith (settings.generator seed') none source settings
      = runWith (settings.generator seed) none source settings := by
    apply runWith_of_agreeing
    intro k lt
    omega
  have runs : Befunge.run source { settings with seed := some seed' }
      = Befunge.run source { settings with seed := some seed } := congrArg Outcome.result same
  simp only [evaluate, Esolang.run, runs]
  rfl

/-- One `?` is part of a string and one is jumped over, and the third is executed: what
comes after the first draw is never asked for. -/
theorem runWith_determined_once :
    (runWith (fun _ => .right) none "\"?\"$#??@" {}).draws = 1
      ∧ runWith (fun k => if k = 0 then .right else .up) none "\"?\"$#??@" {}
          = runWith (fun _ => .right) none "\"?\"$#??@" {} := by
  have once : (runWith (fun _ => .right) none "\"?\"$#??@" {}).draws = 1 := by decide +kernel
  refine ⟨once, (runWith_determined (fun _ => .right) none "\"?\"$#??@" {}).1 _ ?_⟩
  intro k lt
  rw [once] at lt
  exact if_pos (by omega)

/-! ## §3. Draws that trip the token. -/

/-- What stops a run after `cycles` of at most `limit` cycles, when its token has been
tripped.  The limit is looked at before the token. -/
def tripped (limit cycles : Nat) : Exhaustion :=
  if cycles = limit then .stepLimit limit else .cancelled cycles

section
variable {draws : Draws} {k : Nat} {s : State} {b : Budget}

/-- A draw that is not made trips nothing. -/
theorem run_of_draws_le (few : ((machine draws none).run b s).state.draws ≤ k) :
    (machine draws (some k)).run b s = (machine draws none).run b s := by
  apply Machine.run_congr
  · intro t
    rfl
  · intro n t reached
    have := draws_le_of_reaches reached
    show decide (k < t.draws) = false
    rw [decide_eq_false_iff_not]
    omega
  · intro n t symbol site _ _ _
    rfl

theorem tick_cancel (token : b.token = some false) (le : b.cycles ≤ b.limit) :
    b.cancel.tick = .error (tripped b.limit b.cycles, b.cancel) := by
  have cancelled : b.cancel.token = some true := by
    show b.token.map _ = some true
    rw [token]
    rfl
  unfold tripped Budget.tick
  by_cases spent : b.cycles = b.limit
  · have none_left : b.cancel.limit ≤ b.cancel.cycles := Nat.le_of_eq spent.symm
    rw [if_pos none_left, if_pos spent]
    rfl
  · have some_left : ¬ b.cancel.limit ≤ b.cancel.cycles := by
      show ¬ b.limit ≤ b.cycles
      omega
    rw [if_neg some_left, if_pos cancelled, if_neg spent]
    rfl

/-- **A draw that trips the token stops the run at the next cycle.** -/
theorem run_of_lt_draws (quiet : b.Quiet) (token : b.token = some false)
    (le : b.cycles ≤ b.limit) (start : s.draws ≤ k)
    (many : k < ((machine draws none).run b s).state.draws) :
    ∃ n t, (machine draws none).after? n s = some t
      ∧ b.cycles + n < ((machine draws none).run b s).cycles ∧ t.Drawing ∧ t.draws = k
      ∧ (machine draws (some k)).run b s
          = ⟨t.drawn (draws k), b.cycles + (n + 1),
              .exhausted (tripped b.limit (b.cycles + (n + 1))) (t.drawn (draws k)).site⟩ := by
  -- The draw is made on the way to the last state of the run.
  obtain ⟨last, ⟨hlast, counted⟩, -, -⟩ :=
    Machine.exists_last (still_machine draws none) b s
  have grows : ∀ u u', (machine draws none).next? u = some u' → u'.draws ≤ u.draws + 1 := by
    intro u u' hn
    rw [draws_of_next hn]
    split <;> omega
  obtain ⟨n, t, t', lt, ht, hn, drawn, beyond⟩ := Machine.exists_step grows hlast start many
  have drawing : t.Drawing := by
    by_contra idle
    rw [draws_of_next hn, if_neg idle] at beyond
    omega
  have moved : t' = t.drawn (draws k) := by
    rw [drawing.next?, drawn] at hn
    exact (Option.some.inj hn).symm
  subst moved
  refine ⟨n, t, ht, by omega, drawing, drawn, ?_⟩
  -- Until then nothing trips the token, and the two machines take the same course.
  have course : ∀ n s, (machine draws (some k)).after? n s = (machine draws none).after? n s :=
    Machine.after?_congr fun _ => rfl
  have there : (machine draws (some k)).after? (n + 1) s = some (t.drawn (draws k)) := by
    rw [course]
    exact Machine.after?_succ_last.mpr ⟨t, ht, hn⟩
  have untripped : ∀ j u, j < n + 1 → (machine draws (some k)).after? j s = some u →
      (machine draws (some k)).trips u = false := by
    intro j u before hu
    rw [course] at hu
    obtain ⟨v, hv, rest⟩ := Machine.after?_of_le ht (show j ≤ n by omega)
    rw [hu] at hv
    cases hv
    have := draws_le_of_after? rest
    show decide (k < u.draws) = false
    rw [decide_eq_false_iff_not]
    omega
  have within : b.cycles + (n + 1) ≤ b.limit := by
    have := Machine.cycles_run_le (machine draws none) b s le
    omega
  rw [Machine.run_after_of_untripped quiet there within untripped]
  have trips : (machine draws (some k)).trips (t.drawn (draws k)) = true := by
    show decide (k < t.draws + 1) = true
    rw [decide_eq_true_iff]
    omega
  have ticked : ((machine draws (some k)).settle (b.spent (n + 1)) (t.drawn (draws k))).tick
      = .error (tripped b.limit (b.cycles + (n + 1)), (b.spent (n + 1)).cancel) := by
    unfold Machine.settle
    rw [if_pos trips]
    exact tick_cancel token within
  exact Machine.run_exhausted rfl ticked

/-- What stops a run in which a draw trips the token, in a program that is not refused. -/
theorem runGrid_of_lt_draws {source : String} {settings : Settings}
    (token : settings.token = some false)
    (clock : ∀ deadline, settings.deadline = some deadline → ∀ n, settings.clock n < deadline)
    (many : k < (runGrid draws none source settings).state.draws) :
    ∃ n t, (machine draws none).after? n (.initial source settings.input) = some t
      ∧ n < (runGrid draws none source settings).cycles ∧ t.Drawing ∧ t.draws = k
      ∧ runGrid draws (some k) source settings
          = ⟨t.drawn (draws k), n + 1,
              .exhausted (tripped (settings.maxSteps.getD defaultLimit) (n + 1))
                (t.drawn (draws k)).site⟩ := by
  have quiet : settings.Quiet := ⟨by rw [token]; exact nofun, clock⟩
  obtain ⟨n, t, ht, lt, drawing, drawn, stopped⟩ :=
    run_of_lt_draws (quiet.ofSettings (some defaultLimit)) token (Nat.zero_le _)
      (Nat.zero_le k) many
  have from_zero (m : Nat) :
      (Budget.ofSettings settings (some defaultLimit)).cycles + m = m := Nat.zero_add m
  have limit : (Budget.ofSettings settings (some defaultLimit)).limit
      = settings.maxSteps.getD defaultLimit := by
    show (settings.maxSteps.or (some defaultLimit)).getD _ = _
    cases settings.maxSteps <;> rfl
  rw [from_zero, limit] at stopped
  rw [from_zero] at lt
  exact ⟨n, t, ht, lt, drawing, drawn, stopped⟩

end

/-- **A token that is tripped by a draw stops the run before the next instruction.**  If
the run does not draw so often, nothing changes.  If it does, the run goes on up to that
draw, completes the `?`, and moves once in the direction that was drawn; there it ends,
with the limit if it is reached and else with the token. -/
theorem runWith_cancelled (draws : Draws) (k : Nat) (source : String) (settings : Settings)
    (token : settings.token = some false)
    (clock : ∀ deadline, settings.deadline = some deadline → ∀ n, settings.clock n < deadline) :
    ((runWith draws none source settings).draws ≤ k →
      runWith draws (some k) source settings = runWith draws none source settings)
    ∧ (k < (runWith draws none source settings).draws →
      ∃ n t place reason,
        (machine draws none).after? n (.initial source settings.input) = some t
        ∧ n < (runGrid draws none source settings).cycles
        ∧ t.mode = .literal ∧ t.symbol = '?' ∧ t.draws = k
        ∧ place = (t.pointer.turn (draws k)).advance t.grid
        ∧ reason = (if n + 1 = settings.maxSteps.getD defaultLimit then
            Exhaustion.stepLimit (n + 1) else .cancelled (n + 1))
        ∧ runGrid draws (some k) source settings
            = ⟨{ t with pointer := place, draws := k + 1 }, n + 1,
                .exhausted reason (.point (place.y + 1) (place.x + 1))⟩
        ∧ runWith draws (some k) source settings
            = ⟨.error ⟨reason.report, .point (place.y + 1) (place.x + 1)⟩, n + 1, k + 1⟩) := by
  cases refuses : refusal? source with
  | some refusal =>
    rw [runWith_of_refused refuses, runWith_of_refused refuses]
    exact ⟨fun _ => rfl, nofun⟩
  | none =>
    rw [runWith_of_accepted refuses, runWith_of_accepted refuses]
    constructor
    · intro few
      have same : runGrid draws (some k) source settings = runGrid draws none source settings :=
        run_of_draws_le few
      rw [same]
    · intro many
      obtain ⟨n, t, ht, lt, drawing, drawn, stopped⟩ := runGrid_of_lt_draws token clock many
      have moved : t.drawn (draws k)
          = { t with pointer := (t.pointer.turn (draws k)).advance t.grid, draws := k + 1 } := by
        rw [← drawn]
        rfl
      have reason : tripped (settings.maxSteps.getD defaultLimit) (n + 1)
          = if n + 1 = settings.maxSteps.getD defaultLimit then
              .stepLimit (n + 1) else .cancelled (n + 1) := by
        unfold tripped
        split
        · next reached => rw [reached]
        · rfl
      rw [moved, reason] at stopped
      refine ⟨n, t, _, _, ht, lt, drawing.1, drawing.2, drawn, rfl, rfl, stopped, ?_⟩
      rw [stopped]
      rfl

/-- The second draw trips the token, and the pointer wraps around to the first column.  A
token that waits for a fourth draw changes nothing. -/
theorem runWith_cancelled_second :
    runWith (fun k => if k = 0 then .left else .right) (some 1) "?@?" { token := some false }
        = ⟨.error ⟨(Exhaustion.cancelled 2).report, .point 1 1⟩, 2, 2⟩
      ∧ runWith (fun k => if k = 0 then .left else .right) (some 3) "?@?" { token := some false }
        = runWith (fun k => if k = 0 then .left else .right) none "?@?"
            { token := some false } := by
  have thrice : (runWith (fun k => if k = 0 then .left else .right) none "?@?"
      { token := some false }).draws = 3 := by decide +kernel
  constructor
  · obtain ⟨n, t, place, reason, -, -, -, -, -, -, named, stopped, outcome⟩ :=
      (runWith_cancelled (fun k => if k = 0 then .left else .right) 1 "?@?"
        { token := some false } rfl nofun).2 (by rw [thrice]; decide)
    have cycles : n + 1 = 2 := (congrArg Run.cycles stopped).symm.trans (by decide +kernel)
    have x : place.x = 0 := (congrArg (·.state.pointer.x) stopped).symm.trans (by decide +kernel)
    have y : place.y = 0 := (congrArg (·.state.pointer.y) stopped).symm.trans (by decide +kernel)
    rw [outcome, named, cycles, x, y]
    rfl
  · exact (runWith_cancelled (fun k => if k = 0 then .left else .right) 3 "?@?"
      { token := some false } rfl nofun).1 (Nat.le_of_eq thrice)

end Esolang.Befunge
