/-
  Esolang.Proofs.Evaluation.StepLimit
  ───────────────────────────────────
  **THE STEP LIMIT IS EXACT.**

  A run of `k` cycles needs a limit of `k`: with any limit from there on the
  evaluation is the same, and with any smaller one it fails before the
  instruction of the first cycle that it may not take.

    • `evaluate_limited` — both halves, for every language, and what they say of
      two limits.

  The four machines take their ticks at different points; what they share is the
  course (`Machine.run_quiet`), and the limit falls on it.
-/
import Esolang.Proofs.Evaluation.Engine

namespace Esolang

open Esolang.Diagnostic (Finding Site)
open Esolang.Machine (Settings Run Exhaustion)

/-! ## §1. Settings that differ in the limit. -/

/-- The settings with this limit. -/
def Machine.Settings.limited (settings : Settings) (n : Nat) : Settings :=
  { settings with maxSteps := some n }

theorem Machine.Settings.Quiet.limited {settings : Settings} (quiet : settings.Quiet)
    (n : Nat) : (settings.limited n).Quiet :=
  ⟨quiet.token, quiet.clock⟩

/-! ## §2. What a limit makes of an engine's run. -/

namespace Engine

variable (e : Engine)

/-- The run that the machine makes by itself, if it comes to its end. -/
abbrev Completes (r : Run e.State e.Cause) : Prop :=
  e.machine.Completes e.start r

/-- The site of the instruction executed after `n` cycles. -/
def siteAfter? (n : Nat) : Option Site :=
  ((e.machine.after? n e.start).bind e.machine.visit?).map Prod.snd

theorem siteAfter?_eq_some {e : Engine} {n : Nat} {t : e.State} {instr : e.Instr} {site : Site}
    (ht : e.machine.after? n e.start = some t) (hv : e.machine.visit? t = some (instr, site)) :
    e.siteAfter? n = some site := by
  simp only [siteAfter?, ht, Option.bind_some, hv, Option.map_some]

/-- A limit that falls on an instruction of the course stops the run before it. -/
theorem run_of_visit {settings : Settings} (quiet : settings.Quiet) {n : Nat} {t : e.State}
    {instr : e.Instr} {site : Site} (ht : e.machine.after? n e.start = some t)
    (hv : e.machine.visit? t = some (instr, site)) :
    e.run (settings.limited n) = ⟨t, n, .exhausted (.stepLimit n) site⟩ :=
  Machine.run_limited e.steady ((quiet.limited n).ofSettings e.defaultLimit) ht hv
    (Nat.zero_add n)

/-- The limit that holds is the limit of the settings or the engine's own. -/
theorem run_limited_self (settings : Settings) :
    e.run (settings.limited (e.budget settings).limit) = e.run settings :=
  rfl

/-- A run ends with the machine, or it stands before an instruction when the
limit is reached, as it did all the way. -/
theorem run_quiet {settings : Settings} (quiet : settings.Quiet) :
    (∃ r, e.Completes r ∧ r.cycles ≤ (e.budget settings).limit ∧ e.run settings = r)
      ∨ ((e.run settings).cycles = (e.budget settings).limit
          ∧ ∀ n, n ≤ (e.budget settings).limit → ∃ t site, e.siteAfter? n = some site
              ∧ e.run (settings.limited n) = ⟨t, n, .exhausted (.stepLimit n) site⟩) := by
  have hb : (e.budget settings).Quiet := quiet.ofSettings e.defaultLimit
  rcases Machine.run_quiet e.steady hb (Nat.zero_le _) e.start with
    ⟨r, hr, fits, eq⟩ | ⟨t, instr, site, ht, hv, eq⟩
  · refine .inl ⟨r, hr, ?_, ?_⟩
    · rw [show (e.budget settings).cycles = 0 from rfl, Nat.zero_add] at fits
      exact fits
    · rw [run, eq]
      exact r.delay_zero
  · refine .inr ⟨by rw [run, eq], fun n le => ?_⟩
    obtain ⟨u, instr, site, hu, hv⟩ := Machine.visits_of_le ht hv le
    exact ⟨u, site, siteAfter?_eq_some hu hv, e.run_of_visit quiet hu hv⟩

/-- A limit that admits all cycles of the machine changes nothing. -/
theorem run_of_cycles_le {settings : Settings} (quiet : settings.Quiet)
    {r : Run e.State e.Cause} (hr : e.Completes r) {n : Nat} (le : r.cycles ≤ n) :
    e.run (settings.limited n) = r := by
  have hb : (e.budget (settings.limited n)).Quiet := (quiet.limited n).ofSettings e.defaultLimit
  have fits : (e.budget (settings.limited n)).cycles + r.cycles
      ≤ (e.budget (settings.limited n)).limit := by
    show 0 + r.cycles ≤ n
    omega
  rw [run, Machine.run_completes e.steady hb hr fits]
  exact r.delay_zero

theorem run_of_lt_cycles {settings : Settings} (quiet : settings.Quiet)
    {r : Run e.State e.Cause} (hr : e.Completes r) {n : Nat} (lt : n < r.cycles) :
    ∃ t site, e.siteAfter? n = some site
      ∧ e.run (settings.limited n) = ⟨t, n, .exhausted (.stepLimit n) site⟩ := by
  obtain ⟨t, instr, site, ht, hv⟩ := hr.visits lt
  exact ⟨t, site, siteAfter?_eq_some ht hv, e.run_of_visit quiet ht hv⟩

/-- A machine that comes to its end is not out of resources. -/
theorem category_of_completes {r : Run e.State e.Cause} (hr : e.Completes r)
    {finding : Finding} (h : e.outcome r = .error finding) :
    finding.report.kind.category ≠ .resourceExhaustion := by
  unfold outcome Run.result at h
  cases hend : r.ending with
  | halted =>
    rw [hend] at h
    cases h
  | failed cause site =>
    rw [hend] at h
    cases h
    exact e.category_report cause
  | exhausted reason site => exact absurd hend (hr.ending_ne_exhausted reason site)

end Engine

/-! ## §3. What a limit makes of an evaluation. -/

/-- The evaluation ran out of the steps of its limit. -/
def OutOfSteps (result : Except Diagnostic Evaluation) : Prop :=
  match result with
  | .ok _ => False
  | .error d => d.report.kind = .stepLimitExceeded

instance : (result : Except Diagnostic Evaluation) → Decidable (OutOfSteps result)
  | .ok _ => inferInstanceAs (Decidable False)
  | .error d => inferInstanceAs (Decidable (d.report.kind = .stepLimitExceeded))

/-- Number of ticks that succeed in an evaluation. -/
def cyclesOf (language : Language) (source : String) (settings : Settings) : Nat :=
  match Engine.load language source settings.input settings.draws with
  | .ok e => (e.run settings).cycles
  | .error _ => 0

/-- The site of the instruction that an evaluation executes after `n` cycles. -/
def siteAfter? (language : Language) (source : String) (settings : Settings) (n : Nat) :
    Option Site :=
  match Engine.load language source settings.input settings.draws with
  | .ok e => e.siteAfter? n
  | .error _ => none

/-- The diagnostic of an evaluation that may not take more than `n` cycles and is
stopped before the instruction at `site`. -/
def stoppedAt (language : Language) (source : String) (settings : Settings) (n : Nat)
    (site : Site) : Diagnostic :=
  Finding.locate (fileName language settings) source ⟨(Exhaustion.stepLimit n).report, site⟩

section
variable {language : Language} {source : String} {settings : Settings}

/-- The limit takes no part in loading. -/
theorem load_limited (n : Nat) :
    Engine.load language source (settings.limited n).input (settings.limited n).draws
      = Engine.load language source settings.input settings.draws := rfl

/-- An engine that is stopped by the limit is located where it stands. -/
theorem evaluate_of_exhausted {e : Engine} {t : e.State} {n k : Nat} {site : Site}
    (h : Engine.load language source settings.input settings.draws = .ok e)
    (hr : e.run settings = ⟨t, k, .exhausted (.stepLimit n) site⟩) :
    evaluate language source settings
      = .error (stoppedAt language source settings n site) := by
  rw [evaluate_of_load_ok h, hr]
  rfl

theorem not_outOfSteps_of_completes {e : Engine}
    (h : Engine.load language source settings.input settings.draws = .ok e)
    (hr : e.Completes (e.run settings)) :
    ¬ OutOfSteps (evaluate language source settings) := by
  rw [evaluate_of_load_ok h]
  cases hout : e.outcome (e.run settings) with
  | ok evaluation => exact id
  | error finding =>
    intro out
    have kind : finding.report.kind = .stepLimitExceeded := out
    apply e.category_of_completes hr hout
    rw [kind]
    rfl

/-- An engine that is not out of steps comes to its end. -/
theorem completes_of_not_outOfSteps {e : Engine} (quiet : settings.Quiet)
    (h : Engine.load language source settings.input settings.draws = .ok e)
    (within : ¬ OutOfSteps (evaluate language source settings)) :
    e.Completes (e.run settings) := by
  rcases e.run_quiet quiet with ⟨r, hr, -, eq⟩ | ⟨-, stopped⟩
  · rw [eq]
    exact hr
  · obtain ⟨t, site, -, hrun⟩ := stopped _ (Nat.le_refl _)
    rw [e.run_limited_self] at hrun
    rw [evaluate_of_exhausted h hrun] at within
    exact absurd rfl within

theorem cyclesOf_limited_le (quiet : settings.Quiet) (n : Nat) :
    cyclesOf language source (settings.limited n) ≤ n := by
  unfold cyclesOf
  split
  · next e h =>
    rcases e.run_quiet (quiet.limited n) with ⟨r, -, le, eq⟩ | ⟨eq, -⟩
    · rw [eq]
      exact le
    · exact Nat.le_of_eq eq
  · exact Nat.zero_le n

theorem evaluate_limited_of_load_error {finding : Finding}
    (h : Engine.load language source settings.input settings.draws = .error finding) (n : Nat) :
    evaluate language source (settings.limited n) = evaluate language source settings := by
  rw [evaluate_of_load_error h, evaluate_of_load_error ((load_limited n).trans h)]
  rfl

/-- From the number of its cycles on, no limit changes an evaluation. -/
theorem evaluate_of_cycles_le (quiet : settings.Quiet)
    (within : ¬ OutOfSteps (evaluate language source settings)) {n : Nat}
    (le : cyclesOf language source settings ≤ n) :
    evaluate language source (settings.limited n) = evaluate language source settings := by
  cases h : Engine.load language source settings.input settings.draws with
  | error finding => exact evaluate_limited_of_load_error h n
  | ok e =>
    simp only [cyclesOf, h] at le
    have hr := completes_of_not_outOfSteps quiet h within
    rw [evaluate_of_load_ok h, evaluate_of_load_ok ((load_limited n).trans h),
      e.run_of_cycles_le quiet hr le]
    rfl

/-- With a limit below the number of its cycles, an evaluation is stopped before
the instruction that the limit falls on. -/
theorem evaluate_of_lt_cycles (quiet : settings.Quiet)
    (within : ¬ OutOfSteps (evaluate language source settings)) {n : Nat}
    (lt : n < cyclesOf language source settings) :
    ∃ site, siteAfter? language source settings n = some site
      ∧ evaluate language source (settings.limited n)
          = .error (stoppedAt language source settings n site) := by
  cases h : Engine.load language source settings.input settings.draws with
  | error finding =>
    simp only [cyclesOf, h] at lt
    exact absurd lt (Nat.not_lt_zero n)
  | ok e =>
    simp only [cyclesOf, h] at lt
    have hr := completes_of_not_outOfSteps quiet h within
    obtain ⟨t, site, hs, hrun⟩ := e.run_of_lt_cycles quiet hr lt
    refine ⟨site, ?_, evaluate_of_exhausted ((load_limited n).trans h) hrun⟩
    simp only [siteAfter?, h, hs]

/-- An evaluation that is out of steps is so with every smaller limit. -/
theorem evaluate_of_outOfSteps (quiet : settings.Quiet) {n k : Nat} (le : n ≤ k)
    (out : OutOfSteps (evaluate language source (settings.limited k))) :
    ∃ site, siteAfter? language source settings n = some site
      ∧ evaluate language source (settings.limited n)
          = .error (stoppedAt language source settings n site) := by
  cases h : Engine.load language source settings.input settings.draws with
  | error finding =>
    rw [evaluate_limited_of_load_error h, evaluate_of_load_error h] at out
    -- A text that is refused is malformed, and not out of steps.
    have kind : finding.report.kind = .stepLimitExceeded := out
    have structural := Engine.category_of_load h
    rw [kind] at structural
    cases structural
  | ok e =>
    rcases e.run_quiet (quiet.limited k) with ⟨r, hr, -, eq⟩ | ⟨-, stopped⟩
    · rw [← eq] at hr
      exact absurd out (not_outOfSteps_of_completes ((load_limited k).trans h) hr)
    · obtain ⟨t, site, hs, hrun⟩ := stopped n le
      refine ⟨site, ?_, evaluate_of_exhausted ((load_limited n).trans h) hrun⟩
      simp only [siteAfter?, h, hs]

end

/-- **The step limit is exact.**  An evaluation that is not out of steps is the
same with every limit from the number of its cycles on, and with each smaller
limit `n` it is stopped before its instruction number `n + 1`.  Of two limits,
the larger one changes nothing but an evaluation that is out of steps, and an
evaluation that is out of steps with the larger is so with the smaller. -/
theorem evaluate_limited (language : Language) (source : String) {settings : Settings}
    (quiet : settings.Quiet) :
    (¬ OutOfSteps (evaluate language source settings) →
      (∀ n, cyclesOf language source settings ≤ n →
        evaluate language source (settings.limited n) = evaluate language source settings)
      ∧ ∀ n, n < cyclesOf language source settings →
        ∃ site, siteAfter? language source settings n = some site
          ∧ evaluate language source (settings.limited n)
              = .error (stoppedAt language source settings n site))
    ∧ ∀ n k, n ≤ k →
      (¬ OutOfSteps (evaluate language source (settings.limited n)) →
        evaluate language source (settings.limited k)
          = evaluate language source (settings.limited n))
      ∧ (OutOfSteps (evaluate language source (settings.limited k)) →
        ∃ site, siteAfter? language source settings n = some site
          ∧ evaluate language source (settings.limited n)
              = .error (stoppedAt language source settings n site)) := by
  constructor
  · intro within
    exact ⟨fun n => evaluate_of_cycles_le quiet within,
      fun n => evaluate_of_lt_cycles quiet within⟩
  · -- Of two limits the smaller plays the part of the settings' own.
    intro n k le
    constructor
    · intro within
      exact evaluate_of_cycles_le (quiet.limited n) within
        (Nat.le_trans (cyclesOf_limited_le quiet n) le)
    · intro out
      exact evaluate_of_outOfSteps quiet le out

/-- A COW program of four cycles whose `mOO` takes the last two: a limit of three
stops it before the command that `mOO` has written. -/
theorem evaluate_limited_rewriting :
    ({} : Settings).Quiet
      ∧ ¬ OutOfSteps (evaluate .cow "MoO MoO mOO" {})
      ∧ cyclesOf .cow "MoO MoO mOO" {} = 4
      ∧ evaluate .cow "MoO MoO mOO" (Machine.Settings.limited {} 4)
          = evaluate .cow "MoO MoO mOO" {}
      ∧ siteAfter? .cow "MoO MoO mOO" {} 3 = some (.range ⟨8, 11⟩)
      ∧ evaluate .cow "MoO MoO mOO" (Machine.Settings.limited {} 3)
          = .error (stoppedAt .cow "MoO MoO mOO" {} 3 (.range ⟨8, 11⟩)) := by
  have quiet : ({} : Settings).Quiet := ⟨nofun, nofun⟩
  have within : ¬ OutOfSteps (evaluate .cow "MoO MoO mOO" {}) := by decide +kernel
  have cycles : cyclesOf .cow "MoO MoO mOO" {} = 4 := by decide +kernel
  have site : siteAfter? .cow "MoO MoO mOO" {} 3 = some (.range ⟨8, 11⟩) := by decide +kernel
  obtain ⟨same, stopped⟩ := (evaluate_limited .cow "MoO MoO mOO" quiet).1 within
  obtain ⟨site', eq, result⟩ := stopped 3 (by rw [cycles]; omega)
  rw [site] at eq
  cases eq
  exact ⟨quiet, within, cycles, same 4 (Nat.le_of_eq cycles), site, result⟩

end Esolang
