/-
  Esolang.Proofs.Machine.Course
  ─────────────────────────────
  **THE COURSE OF A MACHINE.**

  A run is cut short by its budget, but what it does until then hangs on the
  machine alone.  The COURSE of a machine from a state is what it does with no
  budget at all: `after? n` is the state after `n` cycles, and `Completes s r`
  says that the machine comes to its own end, by the run `r`.

    • `visits_or_completes` — after `n` cycles the machine stands before an
      instruction, or it has come to its end in no more than `n`,
    • `run_course` — whatever the budget, a run follows the course: it
      completes, or it is stopped before an instruction of the course,
    • `run_after` — a quiet budget carries a run to every state of the course
      that the limit admits,
    • `run_quiet` — with a quiet budget a run ends with the machine, or it takes
      all the cycles of its limit.
-/
import Esolang.Machine.Run

namespace Esolang.Machine

open Esolang.Diagnostic (Report Site Finding)

variable {σ ι ε : Type}

/-! ## §1. One cycle. -/

/-- The state after one cycle, if the machine goes on. -/
def next? (m : Machine σ ι ε) (s : σ) : Option σ :=
  match m.fetch s with
  | .found instr _ =>
    match m.execute instr s with
    | .next s' => some s'
    | _ => none
  | _ => none

/-- The instruction that the machine stands before, with its site. -/
def visit? (m : Machine σ ι ε) (s : σ) : Option (ι × Site) :=
  match m.fetch s with
  | .found instr site => some (instr, site)
  | _ => none

/-- The machine comes to its end in this very state.  It takes one cycle if there
is an instruction to execute, and none otherwise. -/
inductive Stops (m : Machine σ ι ε) (s : σ) : Run σ ε → Prop where
  | finished (hf : m.fetch s = .finished) : Stops m s ⟨s, 0, .halted⟩
  | unreadable {cause : ε} {site : Site} (hf : m.fetch s = .unreadable cause site) :
      Stops m s ⟨s, 0, .failed cause site⟩
  | halt {instr : ι} {site : Site} {s' : σ} (hf : m.fetch s = .found instr site)
      (hx : m.execute instr s = .halt s') : Stops m s ⟨s', 1, .halted⟩
  | fault {instr : ι} {site : Site} {cause : ε} (hf : m.fetch s = .found instr site)
      (hx : m.execute instr s = .fault cause) : Stops m s ⟨s, 1, .failed cause site⟩

/-- A state visits an instruction if that is what the machine fetches there. -/
theorem visit?_eq_some {m : Machine σ ι ε} {s : σ} {instr : ι} {site : Site} :
    m.visit? s = some (instr, site) ↔ m.fetch s = .found instr site := by
  unfold visit?
  cases m.fetch s <;> simp

/-- A state has a next one if the instruction that is fetched there goes on to it. No budget takes
part in this. -/
theorem next?_eq_some {m : Machine σ ι ε} {s s' : σ} :
    m.next? s = some s' ↔
      ∃ instr site, m.fetch s = .found instr site ∧ m.execute instr s = .next s' := by
  unfold next?
  cases hf : m.fetch s with
  | finished => simp
  | unreadable cause site => simp
  | found instr site => cases hx : m.execute instr s <;> simp [hx]

/-- The machine goes on from a state or stops in it. Every case analysis along a course begins
here. -/
theorem next_or_stops (m : Machine σ ι ε) (s : σ) :
    (∃ s', m.next? s = some s') ∨ ∃ last, m.Stops s last := by
  cases hf : m.fetch s with
  | finished => exact .inr ⟨_, .finished hf⟩
  | unreadable cause site => exact .inr ⟨_, .unreadable hf⟩
  | found instr site =>
    cases hx : m.execute instr s with
    | next s' => exact .inl ⟨s', next?_eq_some.mpr ⟨instr, site, hf, hx⟩⟩
    | halt s' => exact .inr ⟨_, .halt hf hx⟩
    | fault cause => exact .inr ⟨_, .fault hf hx⟩

/-- From a state in which the machine stops there is no next one. -/
theorem Stops.next?_eq_none {m : Machine σ ι ε} {s : σ} {last : Run σ ε}
    (h : m.Stops s last) : m.next? s = none := by
  cases h <;> simp only [next?, *]

/-- To stop takes a cycle if an instruction is executed for it, and none if nothing is fetched or
what is fetched cannot be read. -/
theorem Stops.cycles_le {m : Machine σ ι ε} {s : σ} {last : Run σ ε} (h : m.Stops s last) :
    last.cycles ≤ 1 := by
  cases h <;> simp

/-- There is one way to come to the end. -/
theorem Stops.unique {m : Machine σ ι ε} {s : σ} {last last' : Run σ ε} (h : m.Stops s last)
    (h' : m.Stops s last') : last = last' := by
  cases h <;> cases h' <;> simp_all

/-! ## §2. Many cycles. -/

/-- The state after `n` cycles, if the machine goes on for so long. -/
def after? (m : Machine σ ι ε) : Nat → σ → Option σ
  | 0, s => some s
  | n + 1, s => (m.next? s).bind (m.after? n)

@[simp] theorem after?_zero (m : Machine σ ι ε) (s : σ) : m.after? 0 s = some s := rfl

/-- A course of one cycle more, cut behind its first cycle. -/
theorem after?_succ {m : Machine σ ι ε} {n : Nat} {s t : σ} :
    m.after? (n + 1) s = some t ↔ ∃ s', m.next? s = some s' ∧ m.after? n s' = some t := by
  simp only [after?, Option.bind_eq_some_iff]

/-- Courses one after the other are a course, and a course can be cut anywhere. -/
theorem after?_add (m : Machine σ ι ε) :
    ∀ (n k : Nat) (s : σ), m.after? (n + k) s = (m.after? n s).bind (m.after? k)
  | 0, k, s => by simp
  | n + 1, k, s => by
    rw [show n + 1 + k = (n + k) + 1 by omega]
    show (m.next? s).bind (m.after? (n + k)) = ((m.next? s).bind (m.after? n)).bind (m.after? k)
    cases m.next? s with
    | none => rfl
    | some s' => exact after?_add m n k s'

/-- A course of one cycle more, cut before its last cycle. -/
theorem after?_succ_last {m : Machine σ ι ε} {n : Nat} {s t : σ} :
    m.after? (n + 1) s = some t ↔ ∃ t', m.after? n s = some t' ∧ m.next? t' = some t := by
  rw [after?_add, Option.bind_eq_some_iff]
  constructor
  · rintro ⟨t', ht', hlast⟩
    obtain ⟨u, hu, hut⟩ := after?_succ.mp hlast
    cases hut
    exact ⟨t', ht', hu⟩
  · rintro ⟨t', ht', hlast⟩
    exact ⟨t', ht', after?_succ.mpr ⟨t, hlast, rfl⟩⟩

/-- Each earlier state of the course stands on the way to a later one. -/
theorem after?_of_le {m : Machine σ ι ε} {n k : Nat} {s t : σ} (h : m.after? n s = some t)
    (le : k ≤ n) : ∃ u, m.after? k s = some u ∧ m.after? (n - k) u = some t := by
  rw [show n = k + (n - k) by omega, after?_add, Option.bind_eq_some_iff] at h
  exact h

/-- What every cycle preserves holds in all states of the course. -/
theorem after?_preserves {m : Machine σ ι ε} {P : σ → Prop}
    (step : ∀ s s', P s → m.next? s = some s' → P s') :
    ∀ {n : Nat} {s t : σ}, P s → m.after? n s = some t → P t
  | 0, s, t, hs, h => by
    cases h
    exact hs
  | n + 1, s, t, hs, h => by
    obtain ⟨s', hn, ht⟩ := after?_succ.mp h
    exact after?_preserves step (step s s' hs hn) ht

/-- What every cycle preserves may count the cycles. -/
theorem after?_counts {m : Machine σ ι ε} {P : Nat → σ → Prop}
    (step : ∀ k s s', P k s → m.next? s = some s' → P (k + 1) s') :
    ∀ {n k : Nat} {s t : σ}, P k s → m.after? n s = some t → P (k + n) t
  | 0, k, s, t, hs, h => by
    cases h
    exact hs
  | n + 1, k, s, t, hs, h => by
    obtain ⟨s', hn, ht⟩ := after?_succ.mp h
    have later : P (k + 1 + n) t := after?_counts step (step k s s' hs hn) ht
    rwa [show k + 1 + n = k + (n + 1) by omega] at later

/-! ## §3. Coming to the end. -/

/-- The run that takes `n` cycles more, before it begins. -/
def Run.delay (n : Nat) (r : Run σ ε) : Run σ ε :=
  { r with cycles := n + r.cycles }

@[simp] theorem Run.state_delay (n : Nat) (r : Run σ ε) : (r.delay n).state = r.state := rfl

@[simp] theorem Run.cycles_delay (n : Nat) (r : Run σ ε) :
    (r.delay n).cycles = n + r.cycles := rfl

@[simp] theorem Run.ending_delay (n : Nat) (r : Run σ ε) : (r.delay n).ending = r.ending := rfl

/-- Without a delay a run is as it is. -/
@[simp] theorem Run.delay_zero (r : Run σ ε) : r.delay 0 = r := by
  simp [Run.delay]

/-- Two delays are one. -/
theorem Run.delay_delay (n k : Nat) (r : Run σ ε) : (r.delay k).delay n = r.delay (n + k) := by
  simp [Run.delay, Nat.add_assoc]

/-- Left alone, the machine comes to its end by the run `r`. -/
def Completes (m : Machine σ ι ε) (s : σ) (r : Run σ ε) : Prop :=
  ∃ n t last, m.after? n s = some t ∧ m.Stops t last ∧ r = last.delay n

/-- Where the machine stops, stopping is all there is to completing. -/
theorem Completes.of_stops {m : Machine σ ι ε} {s : σ} {last : Run σ ε}
    (h : m.Stops s last) : m.Completes s last :=
  ⟨0, s, last, rfl, h, last.delay_zero.symm⟩

/-- A completion takes one cycle more from the state before. -/
theorem Completes.of_next {m : Machine σ ι ε} {s s' : σ} {r : Run σ ε}
    (hn : m.next? s = some s') (h : m.Completes s' r) : m.Completes s (r.delay 1) := by
  obtain ⟨n, t, last, ht, hlast, rfl⟩ := h
  refine ⟨n + 1, t, last, after?_succ.mpr ⟨s', hn, ht⟩, hlast, ?_⟩
  rw [Run.delay_delay, Nat.add_comm]

/-- A machine that is left alone is stopped by no bound. -/
theorem Completes.ending_ne_exhausted {m : Machine σ ι ε} {s : σ} {r : Run σ ε}
    (h : m.Completes s r) (reason : Exhaustion) (site : Site) :
    r.ending ≠ .exhausted reason site := by
  obtain ⟨n, t, last, -, hlast, rfl⟩ := h
  rw [Run.ending_delay]
  cases hlast <;> exact nofun

/-- A course does not lead out of a state in which the machine stops. -/
theorem Stops.after?_eq_some {m : Machine σ ι ε} {s t : σ} {last : Run σ ε} {n : Nat}
    (h : m.Stops s last) (ht : m.after? n s = some t) : n = 0 ∧ t = s := by
  cases n with
  | zero =>
    cases ht
    exact ⟨rfl, rfl⟩
  | succ n =>
    obtain ⟨s', hn, -⟩ := after?_succ.mp ht
    rw [h.next?_eq_none] at hn
    cases hn

/-- **A machine comes to its end by one run only.** -/
theorem Completes.unique {m : Machine σ ι ε} {s : σ} {r r' : Run σ ε} (h : m.Completes s r)
    (h' : m.Completes s r') : r = r' := by
  obtain ⟨n, t, last, ht, hlast, rfl⟩ := h
  obtain ⟨n', t', last', ht', hlast', rfl⟩ := h'
  -- The course that goes further passes the state where the other one stops.
  rcases Nat.le_total n n' with le | le
  · obtain ⟨u, hu, rest⟩ := after?_of_le ht' le
    rw [ht] at hu
    cases hu
    obtain ⟨here, rfl⟩ := hlast.after?_eq_some rest
    rw [hlast.unique hlast', show n = n' by omega]
  · obtain ⟨u, hu, rest⟩ := after?_of_le ht le
    rw [ht'] at hu
    cases hu
    obtain ⟨here, rfl⟩ := hlast'.after?_eq_some rest
    rw [hlast.unique hlast', show n = n' by omega]

/-- Left alone, the machine comes to its end without a failure. -/
def Halts (m : Machine σ ι ε) (s : σ) : Prop :=
  ∃ r, m.Completes s r ∧ r.ending = .halted

/-- In every state that a course leaves, an instruction is visited. -/
theorem visits_of_lt {m : Machine σ ι ε} {n k : Nat} {s t : σ} (ht : m.after? k s = some t)
    (lt : n < k) : ∃ u instr site, m.after? n s = some u ∧ m.visit? u = some (instr, site) := by
  obtain ⟨u, hu, hut⟩ := after?_of_le ht (Nat.le_of_lt lt)
  rw [show k - n = (k - n - 1) + 1 by omega] at hut
  obtain ⟨u', hn, -⟩ := after?_succ.mp hut
  obtain ⟨instr, site, hf, -⟩ := next?_eq_some.mp hn
  exact ⟨u, instr, site, hu, visit?_eq_some.mpr hf⟩

/-- So it is in the last one, if an instruction is visited there. -/
theorem visits_of_le {m : Machine σ ι ε} {n k : Nat} {s t : σ} {visited : ι × Site}
    (ht : m.after? k s = some t) (hv : m.visit? t = some visited) (le : n ≤ k) :
    ∃ u instr site, m.after? n s = some u ∧ m.visit? u = some (instr, site) := by
  rcases Nat.lt_or_eq_of_le le with lt | rfl
  · exact visits_of_lt ht lt
  · exact ⟨t, visited.1, visited.2, ht, hv⟩

/-- Before each cycle of a completed run the machine stands before an
instruction. -/
theorem Completes.visits {m : Machine σ ι ε} {s : σ} {r : Run σ ε} (h : m.Completes s r)
    {n : Nat} (lt : n < r.cycles) :
    ∃ t instr site, m.after? n s = some t ∧ m.visit? t = some (instr, site) := by
  obtain ⟨k, t, last, ht, hlast, rfl⟩ := h
  rw [Run.cycles_delay] at lt
  have le := hlast.cycles_le
  -- The last state is visited too, if the machine stops at an instruction there.
  cases hlast with
  | finished hf => exact visits_of_lt ht (by simpa using lt)
  | unreadable hf => exact visits_of_lt ht (by simpa using lt)
  | halt hf hx => exact visits_of_le ht (visit?_eq_some.mpr hf) (by simp at lt; omega)
  | fault hf hx => exact visits_of_le ht (visit?_eq_some.mpr hf) (by simp at lt; omega)

/-- After `n` cycles the machine stands before an instruction, or it has come to
its end in no more than `n`. -/
theorem visits_or_completes (m : Machine σ ι ε) :
    ∀ (n : Nat) (s : σ),
      (∃ t instr site, m.after? n s = some t ∧ m.visit? t = some (instr, site))
        ∨ ∃ r, m.Completes s r ∧ r.cycles ≤ n
  | 0, s => by
    cases hf : m.fetch s with
    | found instr site => exact .inl ⟨s, instr, site, rfl, visit?_eq_some.mpr hf⟩
    | finished => exact .inr ⟨_, .of_stops (.finished hf), Nat.le_refl 0⟩
    | unreadable cause site => exact .inr ⟨_, .of_stops (.unreadable hf), Nat.le_refl 0⟩
  | n + 1, s => by
    rcases next_or_stops m s with ⟨s', hn⟩ | ⟨last, hlast⟩
    · rcases visits_or_completes m n s' with ⟨t, instr, site, ht, hv⟩ | ⟨r, hr, le⟩
      · exact .inl ⟨t, instr, site, after?_succ.mpr ⟨s', hn, ht⟩, hv⟩
      · refine .inr ⟨r.delay 1, hr.of_next hn, ?_⟩
        rw [Run.cycles_delay]
        omega
    · have le := hlast.cycles_le
      exact .inr ⟨last, .of_stops hlast, by omega⟩

/-! ## §4. A run follows the course. -/

/-- One cycle of a run: a fetch, a tick and an execution. -/
theorem run_eq (m : Machine σ ι ε) (b : Budget) (s : σ) :
    m.run b s =
      match m.fetch s with
      | .finished => ⟨s, b.cycles, .halted⟩
      | .unreadable cause site => ⟨s, b.cycles, .failed cause site⟩
      | .found instr site =>
        match (m.settle b s).tick with
        | .error (reason, b') => ⟨s, b'.cycles, .exhausted reason site⟩
        | .ok b' =>
          match m.execute instr s with
          | .next s' => m.run b' s'
          | .halt s' => ⟨s', b'.cycles, .halted⟩
          | .fault cause => ⟨s, b'.cycles, .failed cause site⟩ := by
  rw [run]
  cases m.fetch s with
  | finished => rfl
  | unreadable cause site => rfl
  | found instr site =>
    dsimp only
    cases m.execute instr s <;>
    · split
      · next h => simp only [h]
      · next h => simp only [h]

/-- A cycle that the budget admits, to a state from which the run goes on. -/
theorem run_next {m : Machine σ ι ε} {b b' : Budget} {s s' : σ} (hn : m.next? s = some s')
    (ticked : (m.settle b s).tick = .ok b') : m.run b s = m.run b' s' := by
  obtain ⟨instr, site, hf, hx⟩ := next?_eq_some.mp hn
  rw [run_eq, hf]
  simp only [ticked, hx]

/-- A run in a state in which the machine stops, if the budget admits the cycle that this may
take. -/
theorem run_stops {m : Machine σ ι ε} {b : Budget} {s : σ} {last : Run σ ε}
    (hlast : m.Stops s last)
    (ticked : last.cycles = 1 →
      ∃ b', (m.settle b s).tick = .ok b' ∧ b'.cycles = b.cycles + 1) :
    m.run b s = last.delay b.cycles := by
  rw [run_eq]
  cases hlast with
  | finished hf =>
    rw [hf]
    rfl
  | unreadable hf =>
    rw [hf]
    rfl
  | halt hf hx =>
    obtain ⟨b', ticked, cycles⟩ := ticked rfl
    simp only [hf, ticked, hx, cycles, Run.delay]
  | fault hf hx =>
    obtain ⟨b', ticked, cycles⟩ := ticked rfl
    simp only [hf, ticked, hx, cycles, Run.delay]

@[simp] theorem cycles_settle (m : Machine σ ι ε) (b : Budget) (s : σ) :
    (m.settle b s).cycles = b.cycles := by
  unfold settle
  split <;> rfl

/-- A tick that is refused stops the run before the instruction it was asked for. -/
theorem run_exhausted {m : Machine σ ι ε} {b b' : Budget} {s : σ} {instr : ι} {site : Site}
    {reason : Exhaustion} (hv : m.visit? s = some (instr, site))
    (ticked : (m.settle b s).tick = .error (reason, b')) :
    m.run b s = ⟨s, b.cycles, .exhausted reason site⟩ := by
  have cycles : b'.cycles = b.cycles := by
    rw [Budget.tick_eq_error ticked, cycles_settle]
  rw [run_eq, visit?_eq_some.mp hv]
  simp only [ticked, cycles]

@[simp] theorem limit_settle (m : Machine σ ι ε) (b : Budget) (s : σ) :
    (m.settle b s).limit = b.limit := by
  unfold settle
  split <;> rfl

/-- A run counts no cycle beyond its limit. -/
theorem cycles_run_le (m : Machine σ ι ε) (b : Budget) (s : σ) (le : b.cycles ≤ b.limit) :
    (m.run b s).cycles ≤ b.limit := by
  rw [run_eq]
  cases m.fetch s with
  | finished => exact le
  | unreadable cause site => exact le
  | found instr site =>
    dsimp only
    cases ticked : (m.settle b s).tick with
    | error refused =>
      obtain ⟨reason, b'⟩ := refused
      have cycles : b'.cycles = b.cycles := by
        rw [Budget.tick_eq_error ticked, cycles_settle]
      exact Nat.le_trans (Nat.le_of_eq cycles) le
    | ok b' =>
      obtain ⟨lt, eq⟩ := Budget.tick_eq_ok ticked
      rw [cycles_settle, limit_settle] at lt
      have cycles : b'.cycles = b.cycles + 1 := by rw [eq, cycles_settle]
      have limit : b'.limit = b.limit := by rw [eq, limit_settle]
      have counted : b'.cycles ≤ b'.limit := by omega
      rw [← limit]
      dsimp only
      cases m.execute instr s with
      | next s' => exact cycles_run_le m b' s' counted
      | halt s' => exact counted
      | fault cause => exact counted
termination_by b.limit - b.cycles
decreasing_by
  rw [← remaining_settle m b s]
  exact Budget.tick_lt ticked

/-- **Whatever the budget, a run follows the course**: it completes, or it is
stopped before an instruction of the course. -/
theorem run_course (m : Machine σ ι ε) (b : Budget) (s : σ) :
    (∃ r, m.Completes s r ∧ m.run b s = r.delay b.cycles)
      ∨ ∃ n t instr site reason, m.after? n s = some t ∧ m.visit? t = some (instr, site)
          ∧ m.run b s = ⟨t, b.cycles + n, .exhausted reason site⟩ := by
  cases ticked : (m.settle b s).tick with
  | error refused =>
    obtain ⟨reason, b'⟩ := refused
    -- Without a tick the run still ends by itself if it finds no instruction.
    cases hf : m.fetch s with
    | finished =>
      exact .inl ⟨_, .of_stops (.finished hf), run_stops (.finished hf) nofun⟩
    | unreadable cause site =>
      exact .inl ⟨_, .of_stops (.unreadable hf), run_stops (.unreadable hf) nofun⟩
    | found instr site =>
      have hv := visit?_eq_some.mpr hf
      exact .inr ⟨0, s, instr, site, reason, rfl, hv, run_exhausted hv ticked⟩
  | ok b' =>
    obtain ⟨-, eq⟩ := Budget.tick_eq_ok ticked
    have cycles : b'.cycles = b.cycles + 1 := by rw [eq, cycles_settle]
    -- With one the course goes on from the next state, and the budget has less left.
    rcases next_or_stops m s with ⟨s', hn⟩ | ⟨last, hlast⟩
    · rw [run_next hn ticked]
      rcases run_course m b' s' with ⟨r, hr, eq⟩ | ⟨n, t, instr, site, reason, ht, hv, eq⟩
      · refine .inl ⟨r.delay 1, hr.of_next hn, ?_⟩
        rw [eq, cycles, Run.delay_delay]
      · refine .inr ⟨n + 1, t, instr, site, reason, after?_succ.mpr ⟨s', hn, ht⟩, hv, ?_⟩
        rw [eq, cycles, show b.cycles + 1 + n = b.cycles + (n + 1) by omega]
    · exact .inl ⟨last, .of_stops hlast, run_stops hlast fun _ => ⟨b', ticked, cycles⟩⟩
termination_by b.limit - b.cycles
decreasing_by
  rw [← remaining_settle m b s]
  exact Budget.tick_lt ticked

/-- A finding tells of an instruction that failed, or of a bound that was reached. -/
theorem Ending.cases_of_finding? {report : ε → Report} {e : Ending ε} {finding : Finding}
    (h : e.finding? report = some finding) :
    (∃ cause site, e = .failed cause site ∧ finding = ⟨report cause, site⟩)
      ∨ ∃ reason site, e = .exhausted reason site ∧ finding = ⟨reason.report, site⟩ := by
  cases e with
  | halted => cases h
  | failed cause site =>
    cases h
    exact .inl ⟨cause, site, rfl, rfl⟩
  | exhausted reason site =>
    cases h
    exact .inr ⟨reason, site, rfl, rfl⟩

/-- **A finding is sited at an instruction**, or at what cannot be read as one. -/
theorem exists_fetch_of_finding? {m : Machine σ ι ε} {b : Budget} {s : σ} {report : ε → Report}
    {finding : Finding} (h : (m.run b s).ending.finding? report = some finding) :
    ∃ t, (∃ instr, m.fetch t = .found instr finding.site)
      ∨ ∃ cause, m.fetch t = .unreadable cause finding.site := by
  rcases run_course m b s with
    ⟨_, ⟨n, t, last, -, hlast, rfl⟩, eq⟩ | ⟨n, t, instr, site, reason, -, hv, eq⟩
  · rw [eq, Run.ending_delay, Run.ending_delay] at h
    cases hlast with
    | finished hf => cases h
    | halt hf hx => cases h
    | unreadable hf =>
      cases h
      exact ⟨t, .inr ⟨_, hf⟩⟩
    | fault hf hx =>
      cases h
      exact ⟨t, .inl ⟨_, hf⟩⟩
  · rw [eq] at h
    cases h
    exact ⟨t, .inl ⟨instr, visit?_eq_some.mp hv⟩⟩

/-! ## §5. Quiet budgets. -/

/-- Nothing but the limit bounds the run: no token is tripped, and the deadline,
if there is one, never passes. -/
structure Budget.Quiet (b : Budget) : Prop where
  /-- The token is not tripped. -/
  token : b.token ≠ some true
  /-- The deadline has not passed whenever the clock is looked at. -/
  clock : ∀ deadline, b.deadline = some deadline → ∀ n, b.clock n < deadline

/-- Nothing but the limit bounds a run with these settings. -/
structure Settings.Quiet (settings : Settings) : Prop where
  token : settings.token ≠ some true
  clock : ∀ deadline, settings.deadline = some deadline → ∀ n, settings.clock n < deadline

/-- Quiet settings make a quiet budget, whatever limit holds by default. -/
theorem Settings.Quiet.ofSettings {settings : Settings} (quiet : settings.Quiet)
    (defaultLimit : Option Nat) : (Budget.ofSettings settings defaultLimit).Quiet :=
  ⟨quiet.token, quiet.clock⟩

/-- The machine never trips the token. -/
def Steady (m : Machine σ ι ε) : Prop :=
  ∀ s, m.trips s = false

/-- The budget when so many cycles have been taken. -/
def Budget.spent (b : Budget) (n : Nat) : Budget :=
  { b with cycles := b.cycles + n }

@[simp] theorem Budget.limit_spent (b : Budget) (n : Nat) : (b.spent n).limit = b.limit := rfl

@[simp] theorem Budget.cycles_spent (b : Budget) (n : Nat) :
    (b.spent n).cycles = b.cycles + n := rfl

/-- Cycles are spent in portions or at once. -/
theorem Budget.spent_spent (b : Budget) (n k : Nat) : (b.spent n).spent k = b.spent (n + k) := by
  simp [spent, Nat.add_assoc]

/-- To spend cycles leaves a budget quiet. -/
theorem Budget.Quiet.spent {b : Budget} (quiet : b.Quiet) (n : Nat) : (b.spent n).Quiet :=
  ⟨quiet.token, quiet.clock⟩

/-- A quiet budget is never overdue: it has no deadline, or one that its clock does not come
to. -/
theorem Budget.Quiet.overdue {b : Budget} (quiet : b.Quiet) : b.overdue = none := by
  unfold Budget.overdue
  split
  · next deadline timeout set _ =>
    have := quiet.clock deadline set b.cycles
    rw [if_neg]
    omega
  · rfl

/-- Below its limit a quiet budget admits every cycle. -/
theorem Budget.Quiet.tick_of_lt {b : Budget} (quiet : b.Quiet) (lt : b.cycles < b.limit) :
    b.tick = .ok (b.spent 1) := by
  unfold Budget.tick
  rw [if_neg (by omega), if_neg quiet.token, quiet.overdue]
  rfl

/-- At its limit a budget admits no cycle, be it quiet or not. -/
theorem Budget.tick_of_le {b : Budget} (le : b.limit ≤ b.cycles) :
    b.tick = .error (.stepLimit b.limit, b) := by
  unfold Budget.tick
  rw [if_pos le]

/-- A machine that trips no token leaves every budget as it is. -/
theorem Steady.settle {m : Machine σ ι ε} (steady : m.Steady) (b : Budget) (s : σ) :
    m.settle b s = b := by
  unfold Machine.settle
  rw [steady s]
  rfl

/-- A quiet budget carries a run to a state of the course, if the limit admits it and no
state before it trips the token. -/
theorem run_after_of_untripped {m : Machine σ ι ε} :
    ∀ {n : Nat} {b : Budget} {s t : σ}, b.Quiet → m.after? n s = some t →
      b.cycles + n ≤ b.limit → (∀ k u, k < n → m.after? k s = some u → m.trips u = false) →
        m.run b s = m.run (b.spent n) t
  | 0, b, s, t, _, h, _, _ => by
    cases h
    rfl
  | n + 1, b, s, t, quiet, h, le, untripped => by
    obtain ⟨s', hn, ht⟩ := after?_succ.mp h
    have ticked : (m.settle b s).tick = .ok (b.spent 1) := by
      unfold settle
      rw [untripped 0 s (by omega) rfl]
      exact quiet.tick_of_lt (by omega)
    have behind : ∀ k u, k < n → m.after? k s' = some u → m.trips u = false := by
      intro k u lt hu
      exact untripped (k + 1) u (by omega) (after?_succ.mpr ⟨s', hn, hu⟩)
    rw [run_next hn ticked,
      run_after_of_untripped (quiet.spent 1) ht (by simp; omega) behind,
      Budget.spent_spent, Nat.add_comm 1 n]

section
variable {m : Machine σ ι ε} (steady : m.Steady)
include steady

/-- **A quiet budget carries a run to every state of the course that the limit
admits.** -/
theorem run_after {n : Nat} {b : Budget} {s t : σ} (quiet : b.Quiet)
    (h : m.after? n s = some t) (le : b.cycles + n ≤ b.limit) :
    m.run b s = m.run (b.spent n) t :=
  run_after_of_untripped quiet h le fun _ u _ _ => steady u

/-- A run whose limit admits all cycles of the machine ends with the machine. -/
theorem run_completes {b : Budget} {s : σ} {r : Run σ ε} (quiet : b.Quiet)
    (h : m.Completes s r) (le : b.cycles + r.cycles ≤ b.limit) :
    m.run b s = r.delay b.cycles := by
  -- First all cycles but the last, for which the budget still has a tick.
  obtain ⟨n, t, last, ht, hlast, rfl⟩ := h
  rw [Run.cycles_delay] at le
  rw [run_after steady quiet ht (by omega), Run.delay_delay]
  refine run_stops hlast fun one => ⟨(b.spent n).spent 1, ?_, rfl⟩
  rw [steady.settle]
  exact (quiet.spent n).tick_of_lt (by simp; omega)

/-- A run comes to an instruction when its limit is used up, and is stopped in front of it. -/
theorem run_limited {b : Budget} {n : Nat} {s t : σ} {instr : ι} {site : Site}
    (quiet : b.Quiet) (ht : m.after? n s = some t) (hv : m.visit? t = some (instr, site))
    (eq : b.cycles + n = b.limit) :
    m.run b s = ⟨t, b.limit, .exhausted (.stepLimit b.limit) site⟩ := by
  rw [run_after steady quiet ht (by omega)]
  have ticked : (m.settle (b.spent n) t).tick = .error (.stepLimit b.limit, b.spent n) := by
    rw [steady.settle]
    exact Budget.tick_of_le (by simp; omega)
  rw [run_exhausted hv ticked, Budget.cycles_spent, eq]

/-- **A quiet run ends with the machine, or it takes all the cycles of its
limit.** -/
theorem run_quiet {b : Budget} (quiet : b.Quiet) (le : b.cycles ≤ b.limit) (s : σ) :
    (∃ r, m.Completes s r ∧ b.cycles + r.cycles ≤ b.limit ∧ m.run b s = r.delay b.cycles)
      ∨ ∃ t instr site, m.after? (b.limit - b.cycles) s = some t
          ∧ m.visit? t = some (instr, site)
          ∧ m.run b s = ⟨t, b.limit, .exhausted (.stepLimit b.limit) site⟩ := by
  rcases visits_or_completes m (b.limit - b.cycles) s with
    ⟨t, instr, site, ht, hv⟩ | ⟨r, hr, short⟩
  · exact .inr ⟨t, instr, site, ht, hv, run_limited steady quiet ht hv (by omega)⟩
  · have fits : b.cycles + r.cycles ≤ b.limit := by omega
    exact .inl ⟨r, hr, fits, run_completes steady quiet hr fits⟩

end

end Esolang.Machine
