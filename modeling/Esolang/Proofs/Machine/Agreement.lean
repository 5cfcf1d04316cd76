/-
  Esolang.Proofs.Machine.Agreement
  ────────────────────────────────
  **MACHINES THAT AGREE WHERE A RUN COMES.**

  A run sees no more of a machine than the states that it goes through.  Two
  machines that fetch alike, and that execute alike and trip alike in those states,
  cannot be told apart by it.

    • `run_along` — a run goes through a state of the course, or its budget stops it
      before,
    • `exists_last` — the last state of a run is a state of the course, and the run
      goes through none behind it,
    • `run_congr` — machines that agree in the states of a run make the same run,
    • `eq_add_countAt` — what grows by one in certain states counts the cycles that
      begin in them.
-/
import Esolang.Proofs.Machine.Course

namespace Esolang.Machine

variable {σ ι ε : Type}

/-! ## §1. The states of a run. -/

/-- The run from `s` comes to `t` in `n` cycles. -/
def Reaches (m : Machine σ ι ε) (b : Budget) (s : σ) (n : Nat) (t : σ) : Prop :=
  m.after? n s = some t ∧ b.cycles + n ≤ (m.run b s).cycles

theorem le_cycles_run (m : Machine σ ι ε) (b : Budget) (s : σ) :
    b.cycles ≤ (m.run b s).cycles := by
  rcases run_course m b s with ⟨r, -, eq⟩ | ⟨n, t, instr, site, reason, -, -, eq⟩
  · rw [eq, Run.cycles_delay]
    omega
  · rw [eq]
    exact Nat.le_add_right _ _

/-- **A run goes through a state of the course, or its budget stops it on the way.** -/
theorem run_along {m : Machine σ ι ε} {n : Nat} :
    ∀ {b : Budget} {s t : σ}, m.after? n s = some t →
      (∃ b', b'.cycles = b.cycles + n ∧ m.run b s = m.run b' t)
        ∨ ∃ k u instr site reason, k < n ∧ m.after? k s = some u
            ∧ m.visit? u = some (instr, site)
            ∧ m.run b s = ⟨u, b.cycles + k, .exhausted reason site⟩ := by
  induction n with
  | zero =>
    intro b s t ht
    cases ht
    exact .inl ⟨b, rfl, rfl⟩
  | succ n ih =>
    intro b s t ht
    obtain ⟨s', hn, rest⟩ := after?_succ.mp ht
    cases ticked : (m.settle b s).tick with
    | error refused =>
      obtain ⟨reason, _⟩ := refused
      obtain ⟨instr, site, hf, -⟩ := next?_eq_some.mp hn
      have hv := visit?_eq_some.mpr hf
      exact .inr ⟨0, s, instr, site, reason, Nat.succ_pos n, rfl, hv, run_exhausted hv ticked⟩
    | ok b' =>
      have spent : b'.cycles = b.cycles + 1 := by
        rw [(Budget.tick_eq_ok ticked).2, cycles_settle]
      have same : m.run b s = m.run b' s' := run_next hn ticked
      rw [same]
      -- The budget that is left carries the run on from the next state, or stops it there.
      rcases ih (b := b') rest with
        ⟨b'', cycles, eq⟩ | ⟨k, u, instr, site, reason, lt, hu, hv, eq⟩
      · exact .inl ⟨b'', by omega, eq⟩
      · refine .inr ⟨k + 1, u, instr, site, reason, by omega, after?_succ.mpr ⟨s', hn, hu⟩, hv, ?_⟩
        rw [eq, spent, show b.cycles + 1 + k = b.cycles + (k + 1) by omega]

/-- A run that takes a cycle more than it needs to a state in which the machine stops has
stopped there. -/
theorem run_of_stops {m : Machine σ ι ε} {b : Budget} {s t : σ} {n : Nat} {last : Run σ ε}
    (ht : m.after? n s = some t) (hlast : m.Stops t last)
    (within : b.cycles + n < (m.run b s).cycles) : m.run b s = last.delay (b.cycles + n) := by
  have completed : m.Completes s (last.delay n) := ⟨n, t, last, ht, hlast, rfl⟩
  rcases run_course m b s with ⟨r, hr, eq⟩ | ⟨k, u, instr, site, reason, hu, hv, eq⟩
  · rw [eq, hr.unique completed, Run.delay_delay]
  · -- A run that is exhausted stands before an instruction of the course, so not behind `t`.
    rw [eq] at within
    have further : n ≤ k := by
      simp only at within
      omega
    obtain ⟨v, hv', rest⟩ := after?_of_le hu further
    rw [ht] at hv'
    cases hv'
    obtain ⟨none_left, -⟩ := hlast.after?_eq_some rest
    simp only at within
    omega

/-- A machine that does not change its state when it stops. -/
def Still (m : Machine σ ι ε) : Prop :=
  ∀ s last, m.Stops s last → last.state = s

/-- **The last state of a run is a state of the course**, and the run goes through none
behind it.  The run has taken one cycle more than that if it stopped by executing. -/
theorem exists_last {m : Machine σ ι ε} (still : m.Still) (b : Budget) (s : σ) :
    ∃ n, m.Reaches b s n (m.run b s).state
      ∧ (∀ k t, m.Reaches b s k t → k ≤ n)
      ∧ ((m.run b s).cycles = b.cycles + n
        ∨ (m.run b s).cycles = b.cycles + n + 1
          ∧ m.next? (m.run b s).state = none) := by
  unfold Reaches
  rcases run_course m b s with
    ⟨_, ⟨n, t, last, ht, hlast, rfl⟩, eq⟩ | ⟨n, t, instr, site, reason, ht, -, eq⟩
  · have one := hlast.cycles_le
    have stopped := hlast.next?_eq_none
    have cycles : (m.run b s).cycles = b.cycles + n + last.cycles := by
      rw [eq, Run.cycles_delay, Run.cycles_delay]
      omega
    have state : (m.run b s).state = t := by
      rw [eq, Run.state_delay, Run.state_delay]
      exact still t last hlast
    rw [cycles, state]
    refine ⟨n, ⟨ht, by omega⟩, ?_, ?_⟩
    · -- The course ends where the machine stops.
      intro k u reached
      apply Nat.le_of_not_lt
      intro further
      obtain ⟨v, hv, rest⟩ := after?_of_le reached.1 (show n ≤ k by omega)
      rw [ht] at hv
      cases hv
      obtain ⟨none_left, -⟩ := hlast.after?_eq_some rest
      omega
    · rcases Nat.lt_or_eq_of_le one with none_taken | one_taken
      · exact .inl (by omega)
      · exact .inr ⟨by omega, stopped⟩
  · rw [eq]
    refine ⟨n, ⟨ht, Nat.le_refl _⟩, ?_, .inl rfl⟩
    intro k u reached
    have within : b.cycles + k ≤ b.cycles + n := reached.2
    omega

/-! ## §2. Machines that agree. -/

/-- **Machines that agree in the states of a run make the same run.** -/
theorem run_congr {m m' : Machine σ ι ε} (fetch : ∀ t, m'.fetch t = m.fetch t) {b : Budget} {s : σ}
    (trips : ∀ n t, m.Reaches b s n t → m'.trips t = m.trips t)
    (execute : ∀ n t instr site, m.Reaches b s n t → b.cycles + n < (m.run b s).cycles →
      m.fetch t = .found instr site → m'.execute instr t = m.execute instr t) :
    m'.run b s = m.run b s := by
  have start : m.Reaches b s 0 s := ⟨rfl, le_cycles_run m b s⟩
  have settled : m'.settle b s = m.settle b s := by
    unfold settle
    rw [trips 0 s start]
  rw [run_eq m', fetch, settled]
  cases hf : m.fetch s with
  | finished => rw [run_eq, hf]
  | unreadable cause site => rw [run_eq, hf]
  | found instr site =>
    dsimp only
    cases ticked : (m.settle b s).tick with
    | error refused =>
      rw [run_eq m, hf]
      simp only [ticked]
    | ok b' =>
      dsimp only
      have spent : b'.cycles = b.cycles + 1 := by
        rw [(Budget.tick_eq_ok ticked).2, cycles_settle]
      cases hx : m.execute instr s with
      | next s' =>
        have hn : m.next? s = some s' := next?_eq_some.mpr ⟨instr, site, hf, hx⟩
        have same : m.run b s = m.run b' s' := run_next hn ticked
        have counted := le_cycles_run m b' s'
        rw [execute 0 s instr site start (by rw [same]; omega) hf, hx, same]
        dsimp only
        -- A state that is reached from the next one is reached in one cycle more.
        have later {n : Nat} {t : σ} (reached : m.Reaches b' s' n t) : m.Reaches b s (n + 1) t := by
          refine ⟨after?_succ.mpr ⟨s', hn, reached.1⟩, ?_⟩
          rw [same]
          have := reached.2
          omega
        apply run_congr fetch
        · intro n t reached
          exact trips (n + 1) t (later reached)
        · intro n t instr site reached within
          refine execute (n + 1) t instr site (later reached) ?_
          rw [same]
          omega
      | halt s' =>
        have hlast : m.Stops s ⟨s', 1, .halted⟩ := .halt hf hx
        have same : m.run b s = ⟨s', b'.cycles, .halted⟩ := by
          rw [run_stops hlast fun _ => ⟨b', ticked, spent⟩, spent]
          rfl
        rw [execute 0 s instr site start (by rw [same]; dsimp only; omega) hf, hx, same]
      | fault cause =>
        have hlast : m.Stops s ⟨s, 1, .failed cause site⟩ := .fault hf hx
        have same : m.run b s = ⟨s, b'.cycles, .failed cause site⟩ := by
          rw [run_stops hlast fun _ => ⟨b', ticked, spent⟩, spent]
          rfl
        rw [execute 0 s instr site start (by rw [same]; dsimp only; omega) hf, hx, same]
termination_by b.limit - b.cycles
decreasing_by
  rw [← remaining_settle m b s]
  exact Budget.tick_lt ticked

/-- What fetches and executes alike has the same course. -/
theorem after?_congr {m m' : Machine σ ι ε} (next : ∀ s, m'.next? s = m.next? s) :
    ∀ (n : Nat) (s : σ), m'.after? n s = m.after? n s
  | 0, _ => rfl
  | n + 1, s => by
    have rest : m'.after? n = m.after? n := funext (after?_congr next n)
    show (m'.next? s).bind (m'.after? n) = (m.next? s).bind (m.after? n)
    rw [next, rest]

/-! ## §3. Counting cycles. -/

/-- How many of the first `n` cycles from `s` begin in a state with this property. -/
def countAt (m : Machine σ ι ε) (p : σ → Bool) (s : σ) (n : Nat) : Nat :=
  (List.range n).countP fun k => (m.after? k s).any p

theorem countAt_succ {m : Machine σ ι ε} {p : σ → Bool} {s t : σ} {n : Nat}
    (ht : m.after? n s = some t) :
    m.countAt p s (n + 1) = m.countAt p s n + if p t then 1 else 0 := by
  unfold countAt
  rw [List.range_succ, List.countP_append, List.countP_singleton, ht, Option.any_some]

/-- **What grows by one in the states with a property counts the cycles that begin in
them.** -/
theorem eq_add_countAt {m : Machine σ ι ε} {p : σ → Bool} {f : σ → Nat}
    (grows : ∀ s s', m.next? s = some s' → f s' = f s + if p s then 1 else 0) {n : Nat} :
    ∀ {s t : σ}, m.after? n s = some t → f t = f s + m.countAt p s n := by
  induction n with
  | zero =>
    intro s t ht
    cases ht
    rfl
  | succ n ih =>
    intro s t ht
    obtain ⟨u, hu, hn⟩ := after?_succ_last.mp ht
    rw [grows u t hn, ih hu, countAt_succ hu]
    omega

/-- What grows by no more than one in a cycle takes every value on its way. -/
theorem exists_step {m : Machine σ ι ε} {f : σ → Nat}
    (grows : ∀ s s', m.next? s = some s' → f s' ≤ f s + 1) {v n : Nat} :
    ∀ {s t : σ}, m.after? n s = some t → f s ≤ v → v < f t →
      ∃ k u u', k < n ∧ m.after? k s = some u ∧ m.next? u = some u' ∧ f u = v ∧ v < f u' := by
  induction n with
  | zero =>
    intro s t ht below above
    cases ht
    omega
  | succ n ih =>
    intro s t ht below above
    obtain ⟨u, hu, hn⟩ := after?_succ_last.mp ht
    by_cases before : v < f u
    · obtain ⟨k, w, w', lt, found⟩ := ih hu below before
      exact ⟨k, w, w', by omega, found⟩
    · -- The last cycle is the first one that goes beyond.
      have step := grows u t hn
      exact ⟨n, u, t, Nat.lt_succ_self n, hu, hn, by omega, above⟩

end Esolang.Machine
