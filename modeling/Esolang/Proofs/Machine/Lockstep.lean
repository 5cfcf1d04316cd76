/-
  Esolang.Proofs.Machine.Lockstep
  ───────────────────────────────
  **TWO MACHINES IN LOCKSTEP.**

  Two machines go in LOCKSTEP when from related states they find instructions of
  the same effect, at places that correspond.  Each cycle of the one is then a
  cycle of the other, and no bound can tell them apart.

    • `LockstepUntil.run` — with the same budget, whatever it is, both take as many
      cycles and end alike, unless they come to where they may part,
    • `Lockstep.run` — machines in lockstep never part,
    • `Lockstep.halts_iff` — left alone, one halts if and only if the other does,
    • `Lockstep.of_grow` — a machine goes in lockstep with itself when something is added to
      its states that it does not see.
-/
import Esolang.Proofs.Machine.Sequence

namespace Esolang.Machine

open Esolang.Diagnostic (Report Site)

variable {σ ι ε σ' ι' ε' : Type}

/-! ## §1. Runs that are alike. -/

/-- Endings of the same sort, for causes and at places that correspond. -/
inductive Ending.Alike (Why : ε → ε' → Prop) (Place : Site → Site → Prop) :
    Ending ε → Ending ε' → Prop where
  | halted : Alike Why Place .halted .halted
  | failed {cause : ε} {cause' : ε'} {site site' : Site} (why : Why cause cause')
      (place : Place site site') : Alike Why Place (.failed cause site) (.failed cause' site')
  | exhausted {reason : Exhaustion} {site site' : Site} (place : Place site site') :
      Alike Why Place (.exhausted reason site) (.exhausted reason site')

/-- Runs that take as many cycles, to states that are related, and end alike. -/
structure Run.Alike (R : σ → σ' → Prop) (Why : ε → ε' → Prop) (Place : Site → Site → Prop)
    (r : Run σ ε) (r' : Run σ' ε') : Prop where
  state : R r.state r'.state
  cycles : r.cycles = r'.cycles
  ending : r.ending.Alike Why Place r'.ending

section
variable {R : σ → σ' → Prop} {Why : ε → ε' → Prop} {Place : Site → Site → Prop}

theorem Run.Alike.delay {r : Run σ ε} {r' : Run σ' ε'} (alike : r.Alike R Why Place r')
    (n : Nat) : (r.delay n).Alike R Why Place (r'.delay n) where
  state := alike.state
  cycles := congrArg (n + ·) alike.cycles
  ending := alike.ending

theorem Ending.Alike.halted_iff {e : Ending ε} {e' : Ending ε'} (alike : e.Alike Why Place e') :
    e = .halted ↔ e' = .halted := by
  cases alike <;> simp

theorem Effect.Mirrors.swap {Next Halt : σ → σ' → Prop} {x : Effect σ ε} {x' : Effect σ' ε'}
    (mirrors : x.Mirrors Next Halt Why x') :
    x'.Mirrors (flip Next) (flip Halt) (flip Why) x := by
  cases mirrors with
  | next h => exact .next h
  | halt h => exact .halt h
  | fault h => exact .fault h

end

/-! ## §2. Lockstep. -/

/-- In these states the two machines find the same: no instruction, or one that
cannot be read, or instructions of the same effect. -/
inductive Abreast (m : Machine σ ι ε) (m' : Machine σ' ι' ε') (R : σ → σ' → Prop)
    (Why : ε → ε' → Prop) (Place : Site → Site → Prop) (s : σ) (s' : σ') : Prop where
  | finished (hf : m.fetch s = .finished) (hf' : m'.fetch s' = .finished)
  | unreadable {cause : ε} {cause' : ε'} {site site' : Site}
      (hf : m.fetch s = .unreadable cause site) (hf' : m'.fetch s' = .unreadable cause' site')
      (why : Why cause cause') (place : Place site site')
  | found {instr : ι} {instr' : ι'} {site site' : Site}
      (hf : m.fetch s = .found instr site) (hf' : m'.fetch s' = .found instr' site')
      (place : Place site site')
      (mirrors : (m.execute instr s).Mirrors R R Why (m'.execute instr' s'))

/-- Machines that go from related states to related states, and trip the token in
the same of them. -/
structure Lockstep (m : Machine σ ι ε) (m' : Machine σ' ι' ε') (R : σ → σ' → Prop)
    (Why : ε → ε' → Prop) (Place : Site → Site → Prop) : Prop where
  trips : ∀ {s s'}, R s s' → m.trips s = m'.trips s'
  cycle : ∀ {s s'}, R s s' → Abreast m m' R Why Place s s'

/-- Machines that go in lockstep until the first of them comes to a state in which they
may part. -/
structure LockstepUntil (m : Machine σ ι ε) (m' : Machine σ' ι' ε') (R : σ → σ' → Prop)
    (Why : ε → ε' → Prop) (Place : Site → Site → Prop) (Parts : σ → Prop) : Prop where
  trips : ∀ {s s'}, R s s' → m.trips s = m'.trips s'
  cycle : ∀ {s s'}, R s s' → Parts s ∨ Abreast m m' R Why Place s s'

section
variable {m : Machine σ ι ε} {m' : Machine σ' ι' ε'} {R : σ → σ' → Prop}
  {Why : ε → ε' → Prop} {Place : Site → Site → Prop} {Parts : σ → Prop}

/-- **Whatever the budget, runs are alike, or the first one comes to a state in which the
machines may part.** -/
theorem LockstepUntil.run (lock : LockstepUntil m m' R Why Place Parts) (b : Budget) {s : σ}
    {s' : σ'} (related : R s s') :
    (m.run b s).Alike R Why Place (m'.run b s')
      ∨ ∃ b' t, Parts t ∧ m.run b s = m.run b' t := by
  have settled : m'.settle b s' = m.settle b s := by
    unfold settle
    rw [lock.trips related]
  rcases lock.cycle related with parts | abreast
  · exact .inr ⟨b, s, parts, rfl⟩
  cases abreast with
  | finished hf hf' =>
    rw [run_eq m, run_eq m', settled, hf, hf']
    exact .inl ⟨related, rfl, .halted⟩
  | unreadable hf hf' why place =>
    rw [run_eq m, run_eq m', settled, hf, hf']
    exact .inl ⟨related, rfl, .failed why place⟩
  | @found instr instr' _ _ hf hf' place mirrors =>
    rw [run_eq m b s, run_eq m', settled, hf, hf']
    dsimp only
    -- Both wait for the same tick.
    cases ticked : (m.settle b s).tick with
    | error refused => exact .inl ⟨related, rfl, .exhausted place⟩
    | ok b' =>
      dsimp only
      generalize m.execute instr s = effect at mirrors
      generalize m'.execute instr' s' = effect' at mirrors
      cases mirrors with
      | next later => exact lock.run b' later
      | halt last => exact .inl ⟨last, rfl, .halted⟩
      | fault why => exact .inl ⟨related, rfl, .failed why place⟩
termination_by b.limit - b.cycles
decreasing_by
  rw [← remaining_settle m b s]
  exact Budget.tick_lt ticked

end

namespace Lockstep

variable {m : Machine σ ι ε} {m' : Machine σ' ι' ε'} {R : σ → σ' → Prop}
  {Why : ε → ε' → Prop} {Place : Site → Site → Prop}

theorem swap (lock : Lockstep m m' R Why Place) :
    Lockstep m' m (flip R) (flip Why) (flip Place) where
  trips related := (lock.trips related).symm
  cycle related := by
    cases lock.cycle related with
    | finished hf hf' => exact .finished hf' hf
    | unreadable hf hf' why place => exact .unreadable hf' hf why place
    | found hf hf' place mirrors => exact .found hf' hf place mirrors.swap

/-- Machines in lockstep never part. -/
theorem never_parts (lock : Lockstep m m' R Why Place) :
    LockstepUntil m m' R Why Place fun _ => False where
  trips := lock.trips
  cycle related := .inr (lock.cycle related)

/-- **Whatever the budget, runs in lockstep are alike.** -/
theorem run (lock : Lockstep m m' R Why Place) (b : Budget) {s : σ} {s' : σ'}
    (related : R s s') : (m.run b s).Alike R Why Place (m'.run b s') := by
  rcases lock.never_parts.run b related with alike | ⟨_, _, parted, -⟩
  · exact alike
  · exact parted.elim

/-! ## §3. Left alone. -/

theorem next (lock : Lockstep m m' R Why Place) {s t : σ} {s' : σ'} (related : R s s')
    (hn : m.next? s = some t) : ∃ t', m'.next? s' = some t' ∧ R t t' := by
  obtain ⟨instr, site, hf, hx⟩ := next?_eq_some.mp hn
  cases lock.cycle related with
  | finished hf' =>
    rw [hf] at hf'
    cases hf'
  | unreadable hf' =>
    rw [hf] at hf'
    cases hf'
  | @found _ instr' _ site' hf' there place mirrors =>
    rw [hf] at hf'
    cases hf'
    rw [hx] at mirrors
    generalize hx' : m'.execute instr' s' = effect' at mirrors
    cases mirrors with
    | @next _ t' later => exact ⟨t', next?_eq_some.mpr ⟨instr', site', there, hx'⟩, later⟩

theorem after (lock : Lockstep m m' R Why Place) {n : Nat} :
    ∀ {s t : σ} {s' : σ'}, R s s' → m.after? n s = some t →
      ∃ t', m'.after? n s' = some t' ∧ R t t' := by
  induction n with
  | zero =>
    intro s t s' related ht
    cases ht
    exact ⟨s', rfl, related⟩
  | succ n ih =>
    intro s t s' related ht
    obtain ⟨u, hn, ht⟩ := after?_succ.mp ht
    obtain ⟨u', hn', later⟩ := lock.next related hn
    obtain ⟨t', ht', last⟩ := ih later ht
    exact ⟨t', after?_succ.mpr ⟨u', hn', ht'⟩, last⟩

theorem stops (lock : Lockstep m m' R Why Place) {s : σ} {s' : σ'} {last : Run σ ε}
    (related : R s s') (h : m.Stops s last) :
    ∃ last', m'.Stops s' last' ∧ last.Alike R Why Place last' := by
  cases lock.cycle related with
  | finished hf hf' =>
    rw [h.unique (.finished hf)]
    exact ⟨_, .finished hf', related, rfl, .halted⟩
  | unreadable hf hf' why place =>
    rw [h.unique (.unreadable hf)]
    exact ⟨_, .unreadable hf', related, rfl, .failed why place⟩
  | @found instr instr' site site' hf hf' place mirrors =>
    generalize hx : m.execute instr s = effect at mirrors
    generalize hx' : m'.execute instr' s' = effect' at mirrors
    cases mirrors with
    | next later =>
      -- A machine that goes on does not stop.
      have goes := next?_eq_some.mpr ⟨instr, site, hf, hx⟩
      rw [h.next?_eq_none] at goes
      cases goes
    | halt last =>
      rw [h.unique (.halt hf hx)]
      exact ⟨_, .halt hf' hx', last, rfl, .halted⟩
    | fault why =>
      rw [h.unique (.fault hf hx)]
      exact ⟨_, .fault hf' hx', related, rfl, .failed why place⟩

/-- **Left alone, machines in lockstep come to their ends by runs that are alike.** -/
theorem completes (lock : Lockstep m m' R Why Place) {s : σ} {s' : σ'} {r : Run σ ε}
    (related : R s s') (h : m.Completes s r) :
    ∃ r', m'.Completes s' r' ∧ r.Alike R Why Place r' := by
  obtain ⟨n, t, last, ht, hlast, rfl⟩ := h
  obtain ⟨t', ht', there⟩ := lock.after related ht
  obtain ⟨last', hlast', alike⟩ := lock.stops there hlast
  exact ⟨last'.delay n, ⟨n, t', last', ht', hlast', rfl⟩, alike.delay n⟩

theorem halts (lock : Lockstep m m' R Why Place) {s : σ} {s' : σ'} (related : R s s')
    (h : m.Halts s) : m'.Halts s' := by
  obtain ⟨r, hr, halted⟩ := h
  obtain ⟨r', hr', alike⟩ := lock.completes related hr
  exact ⟨r', hr', alike.ending.halted_iff.mp halted⟩

/-- **Left alone, one of two machines in lockstep halts if and only if the other
does.** -/
theorem halts_iff (lock : Lockstep m m' R Why Place) {s : σ} {s' : σ'} (related : R s s') :
    m.Halts s ↔ m'.Halts s' :=
  ⟨lock.halts related, lock.swap.halts related⟩

end Lockstep

/-! ## §4. Machines that cannot tell. -/

section
variable {σ ι ε ρ : Type} {m : Machine σ ι ε} {grow : Nat → σ → σ}

/-- The effect with something done to the state that it leads to. -/
def Effect.map (f : σ → σ) : Effect σ ε → Effect σ ε
  | .next s => .next (f s)
  | .halt s => .halt (f s)
  | .fault cause => .fault cause

/-- The same state, but for what was added to the second. -/
def UpTo (grow : Nat → σ → σ) (s s' : σ) : Prop :=
  ∃ k, s' = grow k s

/-- An effect that takes what was added along. -/
theorem Effect.mirrors_map (k : Nat) (effect : Effect σ ε) :
    effect.Mirrors (UpTo grow) (UpTo grow) Eq (effect.map (grow k)) := by
  cases effect with
  | next s => exact .next ⟨k, rfl⟩
  | halt s => exact .halt ⟨k, rfl⟩
  | fault cause => exact .fault rfl

/-- A machine goes in lockstep with itself, if it finds the same whatever was added, and
does the same. -/
theorem Lockstep.of_grow (trips : ∀ k s, m.trips (grow k s) = m.trips s)
    (fetch : ∀ k s, m.fetch (grow k s) = m.fetch s)
    (execute : ∀ instr k s,
      (m.execute instr s).Mirrors (UpTo grow) (UpTo grow) Eq (m.execute instr (grow k s))) :
    Lockstep m m (UpTo grow) Eq Eq where
  trips := by
    intro s s' related
    obtain ⟨k, rfl⟩ := related
    exact (trips k s).symm
  cycle := by
    intro s s' related
    obtain ⟨k, rfl⟩ := related
    have same := fetch k s
    cases fetched : m.fetch s with
    | finished => exact .finished fetched (same.trans fetched)
    | unreadable cause site => exact .unreadable fetched (same.trans fetched) rfl rfl
    | found instr site => exact .found fetched (same.trans fetched) rfl (execute instr k s)

/-- Runs that are alike, but for what was added, have the same results, as far as it does
not show. -/
theorem Run.Alike.map_result {r r' : Run σ ε} (alike : r.Alike (UpTo grow) Eq Eq r')
    (report : ε → Report) {f : σ → ρ} (hidden : ∀ k s, f (grow k s) = f s) :
    (r'.result report).map f = (r.result report).map f := by
  obtain ⟨s, cycles, ending⟩ := r
  obtain ⟨s', cycles', ending'⟩ := r'
  obtain ⟨⟨k, grown⟩, -, endings⟩ := alike
  unfold Run.result
  cases endings with
  | halted =>
    show Except.ok (f s') = .ok (f s)
    rw [show s' = grow k s from grown, hidden]
  | failed why place =>
    subst why place
    rfl
  | exhausted place =>
    subst place
    rfl

end

end Esolang.Machine
