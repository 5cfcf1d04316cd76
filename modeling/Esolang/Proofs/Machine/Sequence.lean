/-
  Esolang.Proofs.Machine.Sequence
  ───────────────────────────────
  **OPERATIONS IN SEQUENCE.**

  A program without jumps is a sequence of operations, carried out one after
  another, each in one cycle.  `carryOut` says what comes of such a sequence
  without any machine.

    • `Carries` — a machine executes one operation in each cycle, and its states
      show what the operations have made,
    • `Carries.run` — such a machine ends as the sequence does, with any limit,
    • `Carries.refine` — it carries whatever else its operations show.
-/
import Esolang.Proofs.Machine.Course

namespace Esolang.Machine

open Esolang.Diagnostic (Report Site Finding)

variable {σ ι ε ο δ φ : Type}

/-! ## §1. What comes of a sequence. -/

/-- How a sequence of operations ends. -/
inductive Upshot (δ φ : Type) where
  /-- It is carried out, as far as it does not halt itself. -/
  | done (data : δ)
  /-- The operation at this place fails. -/
  | failed (cause : φ) (place : Nat)
  /-- There is no cycle for the operation at this place. -/
  | exhausted (place : Nat)
  deriving DecidableEq, Repr

/-- Carries out operations, the first of which stands at `place`, with as many
cycles as there are places below the limit. -/
def carryOut (perform : ο → δ → Effect δ φ) (limit : Nat) : Nat → List ο → δ → Upshot δ φ
  | _, [], data => .done data
  | place, op :: ops, data =>
    if limit ≤ place then .exhausted place
    else match perform op data with
      | .next data => carryOut perform limit (place + 1) ops data
      | .halt data => .done data
      | .fault cause => .failed cause place

section
variable {perform : ο → δ → Effect δ φ} {limit place : Nat} {op : ο} {data data' : δ}

theorem carryOut_exhausted (le : limit ≤ place) (ops : List ο) :
    carryOut perform limit place (op :: ops) data = .exhausted place := by
  rw [carryOut, if_pos le]

theorem carryOut_next (lt : place < limit) (next : perform op data = .next data') (ops : List ο) :
    carryOut perform limit place (op :: ops) data
      = carryOut perform limit (place + 1) ops data' := by
  rw [carryOut, if_neg (by omega), next]

theorem carryOut_halt (lt : place < limit) (halt : perform op data = .halt data') (ops : List ο) :
    carryOut perform limit place (op :: ops) data = .done data' := by
  rw [carryOut, if_neg (by omega), halt]

theorem carryOut_fault {cause : φ} (lt : place < limit) (fault : perform op data = .fault cause)
    (ops : List ο) : carryOut perform limit place (op :: ops) data = .failed cause place := by
  rw [carryOut, if_neg (by omega), fault]

end

/-! ## §2. Machines that carry out a sequence. -/

/-- An effect on the states of a machine mirrors an effect on data. -/
inductive Effect.Mirrors (Next Halt : σ → δ → Prop) (Cause : ε → φ → Prop) :
    Effect σ ε → Effect δ φ → Prop where
  | next {s : σ} {data : δ} (h : Next s data) : Mirrors Next Halt Cause (.next s) (.next data)
  | halt {s : σ} {data : δ} (h : Halt s data) : Mirrors Next Halt Cause (.halt s) (.halt data)
  | fault {cause : ε} {cause' : φ} (h : Cause cause cause') :
      Mirrors Next Halt Cause (.fault cause) (.fault cause')

/-- The machine carries out sequences of operations.  In a state for which
`At place ops data` holds, these operations are still to come, the first of them at
that place, and `data` has been made so far. -/
structure Carries (m : Machine σ ι ε) (perform : ο → δ → Effect δ φ) (site : Nat → Site)
    (At : Nat → List ο → δ → σ → Prop) (Shows : σ → δ → Prop) (Cause : ε → φ → Prop) :
    Prop where
  /-- When no operation is left, the machine is at the end of its program. -/
  finished : ∀ {place : Nat} {data : δ} {s : σ}, At place [] data s →
    m.fetch s = .finished ∧ Shows s data
  /-- A cycle executes one operation. -/
  cycle : ∀ {place : Nat} {op : ο} {ops : List ο} {data : δ} {s : σ},
    At place (op :: ops) data s →
      ∃ instr, m.fetch s = .found instr (site place)
        ∧ (m.execute instr s).Mirrors (fun s data => At (place + 1) ops data s) Shows Cause
            (perform op data)

/-- A run with this limit ends as a sequence of operations does. -/
inductive Run.Mirrors (limit : Nat) (site : Nat → Site) (Shows : σ → δ → Prop)
    (Cause : ε → φ → Prop) : Run σ ε → Upshot δ φ → Prop where
  | done {s : σ} {cycles : Nat} {data : δ} (h : Shows s data) :
      Mirrors limit site Shows Cause ⟨s, cycles, .halted⟩ (.done data)
  | failed {s : σ} {cycles place : Nat} {cause : ε} {cause' : φ} (h : Cause cause cause') :
      Mirrors limit site Shows Cause ⟨s, cycles, .failed cause (site place)⟩ (.failed cause' place)
  | exhausted {s : σ} {cycles place : Nat} :
      Mirrors limit site Shows Cause ⟨s, cycles, .exhausted (.stepLimit limit) (site place)⟩
        (.exhausted place)

section
variable {m : Machine σ ι ε} {perform : ο → δ → Effect δ φ} {site : Nat → Site}
  {At : Nat → List ο → δ → σ → Prop} {Shows : σ → δ → Prop} {Cause : ε → φ → Prop}

/-- **A machine that carries out a sequence ends as the sequence does**, with any
limit. -/
theorem Carries.run (carries : Carries m perform site At Shows Cause) (steady : m.Steady)
    {ops : List ο} :
    ∀ {b : Budget} {data : δ} {s : σ}, b.Quiet → At b.cycles ops data s →
      (m.run b s).Mirrors b.limit site Shows Cause
        (carryOut perform b.limit b.cycles ops data) := by
  induction ops with
  | nil =>
    intro b data s _ here
    obtain ⟨fetched, shows⟩ := carries.finished here
    rw [run_stops (.finished fetched) nofun]
    exact .done shows
  | cons op ops ih =>
    intro b data s quiet here
    obtain ⟨instr, fetched, mirrors⟩ := carries.cycle here
    by_cases le : b.limit ≤ b.cycles
    · -- No cycle is left: the run stands before the operation.
      have ticked : (m.settle b s).tick = .error (.stepLimit b.limit, b) := by
        rw [steady.settle]
        exact Budget.tick_of_le le
      rw [run_exhausted (visit?_eq_some.mpr fetched) ticked, carryOut_exhausted le]
      exact .exhausted
    · have lt : b.cycles < b.limit := by omega
      have ticked : (m.settle b s).tick = .ok (b.spent 1) := by
        rw [steady.settle]
        exact quiet.tick_of_lt lt
      generalize executed : m.execute instr s = effect at mirrors
      generalize performed : perform op data = effect' at mirrors
      cases mirrors with
      | next here' =>
        rw [run_next (next?_eq_some.mpr ⟨instr, _, fetched, executed⟩) ticked,
          carryOut_next lt performed]
        exact ih (quiet.spent 1) here'
      | halt shows =>
        rw [run_stops (.halt fetched executed) fun _ => ⟨_, ticked, rfl⟩,
          carryOut_halt lt performed]
        exact .done shows
      | fault causes =>
        rw [run_stops (.fault fetched executed) fun _ => ⟨_, ticked, rfl⟩,
          carryOut_fault lt performed]
        exact .failed causes

section
variable {limit place : Nat} {r : Run σ ε} {data : δ} {cause' : φ}

theorem Run.Mirrors.result_done (h : r.Mirrors limit site Shows Cause (.done data))
    (report : ε → Report) : ∃ s, r.result report = .ok s ∧ Shows s data := by
  cases h with
  | done shows => exact ⟨_, rfl, shows⟩

theorem Run.Mirrors.result_failed (h : r.Mirrors limit site Shows Cause (.failed cause' place))
    (report : ε → Report) :
    ∃ cause, r.result report = .error ⟨report cause, site place⟩ ∧ Cause cause cause' := by
  cases h with
  | failed causes => exact ⟨_, rfl, causes⟩

end

variable {ο' δ' φ' : Type} {perform' : ο' → δ' → Effect δ' φ'}

/-- **A machine carries whatever else its operations show**: data `δ'` on which
operations `ο'` have the effect that the machine's own have on theirs. -/
theorem Carries.refine (carries : Carries m perform site At Shows Cause) (op : ο' → ο)
    {R : δ → δ' → Prop} {C : φ → φ' → Prop}
    (mirrors : ∀ op' data data', R data data' →
      (perform (op op') data).Mirrors R R C (perform' op' data')) :
    Carries m perform' site
      (fun place ops data' s => ∃ data, At place (ops.map op) data s ∧ R data data')
      (fun s data' => ∃ data, Shows s data ∧ R data data')
      (fun cause cause' => ∃ inner, Cause cause inner ∧ C inner cause') where
  finished := by
    rintro place data' s ⟨data, here, related⟩
    obtain ⟨fetched, shows⟩ := carries.finished here
    exact ⟨fetched, data, shows, related⟩
  cycle := by
    rintro place op' ops data' s ⟨data, here, related⟩
    obtain ⟨instr, fetched, inner⟩ := carries.cycle here
    have outer := mirrors op' data data' related
    refine ⟨instr, fetched, ?_⟩
    generalize m.execute instr s = effect at inner
    generalize perform (op op') data = middle at inner outer
    generalize perform' op' data' = effect' at outer
    -- Both effects are of the same sort, since the one in the middle is.
    cases inner with
    | next here' =>
      cases outer with
      | next related' => exact .next ⟨_, here', related'⟩
    | halt shows =>
      cases outer with
      | halt related' => exact .halt ⟨_, shows, related'⟩
    | fault causes =>
      cases outer with
      | fault related' => exact .fault ⟨_, causes, related'⟩

end

end Esolang.Machine
