/-
  Esolang.Machine.Run
  ───────────────────
  **MACHINES AND THEIR RUNS.**

  A machine fetches the instruction that its state calls for and executes it.
  A cycle is a fetch, a tick of the budget and an execution, in this order: a
  machine that has come to its end needs no tick, and neither does one whose
  next instruction cannot be read.
-/
import Esolang.Machine.Budget

namespace Esolang

open Esolang.Diagnostic (Report Site Finding)

namespace Machine

/-! ## §1. Machines -/

/-- What a machine finds when it looks for its next instruction. -/
inductive Fetch (ι ε : Type) where
  /-- There is none: the program has come to its end. -/
  | finished
  /-- It cannot be read. -/
  | unreadable (cause : ε) (site : Site)
  /-- It is `instr`, written at `site`. -/
  | found (instr : ι) (site : Site)

/-- What comes of executing an instruction. -/
inductive Effect (σ ε : Type) where
  /-- The machine goes on. -/
  | next (state : σ)
  /-- The machine halts. -/
  | halt (state : σ)
  /-- The instruction cannot be executed. -/
  | fault (cause : ε)

end Machine

open Machine

/-- A machine with states `σ`, instructions `ι` and causes of failure `ε`. -/
structure Machine (σ ι ε : Type) where
  /-- Looks for the next instruction. -/
  fetch : σ → Fetch ι ε
  /-- Executes an instruction. -/
  execute : ι → σ → Effect σ ε
  /-- Whether something in the run so far has tripped the token. -/
  trips : σ → Bool := fun _ => false

namespace Machine

/-! ## §2. Runs -/

/-- How a run ends. -/
inductive Ending (ε : Type) where
  /-- The program halted. -/
  | halted
  /-- It failed at an instruction. -/
  | failed (cause : ε) (site : Site)
  /-- It was stopped before an instruction. -/
  | exhausted (reason : Exhaustion) (site : Site)
  deriving DecidableEq, Repr

/-- A run: its ending, the number of cycles it took, and the last state before
the ending. -/
structure Run (σ ε : Type) where
  /-- The last state. -/
  state : σ
  /-- Number of ticks that succeeded. -/
  cycles : Nat
  /-- How the run ends. -/
  ending : Ending ε

variable {σ ι ε : Type}

/-- The budget with its token tripped, if the state has tripped it. -/
def settle (m : Machine σ ι ε) (b : Budget) (s : σ) : Budget :=
  if m.trips s then b.cancel else b

/-- What remains of a budget does not change when its token is tripped. -/
theorem remaining_settle (m : Machine σ ι ε) (b : Budget) (s : σ) :
    (m.settle b s).limit - (m.settle b s).cycles = b.limit - b.cycles := by
  unfold settle
  split <;> simp

/-- Runs a machine from a state until it halts or fails or is stopped. -/
def run (m : Machine σ ι ε) (b : Budget) (s : σ) : Run σ ε :=
  match m.fetch s with
  | .finished => ⟨s, b.cycles, .halted⟩
  | .unreadable cause site => ⟨s, b.cycles, .failed cause site⟩
  | .found instr site =>
    match _ticked : (m.settle b s).tick with
    | .error (reason, b') => ⟨s, b'.cycles, .exhausted reason site⟩
    | .ok b' =>
      match m.execute instr s with
      | .next s' => m.run b' s'
      | .halt s' => ⟨s', b'.cycles, .halted⟩
      | .fault cause => ⟨s, b'.cycles, .failed cause site⟩
termination_by b.limit - b.cycles
decreasing_by
  have := Budget.tick_lt (by assumption)
  rw [remaining_settle] at this
  exact this

/-! ## §3. Results -/

/-- The finding that ends a run, if it does not halt. -/
def Ending.finding? (report : ε → Report) : Ending ε → Option Finding
  | .halted => none
  | .failed cause site => some ⟨report cause, site⟩
  | .exhausted reason site => some ⟨reason.report, site⟩

/-- The last state of a run that halts, or the finding that ends it. -/
def Run.result (report : ε → Report) (r : Run σ ε) : Except Finding σ :=
  match r.ending.finding? report with
  | none => .ok r.state
  | some finding => .error finding

end Machine

end Esolang
