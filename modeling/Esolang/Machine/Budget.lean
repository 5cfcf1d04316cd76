/-
  Esolang.Machine.Budget
  ──────────────────────
  **THE CYCLES OF A RUN.**

  Every cycle begins with a tick of the budget.  A tick fails when the limit is
  reached, else when the token is tripped, else when the deadline has passed;
  the clock is looked at once in 1024 cycles.  A timeout too long for the clock
  sets no deadline.

    • `tick_lt` — a tick that succeeds brings the count closer to the limit.
-/
import Esolang.Diagnostic.Basic
import Esolang.Machine.Settings

namespace Esolang.Machine

open Esolang.Diagnostic (Report)

/-! ## §1. Exhaustion -/

/-- Why a run is stopped from outside. -/
inductive Exhaustion where
  /-- It has taken all the cycles it may. -/
  | stepLimit (limit : Nat)
  /-- Its token was tripped when it had taken so many cycles. -/
  | cancelled (cycles : Nat)
  /-- It has taken as long as it may. -/
  | timedOut (timeout : Duration)
  deriving DecidableEq, Repr

/-- The exhaustion in words. -/
def Exhaustion.report : Exhaustion → Report
  | .stepLimit limit =>
    { kind := .stepLimitExceeded
      message := "step limit of " ++ toString limit ++ " cycles exceeded" }
  | .cancelled cycles =>
    { kind := .cancelled, message := "cancelled after " ++ toString cycles ++ " cycles" }
  | .timedOut timeout =>
    { kind := .timedOut, message := "timed out after " ++ toString timeout.millis ++ " ms" }

/-! ## §2. Budgets -/

/-- The count of cycles and what bounds it. -/
structure Budget where
  /-- The most cycles that may be taken. -/
  limit : Nat
  /-- The token, if there is one, and whether it is tripped. -/
  token : Option Bool
  /-- How long the run may take. -/
  timeout : Option Duration
  /-- Nanoseconds until the deadline, if the clock will come to one. -/
  deadline : Option Nat
  /-- Nanoseconds that have passed when so many cycles are done. -/
  clock : Nat → Nat
  /-- Cycles taken. -/
  cycles : Nat

namespace Budget

/-- Cycles are counted in 64 bits, so no run takes more than this many. -/
def ceiling : Nat :=
  UInt64.size

/-- Cycles between two looks at the clock. -/
def clockInterval : Nat :=
  1024

/-- The budget of a run, with the limit that holds if the settings give none. -/
def ofSettings (settings : Settings) (defaultLimit : Option Nat) : Budget :=
  { limit := (settings.maxSteps.or defaultLimit).getD ceiling
    token := settings.token
    timeout := settings.timeout
    deadline := settings.deadline
    clock := settings.clock
    cycles := 0 }

/-- Trips the token, if there is one. -/
def cancel (b : Budget) : Budget :=
  { b with token := b.token.map fun _ => true }

/-- The timeout, if the clock is looked at now and shows that the deadline has passed. -/
def overdue (b : Budget) : Option Duration :=
  match b.deadline, b.timeout with
  | some deadline, some timeout =>
    if b.cycles % clockInterval = 0 ∧ deadline ≤ b.clock b.cycles then some timeout else none
  | _, _ => none

/-- Begins one more cycle, or tells why there is none; either way the budget is handed
on. -/
def tick (b : Budget) : Except (Exhaustion × Budget) Budget :=
  if b.limit ≤ b.cycles then .error (.stepLimit b.limit, b)
  else if b.token = some true then .error (.cancelled b.cycles, b)
  else match b.overdue with
    | some timeout => .error (.timedOut timeout, b)
    | none => .ok { b with cycles := b.cycles + 1 }

/-! ## §3. Ticks come to an end -/

theorem tick_eq_ok {b b' : Budget} (h : b.tick = .ok b') :
    b.cycles < b.limit ∧ b' = { b with cycles := b.cycles + 1 } := by
  unfold tick at h
  split at h
  · cases h
  · split at h
    · cases h
    · split at h
      · cases h
      · cases h
        exact ⟨by omega, rfl⟩

/-- A tick that is refused leaves the budget as it is. -/
theorem tick_eq_error {b b' : Budget} {reason : Exhaustion} (h : b.tick = .error (reason, b')) :
    b' = b := by
  unfold tick at h
  split at h
  · cases h
    rfl
  · split at h
    · cases h
      rfl
    · split at h <;> cases h
      rfl

@[simp] theorem limit_cancel (b : Budget) : b.cancel.limit = b.limit := rfl

@[simp] theorem cycles_cancel (b : Budget) : b.cancel.cycles = b.cycles := rfl

/-- A tick that succeeds brings the count closer to the limit. -/
theorem tick_lt {b b' : Budget} (h : b.tick = .ok b') :
    b'.limit - b'.cycles < b.limit - b.cycles := by
  obtain ⟨lt, rfl⟩ := tick_eq_ok h
  simp only
  omega

end Budget

end Esolang.Machine
