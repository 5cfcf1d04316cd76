/-
  Esolang.Proofs.Machine.Histories
  ────────────────────────────────
  **THE HISTORY OF A BUDGET.**

  Three parties have a hand in a budget: the run that asks for ticks, the caller that trips
  the token, and the clock.  A HISTORY is what they do, in any order.  What a budget answers
  to a tick can be read off its history: the ticks that it has granted, whether the token was
  tripped, and how much time has passed.  What it leaves behind a refusal is the budget that
  the refusal hands on.

    • `late_behind` — when the deadline has passed, and that a timeout which is too long
      for the clock sets none,
    • `after_eq` — what a history makes of a budget, field by field,
    • `tick_eq_error_iff` — the three reasons to refuse a tick, in their order,
    • `fails_meet` — a budget that refuses a tick refuses it after every further event,
    • `answers_eq` — so the answers to the ticks are grants first and refusals then,
    • **`accounted`** — all of it, for the budget of any settings.
-/
import Esolang.Machine.Budget
import Mathlib.Data.List.Basic

namespace Esolang.Machine

/-! ## §1. Histories. -/

/-- What can happen to a budget. -/
inductive Event where
  /-- The run asks for one more cycle. -/
  | tick
  /-- The caller trips the token. -/
  | cancel
  /-- So many nanoseconds pass. -/
  | pass (nanos : Nat)
  deriving DecidableEq, Repr

/-- How much time an event takes. -/
def Event.nanos : Event → Nat
  | .pass nanos => nanos
  | .tick | .cancel => 0

/-- How much time has passed in a history, over what the cycles themselves have taken. -/
def elapsed (events : List Event) : Nat :=
  events.foldr (fun event time => event.nanos + time) 0

/-- The token at the end of a history: if there is one, it is tripped for good. -/
def tokenAfter (token : Option Bool) (events : List Event) : Option Bool :=
  token.map fun tripped => tripped || decide (Event.cancel ∈ events)

/-- There is a token, and it was tripped from the beginning or is tripped in the history. -/
def Tripped (token : Option Bool) (events : List Event) : Prop :=
  token = some true ∨ token = some false ∧ Event.cancel ∈ events

namespace Budget

/-- The budget when more time has passed. -/
def later (nanos : Nat) (b : Budget) : Budget :=
  { b with clock := fun cycles => b.clock cycles + nanos }

/-- Asks for a tick: the reason of a refusal, if it is refused, and the budget behind it. -/
def attempt (b : Budget) : Option Exhaustion × Budget :=
  match b.tick with
  | .ok b' => (none, b')
  | .error (reason, b') => (some reason, b')

/-- The budget behind an event. -/
def meet (b : Budget) : Event → Budget
  | .tick => b.attempt.2
  | .cancel => b.cancel
  | .pass nanos => b.later nanos

/-- The budget behind a history. -/
def after (b : Budget) (events : List Event) : Budget :=
  events.foldl meet b

/-- What the budget answers to the ticks of a history: nothing to those that it grants, and
the reason to the others. -/
def answers (b : Budget) : List Event → List (Option Exhaustion)
  | [] => []
  | .tick :: events => b.attempt.1 :: b.attempt.2.answers events
  | event :: events => (b.meet event).answers events

/-- Number of ticks that succeed in a history. -/
def granted (b : Budget) (events : List Event) : Nat :=
  (b.answers events).count none

@[simp] theorem after_nil (b : Budget) : b.after [] = b := rfl

@[simp] theorem after_cons (b : Budget) (event : Event) (events : List Event) :
    b.after (event :: events) = (b.meet event).after events := rfl

/-! ## §2. What a history makes of a budget. -/

/-- An attempt that succeeds tells nothing and hands the new budget on. -/
theorem attempt_of_ok {b b' : Budget} (ticked : b.tick = .ok b') : b.attempt = (none, b') := by
  simp only [attempt, ticked]

/-- An attempt that is refused tells why, and hands on the budget that came with the reason. -/
theorem attempt_of_error {b b' : Budget} {reason : Exhaustion}
    (ticked : b.tick = .error (reason, b')) : b.attempt = (some reason, b') := by
  simp only [attempt, ticked]

/-- A tick that is granted counts. -/
theorem granted_of_ok {b b' : Budget} (ticked : b.tick = .ok b') (events : List Event) :
    b.granted (.tick :: events) = b'.granted events + 1 := by
  simp only [granted, answers, attempt_of_ok ticked, List.count_cons_self]

/-- A tick that is refused does not. -/
theorem granted_of_error {b b' : Budget} {reason : Exhaustion}
    (ticked : b.tick = .error (reason, b')) (events : List Event) :
    b.granted (.tick :: events) = b'.granted events := by
  simp [granted, answers, attempt_of_error ticked]

/-- Where nothing happens the token stays as it is. -/
theorem tokenAfter_nil (token : Option Bool) : tokenAfter token [] = token := by
  cases token <;> simp [tokenAfter]

/-- A cancellation trips the token, if there is one. -/
theorem tokenAfter_cancel (token : Option Bool) (events : List Event) :
    tokenAfter token (.cancel :: events) = tokenAfter (token.map fun _ => true) events := by
  cases token <;> simp [tokenAfter]

/-- Nothing but a cancellation trips the token. -/
theorem tokenAfter_cons {event : Event} (other : Event.cancel ≠ event) (token : Option Bool)
    (events : List Event) : tokenAfter token (event :: events) = tokenAfter token events := by
  simp [tokenAfter, other]

/-- A token is tripped if it was so before, or if it was cancelled since. -/
theorem tokenAfter_eq_some_true {token : Option Bool} {events : List Event} :
    tokenAfter token events = some true ↔ Tripped token events := by
  unfold tokenAfter Tripped
  rcases token with _ | _ | _ <;> simp

/-- **What a history makes of a budget.**  The token is tripped for good, time adds up, and
the cycles are the ticks that it has granted. -/
theorem after_eq (events : List Event) :
    ∀ b : Budget, b.after events =
      { b with
        token := tokenAfter b.token events
        clock := fun cycles => b.clock cycles + elapsed events
        cycles := b.cycles + b.granted events } := by
  induction events with
  | nil =>
    intro b
    rw [tokenAfter_nil]
    rfl
  | cons event events ih =>
    intro b
    rw [after_cons, ih]
    cases event with
    | cancel =>
      have time : elapsed (.cancel :: events) = elapsed events := Nat.zero_add _
      rw [tokenAfter_cancel, time]
      rfl
    | pass nanos =>
      have time : elapsed (.pass nanos :: events) = nanos + elapsed events := rfl
      rw [tokenAfter_cons (by simp), time]
      simp only [← Nat.add_assoc]
      rfl
    | tick =>
      have time : elapsed (.tick :: events) = elapsed events := Nat.zero_add _
      rw [tokenAfter_cons (by simp), time]
      cases ticked : b.tick with
      | ok b' =>
        rw [granted_of_ok ticked, meet, attempt_of_ok ticked]
        obtain ⟨-, rfl⟩ := tick_eq_ok ticked
        simp only [Nat.add_assoc, Nat.add_comm 1]
      | error refused =>
        obtain ⟨reason, b'⟩ := refused
        rw [granted_of_error ticked, meet, attempt_of_error ticked, tick_eq_error ticked]

end Budget

/-! ## §3. Why a tick is refused. -/

/-- All that counts when a tick is asked for. -/
structure Standing where
  /-- The most cycles that may be taken, if they are limited. -/
  limit : Option Nat
  /-- The token is tripped. -/
  tripped : Prop
  /-- How long the run may take, if that is limited. -/
  timeout : Option Duration
  /-- Nanoseconds until the deadline, if there is one. -/
  deadline : Option Nat
  /-- Nanoseconds that it has taken. -/
  time : Nat
  /-- Cycles that it has taken. -/
  count : Nat

/-- The clock is looked at, and the deadline has passed. -/
def Standing.Late (standing : Standing) (timeout : Duration) : Prop :=
  standing.timeout = some timeout ∧ Budget.clockInterval ∣ standing.count
    ∧ ∃ deadline, standing.deadline = some deadline ∧ deadline ≤ standing.time

/-- The reason to refuse a tick: each one counts if those before it do not hold. -/
inductive Standing.Refuses (standing : Standing) : Exhaustion → Prop where
  | stepLimit {limit : Nat} (limited : standing.limit = some limit)
      (reached : limit ≤ standing.count) : Refuses standing (.stepLimit limit)
  | cancelled (below : ∀ limit, standing.limit = some limit → standing.count < limit)
      (tripped : standing.tripped) : Refuses standing (.cancelled standing.count)
  | timedOut {timeout : Duration}
      (below : ∀ limit, standing.limit = some limit → standing.count < limit)
      (untripped : ¬ standing.tripped) (late : standing.Late timeout) :
      Refuses standing (.timedOut timeout)

namespace Budget

/-- What counts when this budget is asked for a tick. -/
def standing (b : Budget) : Standing where
  limit := some b.limit
  tripped := b.token = some true
  timeout := b.timeout
  deadline := b.deadline
  time := b.clock b.cycles
  count := b.cycles

/-- A budget is overdue just where its standing is late. -/
theorem overdue_eq_some_iff {b : Budget} {timeout : Duration} :
    b.overdue = some timeout ↔ b.standing.Late timeout := by
  unfold overdue Standing.Late standing
  simp only [Nat.dvd_iff_mod_eq_zero]
  split
  · next deadline given dated limited =>
    rw [dated, limited]
    simp only [Option.some.injEq, exists_eq_left']
    split
    · next late =>
      exact ⟨fun same => ⟨Option.some.inj same, late⟩, fun found => congrArg some found.1⟩
    · next early => exact ⟨nofun, fun found => absurd found.2 early⟩
  · next missing =>
    refine ⟨nofun, ?_⟩
    rintro ⟨limited, -, deadline, dated, -⟩
    exact (missing deadline timeout dated limited).elim

/-- Cycles below the limit are below every limit that the standing shows. -/
theorem below_of_lt {b : Budget} (below : b.cycles < b.limit) :
    ∀ limit, b.standing.limit = some limit → b.standing.count < limit := by
  intro limit limited
  cases limited
  exact below

/-- **A tick is refused for the first of three reasons that holds.** -/
theorem tick_eq_error_iff {b : Budget} {reason : Exhaustion} :
    b.tick = .error (reason, b) ↔ b.standing.Refuses reason := by
  unfold tick
  constructor
  · intro refused
    split at refused
    · next reached =>
      cases refused
      exact .stepLimit rfl reached
    · next below =>
      split at refused
      · next tripped =>
        cases refused
        exact .cancelled (below_of_lt (by omega)) tripped
      · next untripped =>
        split at refused
        · next timeout late =>
          cases refused
          exact .timedOut (below_of_lt (by omega)) untripped (overdue_eq_some_iff.mp late)
        · cases refused
  · intro refuses
    cases refuses with
    | stepLimit limited reached =>
      cases limited
      exact if_pos reached
    | cancelled below tripped =>
      have some_left : ¬ b.limit ≤ b.cycles := Nat.not_le.mpr (below _ rfl)
      rw [if_neg some_left]
      exact if_pos tripped
    | timedOut below untripped late =>
      have some_left : ¬ b.limit ≤ b.cycles := Nat.not_le.mpr (below _ rfl)
      have no_token : ¬ b.token = some true := untripped
      rw [if_neg some_left, if_neg no_token, overdue_eq_some_iff.mpr late]

/-! ## §4. A refusal is for good. -/

/-- The budget refuses the next tick. -/
def Fails (b : Budget) : Prop :=
  ∃ refused, b.tick = .error refused

/-- A budget that refuses a tick is the one that is handed on. -/
theorem Fails.exists_reason {b : Budget} (fails : b.Fails) :
    ∃ reason, b.tick = .error (reason, b) := by
  obtain ⟨⟨reason, b'⟩, refused⟩ := fails
  obtain rfl := tick_eq_error refused
  exact ⟨reason, refused⟩

/-- What the three reasons come to, whichever holds first. -/
theorem fails_iff {b : Budget} :
    b.Fails ↔ b.limit ≤ b.cycles ∨ b.token = some true ∨ ∃ timeout, b.standing.Late timeout := by
  constructor
  · intro fails
    obtain ⟨reason, refused⟩ := fails.exists_reason
    cases tick_eq_error_iff.mp refused with
    | stepLimit limited reached =>
      cases limited
      exact .inl reached
    | cancelled below tripped => exact .inr (.inl tripped)
    | timedOut below untripped late => exact .inr (.inr ⟨_, late⟩)
  · intro any
    by_cases reached : b.limit ≤ b.cycles
    · exact ⟨_, tick_eq_error_iff.mpr (.stepLimit rfl reached)⟩
    have below := below_of_lt (Nat.not_le.mp reached)
    by_cases tripped : b.token = some true
    · exact ⟨_, tick_eq_error_iff.mpr (.cancelled below tripped)⟩
    obtain ⟨timeout, late⟩ := (any.resolve_left reached).resolve_left tripped
    exact ⟨_, tick_eq_error_iff.mpr (.timedOut below tripped late)⟩

/-- **A budget that refuses a tick refuses it after any event**, and has counted no cycle. -/
theorem fails_meet {b : Budget} (fails : b.Fails) (event : Event) :
    (b.meet event).Fails ∧ (b.meet event).cycles = b.cycles := by
  cases event with
  | tick =>
    -- The refusal leaves the budget as it is.
    obtain ⟨reason, refused⟩ := fails.exists_reason
    rw [meet, attempt_of_error refused]
    exact ⟨⟨_, refused⟩, rfl⟩
  | cancel =>
    refine ⟨?_, rfl⟩
    rw [fails_iff] at fails ⊢
    rcases fails with reached | tripped | late
    · exact .inl reached
    · refine .inr (.inl ?_)
      show b.token.map _ = some true
      rw [tripped]
      rfl
    · exact .inr (.inr late)
  | pass nanos =>
    -- The count stands where the clock is looked at, and the clock goes on.
    refine ⟨?_, rfl⟩
    rw [fails_iff] at fails ⊢
    rcases fails with reached | tripped | ⟨timeout, limited, looks, deadline, dated, late⟩
    · exact .inl reached
    · exact .inr (.inl tripped)
    · exact .inr (.inr ⟨timeout, limited, looks, deadline, dated, Nat.le_add_right_of_le late⟩)

/-- **Once a tick has failed, every later one fails**, and the count stands still. -/
theorem fails_after {b : Budget} (fails : b.Fails) (events : List Event) :
    (b.after events).Fails ∧ (b.after events).cycles = b.cycles := by
  induction events generalizing b with
  | nil => exact ⟨fails, rfl⟩
  | cons event events ih =>
    obtain ⟨still, cycles⟩ := fails_meet fails event
    rw [← cycles]
    exact ih still

/-- A budget that refuses a tick grants none in any history. -/
theorem not_mem_answers {b : Budget} (fails : b.Fails) (events : List Event) :
    none ∉ b.answers events := by
  induction events generalizing b with
  | nil => exact List.not_mem_nil
  | cons event events ih =>
    have rest := ih (fails_meet fails event).1
    cases event with
    | cancel | pass nanos => exact rest
    | tick =>
      obtain ⟨reason, refused⟩ := fails.exists_reason
      rw [meet, attempt_of_error refused] at rest
      rw [answers, attempt_of_error refused, List.mem_cons, not_or]
      exact ⟨nofun, rest⟩

/-- **The answers are grants first and refusals then.** -/
theorem answers_eq (events : List Event) :
    ∀ b : Budget, ∃ refusals, none ∉ refusals
      ∧ b.answers events = List.replicate (b.granted events) none ++ refusals := by
  induction events with
  | nil =>
    intro b
    exact ⟨[], List.not_mem_nil, rfl⟩
  | cons event events ih =>
    intro b
    cases event with
    | cancel | pass nanos => exact ih (b.meet _)
    | tick =>
      cases ticked : b.tick with
      | ok b' =>
        obtain ⟨refusals, none_left, eq⟩ := ih b'
        refine ⟨refusals, none_left, ?_⟩
        rw [granted_of_ok ticked, answers, attempt_of_ok ticked, eq]
        rfl
      | error refused =>
        -- Nothing is granted from here on.
        have fails : b.Fails := ⟨refused, ticked⟩
        have none_left := not_mem_answers fails (.tick :: events)
        refine ⟨_, none_left, ?_⟩
        rw [granted, List.count_eq_zero_of_not_mem none_left]
        rfl

/-! ## §5. The count and the limit. -/

/-- No more ticks are granted than are asked for. -/
theorem granted_le (events : List Event) :
    ∀ b : Budget, b.granted events ≤ events.count .tick := by
  induction events with
  | nil =>
    intro b
    exact Nat.le_refl 0
  | cons event events ih =>
    intro b
    cases event with
    | cancel | pass nanos =>
      rw [List.count_cons_of_ne (by simp)]
      exact ih (b.meet _)
    | tick =>
      rw [List.count_cons_self]
      cases ticked : b.tick with
      | ok b' =>
        rw [granted_of_ok ticked]
        exact Nat.succ_le_succ (ih b')
      | error refused =>
        obtain ⟨reason, b'⟩ := refused
        rw [granted_of_error ticked]
        exact Nat.le_succ_of_le (ih b')

/-- One event keeps the count within the limit. -/
theorem cycles_meet_le {b : Budget} (le : b.cycles ≤ b.limit) (event : Event) :
    (b.meet event).cycles ≤ (b.meet event).limit := by
  cases event with
  | cancel | pass nanos => exact le
  | tick =>
    rw [meet]
    cases ticked : b.tick with
    | ok b' =>
      obtain ⟨below, rfl⟩ := tick_eq_ok ticked
      rw [attempt_of_ok ticked]
      exact below
    | error refused =>
      obtain ⟨reason, b'⟩ := refused
      rw [attempt_of_error ticked, tick_eq_error ticked]
      exact le

/-- And so does a history. -/
theorem cycles_after_le (events : List Event) :
    ∀ {b : Budget}, b.cycles ≤ b.limit → (b.after events).cycles ≤ (b.after events).limit := by
  induction events with
  | nil =>
    intro b le
    exact le
  | cons event events ih =>
    intro b le
    exact ih (cycles_meet_le le event)

end Budget

/-! ## §6. The budget of some settings. -/

/-- What counts behind a history, in the terms of the settings: if neither they nor the
default give a limit, there is none. -/
def Standing.behind (settings : Settings) (defaultLimit : Option Nat) (events : List Event)
    (count : Nat) : Standing where
  limit := settings.maxSteps.or defaultLimit
  tripped := Tripped settings.token events
  timeout := settings.timeout
  deadline := settings.deadline
  time := settings.clock count + elapsed events
  count := count

/-- Settings have a deadline if they have a timeout that the clock can come to, and it is that
timeout. -/
theorem Settings.deadline_eq_some {settings : Settings} {deadline : Nat} :
    settings.deadline = some deadline ↔ ∃ timeout, settings.timeout = some timeout
      ∧ timeout.nanos ≤ settings.horizon.nanos ∧ timeout.nanos = deadline := by
  unfold Settings.deadline
  cases settings.timeout with
  | none => simp
  | some timeout => simp

/-- **The deadline has passed** if the timeout is no longer than the clock can show, the
clock is looked at, and as much time is over. -/
theorem Standing.late_behind {settings : Settings} {defaultLimit : Option Nat}
    {events : List Event} {count : Nat} {timeout : Duration} :
    (behind settings defaultLimit events count).Late timeout
      ↔ settings.timeout = some timeout ∧ timeout.nanos ≤ settings.horizon.nanos
        ∧ Budget.clockInterval ∣ count
        ∧ timeout.nanos ≤ settings.clock count + elapsed events := by
  unfold Late behind
  simp only [Settings.deadline_eq_some]
  constructor
  · rintro ⟨limited, looks, _, ⟨_, limited', shown, rfl⟩, late⟩
    cases limited.symm.trans limited'
    exact ⟨limited, shown, looks, late⟩
  · rintro ⟨limited, shown, looks, late⟩
    exact ⟨limited, looks, _, ⟨timeout, limited, shown, rfl⟩, late⟩

/-- A limit that was not reached at the ceiling could as well be the ceiling. -/
theorem Standing.refuses_getD {standing : Standing} {ceiling : Nat}
    (few : standing.count < ceiling) {reason : Exhaustion} :
    { standing with limit := some (standing.limit.getD ceiling) }.Refuses reason
      ↔ standing.Refuses reason := by
  cases limited : standing.limit with
  | some limit =>
    rw [Option.getD_some, ← limited]
  | none =>
    -- The ceiling is a limit, but one that is never reached.
    rw [Option.getD_none]
    constructor
    · intro refuses
      cases refuses with
      | stepLimit eq reached =>
        cases eq
        exact absurd few (Nat.not_lt.mpr reached)
      | cancelled _ tripped => exact .cancelled (by simp [limited]) tripped
      | timedOut _ untripped late => exact .timedOut (by simp [limited]) untripped late
    · intro refuses
      have below : ∀ limit, some ceiling = some limit → standing.count < limit := by
        intro limit eq
        cases eq
        exact few
      cases refuses with
      | stepLimit eq _ =>
        rw [limited] at eq
        cases eq
      | cancelled _ tripped => exact .cancelled below tripped
      | timedOut _ untripped late => exact .timedOut below untripped late

namespace Budget

variable {settings : Settings} {defaultLimit : Option Nat} {events : List Event}

/-- The cycles of a budget that was fresh are the ticks that it has granted. -/
theorem cycles_eq_granted :
    ((ofSettings settings defaultLimit).after events).cycles
      = (ofSettings settings defaultLimit).granted events := by
  rw [after_eq]
  exact Nat.zero_add _

/-- What counts for a budget behind a history, but that it has a limit in any case. -/
theorem standing_after :
    ((ofSettings settings defaultLimit).after events).standing =
      { Standing.behind settings defaultLimit events
          ((ofSettings settings defaultLimit).granted events) with
        limit := some ((settings.maxSteps.or defaultLimit).getD ceiling) } := by
  rw [after_eq, standing, Standing.behind]
  simp only [tokenAfter_eq_some_true, ofSettings, Nat.zero_add]

/-- A history of few ticks does not come to the ceiling. -/
theorem cycles_lt_ceiling (few : events.count .tick < UInt64.size) :
    ((ofSettings settings defaultLimit).after events).cycles < ceiling := by
  rw [cycles_eq_granted]
  exact Nat.lt_of_le_of_lt (granted_le events _) few

/-- The reasons to refuse a tick behind a history, in the terms of the settings. -/
theorem tick_after_eq_error_iff (few : events.count .tick < UInt64.size) {reason : Exhaustion} :
    ((ofSettings settings defaultLimit).after events).tick
        = .error (reason, (ofSettings settings defaultLimit).after events)
      ↔ (Standing.behind settings defaultLimit events
          ((ofSettings settings defaultLimit).after events).cycles).Refuses reason := by
  have below : (Standing.behind settings defaultLimit events
      ((ofSettings settings defaultLimit).after events).cycles).count < ceiling :=
    cycles_lt_ceiling few
  rw [tick_eq_error_iff, standing_after, ← cycles_eq_granted]
  exact Standing.refuses_getD below

/-- The cycles stay within the limit that the settings or the default give. -/
theorem cycles_after_ofSettings_le {limit : Nat}
    (limited : settings.maxSteps.or defaultLimit = some limit) :
    ((ofSettings settings defaultLimit).after events).cycles ≤ limit := by
  have within : ((ofSettings settings defaultLimit).after events).cycles ≤ _ :=
    cycles_after_le events (Nat.zero_le _)
  rw [after_eq] at within ⊢
  simpa only [ofSettings, limited, Option.getD_some] using within

end Budget

/-- What holds of a budget behind a history. -/
structure Accounted (settings : Settings) (defaultLimit : Option Nat) (events : List Event)
    (answers : List (Option Exhaustion)) (b : Budget) : Prop where
  /-- The count is the number of ticks that were granted. -/
  count : b.cycles = answers.count none
  /-- The count stays within the limit, if there is one. -/
  within : ∀ limit, settings.maxSteps.or defaultLimit = some limit → b.cycles ≤ limit
  /-- The next tick is refused for the first of the three reasons that holds. -/
  refuses : ∀ reason, (∃ b', b.tick = .error (reason, b')) ↔
    (Standing.behind settings defaultLimit events b.cycles).Refuses reason
  /-- The last of them is that the deadline has passed, which takes a timeout that is not
  too long for the clock. -/
  late : ∀ timeout, (Standing.behind settings defaultLimit events b.cycles).Late timeout ↔
    settings.timeout = some timeout ∧ timeout.nanos ≤ settings.horizon.nanos
      ∧ Budget.clockInterval ∣ b.cycles
      ∧ timeout.nanos ≤ settings.clock b.cycles + elapsed events
  /-- A refusal changes nothing: it hands on the budget that it found. -/
  unchanged : ∀ reason b', b.tick = .error (reason, b') → b' = b
  /-- A refusal is for good: whatever comes then, the next tick is refused as well, and
  the count stands still. -/
  final : b.Fails → ∀ more, (b.after more).Fails ∧ (b.after more).cycles = b.cycles
  /-- The answers so far are grants first and refusals then. -/
  order : ∃ refusals, none ∉ refusals ∧ answers = List.replicate b.cycles none ++ refusals

/-- **THE ACCOUNT OF A BUDGET.**  For all settings, any default and every history of fewer
than 2⁶⁴ ticks, the count is the number of ticks granted and stays within the limit, a tick
is refused for the first of three reasons that holds, and once it is refused nothing makes
a later one succeed. -/
theorem Budget.accounted (settings : Settings) (defaultLimit : Option Nat)
    (events : List Event) (few : events.count .tick < UInt64.size) :
    Accounted settings defaultLimit events
      ((Budget.ofSettings settings defaultLimit).answers events)
      ((Budget.ofSettings settings defaultLimit).after events) where
  count := Budget.cycles_eq_granted
  within _ limited := Budget.cycles_after_ofSettings_le limited
  refuses reason := by
    rw [← Budget.tick_after_eq_error_iff few]
    refine ⟨?_, fun refused => ⟨_, refused⟩⟩
    rintro ⟨b', refused⟩
    rwa [Budget.tick_eq_error refused] at refused
  late _ := Standing.late_behind
  unchanged _ _ refused := Budget.tick_eq_error refused
  final fails more := Budget.fails_after fails more
  order := by
    rw [Budget.cycles_eq_granted]
    exact Budget.answers_eq events _

/-- A tick, a cancellation and a tick: the first was granted, and what refuses the second
and the next is the token, although the limit of two cycles is not reached.  The timeout is
too long for the clock, so there is no deadline. -/
theorem Budget.accounted_tick_cancel_tick :
    let longest : Duration := ⟨UInt64.size * 1000000000 - 1⟩
    [Event.tick, .cancel, .tick].count .tick < UInt64.size
      ∧ Accounted { maxSteps := some 2, token := some false, timeout := some longest } (some 9)
          [.tick, .cancel, .tick] [none, some (.cancelled 1)]
          { limit := 2, token := some true, timeout := some longest, deadline := none,
            clock := fun _ => 0, cycles := 1 } := by
  intro longest
  exact ⟨by decide, Budget.accounted
    { maxSteps := some 2, token := some false, timeout := some longest } (some 9)
    [.tick, .cancel, .tick] (by decide)⟩

end Esolang.Machine
