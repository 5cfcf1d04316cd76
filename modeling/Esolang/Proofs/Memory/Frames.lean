/-
  Esolang.Proofs.Memory.Frames
  ────────────────────────────
  **WHAT AN ACTION LEAVES OF A STACK.**

  An action needs a certain depth, and fails if the stack does not have it.  Of what is
  there it consumes some values at the top, and it leaves the others as they are, whether
  it succeeds or fails half way.

    • `Outcome` — the three ways in which an action ends, with what each one leaves,
    • `outcome` — every action on every stack ends in one of them,
    • `slide_slide` — two slides are one,
    • **`frames`** — when an action fails, why, and what is left then and otherwise.
-/
import Esolang.Proofs.Memory.Floor

namespace Esolang.Memory.Stack

open Esolang.Memory.Word (floorDiv? floorMod?)

/-! ## §1. Actions. -/

/-- What can be done on a stack. -/
inductive Action where
  | push (value : Int64)
  | pop
  | popOrZero
  | peekOrZero
  | duplicate
  | swap
  /-- Combines the two top values. -/
  | binary (op : Int64 → Int64 → Option Int64)
  /-- Reads the value so many places below the top. -/
  | nth (n : Nat)
  /-- Drops so many values from under the top. -/
  | slide (n : Nat)

/-- Performs an action: the value that it answers, if it answers one, and the stack that
it leaves, or the reason of its failure and the stack as it stands then. -/
def perform (action : Action) (s : Stack) : Except (StackFault × Stack) (Option Int64 × Stack) :=
  match action with
  | .push value => .ok (none, s.push value)
  | .pop =>
    match s.pop? with
    | some (value, left) => .ok (some value, left)
    | none => .error (.empty, s)
  | .popOrZero => .ok (some s.popOrZero.1, s.popOrZero.2)
  | .peekOrZero => .ok (some s.peekOrZero, s)
  | .duplicate => .ok (none, s.duplicate)
  | .swap => .ok (none, s.swap)
  | .binary op => (s.binary op).map fun left => (none, left)
  | .nth n =>
    match s.nth? n with
    | some value => .ok (some value, s)
    | none => .error (.empty, s)
  | .slide n => (s.slide n).map fun left => (none, left)

/-- The values below the `k` topmost ones, from the bottom. -/
def below (k : Nat) (s : Stack) : List Int64 :=
  s.toList.take (s.depth - k)

namespace Action

/-- The depth that the action needs. -/
def need : Action → Nat
  | .push _ | .popOrZero | .peekOrZero | .duplicate | .swap => 0
  | .pop | .slide _ => 1
  | .binary _ => 2
  | .nth n => n + 1

/-- How many values the action takes off the top, if there are so many. -/
def consumes : Action → Nat
  | .push _ | .peekOrZero | .duplicate | .nth _ => 0
  | .pop | .popOrZero => 1
  | .swap | .binary _ => 2
  | .slide n => n + 1

/-- How many values the action puts in their place. -/
def yields : Action → Nat
  | .pop | .popOrZero | .peekOrZero | .nth _ => 0
  | .push _ | .duplicate | .binary _ | .slide _ => 1
  | .swap => 2

/-- What the action leaves when it fails, from the bottom: all values if it is one that
looks before it takes, and all but its operands otherwise. -/
def leaves (s : Stack) : Action → List Int64
  | .nth _ | .slide _ => s.toList
  | action => s.below action.consumes

/-- The two operands are there, but they have no result. -/
def Refuses (s : Stack) : Action → Prop
  | .binary op => ∃ a b, s.nth? 0 = some a ∧ s.nth? 1 = some b ∧ op b a = none
  | _ => False

end Action

/-! ## §2. How an action ends. -/

/-- The values below the top ones are those behind the first ones, the other way round. -/
theorem below_eq (k : Nat) (s : Stack) : s.below k = (s.values.drop k).reverse := by
  have length : s.values.length - (s.values.length - k) = min k s.values.length := by omega
  unfold below toList depth
  rw [List.take_reverse, length]
  rcases Nat.le_total k s.values.length with le | le
  · rw [Nat.min_eq_left le]
  · rw [Nat.min_eq_right le, List.drop_length, List.drop_eq_nil_of_le le]

/-- How an action ends on a stack. -/
inductive Outcome (action : Action) (s : Stack) : Prop where
  /-- A value is missing. -/
  | missing {left : Stack} (short : s.depth < action.need)
      (performed : s.perform action = .error (.empty, left))
      (kept : left.toList = action.leaves s)
  /-- The operands have no result. -/
  | refused {left : Stack} (deep : action.need ≤ s.depth) (refuses : action.Refuses s)
      (performed : s.perform action = .error (.divisionByZero, left))
      (kept : left.toList = action.leaves s)
  /-- Some results stand in the place of what is consumed. -/
  | done {answer : Option Int64} {results : List Int64} {left : Stack}
      (deep : action.need ≤ s.depth) (accepts : ¬ action.Refuses s)
      (performed : s.perform action = .ok (answer, left))
      (count : results.length = action.yields)
      (kept : left.toList = s.below action.consumes ++ results)

theorem Outcome.of_values {action : Action} {s left : Stack} {answer : Option Int64}
    (results : List Int64) (deep : action.need ≤ s.depth) (accepts : ¬ action.Refuses s)
    (performed : s.perform action = .ok (answer, left)) (count : results.length = action.yields)
    (kept : left.values = results ++ s.values.drop action.consumes) : Outcome action s := by
  have upwards : left.toList = s.below action.consumes ++ results.reverse := by
    rw [below_eq, toList, kept, List.reverse_append]
  refine .done deep accepts performed ?_ upwards
  rw [List.length_reverse, count]

theorem Action.refuses_binary {op : Int64 → Int64 → Option Int64} {a b : Int64}
    {values : List Int64} :
    (Action.binary op).Refuses ⟨a :: b :: values⟩ ↔ op b a = none := by
  constructor
  · intro refuses
    obtain ⟨_, _, top, second, result⟩ := refuses
    cases top
    cases second
    exact result
  · intro result
    exact ⟨a, b, rfl, rfl, result⟩

theorem outcome_binary (op : Int64 → Int64 → Option Int64) (s : Stack) :
    Outcome (.binary op) s := by
  obtain ⟨values⟩ := s
  match values with
  | [] => exact .missing Nat.zero_lt_two rfl rfl
  | [a] => exact .missing Nat.one_lt_two rfl rfl
  | a :: b :: values =>
    have deep : (Action.binary op).need ≤ (Stack.mk (a :: b :: values)).depth :=
      Nat.le_add_left 2 values.length
    cases result : op b a with
    | none =>
      have performed : (Stack.mk (a :: b :: values)).perform (.binary op)
          = .error (.divisionByZero, ⟨values⟩) := by
        simp [perform, binary, result, Except.map]
      refine .refused deep (Action.refuses_binary.mpr result) performed ?_
      exact (below_eq 2 ⟨a :: b :: values⟩).symm
    | some value =>
      have performed : (Stack.mk (a :: b :: values)).perform (.binary op)
          = .ok (none, ⟨value :: values⟩) := by
        simp [perform, binary, result, Except.map]
      have accepts : ¬ (Action.binary op).Refuses ⟨a :: b :: values⟩ := by
        rw [Action.refuses_binary, result]
        exact nofun
      exact .of_values [value] deep accepts performed rfl rfl

theorem outcome_swap (s : Stack) : Outcome .swap s := by
  obtain ⟨values⟩ := s
  match values with
  | [] => exact .of_values [0, 0] (Nat.zero_le _) id rfl rfl rfl
  | [a] => exact .of_values [0, a] (Nat.zero_le _) id rfl rfl rfl
  | a :: b :: values =>
    exact .of_values [b, a] (Nat.zero_le _) id rfl rfl rfl

theorem outcome_nth (n : Nat) (s : Stack) : Outcome (.nth n) s := by
  cases found : s.nth? n with
  | none =>
    have short : s.depth ≤ n := List.getElem?_eq_none_iff.mp found
    have performed : s.perform (.nth n) = .error (.empty, s) := by simp [perform, found]
    exact .missing (Nat.lt_succ_of_le short) performed rfl
  | some value =>
    have deep : n < s.depth := (List.getElem?_eq_some_iff.mp found).1
    have performed : s.perform (.nth n) = .ok (some value, s) := by simp [perform, found]
    exact .of_values [] deep id performed rfl rfl

/-- **Every action ends in one of the three ways.** -/
theorem outcome (action : Action) (s : Stack) : Outcome action s := by
  cases action with
  | binary op => exact outcome_binary op s
  | swap => exact outcome_swap s
  | nth n => exact outcome_nth n s
  | push value =>
    exact .of_values [value] (Nat.zero_le _) id rfl rfl rfl
  | peekOrZero =>
    exact .of_values [] (Nat.zero_le _) id rfl rfl rfl
  | duplicate =>
    exact .of_values [s.peekOrZero] (Nat.zero_le _) id rfl rfl rfl
  | popOrZero =>
    obtain ⟨values⟩ := s
    cases values with
    | nil => exact .of_values [] (Nat.zero_le _) id rfl rfl rfl
    | cons a values => exact .of_values [] (Nat.zero_le _) id rfl rfl rfl
  | pop =>
    obtain ⟨values⟩ := s
    cases values with
    | nil => exact .missing Nat.zero_lt_one rfl rfl
    | cons a values =>
      exact .of_values [] (Nat.le_add_left 1 values.length) id rfl rfl rfl
  | slide n =>
    obtain ⟨values⟩ := s
    cases values with
    | nil => exact .missing Nat.zero_lt_one rfl rfl
    | cons a values =>
      exact .of_values [a] (Nat.le_add_left 1 values.length) id rfl rfl rfl

/-! ## §3. When an action fails, and what it leaves. -/

section
variable {action : Action} {s left : Stack}

/-- **A value is missing if and only if the stack is not as deep as the action needs.** -/
theorem missing_iff (action : Action) (s : Stack) :
    (∃ left, s.perform action = .error (.empty, left)) ↔ s.depth < action.need := by
  cases outcome action s with
  | missing short performed kept => exact ⟨fun _ => short, fun _ => ⟨_, performed⟩⟩
  | refused deep refuses performed kept =>
    rw [performed]
    exact ⟨nofun, fun short => absurd short (Nat.not_lt.mpr deep)⟩
  | done deep accepts performed count kept =>
    rw [performed]
    exact ⟨nofun, fun short => absurd short (Nat.not_lt.mpr deep)⟩

/-- **On a stack that is deep enough only operands without a result are at fault.** -/
theorem refused_iff (action : Action) (s : Stack) :
    (∃ left, s.perform action = .error (.divisionByZero, left))
      ↔ action.need ≤ s.depth ∧ action.Refuses s := by
  cases outcome action s with
  | missing short performed kept =>
    rw [performed]
    exact ⟨nofun, fun refused => absurd short (Nat.not_lt.mpr refused.1)⟩
  | refused deep refuses performed kept => exact ⟨fun _ => ⟨deep, refuses⟩, fun _ => ⟨_, performed⟩⟩
  | done deep accepts performed count kept =>
    rw [performed]
    exact ⟨nofun, fun refused => absurd refused.2 accepts⟩

theorem leaves_prefix (action : Action) (s : Stack) : action.leaves s <+: s.toList := by
  cases action with
  | nth n | slide n => exact List.prefix_refl _
  | _ => exact List.take_prefix _ _

/-- **A failure leaves the bottom of the stack.** -/
theorem toList_of_error {fault : StackFault} (performed : s.perform action = .error (fault, left)) :
    left.toList = action.leaves s := by
  cases outcome action s with
  | missing short performed' kept | refused deep refuses performed' kept =>
    rw [performed] at performed'
    cases performed'
    exact kept
  | done deep accepts performed' count kept =>
    rw [performed] at performed'
    cases performed'

/-- **A success leaves everything below what it consumes.** -/
theorem toList_of_ok {answer : Option Int64} (performed : s.perform action = .ok (answer, left)) :
    ∃ results, results.length = action.yields
      ∧ left.toList = s.below action.consumes ++ results := by
  cases outcome action s with
  | missing short performed' kept | refused deep refuses performed' kept =>
    rw [performed] at performed'
    cases performed'
  | done deep accepts performed' count kept =>
    rw [performed] at performed'
    cases performed'
    exact ⟨_, count, kept⟩

/-- Division refuses its operands if and only if the upper one is zero. -/
theorem refuses_division {op : Int64 → Int64 → Option Int64} (mem : op ∈ [floorDiv?, floorMod?])
    (deep : 2 ≤ s.depth) : (Action.binary op).Refuses s ↔ s.peekOrZero = 0 := by
  obtain ⟨values⟩ := s
  match values with
  | [] => exact absurd deep (Nat.not_le.mpr Nat.zero_lt_two)
  | [a] => exact absurd deep (Nat.not_le.mpr Nat.one_lt_two)
  | a :: b :: values =>
    show _ ↔ a = 0
    rw [Action.refuses_binary]
    rcases List.mem_pair.mp mem with rfl | rfl
    · exact Word.floorDiv?_eq_none
    · exact Word.floorMod?_eq_none

/-- **Two slides are one**, which drops as many values as both. -/
theorem slide_slide (n m : Nat) (nonempty : 0 < s.depth) :
    ∃ once twice, s.slide n = .ok once ∧ once.slide m = .ok twice
      ∧ s.slide (n + m) = .ok twice := by
  obtain ⟨values⟩ := s
  cases values with
  | nil => exact absurd nonempty (Nat.lt_irrefl 0)
  | cons top values =>
    refine ⟨⟨top :: values.drop n⟩, ⟨top :: values.drop (n + m)⟩, rfl, ?_, rfl⟩
    show Except.ok (Stack.mk (top :: (values.drop n).drop m)) = _
    rw [List.drop_drop]

end

/-! ## §4. Frames. -/

/-- When an action fails on a stack, why, and what it leaves of the stack. -/
structure Framed (action : Action) (s : Stack) : Prop where
  /-- A value is missing if and only if the stack is not as deep as the action needs. -/
  missing : (∃ left, s.perform action = .error (.empty, left)) ↔ s.depth < action.need
  /-- On a stack that is deep enough only operands without a result are at fault. -/
  refused : (∃ left, s.perform action = .error (.divisionByZero, left))
    ↔ action.need ≤ s.depth ∧ action.Refuses s
  /-- A failure leaves the bottom of the stack: all of it, or all but the operands. -/
  failure : ∀ fault left, s.perform action = .error (fault, left) →
    left.toList = action.leaves s ∧ left.toList <+: s.toList
  /-- A success changes nothing below what it consumes. -/
  success : ∀ answer left, s.perform action = .ok (answer, left) →
    ∃ results, results.length = action.yields ∧ left.toList = s.below action.consumes ++ results

/-- **Stack frames survive failures.**  Every action on every stack fails if and only if the
stack is too shallow for it, or it is a division by zero, and what it does not consume is
left as it was.  Two slides of a stack that is not empty are one. -/
theorem frames (s : Stack) :
    (∀ action : Action, Framed action s)
      ∧ (∀ op ∈ [floorDiv?, floorMod?],
          (∃ left, s.perform (.binary op) = .error (.divisionByZero, left))
            ↔ 2 ≤ s.depth ∧ s.peekOrZero = 0)
      ∧ ∀ n m, 0 < s.depth → ∃ once twice, s.slide n = .ok once ∧ once.slide m = .ok twice
          ∧ s.slide (n + m) = .ok twice := by
  refine ⟨?_, ?_, fun n m => slide_slide n m⟩
  · intro action
    refine ⟨missing_iff action s, refused_iff action s, ?_, fun _ _ => toList_of_ok⟩
    intro fault left performed
    have kept := toList_of_error performed
    exact ⟨kept, kept ▸ leaves_prefix action s⟩
  · intro op mem
    rw [refused_iff]
    exact and_congr_right (refuses_division mem)

/-- A division by zero has taken its two operands when it fails. -/
example : (Stack.mk [0, 5, 7]).perform (.binary floorDiv?) = .error (.divisionByZero, ⟨[7]⟩) := by
  rfl

end Esolang.Memory.Stack
