/-
  Esolang.Proofs.Memory.Supply
  ────────────────────────────
  **BELOW A STACK LIE ZEROS WITHOUT END.**

  A COLUMN has a value at every depth, so that none is ever missing.  A stack shows the top
  of one, which has nothing but zeros below.  What an action does that succeeds on the stack
  it does on the column as well, and the column does not tell how many of its zeros belong
  to the stack.  So zeros that are laid under a stack change no answer, and those of them
  that no action has taken are still there in the end.

    • `perform_column` — an action that succeeds on a stack does the same on its column,
    • `depth_of_ok` — the depth that it leaves depends on nothing but the depth before,
    • `perform_deepen`, `performAll_deepen` — an action, and a run of actions, on a stack
      with more zeros under it,
    • **`supplied_with_zeros`** — for the actions that take a missing value to be zero this
      is so on every stack.
-/
import Esolang.Proofs.Memory.Frames
import Mathlib.Data.List.GetD

namespace Esolang.Memory

open Stack (Action)

/-! ## §1. Columns. -/

/-- A value at every depth below a top. -/
@[ext]
structure Column where
  /-- The value so many places below the top. -/
  value : Nat → Int64

namespace Column

/-- Puts a value on top. -/
def push (value : Int64) (c : Column) : Column where
  value
    | 0 => value
    | n + 1 => c.value n

/-- The column below the `k` topmost values. -/
def drop (k : Nat) (c : Column) : Column where
  value n := c.value (k + n)

/-- Performs an action: the value that it answers, if it answers one, and the column that it
leaves.  No value is missing here, and only operands without a result are at fault. -/
def perform (action : Action) (c : Column) : Option (Option Int64 × Column) :=
  match action with
  | .push value => some (none, c.push value)
  | .pop | .popOrZero => some (some (c.value 0), c.drop 1)
  | .peekOrZero => some (some (c.value 0), c)
  | .duplicate => some (none, c.push (c.value 0))
  | .swap => some (none, ((c.drop 2).push (c.value 0)).push (c.value 1))
  | .binary op => (op (c.value 1) (c.value 0)).map fun value => (none, (c.drop 2).push value)
  | .nth n => some (some (c.value n), c)
  | .slide n => some (none, (c.drop (n + 1)).push (c.value 0))

end Column

namespace Stack

/-- The column that a stack shows the top of: zeros without end lie below it. -/
def column (s : Stack) : Column where
  value n := s.values.getD n 0

/-- The stack with `k` more zeros at its bottom. -/
def deepen (k : Nat) (s : Stack) : Stack :=
  ⟨s.values ++ List.replicate k 0⟩

theorem depth_deepen (k : Nat) (s : Stack) : (s.deepen k).depth = s.depth + k := by
  simp [deepen, depth]

/-- Zeros that are laid under a stack were there already in its column. -/
theorem column_deepen (k : Nat) (s : Stack) : (s.deepen k).column = s.column := by
  ext n
  show (s.values ++ List.replicate k 0).getD n 0 = s.values.getD n 0
  rcases Nat.lt_or_ge n s.values.length with inside | below
  · exact List.getD_append _ _ _ _ inside
  · -- Behind the last value of the stack the zeros are what is taken for a missing value.
    rw [List.getD_append_right _ _ _ _ below, List.getD_eq_default _ _ below,
      List.getD_eq_getElem?_getD, List.getElem?_getD_replicate_default_eq]

/-- A column and a depth make a stack. -/
theorem eq_deepen {s t : Stack} {k : Nat} (column : t.column = s.column)
    (depth : t.depth = s.depth + k) : t = s.deepen k := by
  have same : t.column = (s.deepen k).column := by rw [column, column_deepen]
  have length : t.values.length = (s.deepen k).values.length := by
    rw [← depth_deepen] at depth
    exact depth
  have values : t.values = (s.deepen k).values := by
    apply List.ext_getElem length
    intro n lt lt'
    have value : t.values.getD n 0 = (s.deepen k).values.getD n 0 :=
      congrFun (congrArg Column.value same) n
    rwa [List.getD_eq_getElem _ _ lt, List.getD_eq_getElem _ _ lt'] at value
  cases t
  cases values
  rfl

/-! ## §2. One action. -/

theorem column_push (value : Int64) (s : Stack) :
    (s.push value).column = s.column.push value := by
  ext n
  cases n with
  | zero => rfl
  | succ n => rfl

theorem column_drop (k : Nat) (s : Stack) :
    (Stack.mk (s.values.drop k)).column = s.column.drop k := by
  ext n
  show (s.values.drop k).getD n 0 = s.values.getD (k + n) 0
  rw [List.getD_eq_getElem?_getD, List.getElem?_drop, ← List.getD_eq_getElem?_getD]

theorem value_column {n : Nat} {value : Int64} {s : Stack} (found : s.nth? n = some value) :
    s.column.value n = value := by
  replace found : s.values[n]? = some value := found
  show s.values.getD n 0 = value
  rw [List.getD_eq_getElem?_getD, found]
  rfl

/-- What is missing is taken off as a zero of the column. -/
theorem popOrZero_eq (s : Stack) : s.popOrZero = (s.column.value 0, ⟨s.values.drop 1⟩) := by
  obtain ⟨values⟩ := s
  cases values with
  | nil => rfl
  | cons a values => rfl

theorem peekOrZero_eq (s : Stack) : s.peekOrZero = s.column.value 0 := by
  obtain ⟨values⟩ := s
  cases values with
  | nil => rfl
  | cons a values => rfl

/-- What is missing is exchanged as a zero of the column. -/
theorem swap_eq (s : Stack) :
    s.swap = ((Stack.mk (s.values.drop 2)).push (s.column.value 0)).push (s.column.value 1) := by
  obtain ⟨values⟩ := s
  match values with
  | [] => rfl
  | [a] => rfl
  | a :: b :: values => rfl

section
variable {action : Action} {s left : Stack} {answer : Option Int64}

/-- Operands that are there are the topmost values of the column. -/
theorem perform_column_binary {op : Int64 → Int64 → Option Int64}
    (performed : s.perform (.binary op) = .ok (answer, left)) :
    s.column.perform (.binary op) = some (answer, left.column) := by
  obtain ⟨values⟩ := s
  match values with
  | [] | [a] => cases performed
  | a :: b :: values =>
    show (op b a).map _ = _
    cases result : op b a with
    | none => simp [perform, binary, result, Except.map] at performed
    | some value =>
      have done : (Stack.mk (a :: b :: values)).perform (.binary op)
          = .ok (none, (Stack.mk values).push value) := by
        simp [perform, binary, result, push, Except.map]
      rw [done] at performed
      cases performed
      rw [column_push, show values = (a :: b :: values).drop 2 from rfl, column_drop]
      rfl

/-- **What succeeds on a stack does the same on its column.** -/
theorem perform_column (performed : s.perform action = .ok (answer, left)) :
    s.column.perform action = some (answer, left.column) := by
  cases action with
  | binary op => exact perform_column_binary performed
  | push value =>
    cases performed
    rw [column_push]
    rfl
  | peekOrZero =>
    cases performed
    rw [peekOrZero_eq]
    rfl
  | duplicate =>
    cases performed
    rw [duplicate, column_push, peekOrZero_eq]
    rfl
  | popOrZero =>
    cases performed
    rw [popOrZero_eq, column_drop]
    rfl
  | swap =>
    cases performed
    rw [swap_eq, column_push, column_push, column_drop]
    rfl
  | nth n =>
    cases found : s.nth? n with
    | none => simp [perform, found] at performed
    | some value =>
      have done : s.perform (.nth n) = .ok (some value, s) := by simp [perform, found]
      rw [done] at performed
      cases performed
      rw [← value_column found]
      rfl
  | pop =>
    obtain ⟨values⟩ := s
    cases values with
    | nil => cases performed
    | cons a values =>
      cases performed
      have below : (Stack.mk values).column = (Stack.mk (a :: values)).column.drop 1 :=
        column_drop 1 ⟨a :: values⟩
      rw [below]
      rfl
  | slide n =>
    obtain ⟨values⟩ := s
    cases values with
    | nil => cases performed
    | cons a values =>
      cases performed
      have below : (Stack.mk (values.drop n)).column
          = (Stack.mk (a :: values)).column.drop (n + 1) :=
        column_drop (n + 1) ⟨a :: values⟩
      show _ = some (none, ((Stack.mk (values.drop n)).push a).column)
      rw [column_push, below]
      rfl

/-- Operands that have no result on a stack have none on its column. -/
theorem perform_column_of_refuses (refuses : action.Refuses s) :
    s.column.perform action = none := by
  cases action with
  | binary op =>
    obtain ⟨a, b, top, second, result⟩ := refuses
    have upper : s.column.value 0 = a := value_column top
    have lower : s.column.value 1 = b := value_column second
    show (op (s.column.value 1) (s.column.value 0)).map _ = none
    rw [upper, lower, result]
    rfl
  | _ => exact refuses.elim

/-- **The depth that an action leaves depends on nothing but the depth before.** -/
theorem depth_of_ok (performed : s.perform action = .ok (answer, left)) :
    left.depth = s.depth - action.consumes + action.yields := by
  obtain ⟨results, count, kept⟩ := toList_of_ok performed
  rw [← length_toList, kept, List.length_append, count, below, List.length_take, length_toList]
  omega

theorem need_le_depth (performed : s.perform action = .ok (answer, left)) :
    action.need ≤ s.depth := by
  by_contra short
  obtain ⟨left', missing⟩ := (missing_iff action s).mpr (Nat.lt_of_not_le short)
  rw [performed] at missing
  cases missing

/-- **Zeros under a stack change nothing about an action that succeeds**, and it takes as
many of them as it misses values above. -/
theorem perform_deepen (k : Nat) (performed : s.perform action = .ok (answer, left)) :
    (s.deepen k).perform action
      = .ok (answer, left.deepen (k - (action.consumes - s.depth))) := by
  have shown := perform_column performed
  rw [← column_deepen k] at shown
  have depth := depth_deepen k s
  have need := need_le_depth performed
  cases outcome action (s.deepen k) with
  | missing short => omega
  | refused deep refuses =>
    rw [perform_column_of_refuses refuses] at shown
    cases shown
  | @done answer' _ left' deep accepts performed' =>
    -- Both answers are that of the column, and both stacks show what it leaves.
    have shown' := perform_column performed'
    rw [shown] at shown'
    simp only [Option.some.injEq, Prod.mk.injEq] at shown'
    obtain ⟨same, column⟩ := shown'
    have before := depth_of_ok performed
    have after := depth_of_ok performed'
    have deeper : left'.depth = left.depth + (k - (action.consumes - s.depth)) := by omega
    rw [performed', same, eq_deepen column.symm deeper]

end

end Stack

/-! ## §3. Runs. -/

/-- Does actions in turn, each in the way of `perform`: what every one of them answers, and
what the last one leaves. -/
def inTurn {m : Type → Type} [Monad m] {σ : Type}
    (perform : Action → σ → m (Option Int64 × σ)) : List Action → σ → m (List (Option Int64) × σ)
  | [], s => pure ([], s)
  | action :: actions, s => do
    let (answer, s) ← perform action s
    let (answers, s) ← inTurn perform actions s
    pure (answer :: answers, s)

/-- Performs actions in turn on a column. -/
def Column.performAll (actions : List Action) (c : Column) :
    Option (List (Option Int64) × Column) :=
  inTurn Column.perform actions c

namespace Stack

/-- Performs actions in turn. -/
def performAll (actions : List Action) (s : Stack) :
    Except (StackFault × Stack) (List (Option Int64) × Stack) :=
  inTurn perform actions s

/-- How many zeros the actions borrow, one after the other, from below a stack so deep: each
one as many as it consumes over what is there. -/
def borrowed : List Action → Nat → Nat
  | [], _ => 0
  | action :: actions, depth =>
    (action.consumes - depth) + borrowed actions (depth - action.consumes + action.yields)

theorem performAll_cons_eq_ok {action : Action} {actions : List Action} {s left : Stack}
    {answers : List (Option Int64)} :
    s.performAll (action :: actions) = .ok (answers, left)
      ↔ ∃ answer middle rest, s.perform action = .ok (answer, middle)
        ∧ middle.performAll actions = .ok (rest, left) ∧ answers = answer :: rest := by
  show (do
    let (answer, s) ← s.perform action
    let (answers, s) ← s.performAll actions
    pure (answer :: answers, s)) = Except.ok (answers, left) ↔ _
  cases first : s.perform action with
  | error fault => exact ⟨nofun, nofun⟩
  | ok result =>
    obtain ⟨answer, middle⟩ := result
    show (do
      let (answers, s) ← middle.performAll actions
      pure (answer :: answers, s)) = Except.ok (answers, left) ↔ _
    cases others : middle.performAll actions with
    | error fault => simp [others]
    | ok result =>
      obtain ⟨rest, last⟩ := result
      constructor
      · intro performed
        cases performed
        exact ⟨answer, middle, rest, rfl, others, rfl⟩
      · intro inverted
        obtain ⟨_, _, _, first', others', rfl⟩ := inverted
        cases first'
        rw [others] at others'
        cases others'
        rfl

section
variable {actions : List Action} {s left : Stack} {answers : List (Option Int64)}

/-- Actions that succeed in turn on a stack do the same in turn on its column. -/
theorem performAll_column (performed : s.performAll actions = .ok (answers, left)) :
    s.column.performAll actions = some (answers, left.column) := by
  induction actions generalizing s answers with
  | nil =>
    cases performed
    rfl
  | cons action actions ih =>
    obtain ⟨answer, middle, rest, first, others, rfl⟩ := performAll_cons_eq_ok.mp performed
    show (do
      let (answer, c) ← s.column.perform action
      let (answers, c) ← c.performAll actions
      pure (answer :: answers, c)) = some (answer :: rest, left.column)
    rw [perform_column first]
    show (do
      let (answers, c) ← middle.column.performAll actions
      pure (answer :: answers, c)) = some (answer :: rest, left.column)
    rw [ih others]
    rfl

/-- **Zeros under a stack change nothing about actions that succeed in turn**, and those that
are not borrowed are still there in the end. -/
theorem performAll_deepen (k : Nat) (performed : s.performAll actions = .ok (answers, left)) :
    (s.deepen k).performAll actions
      = .ok (answers, left.deepen (k - borrowed actions s.depth)) := by
  induction actions generalizing s answers k with
  | nil =>
    cases performed
    rfl
  | cons action actions ih =>
    obtain ⟨answer, middle, rest, first, others, rfl⟩ := performAll_cons_eq_ok.mp performed
    -- What the first action has borrowed is no longer there for the others.
    have deeper := ih (k - (action.consumes - s.depth)) others
    rw [depth_of_ok first, Nat.sub_sub] at deeper
    exact performAll_cons_eq_ok.mpr ⟨answer, _, rest, perform_deepen k first, deeper, rfl⟩

end

/-! ## §4. Actions that need no depth. -/

/-- The action pushes, or takes a missing value to be zero. -/
def Action.Lenient : Action → Prop
  | .push _ | .popOrZero | .peekOrZero | .duplicate | .swap => True
  | .pop | .binary _ | .nth _ | .slide _ => False

/-- Lenient actions are those that can be done on a stack without values. -/
theorem Action.lenient_iff {action : Action} : action.Lenient ↔ action.need = 0 := by
  cases action <;> simp [Action.Lenient, Action.need]

instance (action : Action) : Decidable action.Lenient :=
  decidable_of_iff (action.need = 0) Action.lenient_iff.symm

theorem exists_perform_eq_ok {action : Action} (lenient : action.Lenient) (s : Stack) :
    ∃ answer left, s.perform action = .ok (answer, left) := by
  cases outcome action s with
  | missing short =>
    rw [Action.lenient_iff.mp lenient] at short
    exact absurd short (Nat.not_lt_zero _)
  | refused deep refuses =>
    cases action with
    | binary op => exact lenient.elim
    | _ => exact refuses.elim
  | done deep accepts performed => exact ⟨_, _, performed⟩

theorem exists_performAll_eq_ok {actions : List Action}
    (lenient : ∀ action ∈ actions, action.Lenient) (s : Stack) :
    ∃ answers left, s.performAll actions = .ok (answers, left) := by
  induction actions generalizing s with
  | nil => exact ⟨[], s, rfl⟩
  | cons action actions ih =>
    obtain ⟨here, behind⟩ := List.forall_mem_cons.mp lenient
    obtain ⟨answer, middle, first⟩ := exists_perform_eq_ok here s
    obtain ⟨answers, left, others⟩ := ih behind middle
    exact ⟨_, _, performAll_cons_eq_ok.mpr ⟨answer, middle, answers, first, others, rfl⟩⟩

/-- **Lenient actions see zeros without end below every stack.**  They always succeed, and
what they answer is what they answer on a column with zeros below.  With `k` more zeros at
the bottom each of them answers the same, and the stack in the end is the same but for those
of the zeros that have not been borrowed. -/
theorem supplied_with_zeros (s : Stack) (k : Nat) {actions : List Action}
    (lenient : ∀ action ∈ actions, action.Lenient) :
    ∃ answers left, ∃ j ≤ k, s.performAll actions = .ok (answers, left)
      ∧ (s.deepen k).performAll actions = .ok (answers, left.deepen j)
      ∧ j = k - borrowed actions s.depth
      ∧ s.column.performAll actions = some (answers, left.column) := by
  obtain ⟨answers, left, performed⟩ := exists_performAll_eq_ok lenient s
  exact ⟨answers, left, _, Nat.sub_le _ _, performed, performAll_deepen k performed, rfl,
    performAll_column performed⟩

/-- A swap borrows the value under the only one, and the last of three pops another, so two
of four zeros at the bottom are left in the end. -/
theorem supplied_with_zeros_borrowed_twice :
    (∀ action ∈ [Action.swap, .popOrZero, .popOrZero, .popOrZero, .duplicate, .peekOrZero],
        action.Lenient)
      ∧ ∃ left, (Stack.mk [5, 0, 0, 0, 0]).performAll
          [.swap, .popOrZero, .popOrZero, .popOrZero, .duplicate, .peekOrZero]
            = .ok ([none, some 0, some 5, some 0, none, some 0], left)
          ∧ left.toList = [0, 0, 0] := by
  have lenient : ∀ action ∈
      [Action.swap, .popOrZero, .popOrZero, .popOrZero, .duplicate, .peekOrZero],
      action.Lenient := by decide
  obtain ⟨answers, left, j, -, performed, deeper, unborrowed, -⟩ :=
    supplied_with_zeros ⟨[5]⟩ 4 lenient
  have answered : (Stack.mk [5]).performAll
      [.swap, .popOrZero, .popOrZero, .popOrZero, .duplicate, .peekOrZero]
        = .ok ([none, some 0, some 5, some 0, none, some 0], ⟨[0]⟩) := rfl
  rw [answered] at performed
  cases performed
  cases unborrowed
  exact ⟨lenient, _, deeper, rfl⟩

end Stack

end Esolang.Memory
