/-
  Esolang.Proofs.Whitespace.Range
  ───────────────────────────────
  **WHITESPACE STAYS IN RANGE.**

  The stack is a row of words that grows at its end, and a copy counts from that
  end.  A number is read as its magnitude, which has room for either sign.

    • `Stack.getElem?_toList` — the place in the row that a copy is taken from,
    • `inRange` — copies, numbers and divisions, in every state of every run.
-/
import Esolang.Proofs.Machine.Course
import Esolang.Proofs.Memory.Division
import Esolang.Proofs.Whitespace.Numeral
import Esolang.Whitespace.Machine

namespace Esolang

/-- The value `n` places below the top is found so many places before the end of the row. -/
theorem Memory.Stack.getElem?_toList (stack : Memory.Stack) {n : Nat} (lt : n < stack.depth) :
    stack.toList[stack.depth - 1 - n]? = stack.nth? n := by
  have length : stack.values.length = stack.depth := rfl
  show stack.values.reverse[stack.depth - 1 - n]? = stack.values[n]?
  rw [List.getElem?_reverse (by omega)]
  congr 1
  omega

namespace Whitespace

open Esolang.Memory (Stack)

/-- The stack has a value for every copy that is not refused. -/
theorem exists_copied (stack : Stack) {n : Nat} (lt : n < stack.depth) :
    ∃ value, stack.toList[stack.depth - 1 - n]? = some value ∧ stack.nth? n = some value := by
  refine ⟨stack.values[n], ?_, List.getElem?_eq_getElem lt⟩
  rw [stack.getElem?_toList lt]
  exact List.getElem?_eq_getElem lt

/-- What comes of a text: in all states of a run copies are taken from the stack, what
is read of a number has an opposite, and no correction of a division wraps around. -/
structure InRange (source : String) : Prop where
  state : ∀ n s, machine.after? n ⟨.initial, scan source⟩ = some s →
    ∀ k, k < s.stack.depth →
      ∃ value, s.stack.toList[s.stack.depth - 1 - k]? = some value
        ∧ s.stack.nth? k = some value
  number : ∀ minus letters value, magnitude 0 letters = .ok value →
    (signed minus value).toInt = if minus then -(value : Int) else value
  division : ∀ a b, Memory.Word.DivisionInRange a b

/-- **No text takes the machine out of range.** -/
theorem inRange (source : String) : InRange source where
  state _ s _ _ lt := exists_copied s.stack lt
  number minus _ _ read := toInt_signed minus (magnitude_le (Nat.zero_le _) read)
  division := Memory.Word.divisionInRange

end Whitespace

end Esolang
