/-
  Esolang.Memory.Stack
  ────────────────────
  **A STACK OF 64-BIT WORDS.**

  Operations differ in what they do about a missing value: `pop?`, `binary`,
  `nth?` and `slide` fail, while `popOrZero`, `duplicate` and `swap` take it to
  be zero.  An operation that fails gives the stack as it leaves it, since it
  may have popped some of its operands already.

    • `toList_push` — a push adds to the end of the list of values.
-/
import Esolang.Diagnostic.Basic
import Esolang.Memory.Word

namespace Esolang.Memory

open Esolang.Diagnostic (Report)

/-! ## §1. Faults -/

/-- Why a stack operation fails. -/
inductive StackFault where
  /-- A value is missing. -/
  | empty
  /-- The divisor is zero. -/
  | divisionByZero
  deriving DecidableEq, Repr

/-- The fault in words. -/
def StackFault.report : StackFault → Report
  | .empty => { kind := .emptyStack, message := "pop from empty stack" }
  | .divisionByZero => { kind := .divisionByZero, message := "division by zero" }

/-! ## §2. Stacks -/

/-- A stack, its top first. -/
structure Stack where
  /-- The values from the top down. -/
  values : List Int64 := []
  deriving DecidableEq, Repr

namespace Stack

/-- The stack without values. -/
def nothing : Stack :=
  ⟨[]⟩

/-- The values from the bottom up. -/
def toList (s : Stack) : List Int64 :=
  s.values.reverse

/-- Number of values. -/
def depth (s : Stack) : Nat :=
  s.values.length

/-- Puts a value on top. -/
def push (value : Int64) (s : Stack) : Stack :=
  ⟨value :: s.values⟩

/-- The top value and the stack below it. -/
def pop? (s : Stack) : Option (Int64 × Stack) :=
  match s.values with
  | top :: below => some (top, ⟨below⟩)
  | [] => none

/-- The top value, zero if there is none, and the stack below it. -/
def popOrZero (s : Stack) : Int64 × Stack :=
  match s.values with
  | top :: below => (top, ⟨below⟩)
  | [] => (0, s)

/-- The top value, zero if there is none. -/
def peekOrZero (s : Stack) : Int64 :=
  s.values.headD 0

/-- Pushes the top value once more; a missing one is zero. -/
def duplicate (s : Stack) : Stack :=
  s.push s.peekOrZero

/-- Exchanges the two top values; missing ones are zero. -/
def swap (s : Stack) : Stack :=
  let (a, s) := s.popOrZero
  let (b, s) := s.popOrZero
  (s.push a).push b

/-- What an operation that can fail leaves: the new stack, or the reason and the
stack as it stands then. -/
abbrev Result :=
  Except (StackFault × Stack) Stack

/-- Pops `a`, then `b`, and pushes `op b a`: the deeper value stands on the left.
No result of `op` means a divisor of zero. -/
def binary (op : Int64 → Int64 → Option Int64) (s : Stack) : Result :=
  match s.values with
  | a :: b :: below =>
    match op b a with
    | some value => .ok ⟨value :: below⟩
    | none => .error (.divisionByZero, ⟨below⟩)
  | _ => .error (.empty, ⟨[]⟩)

/-- The value `n` places below the top. -/
def nth? (s : Stack) (n : Nat) : Option Int64 :=
  s.values[n]?

/-- Drops `n` values from under the top. -/
def slide (n : Nat) (s : Stack) : Result :=
  match s.values with
  | top :: below => .ok ⟨top :: below.drop n⟩
  | [] => .error (.empty, ⟨[]⟩)

/-! ## §3. The list of values -/

@[simp] theorem toList_nothing : nothing.toList = [] := rfl

@[simp] theorem toList_push (value : Int64) (s : Stack) :
    (s.push value).toList = s.toList ++ [value] := by
  simp [push, toList]

@[simp] theorem length_toList (s : Stack) : s.toList.length = s.depth := by
  simp [toList, depth]

end Stack

end Esolang.Memory
