/-
  Esolang.Loop.Pairing
  ────────────────────
  **MATCHING THE ENDS OF LOOPS.**

  Loop commands are paired like brackets, in one pass from left to right with a
  stack of the loops that are open.  The result tells for the index of each loop
  command the index of its partner.
-/
import Std.Data.TreeMap
import Esolang.Diagnostic.Basic

namespace Esolang.Loop

open Esolang.Diagnostic (Report)

/-! ## §1. Brackets and faults -/

/-- The two ends of a loop. -/
inductive Bracket where
  | opening
  | closing
  deriving DecidableEq, Repr

/-- Why brackets cannot be paired. -/
inductive PairingFault where
  /-- The bracket at `index` closes a loop, and none is open. -/
  | unmatchedClose (index : Nat)
  /-- The loop opened at `index` is never closed. -/
  | unclosedOpen (index : Nat)
  deriving DecidableEq, Repr

namespace PairingFault

/-- Index of the bracket at fault. -/
def index : PairingFault → Nat
  | .unmatchedClose i | .unclosedOpen i => i

/-- The fault in words. -/
def report : PairingFault → Report
  | .unmatchedClose i =>
    { kind := .mismatchedBracket
      message := "loop close at instruction " ++ toString i ++ " has no matching open" }
  | .unclosedOpen i =>
    { kind := .trailingBracket
      message := "loop open at instruction " ++ toString i ++ " is never closed" }

end PairingFault

/-! ## §2. Pairing -/

/-- The partner of each end of each loop. -/
structure Pairing where
  /-- From the index of a bracket to that of its partner. -/
  partners : Std.TreeMap Nat Nat

namespace Pairing

/-- No loops. -/
def empty : Pairing :=
  ⟨∅⟩

/-- Makes two brackets partners of each other. -/
def join (p : Pairing) (first last : Nat) : Pairing :=
  ⟨(p.partners.insert first last).insert last first⟩

/-- The partner of the bracket at `index`. -/
def partner? (p : Pairing) (index : Nat) : Option Nat :=
  p.partners[index]?

/-- Number of pairs. -/
def count (p : Pairing) : Nat :=
  p.partners.size / 2

/-- Every index with its partner, in the order of the indices. -/
def toList (p : Pairing) : List (Nat × Nat) :=
  p.partners.toList

/-- Pairs the brackets that follow, given the pairs found so far and the indices
of the open loops, the innermost first.  Of the loops that are never closed the
outermost is reported. -/
def extend (p : Pairing) (pending : List Nat) :
    List (Nat × Bracket) → Except PairingFault Pairing
  | [] =>
    match pending.getLast? with
    | some outermost => .error (.unclosedOpen outermost)
    | none => .ok p
  | (i, .opening) :: rest => p.extend (i :: pending) rest
  | (i, .closing) :: rest =>
    match pending with
    | first :: pending => (p.join first i).extend pending rest
    | [] => .error (.unmatchedClose i)

/-- Pairs brackets that are listed with their indices. -/
def ofBrackets (brackets : List (Nat × Bracket)) : Except PairingFault Pairing :=
  empty.extend [] brackets

end Pairing

/-- The brackets among instructions, with the indices of the instructions. -/
def brackets {ι : Type} (bracket? : ι → Option Bracket) (program : List ι) :
    List (Nat × Bracket) :=
  program.zipIdx.filterMap fun (instr, i) => (bracket? instr).map fun b => (i, b)

end Esolang.Loop
