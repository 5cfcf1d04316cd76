/-
  Esolang.Cow.Opcode
  ──────────────────
  **THE TWELVE COMMANDS OF COW.**

  A command is written as a triplet of the letters `m`, `o`, `M` and `O`.  The
  command `mOO` replaces itself by the command that the current cell numbers.

    • `ofTriplet?_triplet` — every command is read back from its triplet.
-/
import Esolang.Loop.Pairing

namespace Esolang.Cow

open Esolang.Loop (Bracket)

/-! ## §1. Commands -/

/-- The commands. -/
inductive Opcode where
  /-- `moo` ends a loop, which is repeated unless the cell is zero. -/
  | loopClose
  /-- `mOo` moves the cursor to the left. -/
  | left
  /-- `moO` moves the cursor to the right. -/
  | right
  /-- `mOO` replaces itself by the command that the cell numbers. -/
  | select
  /-- `Moo` reads a byte into a zero cell and prints any other as a character. -/
  | exchange
  /-- `MOo` takes one from the cell. -/
  | decrement
  /-- `MoO` adds one to the cell. -/
  | increment
  /-- `MOO` begins a loop, which is skipped if the cell is zero. -/
  | loopOpen
  /-- `OOO` sets the cell to zero. -/
  | zero
  /-- `MMM` puts the cell into the register, or the register back into the cell. -/
  | register
  /-- `OOM` prints the cell in decimal. -/
  | printInt
  /-- `oom` reads an integer into the cell. -/
  | readInt
  deriving DecidableEq, Repr

namespace Opcode

/-- Every command, in the order of the numbers by which `mOO` selects them; the
last has no number. -/
def all : List Opcode :=
  [.loopClose, .left, .right, .select, .exchange, .decrement, .increment, .loopOpen, .zero,
    .register, .printInt, .readInt]

/-- The triplet that writes a command. -/
def triplet : Opcode → String
  | .loopClose => "moo"
  | .left => "mOo"
  | .right => "moO"
  | .select => "mOO"
  | .exchange => "Moo"
  | .decrement => "MOo"
  | .increment => "MoO"
  | .loopOpen => "MOO"
  | .zero => "OOO"
  | .register => "MMM"
  | .printInt => "OOM"
  | .readInt => "oom"

/-- The command written by a triplet. -/
def ofTriplet? (text : String) : Option Opcode :=
  all.find? fun op => op.triplet == text

/-- Commands that `mOO` can be replaced by, at their numbers. -/
def selectable : List Opcode :=
  all.take 11

/-- The command that a cell selects.  A cell that selects `mOO` itself selects
nothing, since that would go on for ever. -/
def ofCell? (cell : UInt8) : Option Opcode :=
  match selectable[cell.toNat]? with
  | some .select => none
  | found => found

/-- Which end of a loop the command is, if any. -/
def bracket? : Opcode → Option Bracket
  | .loopOpen => some .opening
  | .loopClose => some .closing
  | _ => none

/-! ## §2. Reading a triplet back -/

theorem ofTriplet?_triplet (op : Opcode) : ofTriplet? op.triplet = some op := by
  cases op <;> decide +kernel

/-- What a cell selects is never `mOO`, and never `oom`. -/
theorem ofCell?_ne {cell : UInt8} {op : Opcode} (h : ofCell? cell = some op) :
    op ≠ .select ∧ op ≠ .readInt := by
  have mem : op ∈ selectable ∧ op ≠ .select := by
    unfold ofCell? at h
    split at h
    · cases h
    · next found =>
      exact ⟨List.mem_of_getElem? h, fun eq => found (by rw [h, eq])⟩
  refine ⟨mem.2, fun eq => ?_⟩
  have := mem.1
  rw [eq] at this
  revert this
  decide

end Opcode

end Esolang.Cow
