/-
  Esolang.Whitespace.Command
  ──────────────────────────
  **THE COMMANDS OF WHITESPACE.**

  Sixteen commands, each written as a path of symbols; three of them take a
  number after their path.  No path begins another, so the symbols read so far
  say when a command is complete.
-/
import Esolang.Memory.Word
import Esolang.Whitespace.Symbol

namespace Esolang.Whitespace

/-! ## §1. Commands -/

/-- The commands. -/
inductive Command where
  /-- Pushes a number. -/
  | push (n : Int64)
  /-- Pushes the top value once more. -/
  | duplicate
  /-- Pushes the value so many places below the top. -/
  | copy (n : Int64)
  /-- Exchanges the two top values. -/
  | swap
  /-- Pops a value. -/
  | discard
  /-- Drops so many values from under the top. -/
  | slide (n : Int64)
  | add
  | subtract
  | multiply
  | divide
  | modulo
  /-- Pops a value and an address and keeps the value there. -/
  | store
  /-- Pops an address and pushes the value kept there. -/
  | retrieve
  /-- Prints the character whose code is a value. -/
  | printChar
  /-- Prints a value in decimal. -/
  | printInt
  /-- Halts the program. -/
  | finish
  deriving DecidableEq, Repr

/-! ## §2. The table of paths -/

/-- What a complete path stands for. -/
inductive Shape where
  /-- A command. -/
  | bare (command : Command)
  /-- A command that still needs a number. -/
  | numbered (command : Int64 → Command)

/-- A path of symbols and what it stands for. -/
structure Entry where
  /-- The path. -/
  path : List Symbol
  /-- What it stands for. -/
  shape : Shape

/-- Every path. -/
def table : List Entry :=
  [⟨[.space, .space], .numbered .push⟩,
    ⟨[.space, .line, .space], .bare .duplicate⟩,
    ⟨[.space, .tab, .space], .numbered .copy⟩,
    ⟨[.space, .line, .tab], .bare .swap⟩,
    ⟨[.space, .line, .line], .bare .discard⟩,
    ⟨[.space, .tab, .line], .numbered .slide⟩,
    ⟨[.tab, .space, .space, .space], .bare .add⟩,
    ⟨[.tab, .space, .space, .tab], .bare .subtract⟩,
    ⟨[.tab, .space, .space, .line], .bare .multiply⟩,
    ⟨[.tab, .space, .tab, .space], .bare .divide⟩,
    ⟨[.tab, .space, .tab, .tab], .bare .modulo⟩,
    ⟨[.tab, .tab, .space], .bare .store⟩,
    ⟨[.tab, .tab, .tab], .bare .retrieve⟩,
    ⟨[.tab, .line, .space, .space], .bare .printChar⟩,
    ⟨[.tab, .line, .space, .tab], .bare .printInt⟩,
    ⟨[.line, .line, .line], .bare .finish⟩]

end Esolang.Whitespace
