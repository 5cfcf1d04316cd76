/-
  Esolang.Whitespace.Machine
  ──────────────────────────
  **RUNNING WHITESPACE.**

  The machine has a stack and a heap of words that are zero until they are
  written.  Commands run as soon as they are decoded, so that what follows the
  command that halts is never looked at.
-/
import Std.Data.TreeMap
import Esolang.Machine.Run
import Esolang.Memory.Stack
import Esolang.Whitespace.Decoder

namespace Esolang.Whitespace

open Esolang.Diagnostic (Report Finding)
open Esolang.Machine (Fetch Effect Settings Budget Run)
open Esolang.Memory (Stack StackFault)
open Esolang.Memory.Word (floorDiv? floorMod? toChar? decimal)
open Esolang.Source (Token)

/-! ## §1. States and faults -/

/-- Words at addresses; those that have not been written are zero. -/
abbrev Heap :=
  Std.TreeMap Int64 Int64

/-- What commands work on. -/
structure Store where
  /-- The stack. -/
  stack : Stack
  /-- The heap. -/
  heap : Heap
  /-- What has been printed. -/
  output : String

/-- A state of the machine. -/
structure State extends Store where
  /-- The symbols that are still to be decoded. -/
  symbols : List (Token Symbol)

/-- Why a run fails. -/
inductive Fault where
  /-- The next symbols are no command. -/
  | undecodable (fault : DecodeFault)
  /-- The stack does not hold what a command needs. -/
  | stack (fault : StackFault)
  /-- The value is no code of a character. -/
  | notACharacter (value : Int64)
  deriving DecidableEq, Repr

/-- The fault in words. -/
def Fault.report : Fault → Report
  | .undecodable fault => fault.report
  | .stack fault => fault.report
  | .notACharacter value =>
    { kind := .invalidCharacter, message := decimal value ++ " is not a character code" }

/-! ## §2. Commands -/

namespace Store

/-- Nothing on the stack or in the heap, and nothing printed. -/
def initial : Store :=
  ⟨.nothing, ∅, ""⟩

/-- Pops a value. -/
def pop (s : Store) : Except Fault (Int64 × Store) :=
  match s.stack.pop? with
  | some (value, stack) => .ok (value, { s with stack })
  | none => .error (.stack .empty)

/-- Pushes a value. -/
def push (value : Int64) (s : Store) : Store :=
  { s with stack := s.stack.push value }

/-- Goes on with the result of a stack operation. -/
def withStack (s : Store) : Stack.Result → Except Fault Store
  | .ok stack => .ok { s with stack }
  | .error (fault, _) => .error (.stack fault)

/-- Executes a command that does not halt the program. -/
def perform (command : Command) (s : Store) : Except Fault Store :=
  match command with
  | .push n => return s.push n
  | .duplicate => return { s with stack := s.stack.duplicate }
  | .copy n =>
    if n.toInt < 0 then throw (.stack .empty)
    else match s.stack.nth? n.toInt.toNat with
      | some value => return s.push value
      | none => throw (.stack .empty)
  | .swap => return { s with stack := s.stack.swap }
  | .discard => do
    let (_, s) ← s.pop
    return s
  | .slide n => s.withStack (s.stack.slide n.toInt.toNat)
  | .add => s.withStack (s.stack.binary fun b a => some (b + a))
  | .subtract => s.withStack (s.stack.binary fun b a => some (b - a))
  | .multiply => s.withStack (s.stack.binary fun b a => some (b * a))
  | .divide => s.withStack (s.stack.binary floorDiv?)
  | .modulo => s.withStack (s.stack.binary floorMod?)
  | .store => do
    let (value, s) ← s.pop
    let (address, s) ← s.pop
    return { s with heap := s.heap.insert address value }
  | .retrieve => do
    let (address, s) ← s.pop
    return s.push (s.heap.getD address 0)
  | .printChar => do
    let (value, s) ← s.pop
    match toChar? value with
    | some c => return { s with output := s.output.push c }
    | none => throw (.notACharacter value)
  | .printInt => do
    let (value, s) ← s.pop
    return { s with output := s.output ++ decimal value }
  | .finish => return s

end Store

/-! ## §3. The machine and its runs -/

/-- A decoded command and the symbols after it. -/
structure Decoded where
  /-- The command. -/
  command : Command
  /-- The symbols after it. -/
  rest : List (Token Symbol)

/-- Looks for the next command. -/
def fetch (s : State) : Fetch Decoded Fault :=
  match next? s.symbols with
  | none => .finished
  | some item =>
    match item.content with
    | .ok command => .found ⟨command, item.rest⟩ (.range item.span)
    | .error fault => .unreadable (.undecodable fault) (.range item.span)

/-- Executes a command. -/
def execute (decoded : Decoded) (s : State) : Effect State Fault :=
  match decoded.command with
  | .finish => .halt s
  | command =>
    match s.toStore.perform command with
    | .ok store => .next ⟨store, decoded.rest⟩
    | .error fault => .fault fault

theorem execute_of_ne_finish {decoded : Decoded} {s : State} (ne : decoded.command ≠ .finish) :
    execute decoded s = match s.toStore.perform decoded.command with
      | .ok store => .next ⟨store, decoded.rest⟩
      | .error fault => .fault fault := by
  unfold execute
  split
  · next halts => exact absurd halts ne
  · rfl

/-- The machine. -/
def machine : Machine State Decoded Fault where
  fetch := fetch
  execute := execute

/-- Runs a source text, faults of decoding included. -/
def runSource (source : String) (settings : Settings) : Run State Fault :=
  machine.run (.ofSettings settings none) ⟨.initial, scan source⟩

/-- Runs a program: its last state, or what went wrong. -/
def run (source : String) (settings : Settings) : Except Finding State :=
  (runSource source settings).result Fault.report

end Esolang.Whitespace
