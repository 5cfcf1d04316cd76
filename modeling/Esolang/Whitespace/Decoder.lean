/-
  Esolang.Whitespace.Decoder
  ──────────────────────────
  **FROM SYMBOLS TO COMMANDS.**

  Commands are decoded one at a time from the front of a sequence of symbols,
  along the trie of their paths.  Symbols that cannot begin any command end where
  that becomes certain, and decoding can go on after them.

    • `length_next` — a decoded item takes at least one symbol.
-/
import Esolang.Whitespace.Number
import Esolang.Whitespace.Trie

namespace Esolang.Whitespace

open Esolang.Diagnostic (Report)
open Esolang.Source (Span Token)

/-! ## §1. Faults and items -/

/-- Why symbols are no command. -/
inductive DecodeFault where
  /-- No command begins with these symbols. -/
  | unknown (letters : String)
  /-- The program ends inside the command that begins with these symbols. -/
  | incomplete (letters : String)
  /-- The number of a command is none. -/
  | number (fault : NumberFault)
  deriving DecidableEq, Repr

/-- The fault in words. -/
def DecodeFault.report : DecodeFault → Report
  | .unknown letters =>
    { kind := .unknownSymbol
      message := "unknown command '" ++ letters ++ "'"
      notes := ["no command starts with these tokens"] }
  | .incomplete letters =>
    { kind := .trailingCommand
      message := "incomplete command '" ++ letters ++ "' at end of program" }
  | .number fault => fault.report

/-- What was decoded, the span it was read from, and the symbols after it. -/
structure Item where
  /-- The command, or why there is none. -/
  content : Except DecodeFault Command
  /-- From the first symbol to the last. -/
  span : Span
  /-- The symbols that are left. -/
  rest : List (Token Symbol)

/-! ## §2. One command -/

/-- The symbols of one command as far as they are read. -/
structure Block where
  /-- The symbols, the last first. -/
  seen : List Symbol
  /-- From the first symbol to the last. -/
  span : Span

namespace Block

/-- Reads one more symbol. -/
def add (block : Block) (token : Token Symbol) : Block :=
  ⟨token.symbol :: block.seen, block.span.merge token.span⟩

/-- The symbols as letters, in order. -/
def letters (block : Block) : String :=
  Symbol.letters block.seen.reverse

end Block

/-- Reads the letters of a number up to the next newline; `digits` are those read
before, the last first. -/
def decodeNumber (make : Int64 → Command) (block : Block) (digits : List Symbol) :
    List (Token Symbol) → Item
  | [] => ⟨.error (.incomplete block.letters), block.span, []⟩
  | token :: rest =>
    let block := block.add token
    if token.symbol = .line then
      match readNumber (Symbol.letters digits.reverse) with
      | .ok n => ⟨.ok (make n), block.span, rest⟩
      | .error fault => ⟨.error (.number fault), block.span, rest⟩
    else decodeNumber make block (token.symbol :: digits) rest

/-- Reads the rest of a path, from the node of a trie that its symbols have led to. -/
def decodePath (trie : Trie) (node : Nat) (block : Block) : List (Token Symbol) → Item
  | [] => ⟨.error (.incomplete block.letters), block.span, []⟩
  | token :: rest =>
    let block := block.add token
    match trie.child? node token.symbol with
    | none => ⟨.error (.unknown block.letters), block.span, rest⟩
    | some next =>
      match trie.shape? next with
      | some (.bare command) => ⟨.ok command, block.span, rest⟩
      | some (.numbered make) => decodeNumber make block [] rest
      | none => decodePath trie next block rest

/-- Decodes what stands at the front of a sequence of symbols. -/
def next? (symbols : List (Token Symbol)) : Option Item :=
  match symbols with
  | [] => none
  | token :: _ => some (decodePath paths Trie.root ⟨[], token.span⟩ symbols)

/-! ## §3. Decoding comes to an end -/

theorem length_decodeNumber (make : Int64 → Command) :
    ∀ (symbols : List (Token Symbol)) (block : Block) (digits : List Symbol),
      (decodeNumber make block digits symbols).rest.length ≤ symbols.length
  | [], block, digits => by simp [decodeNumber]
  | token :: rest, block, digits => by
    simp only [decodeNumber]
    split
    · split <;> simp
    · exact Nat.le_succ_of_le (length_decodeNumber make rest _ _)

theorem length_decodePath :
    ∀ (symbols : List (Token Symbol)) (trie : Trie) (node : Nat) (block : Block),
      symbols ≠ [] → (decodePath trie node block symbols).rest.length < symbols.length
  | [], _, _, _, h => absurd rfl h
  | token :: rest, trie, node, block, _ => by
    simp only [decodePath]
    split
    · simp
    · split
      · simp
      · exact Nat.lt_succ_of_le (length_decodeNumber _ rest _ _)
      · cases rest with
        | nil => simp [decodePath]
        | cons next rest =>
          exact Nat.lt_succ_of_lt (length_decodePath (next :: rest) _ _ _ (by simp))

/-- A decoded item takes at least one symbol. -/
theorem length_next {symbols : List (Token Symbol)} {item : Item}
    (h : next? symbols = some item) : item.rest.length < symbols.length := by
  unfold next? at h
  split at h
  · cases h
  · rw [← Option.some.inj h]
    exact length_decodePath _ _ _ _ (by simp)

/-- Everything that is decoded from a sequence of symbols.  A fault does not end
it: decoding goes on after the symbols at fault. -/
def decodeAll (symbols : List (Token Symbol)) : List Item :=
  match _decoded : next? symbols with
  | none => []
  | some item => item :: decodeAll item.rest
termination_by symbols.length
decreasing_by exact length_next (by assumption)

end Esolang.Whitespace
