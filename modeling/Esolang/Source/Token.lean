/-
  Esolang.Source.Token
  ────────────────────
  **THE SIGNIFICANT CHARACTERS OF A TEXT.**

  Three of the four languages are written in a handful of characters and treat
  all others as comments.  `tokens classify source` keeps the characters that
  `classify` gives a meaning, each with the span of its bytes.

    • `map_symbol_tokens` — the meanings, in order, are `source.toList.filterMap classify`:
      a comment moves spans and changes nothing else.
-/
import Esolang.Source.Span

namespace Esolang.Source

/-! ## §1. Tokens -/

/-- A meaning together with the bytes that it was read from. -/
structure Token (τ : Type) where
  /-- What the bytes mean. -/
  symbol : τ
  /-- Where the bytes are. -/
  span : Span
  deriving DecidableEq, Repr

/-- The state of a scan: the offset reached and the tokens found so far. -/
structure Scan (τ : Type) where
  /-- Number of bytes read. -/
  offset : Nat
  /-- Tokens found in them. -/
  found : Array (Token τ)

variable {τ : Type}

/-- Reads one character. -/
def Scan.advance (classify : Char → Option τ) (scan : Scan τ) (c : Char) : Scan τ :=
  let next := scan.offset + c.utf8Size
  match classify c with
  | some symbol => ⟨next, scan.found.push ⟨symbol, scan.offset, next⟩⟩
  | none => ⟨next, scan.found⟩

/-- The characters of `source` that `classify` gives a meaning, with their spans. -/
def tokens (classify : Char → Option τ) (source : String) : List (Token τ) :=
  (source.toList.foldl (Scan.advance classify) ⟨0, #[]⟩).found.toList

/-! ## §2. Comments leave no trace but offsets -/

/-- A scan adds the meanings of what it reads to those it has found. -/
theorem map_symbol_foldl (classify : Char → Option τ) :
    ∀ (cs : List Char) (scan : Scan τ),
      (cs.foldl (Scan.advance classify) scan).found.toList.map Token.symbol
        = scan.found.toList.map Token.symbol ++ cs.filterMap classify
  | [], scan => by simp
  | c :: cs, scan => by
    rw [List.foldl_cons, map_symbol_foldl classify cs, List.filterMap_cons, Scan.advance]
    cases classify c <;> simp

/-- The meanings of the tokens are those of the characters, in order. -/
theorem map_symbol_tokens (classify : Char → Option τ) (source : String) :
    (tokens classify source).map Token.symbol = source.toList.filterMap classify := by
  simp [tokens, map_symbol_foldl]

end Esolang.Source
