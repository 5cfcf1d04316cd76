/-
  Esolang.Whitespace.Symbol
  ─────────────────────────
  **THE THREE SYMBOLS OF WHITESPACE.**

  Space, tab and newline are written `s`, `t` and `l` where they have to be read
  by people.  Tabs rarely survive in a chat, so U+3164 stands for a tab as well.
-/
import Esolang.Source.Token

namespace Esolang.Whitespace

open Esolang.Source (Token tokens)

/-! ## §1. Symbols -/

/-- The symbols. -/
inductive Symbol where
  | space
  | tab
  | line
  deriving DecidableEq, Repr

namespace Symbol

/-- The symbol that a character is. -/
def ofChar? (c : Char) : Option Symbol :=
  if c = ' ' then some .space
  else if c = '\t' ∨ c = '\u3164' then some .tab
  else if c = '\n' then some .line
  else none

/-- The letter that shows a symbol. -/
def letter : Symbol → Char
  | .space => 's'
  | .tab => 't'
  | .line => 'l'

/-- The letters of a sequence of symbols. -/
def letters (symbols : List Symbol) : String :=
  String.ofList (symbols.map letter)

end Symbol

/-- The symbols of a source text. -/
def scan (source : String) : List (Token Symbol) :=
  tokens Symbol.ofChar? source

end Esolang.Whitespace
