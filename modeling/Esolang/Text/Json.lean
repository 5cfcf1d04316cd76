/-
  Esolang.Text.Json
  ─────────────────
  **JSON RECORDS ON ONE LINE.**

  Values without fractions, and `Json.compact`, which writes one without blanks.
  `Json.record` puts the fields of an object in the order of their names, so
  that a record has one spelling.
-/

namespace Esolang.Text

/-! ## §1. Values -/

/-- A JSON value without fractions. -/
inductive Json where
  | bool (value : Bool)
  | int (value : Int)
  | text (value : String)
  | list (items : List Json)
  | fields (entries : List (String × Json))

namespace Json

/-- An object whose fields are sorted by name. -/
def record (entries : List (String × Json)) : Json :=
  .fields (entries.mergeSort fun a b => decide (a.1 ≤ b.1))

/-! ## §2. Strings -/

/-- A hexadecimal digit in lower case. -/
def hexDigit (n : Nat) : Char :=
  if n < 10 then Char.ofNat (48 + n) else Char.ofNat (87 + n)

/-- One character inside a quoted string. -/
def escape (c : Char) : List Char :=
  if c == '"' then ['\\', '"']
  else if c == '\\' then ['\\', '\\']
  else if c == '\x08' then ['\\', 'b']
  else if c == '\x0c' then ['\\', 'f']
  else if c == '\n' then ['\\', 'n']
  else if c == '\r' then ['\\', 'r']
  else if c == '\t' then ['\\', 't']
  else if c.toNat < 0x20 then
    ['\\', 'u', '0', '0', hexDigit (c.toNat / 16), hexDigit (c.toNat % 16)]
  else [c]

/-- A string between quotes. -/
def quote (text : String) : String :=
  "\"" ++ String.ofList (text.toList.flatMap escape) ++ "\""

/-! ## §3. Printing -/

mutual

/-- The value on one line, without blanks. -/
def compact : Json → String
  | .bool true => "true"
  | .bool false => "false"
  | .int value => toString value
  | .text value => quote value
  | .list items => "[" ++ compactItems items ++ "]"
  | .fields entries => "\x7b" ++ compactEntries entries ++ "\x7d"

/-- Items with commas between them. -/
def compactItems : List Json → String
  | [] => ""
  | [item] => compact item
  | item :: rest => compact item ++ "," ++ compactItems rest

/-- Fields with commas between them. -/
def compactEntries : List (String × Json) → String
  | [] => ""
  | [(name, value)] => quote name ++ ":" ++ compact value
  | (name, value) :: rest => quote name ++ ":" ++ compact value ++ "," ++ compactEntries rest

end

end Json

end Esolang.Text
