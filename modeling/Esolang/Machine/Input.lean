/-
  Esolang.Machine.Input
  ─────────────────────
  **THE INPUT OF A RUN.**

  A run reads its input as bytes, as characters or as decimal integers.  Every
  reader takes what it reads from the front and leaves the rest.

    • `readByte`, `readChar` and `readInteger` leave a suffix of what they were
      given: `suffix_readByte`, `suffix_readChar`, `suffix_readInteger`.
-/
import Esolang.Text.Blank

namespace Esolang.Machine

open Esolang.Text (isAsciiBlank isAsciiDigit)

/-! ## §1. Bytes and characters -/

/-- The bytes that are still to be read. -/
structure Input where
  /-- What is left, the next byte first. -/
  rest : List UInt8
  deriving DecidableEq, Repr

namespace Input

/-- The input whose bytes are the UTF-8 bytes of a text. -/
def ofText (text : String) : Input :=
  ⟨text.toUTF8.toList⟩

/-- The next byte. -/
def readByte (input : Input) : Option UInt8 × Input :=
  match input.rest with
  | byte :: rest => (some byte, ⟨rest⟩)
  | [] => (none, input)

/-- Number of bytes that a character takes, judged by its first byte. -/
def claimedSize (first : UInt8) : Nat :=
  if first < 0x80 then 1
  else if first < 0xC0 then 1
  else if first < 0xE0 then 2
  else if first < 0xF0 then 3
  else if first < 0xF8 then 4
  else 1

/-- The character that stands for bytes that are not UTF-8. -/
def replacement : Char :=
  '\ufffd'

/-- The character written by these bytes, or the replacement. -/
def decode (bytes : List UInt8) : Char :=
  ((bytes.toByteArray).utf8DecodeChar? 0).getD replacement

/-- The next character.  The bytes that its first byte claims are consumed, as
far as they are there, whether or not they are UTF-8. -/
def readChar (input : Input) : Option Char × Input :=
  match input.rest with
  | [] => (none, input)
  | first :: _ =>
    let size := claimedSize first
    (some (decode (input.rest.take size)), ⟨input.rest.drop size⟩)

/-! ## §2. Integers -/

/-- Takes one sign off the front: whether it was a minus, and the rest. -/
def takeSign : List UInt8 → Bool × List UInt8
  | 45 :: rest => (true, rest)
  | 43 :: rest => (false, rest)
  | bytes => (false, bytes)

/-- The number written by decimal digits. -/
def decimalValue (digits : List UInt8) : Nat :=
  digits.foldl (fun n digit => n * 10 + (digit.toNat - 48)) 0

/-- The number if it is one of 64 bits. -/
def word? (n : Int) : Option Int64 :=
  if Int64.minValue.toInt ≤ n ∧ n ≤ Int64.maxValue.toInt then some (Int64.ofInt n) else none

/-- The next integer: blanks, at most one sign, digits.  Without a digit nothing
but the blanks is consumed; a number of more than 64 bits is consumed and lost. -/
def readInteger (input : Input) : Option Int64 × Input :=
  let start := input.rest.dropWhile isAsciiBlank
  let (minus, body) := takeSign start
  let digits := body.takeWhile isAsciiDigit
  if digits.isEmpty then (none, ⟨start⟩)
  else
    let magnitude : Int := decimalValue digits
    (word? (if minus then -magnitude else magnitude), ⟨body.dropWhile isAsciiDigit⟩)

/-! ## §3. Readers leave a suffix -/

theorem suffix_readByte (input : Input) : input.readByte.2.rest <:+ input.rest := by
  unfold readByte
  split
  · next byte rest h => simp [h]
  · exact List.suffix_refl _

theorem suffix_readChar (input : Input) : input.readChar.2.rest <:+ input.rest := by
  unfold readChar
  split
  · exact List.suffix_refl _
  · exact List.drop_suffix _ _

theorem suffix_takeSign (bytes : List UInt8) : (takeSign bytes).2 <:+ bytes := by
  unfold takeSign
  split <;> simp

theorem suffix_readInteger (input : Input) : input.readInteger.2.rest <:+ input.rest := by
  have blanks : input.rest.dropWhile isAsciiBlank <:+ input.rest := List.dropWhile_suffix _
  simp only [readInteger]
  split
  · exact blanks
  · exact ((List.dropWhile_suffix _).trans (suffix_takeSign _)).trans blanks

end Input

end Esolang.Machine
