/-
  Esolang.Whitespace.Number
  ─────────────────────────
  **NUMBERS WRITTEN IN TWO LETTERS.**

  The first letter is the sign, `s` for plus and `t` for minus; the others are
  binary digits, `s` for zero and `t` for one.  A magnitude has to fit into a
  signed word.
-/
import Esolang.Diagnostic.Basic
import Esolang.Memory.Word

namespace Esolang.Whitespace

open Esolang.Diagnostic (Report)

/-! ## §1. Faults -/

/-- Why letters are no number. -/
inductive NumberFault where
  /-- There is no digit. -/
  | noDigits (letters : String)
  /-- A letter is neither `s` nor `t`. -/
  | badDigit (letters : String) (letter : Char)
  /-- The magnitude is too large. -/
  | overflow (letters : String)
  deriving DecidableEq, Repr

/-- The fault in one sentence. -/
def NumberFault.message : NumberFault → String
  | .noDigits letters => "number '" ++ letters ++ "' has a sign but no digits"
  | .badDigit letters letter =>
    "number '" ++ letters ++ "' contains '" ++ letter.toString
      ++ "'; only 's' and 't' are digits"
  | .overflow letters => "number '" ++ letters ++ "' does not fit in 64 bits"

/-- The fault as a report. -/
def NumberFault.report (fault : NumberFault) : Report :=
  { kind := .invalidNumber, message := fault.message }

/-! ## §2. Reading -/

/-- The binary digit that a letter is. -/
def bit? : Char → Option Nat
  | 's' => some 0
  | 't' => some 1
  | _ => none

/-- The largest magnitude. -/
def maxMagnitude : Nat :=
  UInt64.size / 2 - 1

/-- What is wrong with a magnitude. -/
inductive MagnitudeFault where
  | badDigit (letter : Char)
  | overflow
  deriving DecidableEq, Repr

/-- Reads binary digits after a number that has the value `value` so far. -/
def magnitude (value : Nat) : List Char → Except MagnitudeFault Nat
  | [] => .ok value
  | letter :: letters =>
    match bit? letter with
    | none => .error (.badDigit letter)
    | some bit =>
      if value * 2 + bit ≤ maxMagnitude then magnitude (value * 2 + bit) letters
      else .error .overflow

/-- The number with this sign and magnitude. -/
def signed (minus : Bool) (value : Nat) : Int64 :=
  if minus then -Int64.ofNat value else Int64.ofNat value

/-- Reads the digits of a number whose sign has been read; `text` is all of it. -/
def readDigits (text : String) (minus : Bool) (digits : List Char) :
    Except NumberFault Int64 :=
  if digits.isEmpty then .error (.noDigits text)
  else match magnitude 0 digits with
    | .ok value => .ok (signed minus value)
    | .error (.badDigit letter) => .error (.badDigit text letter)
    | .error .overflow => .error (.overflow text)

/-- Reads a number. -/
def readNumber (text : String) : Except NumberFault Int64 :=
  match text.toList with
  | [] => .error (.noDigits text)
  | 's' :: digits => readDigits text false digits
  | 't' :: digits => readDigits text true digits
  | letter :: _ => .error (.badDigit text letter)

end Esolang.Whitespace
