/-
  Esolang.Proofs.Whitespace.Numeral
  ─────────────────────────────────
  **WRITTEN NUMBERS.**

  A number is written as its sign, a space or a tab, and at least one binary
  digit of its magnitude.  Zeros in front of the magnitude do not count, and zero
  has two signs, so that every number is written in many ways.

    • `magnitude_letters` — digits are read as the number that they are in binary,
      as long as that is not too large,
    • `readNumber_of_spells` — whichever way a number is written, it is read back,
      the least number alone excepted,
    • `spells_spelling` — every number can be written, with any number of zeros in
      front.
-/
import Esolang.Whitespace.Number
import Esolang.Whitespace.Symbol

namespace Esolang.Whitespace

/-! ## §1. Binary digits. -/

/-- The binary digit that a symbol is. -/
def Symbol.bit : Symbol → Nat
  | .tab => 1
  | _ => 0

/-- What binary digits make of a number when they are written behind it. -/
def binaryAfter (value : Nat) (digits : List Symbol) : Nat :=
  digits.foldl (fun value digit => value * 2 + digit.bit) value

/-- The number that binary digits are. -/
def binary (digits : List Symbol) : Nat :=
  binaryAfter 0 digits

theorem binaryAfter_append (value : Nat) (digits more : List Symbol) :
    binaryAfter value (digits ++ more) = binaryAfter (binaryAfter value digits) more :=
  List.foldl_append

/-- Digits behind a number do not make it smaller. -/
theorem le_binaryAfter (digits : List Symbol) :
    ∀ value, value ≤ binaryAfter value digits := by
  induction digits with
  | nil => exact Nat.le_refl
  | cons digit digits ih =>
    intro value
    have step : value * 2 + digit.bit ≤ binaryAfter value (digit :: digits) := ih _
    omega

/-- Zeros in front do not count. -/
theorem binary_zeros (zeros : Nat) (digits : List Symbol) :
    binary (List.replicate zeros .space ++ digits) = binary digits := by
  induction zeros with
  | zero => rfl
  | succ zeros ih => exact ih

theorem bit?_letter {digit : Symbol} (not_line : digit ≠ .line) :
    bit? digit.letter = some digit.bit := by
  cases digit with
  | space => rfl
  | tab => rfl
  | line => exact absurd rfl not_line

/-- Digits are gone over as the number that they are in binary, and what follows them is read
behind that number, as long as it is not too large. -/
theorem magnitude_append (digits : List Symbol) (more : List Char) :
    ∀ value, value ≤ maxMagnitude → .line ∉ digits →
      magnitude value (digits.map Symbol.letter ++ more)
        = if binaryAfter value digits ≤ maxMagnitude
          then magnitude (binaryAfter value digits) more
          else .error .overflow := by
  induction digits with
  | nil =>
    intro value fits _
    exact (if_pos fits).symm
  | cons digit digits ih =>
    intro value _ noLine
    rw [List.mem_cons, not_or] at noLine
    obtain ⟨not_line, noLine⟩ := noLine
    rw [List.map_cons, List.cons_append, magnitude, bit?_letter (Ne.symm not_line)]
    show (if value * 2 + digit.bit ≤ maxMagnitude then _ else _) = _
    by_cases fits : value * 2 + digit.bit ≤ maxMagnitude
    · rw [if_pos fits, ih _ fits noLine]
      rfl
    · -- What is too large after this digit is so after all of them.
      have grows : value * 2 + digit.bit ≤ binaryAfter value (digit :: digits) :=
        le_binaryAfter digits _
      rw [if_neg fits, if_neg (by omega)]

/-- **Digits are read as the number that they are in binary**, as long as that is not too
large. -/
theorem magnitude_letters (digits : List Symbol) :
    ∀ value, value ≤ maxMagnitude → .line ∉ digits →
      magnitude value (digits.map Symbol.letter)
        = if binaryAfter value digits ≤ maxMagnitude then .ok (binaryAfter value digits)
          else .error .overflow := by
  intro value fits noLine
  have read := magnitude_append digits [] value fits noLine
  rwa [List.append_nil] at read

/-! ## §2. Signs. -/

/-- A magnitude that has been read fits into a word, and so does its opposite. -/
theorem toInt_signed (minus : Bool) {value : Nat} (fits : value ≤ maxMagnitude) :
    (signed minus value).toInt = if minus then -(value : Int) else value := by
  have lt : value < 2 ^ 63 := by
    have : maxMagnitude = 2 ^ 63 - 1 := by decide
    omega
  have plus : (Int64.ofNat value).toInt = value := Int64.toInt_ofNat_of_lt lt
  cases minus with
  | false => exact plus
  | true =>
    show (-Int64.ofNat value).toInt = -(value : Int)
    rw [← Int64.ofInt_eq_ofNat, ← Int64.ofInt_neg]
    exact Int64.toInt_ofInt_of_le (by omega) (by omega)

/-- What has been read of a number is a magnitude that fits into a word. -/
theorem magnitude_le {letters : List Char} :
    ∀ {value result : Nat}, value ≤ maxMagnitude → magnitude value letters = .ok result →
      result ≤ maxMagnitude := by
  induction letters with
  | nil =>
    intro value result fits read
    cases read
    exact fits
  | cons letter letters ih =>
    intro value result _ read
    rw [magnitude] at read
    cases hbit : bit? letter with
    | none =>
      rw [hbit] at read
      cases read
    | some bit =>
      rw [hbit] at read
      dsimp only at read
      split at read
      · next fits => exact ih fits read
      · cases read

/-! ## §3. Reading what is written. -/

/-- The number is written so: its sign, and binary digits of its magnitude. -/
inductive Spells (n : Int64) : List Symbol → Prop where
  | plus {digits : List Symbol} (ne : digits ≠ []) (noLine : .line ∉ digits)
      (value : n.toInt = binary digits) : Spells n (.space :: digits)
  | minus {digits : List Symbol} (ne : digits ≠ []) (noLine : .line ∉ digits)
      (value : n.toInt = -(binary digits : Int)) : Spells n (.tab :: digits)

theorem Spells.line_not_mem {n : Int64} {symbols : List Symbol} (h : Spells n symbols) :
    .line ∉ symbols := by
  cases h with
  | plus ne noLine value => simpa using noLine
  | minus ne noLine value => simpa using noLine

theorem readDigits_letters {text : String} {minus : Bool} {digits : List Symbol}
    (ne : digits ≠ []) (noLine : .line ∉ digits) (fits : binary digits ≤ maxMagnitude) :
    readDigits text minus (digits.map Symbol.letter) = .ok (signed minus (binary digits)) := by
  have some_digit : (digits.map Symbol.letter).isEmpty = false := by
    simpa using ne
  have read : magnitude 0 (digits.map Symbol.letter) = .ok (binary digits) :=
    (magnitude_letters digits 0 (Nat.zero_le _) noLine).trans (if_pos fits)
  unfold readDigits
  rw [some_digit, read]
  rfl

/-- **Whichever way a number is written, it is read back**, unless it is the least. -/
theorem readNumber_of_spells {n : Int64} {symbols : List Symbol} (h : Spells n symbols)
    (ne_min : n ≠ Int64.minValue) : readNumber (Symbol.letters symbols) = .ok n := by
  have above : -(2 ^ 63) < n.toInt := by
    have le := Int64.le_toInt n
    have ne : n.toInt ≠ -(2 ^ 63) := by
      intro eq
      exact ne_min (Int64.toInt_inj.mp (eq.trans Int64.toInt_minValue.symm))
    omega
  have below := Int64.toInt_lt n
  have max : maxMagnitude = 2 ^ 63 - 1 := by decide
  have text : (Symbol.letters symbols).toList = symbols.map Symbol.letter :=
    String.toList_ofList
  unfold readNumber
  rw [text]
  -- The least number is the only one whose magnitude does not fit.
  cases h with
  | @plus digits ne noLine value =>
    have fits : binary digits ≤ maxMagnitude := by omega
    show readDigits _ false (digits.map Symbol.letter) = _
    rw [readDigits_letters ne noLine fits]
    refine congrArg Except.ok (Int64.toInt_inj.mp ?_)
    rw [toInt_signed false fits, value]
    rfl
  | @minus digits ne noLine value =>
    have fits : binary digits ≤ maxMagnitude := by omega
    show readDigits _ true (digits.map Symbol.letter) = _
    rw [readDigits_letters ne noLine fits]
    refine congrArg Except.ok (Int64.toInt_inj.mp ?_)
    rw [toInt_signed true fits, value]
    rfl

/-! ## §4. Every number can be written. -/

/-- The symbol that is a binary digit. -/
def Symbol.ofBit (bit : Nat) : Symbol :=
  if bit = 0 then .space else .tab

/-- A magnitude in binary, without a zero in front. -/
def numeral (value : Nat) : List Symbol :=
  if value < 2 then [.ofBit value] else numeral (value / 2) ++ [.ofBit (value % 2)]

theorem Symbol.bit_ofBit {bit : Nat} (lt : bit < 2) : (Symbol.ofBit bit).bit = bit := by
  obtain rfl | rfl : bit = 0 ∨ bit = 1 := by omega
  · rfl
  · rfl

theorem Symbol.ofBit_ne_line (bit : Nat) : Symbol.ofBit bit ≠ .line := by
  unfold Symbol.ofBit
  split <;> exact nofun

theorem numeral_ne_nil (value : Nat) : numeral value ≠ [] := by
  rw [numeral]
  split <;> simp

theorem line_not_mem_numeral (value : Nat) : .line ∉ numeral value := by
  induction value using numeral.induct with
  | case1 value lt =>
    rw [numeral, if_pos lt]
    simpa using (Symbol.ofBit_ne_line value).symm
  | case2 value ge ih =>
    rw [numeral, if_neg ge]
    simpa [ih] using (Symbol.ofBit_ne_line (value % 2)).symm

theorem binary_numeral (value : Nat) : binary (numeral value) = value := by
  induction value using numeral.induct with
  | case1 value lt =>
    rw [numeral, if_pos lt]
    show 0 * 2 + (Symbol.ofBit value).bit = value
    rw [Symbol.bit_ofBit lt]
    omega
  | case2 value ge half =>
    have last : (Symbol.ofBit (value % 2)).bit = value % 2 := Symbol.bit_ofBit (by omega)
    rw [numeral, if_neg ge]
    show binaryAfter 0 (numeral (value / 2) ++ [.ofBit (value % 2)]) = value
    rw [binaryAfter_append]
    show binary (numeral (value / 2)) * 2 + (Symbol.ofBit (value % 2)).bit = value
    rw [half, last]
    omega

/-- A number with so many zeros in front of its magnitude. -/
def spelling (zeros : Nat) (n : Int64) : List Symbol :=
  (if n.toInt < 0 then .tab else .space)
    :: (List.replicate zeros .space ++ numeral n.toInt.natAbs)

/-- **Every number can be written**, with any number of zeros in front. -/
theorem spells_spelling (zeros : Nat) (n : Int64) : Spells n (spelling zeros n) := by
  have ne : List.replicate zeros .space ++ numeral n.toInt.natAbs ≠ [] := by
    simp [numeral_ne_nil]
  have noLine : .line ∉ List.replicate zeros .space ++ numeral n.toInt.natAbs := by
    simp [line_not_mem_numeral]
  have value : binary (List.replicate zeros .space ++ numeral n.toInt.natAbs)
      = n.toInt.natAbs := by
    rw [binary_zeros, binary_numeral]
  unfold spelling
  by_cases negative : n.toInt < 0
  · rw [if_pos negative]
    exact .minus ne noLine (by omega)
  · rw [if_neg negative]
    exact .plus ne noLine (by omega)

end Esolang.Whitespace
