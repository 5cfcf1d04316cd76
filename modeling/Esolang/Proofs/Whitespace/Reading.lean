/-
  Esolang.Proofs.Whitespace.Reading
  ─────────────────────────────────
  **WHAT READING A NUMBER ANSWERS.**

  A text has no digits, or is a sign with binary digits behind it, or has a
  letter that is neither `s` nor `t`; every text is one of the three.  What is
  answered depends on the value of the digits alone, however many zeros stand in
  front of it.  The magnitude is read before its sign counts, so the range of what
  is read is the same on both sides of zero, and the least word is left out of it.

  Main results:
    • `bare_or_numeral_or_stray` — the three kinds of text,
    • `readNumber_answers` — what is answered to each of them, and that every
      number but the least is read back whichever way it is written,
    • `readNumber_least` — the least word is written with 64 digits and turned
      down as too large.
-/
import Esolang.Proofs.Whitespace.Numeral

namespace Esolang.Whitespace

/-! ## §1. The kinds of text. -/

/-- The letter of a sign. -/
def signLetter (minus : Bool) : Char :=
  if minus then 't' else 's'

/-- The value of digits with a sign. -/
def signedBinary (minus : Bool) (digits : List Symbol) : Int :=
  if minus then -(binary digits : Int) else binary digits

/-- The text has no digits: it is empty or a sign alone. -/
def Bare (text : String) : Prop :=
  text.toList = [] ∨ ∃ minus, text.toList = [signLetter minus]

/-- The text is a sign and binary digits behind it, one at least. -/
structure Numeral (text : String) (minus : Bool) (digits : List Symbol) : Prop where
  letters : text.toList = signLetter minus :: digits.map Symbol.letter
  ne_nil : digits ≠ []
  noLine : .line ∉ digits

/-- The text has a letter that is neither `s` nor `t`, and this is the first one: what stands
in front of it is a sign with digits, or nothing. -/
structure Stray (text : String) (before : List Symbol) (letter : Char) : Prop where
  letters : ∃ after, text.toList = before.map Symbol.letter ++ letter :: after
  noLine : .line ∉ before
  not_space : letter ≠ 's'
  not_tab : letter ≠ 't'

theorem bit?_eq_none {letter : Char} (not_space : letter ≠ 's') (not_tab : letter ≠ 't') :
    bit? letter = none := by
  unfold bit?
  split
  · exact absurd rfl not_space
  · exact absurd rfl not_tab
  · rfl

/-- Letters are binary digits up to the first one that is not. -/
theorem digits_or_stray (letters : List Char) :
    (∃ digits : List Symbol, .line ∉ digits ∧ letters = digits.map Symbol.letter)
      ∨ ∃ (before : List Symbol) (letter : Char) (after : List Char),
          .line ∉ before ∧ letter ≠ 's' ∧ letter ≠ 't'
            ∧ letters = before.map Symbol.letter ++ letter :: after := by
  induction letters with
  | nil => exact .inl ⟨[], List.not_mem_nil, rfl⟩
  | cons letter letters ih =>
    by_cases isDigit : ∃ digit : Symbol, digit ≠ .line ∧ letter = digit.letter
    · obtain ⟨digit, not_line, rfl⟩ := isDigit
      rcases ih with ⟨digits, noLine, rfl⟩ | ⟨before, stray, after, noLine, ne_s, ne_t, rfl⟩
      · have noLine : Symbol.line ∉ digit :: digits := by simp [noLine, not_line.symm]
        exact .inl ⟨digit :: digits, noLine, rfl⟩
      · have noLine : Symbol.line ∉ digit :: before := by simp [noLine, not_line.symm]
        exact .inr ⟨digit :: before, stray, after, noLine, ne_s, ne_t, rfl⟩
    · refine .inr ⟨[], letter, letters, List.not_mem_nil, ?_, ?_, rfl⟩
      · exact fun isSpace => isDigit ⟨.space, by decide, isSpace⟩
      · exact fun isTab => isDigit ⟨.tab, by decide, isTab⟩

theorem letter_eq_signLetter {sign : Symbol} (not_line : sign ≠ .line) :
    ∃ minus, sign.letter = signLetter minus := by
  cases sign with
  | space => exact ⟨false, rfl⟩
  | tab => exact ⟨true, rfl⟩
  | line => exact absurd rfl not_line

/-- **Every text is of one of the three kinds.** -/
theorem bare_or_numeral_or_stray (text : String) :
    Bare text ∨ (∃ minus digits, Numeral text minus digits)
      ∨ ∃ before letter, Stray text before letter := by
  rcases digits_or_stray text.toList with
    ⟨symbols, noLine, letters⟩ | ⟨before, letter, after, noLine, ne_s, ne_t, letters⟩
  · cases symbols with
    | nil => exact .inl (.inl letters)
    | cons sign digits =>
      rw [List.mem_cons, not_or] at noLine
      obtain ⟨minus, isSign⟩ := letter_eq_signLetter (Ne.symm noLine.1)
      rw [List.map_cons, isSign] at letters
      by_cases none : digits = []
      · subst none
        exact .inl (.inr ⟨minus, letters⟩)
      · exact .inr (.inl ⟨minus, digits, letters, none, noLine.2⟩)
  · exact .inr (.inr ⟨before, letter, ⟨after, letters⟩, noLine, ne_s, ne_t⟩)

/-! ## §2. The answer to each kind. -/

variable {text : String} {minus : Bool} {digits before : List Symbol} {letter : Char}

theorem readNumber_of_toList {letters : List Char}
    (spelled : text.toList = signLetter minus :: letters) :
    readNumber text = readDigits text minus letters := by
  unfold readNumber
  rw [spelled]
  cases minus with
  | false => rfl
  | true => rfl

/-- A letter that is no sign stands where the sign should be. -/
theorem readNumber_of_no_sign {after : List Char} (spelled : text.toList = letter :: after)
    (not_space : letter ≠ 's') (not_tab : letter ≠ 't') :
    readNumber text = .error (.badDigit text letter) := by
  unfold readNumber
  rw [spelled]
  split
  · next no_letter => cases no_letter
  · next sign => exact absurd (List.cons.inj sign).1 not_space
  · next sign => exact absurd (List.cons.inj sign).1 not_tab
  · next sign => rw [(List.cons.inj sign).1]

theorem readNumber_of_bare (bare : Bare text) : readNumber text = .error (.noDigits text) := by
  rcases bare with empty | ⟨minus, sign⟩
  · unfold readNumber
    rw [empty]
  · rw [readNumber_of_toList sign]
    rfl

/-- Digits that fit are read as the number that they are with their sign. -/
theorem Numeral.read (h : Numeral text minus digits) (fits : binary digits ≤ maxMagnitude) :
    ∃ n, readNumber text = .ok n ∧ n.toInt = signedBinary minus digits := by
  refine ⟨signed minus (binary digits), ?_, toInt_signed minus fits⟩
  rw [readNumber_of_toList h.letters, readDigits_letters h.ne_nil h.noLine fits]

/-- Digits that do not fit are turned down. -/
theorem Numeral.overflow (h : Numeral text minus digits) (large : maxMagnitude < binary digits) :
    readNumber text = .error (.overflow text) := by
  have some_digit : (digits.map Symbol.letter).isEmpty = false := by
    simpa using h.ne_nil
  have read : magnitude 0 (digits.map Symbol.letter) = .error .overflow :=
    (magnitude_letters digits 0 (Nat.zero_le _) h.noLine).trans (if_neg (Nat.not_le.mpr large))
  rw [readNumber_of_toList h.letters]
  unfold readDigits
  rw [some_digit, read]
  rfl

/-- A letter that is no digit is named, unless the digits in front of it are too large. -/
theorem Stray.read (h : Stray text before letter) :
    readNumber text
      = if binary before.tail ≤ maxMagnitude then .error (.badDigit text letter)
        else .error (.overflow text) := by
  obtain ⟨after, letters⟩ := h.letters
  cases before with
  | nil =>
    have fits : binary ([] : List Symbol).tail ≤ maxMagnitude := Nat.zero_le _
    rw [if_pos fits]
    exact readNumber_of_no_sign letters h.not_space h.not_tab
  | cons sign digits =>
    have noLine := h.noLine
    rw [List.mem_cons, not_or] at noLine
    obtain ⟨minus, isSign⟩ := letter_eq_signLetter (Ne.symm noLine.1)
    rw [List.map_cons, List.cons_append, isSign] at letters
    have some_digit : (digits.map Symbol.letter ++ letter :: after).isEmpty = false := by
      simp
    rw [readNumber_of_toList letters, List.tail_cons]
    unfold readDigits
    rw [some_digit, magnitude_append digits _ 0 (Nat.zero_le _) noLine.2]
    by_cases fits : binary digits ≤ maxMagnitude
    · rw [if_pos (show binaryAfter 0 digits ≤ maxMagnitude from fits), if_pos fits, magnitude,
        bit?_eq_none h.not_space h.not_tab]
      rfl
    · rw [if_neg (show ¬ binaryAfter 0 digits ≤ maxMagnitude from fits), if_neg fits]
      rfl

theorem Spells.numeral {n : Int64} {symbols : List Symbol} (h : Spells n symbols) :
    ∃ minus digits, Numeral (Symbol.letters symbols) minus digits
      ∧ n.toInt = signedBinary minus digits := by
  cases h with
  | @plus digits ne noLine value =>
    exact ⟨false, digits, ⟨String.toList_ofList, ne, noLine⟩, value⟩
  | @minus digits ne noLine value =>
    exact ⟨true, digits, ⟨String.toList_ofList, ne, noLine⟩, value⟩

/-! ## §3. All answers. -/

/-- A magnitude fits if and only if its number, whatever its sign, is a word and not the least. -/
theorem fits_iff (minus : Bool) (digits : List Symbol) :
    binary digits ≤ maxMagnitude
      ↔ Int64.minValue.toInt < signedBinary minus digits
        ∧ signedBinary minus digits ≤ Int64.maxValue.toInt := by
  have max : maxMagnitude = 9223372036854775807 := by decide
  have greatest : Int64.maxValue.toInt = 9223372036854775807 := by decide
  have least : Int64.minValue.toInt = -9223372036854775808 := by decide
  rw [max, greatest, least]
  cases minus with
  | false =>
    show _ ↔ _ < (binary digits : Int) ∧ (binary digits : Int) ≤ _
    omega
  | true =>
    show _ ↔ _ < -(binary digits : Int) ∧ -(binary digits : Int) ≤ _
    omega

/-- **What reading a number answers.**  A text without digits has none; digits with a sign are
read as their value if it is a word and not the least one, and are too large otherwise; in all
other texts the first letter that is neither `s` nor `t` is a bad digit, unless the digits in
front of it are too large already.  So every way to write a number is read back as that number,
unless it is the least. -/
theorem readNumber_answers (text : String) :
    (Bare text → readNumber text = .error (.noDigits text))
    ∧ (∀ minus digits, Numeral text minus digits →
        (Int64.minValue.toInt < signedBinary minus digits
            ∧ signedBinary minus digits ≤ Int64.maxValue.toInt →
          ∃ n, readNumber text = .ok n ∧ n.toInt = signedBinary minus digits)
        ∧ (signedBinary minus digits ≤ Int64.minValue.toInt
            ∨ Int64.maxValue.toInt < signedBinary minus digits →
          readNumber text = .error (.overflow text)))
    ∧ (∀ before letter, Stray text before letter →
        readNumber text
          = if (binary before.tail : Int) ≤ Int64.maxValue.toInt
            then .error (.badDigit text letter)
            else .error (.overflow text))
    ∧ (Bare text ∨ (∃ minus digits, Numeral text minus digits)
        ∨ ∃ before letter, Stray text before letter)
    ∧ ∀ n symbols, Spells n symbols → text = Symbol.letters symbols →
        readNumber text = if n = Int64.minValue then .error (.overflow text) else .ok n := by
  have too_large : ∀ minus digits,
      (signedBinary minus digits ≤ Int64.minValue.toInt
        ∨ Int64.maxValue.toInt < signedBinary minus digits) →
        maxMagnitude < binary digits := by
    intro minus digits outside
    have not_inside := mt (fits_iff minus digits).mp
    omega
  refine ⟨readNumber_of_bare, ?numeral, ?stray, bare_or_numeral_or_stray text, ?written⟩
  case numeral =>
    intro minus digits numeral
    exact ⟨fun inside => numeral.read ((fits_iff minus digits).mpr inside),
      fun outside => numeral.overflow (too_large minus digits outside)⟩
  case stray =>
    intro before letter stray
    rw [stray.read]
    have greatest : Int64.maxValue.toInt = maxMagnitude := by decide
    by_cases fits : binary before.tail ≤ maxMagnitude
    · rw [if_pos fits, if_pos (by omega)]
    · rw [if_neg fits, if_neg (by omega)]
  case written =>
    rintro n symbols spells rfl
    by_cases least : n = Int64.minValue
    · obtain ⟨minus, digits, numeral, value⟩ := spells.numeral
      have low : signedBinary minus digits ≤ Int64.minValue.toInt :=
        Int.le_of_eq (value.symm.trans (congrArg Int64.toInt least))
      rw [if_pos least]
      exact numeral.overflow (too_large minus digits (.inl low))
    · rw [if_neg least]
      exact readNumber_of_spells spells least

/-- Minus five is read behind any number of zeros; here the sign and seventy of them. -/
theorem readNumber_answers_zeros :
    readNumber (Symbol.letters (spelling 70 (-5))) = .ok (-5) :=
  ((readNumber_answers _).2.2.2.2 (-5) (spelling 70 (-5)) (spells_spelling 70 (-5)) rfl).trans
    (if_neg (by decide))

/-- The least word is written with a one and 63 zeros behind its sign, and does not count as a
number of 64 bits. -/
theorem readNumber_least :
    Spells Int64.minValue (.tab :: .tab :: List.replicate 63 .space)
    ∧ readNumber (Symbol.letters (.tab :: .tab :: List.replicate 63 .space))
        = .error (.overflow (Symbol.letters (.tab :: .tab :: List.replicate 63 .space))) := by
  refine ⟨.minus (by simp) (by simp) (by decide), by rfl⟩

end Esolang.Whitespace
