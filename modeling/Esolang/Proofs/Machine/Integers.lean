/-
  Esolang.Proofs.Machine.Integers
  ───────────────────────────────
  **INTEGERS THAT ARE READ.**

  An integer is blanks, a sign or none, and decimal digits, one at least.  `Reading` says
  this as a grammar: which word is read from some bytes, if any, and how many of them are
  consumed.  What a machine prints in decimal, with a blank behind each number, is read
  back as it was.

    • `exists_reading` — the grammar says of all bytes what is read from them,
    • `readInteger_of_reading` — and this is what is read,
    • `exists_numeral` — a word in decimal is a numeral of its value,
    • `readIntegers_written` — words in decimal are read back, and then nothing more,
    • **`readInteger_exact`** — all of it, at any position, and for what `.` prints.
-/
import Esolang.Befunge.Machine
import Esolang.Cow.Machine
import Esolang.Proofs.Text.Encoding
import Esolang.Proofs.Text.Json
import Mathlib.Data.List.Induction
import Mathlib.Data.List.TakeWhile
import Mathlib.Data.Nat.Digits.Defs

namespace Esolang.Machine.Input

open Esolang.Memory.Word (decimal)
open Esolang.Text (isAsciiBlank isAsciiDigit)

/-! ## §1. Numerals. -/

/-- What may stand in front of digits. -/
inductive Sign where
  | none
  | plus
  | minus
  deriving DecidableEq, Repr

/-- The bytes of a sign, one at most. -/
def Sign.bytes : Sign → List UInt8
  | .none => []
  | .plus => ['+'.toUInt8]
  | .minus => ['-'.toUInt8]

/-- Decimal digits, one at least. -/
structure Digits (bytes : List UInt8) : Prop where
  ne_nil : bytes ≠ []
  digit : ∀ b ∈ bytes, isAsciiDigit b = true

/-- The number that decimal digits stand for: the last one counts once, and each one
before it ten times as much as the next. -/
def magnitude (digits : List UInt8) : Nat :=
  Nat.ofDigits 10 (digits.reverse.map fun digit => digit.toNat - '0'.toNat)

/-- The number that digits with a sign stand for. -/
def Sign.number (sign : Sign) (digits : List UInt8) : Int :=
  match sign with
  | .none | .plus => magnitude digits
  | .minus => -(magnitude digits : Int)

/-- The word of 64 bits that has this value, or nothing if no word has it. -/
def IsWord (word : Option Int64) (value : Int) : Prop :=
  ∀ w, word = some w ↔ w.toInt = value

/-- What is read as an integer from the bytes, and how many of them are consumed. -/
inductive Reading (bytes : List UInt8) : Option Int64 → Nat → Prop where
  /-- Blanks, a sign or none, and all digits that follow. -/
  | numeral {blanks digits rest : List UInt8} {sign : Sign} {word : Option Int64}
      (split : bytes = blanks ++ (sign.bytes ++ (digits ++ rest)))
      (blank : ∀ b ∈ blanks, isAsciiBlank b = true) (digits_of : Digits digits)
      (stops : ∀ b ∈ rest.head?, isAsciiDigit b = false)
      (value : IsWord word (sign.number digits)) :
      Reading bytes word (blanks ++ (sign.bytes ++ digits)).length
  /-- All blanks, if no digit follows them, with a sign or without. -/
  | nothing {blanks rest : List UInt8} (split : bytes = blanks ++ rest)
      (blank : ∀ b ∈ blanks, isAsciiBlank b = true)
      (stops : ∀ b ∈ rest.head?, isAsciiBlank b = false)
      (bare : ∀ (sign : Sign) digit more, rest = sign.bytes ++ digit :: more →
        isAsciiDigit digit = false) :
      Reading bytes none blanks.length

/-! ## §2. Values. -/

theorem magnitude_concat (digits : List UInt8) (digit : UInt8) :
    magnitude (digits ++ [digit]) = magnitude digits * 10 + (digit.toNat - 48) := by
  unfold magnitude
  rw [List.reverse_concat, List.map_cons, Nat.ofDigits_cons]
  show digit.toNat - 48 + 10 * _ = _
  omega

/-- The digits are added up from the left. -/
theorem decimalValue_eq (digits : List UInt8) : decimalValue digits = magnitude digits := by
  induction digits using List.reverseRecOn with
  | nil => rfl
  | append_singleton digits digit ih =>
    rw [magnitude_concat, ← ih]
    unfold decimalValue
    rw [List.foldl_concat]

theorem isWord_word? (value : Int) : IsWord (word? value) value := by
  intro w
  have low : Int64.minValue.toInt = -2 ^ 63 := Int64.toInt_minValue
  have high : Int64.maxValue.toInt = 2 ^ 63 - 1 := Int64.toInt_maxValue
  have above := Int64.le_toInt w
  have below := Int64.toInt_lt w
  unfold word?
  rw [low, high]
  by_cases fits : -2 ^ 63 ≤ value ∧ value ≤ 2 ^ 63 - 1
  · have back : (Int64.ofInt value).toInt = value :=
      Int64.toInt_ofInt_of_le fits.1 (by omega)
    rw [if_pos fits, Option.some.injEq, ← Int64.toInt_inj, back]
    exact eq_comm
  · rw [if_neg fits]
    constructor
    · exact nofun
    · intro same
      exact absurd (by omega) fits

theorem IsWord.eq_word? {word : Option Int64} {value : Int} (isWord : IsWord word value) :
    word = word? value := by
  apply Option.ext
  intro w
  exact (isWord w).trans (isWord_word? value w).symm

/-! ## §3. The grammar and the reader. -/

theorem not_blank_of_digit {b : UInt8} (digit : isAsciiDigit b = true) :
    isAsciiBlank b = false := by
  simp only [isAsciiDigit, Bool.and_eq_true, decide_eq_true_eq, UInt8.le_iff_toNat_le] at digit
  simp only [isAsciiBlank, Bool.or_eq_false_iff, beq_eq_false_iff_ne, ne_eq, ← UInt8.toNat_inj]
  have bounds : 48 ≤ b.toNat ∧ b.toNat ≤ 57 := digit
  refine ⟨⟨⟨⟨?_, ?_⟩, ?_⟩, ?_⟩, ?_⟩ <;> simp <;> omega

/-- What stops at once, stops there. -/
theorem dropWhile_of_stops {p : UInt8 → Bool} {rest : List UInt8}
    (stops : ∀ b ∈ rest.head?, p b = false) : rest.dropWhile p = rest := by
  cases rest with
  | nil => rfl
  | cons b rest => simp [stops b (by simp)]

theorem takeWhile_of_stops {p : UInt8 → Bool} {rest : List UInt8}
    (stops : ∀ b ∈ rest.head?, p b = false) : rest.takeWhile p = [] := by
  cases rest with
  | nil => rfl
  | cons b rest => simp [stops b (by simp)]

/-- Where a run of bytes is dropped, it stops. -/
theorem stops_dropWhile (p : UInt8 → Bool) (bytes : List UInt8) :
    ∀ b ∈ (bytes.dropWhile p).head?, p b = false := by
  intro b head
  have stops := List.head?_dropWhile_not p bytes
  rw [Option.mem_def.mp head] at stops
  exact stops

/-- One sign is taken off the front, if there is one. -/
theorem exists_takeSign (bytes : List UInt8) :
    ∃ (sign : Sign) (body : List UInt8), bytes = sign.bytes ++ body
      ∧ takeSign bytes = (decide (sign = .minus), body)
      ∧ ∀ (sign' : Sign) digit more, bytes = sign'.bytes ++ digit :: more →
          isAsciiDigit digit = true → body = digit :: more := by
  unfold takeSign
  split
  · next rest =>
    refine ⟨.minus, rest, rfl, rfl, ?_⟩
    intro sign' digit more split isDigit
    cases sign' with
    | none =>
      cases split
      exact absurd isDigit (by decide)
    | plus => cases split
    | minus =>
      cases split
      rfl
  · next rest =>
    refine ⟨.plus, rest, rfl, rfl, ?_⟩
    intro sign' digit more split isDigit
    cases sign' with
    | none =>
      cases split
      exact absurd isDigit (by decide)
    | plus =>
      cases split
      rfl
    | minus => cases split
  · next not_minus not_plus =>
    refine ⟨.none, bytes, rfl, rfl, ?_⟩
    intro sign' digit more split isDigit
    cases sign' with
    | none => exact split
    | plus => exact absurd split (not_plus _)
    | minus => exact absurd split (not_minus _)

/-- **The grammar says of all bytes what is read from them.** -/
theorem exists_reading (bytes : List UInt8) : ∃ word n, Reading bytes word n := by
  have parts : bytes = bytes.takeWhile isAsciiBlank ++ bytes.dropWhile isAsciiBlank :=
    List.takeWhile_append_dropWhile.symm
  have blank : ∀ b ∈ bytes.takeWhile isAsciiBlank, isAsciiBlank b = true := by
    intro b mem
    exact List.mem_takeWhile_imp mem
  obtain ⟨sign, body, signed, -, only⟩ := exists_takeSign (bytes.dropWhile isAsciiBlank)
  have bodyParts : body = body.takeWhile isAsciiDigit ++ body.dropWhile isAsciiDigit :=
    List.takeWhile_append_dropWhile.symm
  by_cases none_follows : body.takeWhile isAsciiDigit = []
  · refine ⟨none, _, .nothing parts blank (stops_dropWhile _ _) ?_⟩
    intro sign' digit more split
    by_contra isDigit
    rw [only sign' digit more split (by simpa using isDigit)] at none_follows
    simp [isDigit] at none_follows
  · rw [signed, bodyParts] at parts
    refine ⟨word? _, _, .numeral parts blank ⟨none_follows, ?_⟩ (stops_dropWhile _ _)
      (isWord_word? _)⟩
    intro b mem
    exact List.mem_takeWhile_imp mem

/-- Digits with a sign begin with no blank, and the sign is the one that is taken off. -/
theorem takeSign_numeral (sign : Sign) {digits : List UInt8} (isDigits : Digits digits)
    (rest : List UInt8) :
    takeSign (sign.bytes ++ (digits ++ rest)) = (decide (sign = .minus), digits ++ rest)
      ∧ ∀ b ∈ (sign.bytes ++ (digits ++ rest)).head?, isAsciiBlank b = false := by
  obtain ⟨first, others, rfl⟩ := List.exists_cons_of_ne_nil isDigits.ne_nil
  have digit : isAsciiDigit first = true := isDigits.digit first List.mem_cons_self
  cases sign with
  | none =>
    refine ⟨?_, ?_⟩
    · -- A digit is neither of the two signs.
      show takeSign (first :: (others ++ rest)) = _
      unfold takeSign
      split
      · next split =>
        cases split
        exact absurd digit (by decide)
      · next split =>
        cases split
        exact absurd digit (by decide)
      · rfl
    · intro b head
      cases head
      exact not_blank_of_digit digit
  | plus =>
    refine ⟨rfl, ?_⟩
    intro b head
    cases head
    decide
  | minus =>
    refine ⟨rfl, ?_⟩
    intro b head
    cases head
    decide

/-- **What the grammar says is what is read.** -/
theorem readInteger_of_reading {bytes : List UInt8} {word : Option Int64} {n : Nat}
    (reading : Reading bytes word n) :
    (⟨bytes⟩ : Input).readInteger = (word, ⟨bytes.drop n⟩) := by
  cases reading with
  | @numeral blanks digits rest sign _ split blank isDigits stops value =>
    obtain ⟨signed, first⟩ := takeSign_numeral sign isDigits rest
    have start : bytes.dropWhile isAsciiBlank = sign.bytes ++ (digits ++ rest) := by
      rw [split, List.dropWhile_append_of_pos blank, dropWhile_of_stops first]
    have taken : (digits ++ rest).takeWhile isAsciiDigit = digits := by
      rw [List.takeWhile_append_of_pos isDigits.digit, takeWhile_of_stops stops, List.append_nil]
    have left : (digits ++ rest).dropWhile isAsciiDigit = rest := by
      rw [List.dropWhile_append_of_pos isDigits.digit, dropWhile_of_stops stops]
    have behind : bytes.drop (blanks ++ (sign.bytes ++ digits)).length = rest := by
      have whole : bytes = blanks ++ (sign.bytes ++ digits) ++ rest := by simp [split]
      rw [whole, List.drop_left]
    have number : (if decide (sign = .minus) = true then -((magnitude digits : Nat) : Int)
        else (magnitude digits : Int)) = sign.number digits := by
      cases sign <;> rfl
    have some_digit : digits.isEmpty = false := by simpa using isDigits.ne_nil
    simp only [readInteger, start, signed, taken, left, some_digit, decimalValue_eq, number]
    rw [behind, value.eq_word?]
    rfl
  | @nothing blanks rest split blank stops bare =>
    have start : bytes.dropWhile isAsciiBlank = rest := by
      rw [split, List.dropWhile_append_of_pos blank, dropWhile_of_stops stops]
    have behind : bytes.drop blanks.length = rest := by rw [split, List.drop_left]
    obtain ⟨sign, body, signed, taken, -⟩ := exists_takeSign rest
    have none_taken : body.takeWhile isAsciiDigit = [] := by
      cases body with
      | nil => rfl
      | cons digit more => simp [bare sign digit more signed]
    simp only [readInteger, start, taken, none_taken]
    rw [behind]
    rfl

/-! ## §4. Printing and reading back. -/

/-- The words in decimal, each with the separator behind it. -/
def written (separator : Char) (values : List Int64) : String :=
  String.join (values.map fun value => decimal value ++ separator.toString)

/-- What is read when an integer is asked for so many times. -/
def readIntegers : Nat → Input → List (Option Int64)
  | 0, _ => []
  | n + 1, input => input.readInteger.1 :: readIntegers n input.readInteger.2

/-- The byte of a digit is one, and it stands for the digit. -/
theorem digit_digitChar : ∀ d < 10, isAsciiDigit d.digitChar.toUInt8 = true
    ∧ d.digitChar.toUInt8.toNat - 48 = d ∧ d.digitChar.toNat < 128 := by
  decide

/-- The digits of a number in decimal stand for it. -/
theorem magnitude_toDigits (n : Nat) : magnitude ((Nat.toDigits 10 n).map Char.toUInt8) = n := by
  -- Along the digits from the last: the others are those of `n / 10`.
  induction n using Nat.strongRecOn with
  | _ n ih =>
    obtain ⟨-, value, -⟩ := digit_digitChar (n % 10) (Nat.mod_lt n (by decide))
    rw [Nat.toDigits_eq_if (by decide)]
    split
    · next small =>
      rw [Nat.mod_eq_of_lt small] at value
      show magnitude ([] ++ [n.digitChar.toUInt8]) = n
      rw [magnitude_concat, value]
      exact Nat.zero_add n
    · next large =>
      rw [List.map_append, List.map_singleton, magnitude_concat, ih (n / 10) (by omega), value]
      omega

theorem digits_toDigits (n : Nat) : Digits ((Nat.toDigits 10 n).map Char.toUInt8) where
  ne_nil := by simp [Nat.toDigits_ne_nil]
  digit := by
    intro b mem
    obtain ⟨c, member, rfl⟩ := List.mem_map.mp mem
    have isDigit := Nat.isDigit_of_mem_toDigits (by decide) (by decide) member
    rw [Char.isDigit_iff_toNat] at isDigit
    have zero : '0'.toNat = 48 := rfl
    have nine : '9'.toNat = 57 := rfl
    have code : c.toUInt8.toNat = c.toNat := by
      show c.val.toUInt8.toNat = c.toNat
      rw [UInt32.toNat_toUInt8]
      exact Nat.mod_eq_of_lt (show c.toNat < 2 ^ 8 by omega)
    simp only [isAsciiDigit, Bool.and_eq_true, decide_eq_true_eq, UInt8.le_iff_toNat_le, code]
    show 48 ≤ c.toNat ∧ c.toNat ≤ 57
    omega

/-- A word in decimal is written in ASCII. -/
theorem ascii_decimal (value : Int64) : ∀ c ∈ (decimal value).toList, c.toNat < 128 := by
  have digits : ∀ n, ∀ c ∈ Nat.toDigits 10 n, c.toNat < 128 := by
    intro n c member
    have isDigit := Nat.isDigit_of_mem_toDigits (by decide) (by decide) member
    rw [Char.isDigit_iff_toNat] at isDigit
    have nine : '9'.toNat = 57 := rfl
    omega
  intro c mem
  rcases Text.Json.toList_toString value.toInt with ⟨n, -, spelled⟩ | ⟨n, -, spelled⟩
  · rw [decimal, spelled] at mem
    exact digits n c mem
  · rw [decimal, spelled, List.mem_cons] at mem
    rcases mem with minus | mem
    · rw [minus]
      decide
    · exact digits n c mem

/-- **A word in decimal is a numeral of its value.** -/
theorem exists_numeral (value : Int64) :
    ∃ (sign : Sign) (digits : List UInt8), Digits digits
      ∧ (decimal value).toUTF8.toList = sign.bytes ++ digits
      ∧ sign.number digits = value.toInt := by
  rw [Text.toList_toUTF8_of_ascii (ascii_decimal value)]
  rcases Text.Json.toList_toString value.toInt with ⟨n, eq, spelled⟩ | ⟨n, eq, spelled⟩
  · refine ⟨.none, _, digits_toDigits n, ?_, ?_⟩
    · rw [decimal, spelled]
      rfl
    · rw [eq]
      exact congrArg Int.ofNat (magnitude_toDigits n)
  · refine ⟨.minus, _, digits_toDigits n, ?_, ?_⟩
    · rw [decimal, spelled]
      rfl
    · rw [eq]
      show -(magnitude _ : Int) = -(n : Int)
      rw [magnitude_toDigits]

/-- A word that has a value is the only one. -/
theorem isWord_toInt (value : Int64) : IsWord (some value) value.toInt := by
  intro w
  rw [Option.some.injEq, Int64.toInt_inj]
  exact eq_comm

/-- A word in decimal is read back, behind blanks and up to a blank. -/
theorem readInteger_decimal {blanks : List UInt8} (blank : ∀ b ∈ blanks, isAsciiBlank b = true)
    (value : Int64) {separator : UInt8} (separates : isAsciiBlank separator = true)
    (rest : List UInt8) :
    (⟨blanks ++ ((decimal value).toUTF8.toList ++ separator :: rest)⟩ : Input).readInteger
      = (some value, ⟨separator :: rest⟩) := by
  obtain ⟨sign, digits, isDigits, spelled, number⟩ := exists_numeral value
  have stops : ∀ b ∈ (separator :: rest).head?, isAsciiDigit b = false := by
    intro b head
    cases head
    by_contra digit
    rw [not_blank_of_digit (by simpa using digit)] at separates
    cases separates
  have word : IsWord (some value) (sign.number digits) := by
    rw [number]
    exact isWord_toInt value
  have split : blanks ++ ((decimal value).toUTF8.toList ++ separator :: rest)
      = blanks ++ (sign.bytes ++ (digits ++ separator :: rest)) := by
    rw [spelled, List.append_assoc]
  have whole : blanks ++ ((decimal value).toUTF8.toList ++ separator :: rest)
      = blanks ++ (sign.bytes ++ digits) ++ separator :: rest := by
    rw [spelled, List.append_assoc blanks]
  rw [readInteger_of_reading (.numeral split blank isDigits stops word), whole, List.drop_left]

/-- Where nothing but blanks is left, nothing is read. -/
theorem readIntegers_blank (n : Nat) :
    ∀ {blanks : List UInt8}, (∀ b ∈ blanks, isAsciiBlank b = true) →
      readIntegers n ⟨blanks⟩ = List.replicate n none := by
  induction n with
  | zero =>
    intro blanks blank
    rfl
  | succ n ih =>
    intro blanks blank
    have reading : Reading blanks none blanks.length := by
      refine .nothing (List.append_nil blanks).symm blank (by simp) ?_
      intro sign digit more split
      cases sign <;> cases split
    show (⟨blanks⟩ : Input).readInteger.1 :: readIntegers n (⟨blanks⟩ : Input).readInteger.2 = _
    rw [readInteger_of_reading reading, List.drop_length, ih (by simp), List.replicate_succ]

theorem toList_written_cons (separator : Char) (value : Int64) (values : List Int64) :
    (written separator (value :: values)).toList
      = (decimal value).toList ++ separator :: (written separator values).toList := by
  simp [written, String.toList_join]

/-- **Words in decimal are read back, and then nothing more.** -/
theorem readIntegers_written {separator : Char} (ascii : separator.toNat < 128)
    (separates : isAsciiBlank separator.toUInt8 = true) (values : List Int64) (more : Nat) :
    ∀ blanks : List UInt8, (∀ b ∈ blanks, isAsciiBlank b = true) →
      readIntegers (values.length + more) ⟨blanks ++ (written separator values).toUTF8.toList⟩
        = values.map some ++ List.replicate more none := by
  induction values with
  | nil =>
    intro blanks blank
    have nothing : (written separator []).toUTF8.toList = [] := by
      rw [Text.toList_toUTF8]
      rfl
    rw [nothing, List.append_nil, List.length_nil, Nat.zero_add]
    exact readIntegers_blank more blank
  | cons value values ih =>
    intro blanks blank
    have bytes : (written separator (value :: values)).toUTF8.toList
        = (decimal value).toUTF8.toList
          ++ separator.toUInt8 :: (written separator values).toUTF8.toList := by
      rw [Text.toList_toUTF8, Text.toList_toUTF8, Text.toList_toUTF8, toList_written_cons,
        List.flatMap_append, List.flatMap_cons, Text.utf8EncodeChar_of_ascii ascii]
      rfl
    have count : (value :: values).length + more = (values.length + more) + 1 := by
      rw [List.length_cons]
      omega
    rw [count, bytes]
    show (Input.readInteger _).1 :: readIntegers _ (Input.readInteger _).2 = _
    rw [readInteger_decimal blank value separates]
    -- The separator is a blank before the next number.
    have next := ih [separator.toUInt8] (by simpa using separates)
    rw [List.map_cons, List.cons_append, ← next]
    rfl

theorem readIntegers_ofText {separator : Char} (ascii : separator.toNat < 128)
    (separates : isAsciiBlank separator.toUInt8 = true) (values : List Int64) (more : Nat) :
    readIntegers (values.length + more) (.ofText (written separator values))
      = values.map some ++ List.replicate more none :=
  readIntegers_written ascii separates values more [] (by simp)

end Esolang.Machine.Input

namespace Esolang

open Esolang.Machine.Input (written)
open Esolang.Memory.Word (decimal)

/-! ## §5. What the languages print. -/

/-- Pushes each of the values and executes `.` for it. -/
def Befunge.printAll (draws : Draws) (values : List Int64) (s : State) : Except Fault State :=
  values.foldlM (fun s value => perform draws .printInt '.' (s.push value)) s

/-- `.` prints its value with a space behind it and leaves all else as it was. -/
theorem Befunge.printAll_eq (draws : Draws) (values : List Int64) :
    ∀ s : State, printAll draws values s
      = .ok { s with output := s.output ++ written ' ' values } := by
  induction values with
  | nil =>
    intro s
    show Except.ok s = .ok { s with output := s.output ++ "" }
    rw [String.append_empty]
  | cons value values ih =>
    intro s
    have line : written ' ' (value :: values) = decimal value ++ " " ++ written ' ' values := by
      apply String.toList_inj.mp
      simp [Machine.Input.toList_written_cons]
    show printAll draws values (s.print (decimal value ++ " ")) = _
    rw [ih, line]
    show Except.ok { s with output := s.output ++ (decimal value ++ " ") ++ written ' ' values } = _
    rw [String.append_assoc]

/-- Writes each of the bytes to the cell and prints the cell in decimal. -/
def Cow.printAll (cells : List UInt8) (s : State) : State :=
  cells.foldl (fun s cell => { s with tape := s.tape.write cell }.printInt) s

/-- A cell is printed with a newline behind it. -/
theorem Cow.output_printAll (cells : List UInt8) :
    ∀ s : State, (printAll cells s).output
      = s.output ++ written '\n' (cells.map fun cell => Int64.ofNat cell.toNat) := by
  induction cells with
  | nil =>
    intro s
    show s.output = s.output ++ ""
    rw [String.append_empty]
  | cons cell cells ih =>
    intro s
    have small := cell.toNat_lt
    have value : (Int64.ofNat cell.toNat).toInt = cell.toNat :=
      Int64.toInt_ofNat_of_lt (by omega)
    have line : written '\n' ((cell :: cells).map fun cell => Int64.ofNat cell.toNat)
        = toString cell.toNat ++ "\n"
          ++ written '\n' (cells.map fun cell => Int64.ofNat cell.toNat) := by
      apply String.toList_inj.mp
      rw [List.map_cons, Machine.Input.toList_written_cons, decimal, value]
      show (toString cell.toNat).toList ++ _ = _
      simp
    show (printAll cells (State.printInt { s with tape := s.tape.write cell })).output = _
    rw [ih, line]
    show s.output ++ toString cell.toNat ++ "\n" ++ _ = _
    simp only [String.append_assoc]

/-! ## §6. Reading at a position. -/

/-- The input whose first `position` bytes have been read. -/
def Machine.Input.behind (bytes : List UInt8) (position : Nat) : Machine.Input :=
  ⟨bytes.drop position⟩

/-- **Integers are read as the grammar says**, at any position; and what `.` prints for some
words, or the same with newlines, is read back as these words and then as nothing. -/
theorem readInteger_exact :
    (∀ (bytes : List UInt8) (position : Nat),
      (∃ word n, Machine.Input.Reading (bytes.drop position) word n)
        ∧ ∀ word n, Machine.Input.Reading (bytes.drop position) word n →
            (Machine.Input.behind bytes position).readInteger
              = (word, .behind bytes (position + n)))
      ∧ (∀ (draws : Befunge.Draws) (values : List Int64) (s : Befunge.State), s.output = "" →
          ∃ s', Befunge.printAll draws values s = .ok s'
            ∧ ∀ more, Machine.Input.readIntegers (values.length + more) (.ofText s'.output)
                = values.map some ++ List.replicate more none)
      ∧ (∀ (values : List Int64) (more : Nat),
          Machine.Input.readIntegers (values.length + more) (.ofText (written '\n' values))
            = values.map some ++ List.replicate more none)
      ∧ ∀ (cells : List UInt8) (s : Cow.State), s.output = "" →
          (Cow.printAll cells s).output
            = written '\n' (cells.map fun cell => Int64.ofNat cell.toNat) := by
  refine ⟨?_, ?_, ?_, ?_⟩
  · intro bytes position
    refine ⟨Machine.Input.exists_reading _, ?_⟩
    intro word n reading
    show Machine.Input.readInteger ⟨bytes.drop position⟩ = (word, ⟨bytes.drop (position + n)⟩)
    rw [Machine.Input.readInteger_of_reading reading, List.drop_drop]
  · intro draws values s fresh
    refine ⟨_, Befunge.printAll_eq draws values s, ?_⟩
    intro more
    show Machine.Input.readIntegers _ (.ofText (s.output ++ written ' ' values)) = _
    rw [fresh, String.empty_append]
    exact Machine.Input.readIntegers_ofText (by decide) (by decide) values more
  · intro values more
    exact Machine.Input.readIntegers_ofText (by decide) (by decide) values more
  · intro cells s fresh
    rw [Cow.output_printAll, fresh, String.empty_append]

/-- Behind the first byte stand a blank, a tab and a negative number with leading zeros, up
to a second sign.  The least word is printed and read back with a number behind it. -/
theorem readInteger_exact_signed :
    (Machine.Input.behind "x \t-007+1".toUTF8.toList 1).readInteger
        = (some (-7), .behind "x \t-007+1".toUTF8.toList 7)
      ∧ (Befunge.State.initial "@" ⟨[]⟩).output = ""
      ∧ ∃ s', Befunge.printAll (.seeded 0) [-9223372036854775808, 5] (.initial "@" ⟨[]⟩) = .ok s'
        ∧ Machine.Input.readIntegers 3 (.ofText s'.output)
            = [some (-9223372036854775808), some 5, none] := by
  have bytes : "x \t-007+1".toUTF8.toList = [120, 32, 9, 45, 48, 48, 55, 43, 49] := by
    decide +kernel
  have value : Machine.Input.IsWord (some (-7)) (-7) := Machine.Input.isWord_toInt (-7)
  have reading : Machine.Input.Reading ("x \t-007+1".toUTF8.toList.drop 1) (some (-7)) 6 := by
    rw [bytes]
    have blank : ∀ b ∈ [32, 9], Text.isAsciiBlank b = true := List.all_eq_true.mp rfl
    have digits : Machine.Input.Digits [48, 48, 55] := ⟨by decide, List.all_eq_true.mp rfl⟩
    refine @Machine.Input.Reading.numeral _ [32, 9] _ [43, 49] .minus _ rfl blank digits ?_ value
    intro b head
    cases head
    rfl
  obtain ⟨s', printed, read⟩ :=
    readInteger_exact.2.1 (.seeded 0) [-9223372036854775808, 5] (.initial "@" ⟨[]⟩) rfl
  exact ⟨(readInteger_exact.1 _ 1).2 _ _ reading, rfl, s', printed, read 1⟩

end Esolang
