/-
  Esolang.Proofs.Machine.Characters
  ─────────────────────────────────
  **CHARACTERS THAT ARE READ.**

  How many bytes a character takes is judged by the first of them, and only then it is seen
  whether they are UTF-8.  `Taken` says what comes of it: at the bytes of a character this
  character is read, and all else is the replacement.  A reader can begin at any byte, since
  the readers of bytes and of integers do not mind where characters begin.

    • `claimedSize_encode` — the first byte of a character claims what the character takes,
    • `exists_taken` — whatever bytes there are, one to four of them make a character,
    • `readChars_encode` — the characters of a text are read back, and then nothing more,
    • `exists_behind` — readers of all kinds go forward, and not beyond the end,
    • **`readChar_exact`** — all of it, at any position.
-/
import Esolang.Proofs.Machine.Integers
import Esolang.Source.Lines

namespace Esolang.Machine.Input

open Esolang.Source (byteSize)

/-! ## §1. Characters in bytes. -/

/-- What is read as a character from the bytes, and how many of them are consumed. -/
inductive Taken (bytes : List UInt8) : Char → Nat → Prop where
  /-- The bytes of a character, whatever follows them. -/
  | encoded {c : Char} {rest : List UInt8} (split : bytes = String.utf8EncodeChar c ++ rest) :
      Taken bytes c c.utf8Size
  /-- What the first byte claims, as far as it is there, if that is not UTF-8. -/
  | broken {first : UInt8} (head : bytes.head? = some first)
      (invalid : ¬ (bytes.take (claimedSize first)).toByteArray.IsValidUTF8) :
      Taken bytes replacement (min (claimedSize first) bytes.length)

/-- What a byte claims, by its value. -/
theorem claimedSize_ofNat {n : Nat} (byte : n < 256) :
    claimedSize (UInt8.ofNat n) =
      if n < 128 then 1 else if n < 192 then 1 else if n < 224 then 2
      else if n < 240 then 3 else if n < 248 then 4 else 1 := by
  have value : (UInt8.ofNat n).toNat = n := UInt8.toNat_ofNat_of_lt' byte
  simp only [claimedSize, UInt8.lt_iff_toNat_lt, value]
  rfl

/-- **The first byte of a character claims what the character takes.** -/
theorem claimedSize_encode (c : Char) :
    ∃ first rest, String.utf8EncodeChar c = first :: rest ∧ claimedSize first = c.utf8Size := by
  rw [← String.length_utf8EncodeChar]
  simp only [String.utf8EncodeChar]
  -- One case for each number of bytes; no first byte lies from 128 to 191.
  split
  · refine ⟨_, _, rfl, ?_⟩
    rw [claimedSize_ofNat (by omega), if_pos (by omega)]
    rfl
  · split
    · refine ⟨_, _, rfl, ?_⟩
      rw [claimedSize_ofNat (by omega), if_neg (by omega), if_neg (by omega), if_pos (by omega)]
      rfl
    · split
      · refine ⟨_, _, rfl, ?_⟩
        rw [claimedSize_ofNat (by omega), if_neg (by omega), if_neg (by omega), if_neg (by omega),
          if_pos (by omega)]
        rfl
      · refine ⟨_, _, rfl, ?_⟩
        rw [claimedSize_ofNat (by omega), if_neg (by omega), if_neg (by omega), if_neg (by omega),
          if_neg (by omega), if_pos (by omega)]
        rfl

/-- A byte claims one to four bytes. -/
theorem claimedSize_bounds (first : UInt8) : 1 ≤ claimedSize first ∧ claimedSize first ≤ 4 := by
  unfold claimedSize
  repeat' split
  all_goals decide

/-! ## §2. One character. -/

/-- A character is decoded from its bytes. -/
theorem decode_encode (c : Char) : decode (String.utf8EncodeChar c) = c := by
  have decoded := ByteArray.utf8DecodeChar?_utf8EncodeChar_append (b := .empty) (c := c)
  rw [ByteArray.append_empty] at decoded
  rw [decode, decoded]
  rfl

/-- Bytes in UTF-8 that are some bytes begin with a character. -/
theorem exists_encode {bytes : List UInt8} (valid : bytes.toByteArray.IsValidUTF8)
    (some_left : bytes ≠ []) : ∃ c rest, bytes = String.utf8EncodeChar c ++ rest := by
  obtain ⟨text, eq⟩ := valid
  have listed : bytes = text.flatMap String.utf8EncodeChar := by
    have data := congrArg (fun array => array.data.toList) eq
    simpa [List.utf8Encode, List.data_toByteArray] using data
  cases text with
  | nil => exact absurd listed some_left
  | cons c text => exact ⟨c, _, listed⟩

/-- Bytes from which a character is decoded, and that are no more than their first byte
claims, are the bytes of this character. -/
theorem eq_encode_of_decoded {bytes : List UInt8} {first : UInt8} {c : Char}
    (head : bytes.head? = some first) (few : bytes.length ≤ claimedSize first)
    (decoded : bytes.toByteArray.utf8DecodeChar? 0 = some c) :
    bytes = String.utf8EncodeChar c := by
  obtain ⟨rest, eq⟩ := ByteArray.exists_of_utf8DecodeChar?_eq_some decoded
  have listed : bytes = String.utf8EncodeChar c ++ rest.data.toList := by
    have data := congrArg (fun array => array.data.toList) eq
    simpa [List.data_toByteArray, ByteArray.data_append] using data
  -- The first byte is that of the character, so it claims no more than the character takes.
  obtain ⟨first', more, encoded, claims⟩ := claimedSize_encode c
  rw [listed, encoded] at head
  cases head
  have length := congrArg List.length listed
  rw [List.length_append, String.length_utf8EncodeChar] at length
  have nothing : rest.data.toList = [] := List.eq_nil_of_length_eq_zero (by omega)
  rw [listed, nothing, List.append_nil]

/-- The bytes of a character are UTF-8. -/
theorem isValidUTF8_encode (c : Char) : (String.utf8EncodeChar c).toByteArray.IsValidUTF8 :=
  ⟨[c], by simp [List.utf8Encode]⟩

/-- What is not UTF-8 is decoded as the replacement. -/
theorem decode_of_invalid {bytes : List UInt8} {first : UInt8} (head : bytes.head? = some first)
    (few : bytes.length ≤ claimedSize first) (invalid : ¬ bytes.toByteArray.IsValidUTF8) :
    decode bytes = replacement := by
  rw [decode]
  cases decoded : bytes.toByteArray.utf8DecodeChar? 0 with
  | none => rfl
  | some c =>
    refine absurd ?_ invalid
    rw [eq_encode_of_decoded head few decoded]
    exact isValidUTF8_encode c

/-- **A character is read from its bytes.** -/
theorem readChar_encode (c : Char) (rest : List UInt8) :
    (⟨String.utf8EncodeChar c ++ rest⟩ : Input).readChar = (some c, ⟨rest⟩) := by
  obtain ⟨first, more, encoded, claims⟩ := claimedSize_encode c
  have length : (String.utf8EncodeChar c).length = claimedSize first := by
    rw [String.length_utf8EncodeChar, claims]
  rw [readChar]
  split
  · next nothing => simp [encoded] at nothing
  · next first' more' some_left =>
    have same : first' = first := by
      simp only [encoded, List.cons_append, List.cons.injEq] at some_left
      exact some_left.1.symm
    simp only [same, ← length, List.take_left, List.drop_left, decode_encode]

/-- What is read as a character, where a grammar says so. -/
theorem readChar_of_taken {bytes : List UInt8} {c : Char} {n : Nat} (taken : Taken bytes c n) :
    (⟨bytes⟩ : Input).readChar = (some c, ⟨bytes.drop n⟩) := by
  cases taken with
  | encoded split =>
    rw [split, readChar_encode, ← String.length_utf8EncodeChar, List.drop_left]
  | @broken first head invalid =>
    obtain ⟨more, rfl⟩ := List.head?_eq_some_iff.mp head
    have few : ((first :: more).take (claimedSize first)).length ≤ claimedSize first :=
      List.length_take_le _ _
    have head' : ((first :: more).take (claimedSize first)).head? = some first := by
      have one := (claimedSize_bounds first).1
      rw [List.head?_take, if_neg (by omega)]
      rfl
    show (some (decode _), (⟨(first :: more).drop (claimedSize first)⟩ : Input)) = _
    rw [decode_of_invalid head' few invalid, ← List.drop_eq_drop_min]

/-- **Whatever bytes there are, some of them make a character.** -/
theorem exists_taken {bytes : List UInt8} (some_left : bytes ≠ []) :
    ∃ c n, Taken bytes c n := by
  obtain ⟨first, more, rfl⟩ := List.exists_cons_of_ne_nil some_left
  by_cases valid : ((first :: more).take (claimedSize first)).toByteArray.IsValidUTF8
  · have one := (claimedSize_bounds first).1
    have some_taken : (first :: more).take (claimedSize first) ≠ [] := by
      simp [List.take_eq_nil_iff]
      omega
    obtain ⟨c, rest, eq⟩ := exists_encode valid some_taken
    have split : first :: more
        = String.utf8EncodeChar c ++ (rest ++ (first :: more).drop (claimedSize first)) := by
      rw [← List.append_assoc, ← eq, List.take_append_drop]
    exact ⟨c, _, .encoded split⟩
  · exact ⟨_, _, .broken rfl valid⟩

/-- One to four bytes make a character, and no more than there are. -/
theorem Taken.bounds {bytes : List UInt8} {c : Char} {n : Nat} (taken : Taken bytes c n) :
    1 ≤ n ∧ n ≤ 4 ∧ n ≤ bytes.length := by
  cases taken with
  | encoded split =>
    refine ⟨c.utf8Size_pos, c.utf8Size_le_four, ?_⟩
    rw [split, List.length_append, String.length_utf8EncodeChar]
    omega
  | @broken first head invalid =>
    obtain ⟨more, rfl⟩ := List.head?_eq_some_iff.mp head
    obtain ⟨one, four⟩ := claimedSize_bounds first
    rw [List.length_cons]
    omega

/-- A character stands for its bytes, and the replacement for bytes that are not UTF-8. -/
theorem Taken.eq_or {bytes : List UInt8} {c : Char} {n : Nat} (taken : Taken bytes c n) :
    bytes.take n = String.utf8EncodeChar c
      ∨ c = replacement ∧ ¬ (bytes.take n).toByteArray.IsValidUTF8 := by
  cases taken with
  | encoded split =>
    left
    rw [split, ← String.length_utf8EncodeChar, List.take_left]
  | broken head invalid =>
    right
    rw [← List.take_eq_take_min]
    exact ⟨rfl, invalid⟩

/-! ## §3. All characters of a text. -/

/-- Reads so many characters. -/
def readChars : Nat → Input → List (Option Char)
  | 0, _ => []
  | n + 1, input => input.readChar.1 :: readChars n input.readChar.2

/-- At the end nothing is read, as often as one tries. -/
theorem readChars_end (n : Nat) : readChars n ⟨[]⟩ = List.replicate n none := by
  induction n with
  | zero => rfl
  | succ n ih =>
    show none :: readChars n ⟨[]⟩ = _
    rw [ih, List.replicate_succ]

/-- **The characters of a text are read back, and then nothing more.** -/
theorem readChars_encode (text : List Char) (more : Nat) :
    readChars (text.length + more) ⟨text.flatMap String.utf8EncodeChar⟩
      = text.map some ++ List.replicate more none := by
  induction text with
  | nil =>
    rw [List.length_nil, Nat.zero_add]
    exact readChars_end more
  | cons c text ih =>
    have count : (c :: text).length + more = (text.length + more) + 1 := by
      rw [List.length_cons]
      omega
    rw [count, readChars, List.flatMap_cons, readChar_encode, ih]
    rfl

/-- The bytes of a text are as many as its characters take. -/
theorem length_encode (text : List Char) :
    (text.flatMap String.utf8EncodeChar).length = byteSize text := by
  induction text with
  | nil => rfl
  | cons c text ih =>
    rw [List.flatMap_cons, List.length_append, ih, String.length_utf8EncodeChar,
      Source.byteSize_cons]

/-- Where a character begins, the input is the bytes of those that follow. -/
theorem behind_toUTF8 {text : String} {before after : List Char}
    (cut : text.toList = before ++ after) :
    behind text.toUTF8.toList (byteSize before) = ⟨after.flatMap String.utf8EncodeChar⟩ := by
  rw [behind, Text.toList_toUTF8, cut, List.flatMap_append, ← length_encode, List.drop_left]

/-! ## §4. Readers of all kinds. -/

/-- The three ways to read. -/
inductive Reader where
  | byte
  | char
  | integer
  deriving DecidableEq, Repr

/-- What a reader leaves of the input. -/
def Reader.read : Reader → Input → Input
  | .byte, input => input.readByte.2
  | .char, input => input.readChar.2
  | .integer, input => input.readInteger.2

/-- What readers leave of the input, one behind the other. -/
def readAll (readers : List Reader) (input : Input) : Input :=
  readers.foldl (fun input reader => reader.read input) input

/-- Every reader leaves a suffix. -/
theorem suffix_read (reader : Reader) (input : Input) : (reader.read input).rest <:+ input.rest := by
  cases reader with
  | byte => exact suffix_readByte input
  | char => exact suffix_readChar input
  | integer => exact suffix_readInteger input

/-- And so do many of them. -/
theorem suffix_readAll (readers : List Reader) (input : Input) :
    (readAll readers input).rest <:+ input.rest := by
  induction readers generalizing input with
  | nil => exact List.suffix_refl _
  | cons reader readers ih => exact (ih (reader.read input)).trans (suffix_read reader input)

/-- **Readers go forward, and not beyond the end.** -/
theorem exists_behind {bytes : List UInt8} {start : Nat} (inside : start ≤ bytes.length)
    (readers : List Reader) :
    ∃ position, start ≤ position ∧ position ≤ bytes.length
      ∧ readAll readers (behind bytes start) = behind bytes position := by
  obtain ⟨read, split⟩ := suffix_readAll readers (behind bytes start)
  have length := congrArg List.length split
  simp only [behind, List.length_append, List.length_drop] at length
  refine ⟨start + read.length, by omega, by omega, ?_⟩
  have dropped : (readAll readers (behind bytes start)).rest
      = bytes.drop (start + read.length) := by
    rw [← List.drop_drop]
    show _ = (behind bytes start).rest.drop read.length
    rw [← split, List.drop_left]
  exact congrArg Input.mk dropped

/-! ## §5. Reading at a position. -/

/-- What holds of a character that is read at a position. -/
structure CharAt (bytes : List UInt8) (position : Nat) : Prop where
  /-- There is one, unless all is read. -/
  ends : (behind bytes position).readChar.1 = none ↔ position = bytes.length
  /-- It takes one to four bytes that are there; it is the character of these bytes, and the
  replacement if they are not UTF-8. -/
  char : ∀ c next, (behind bytes position).readChar = (some c, next) →
    ∃ n, 1 ≤ n ∧ n ≤ 4 ∧ position + n ≤ bytes.length ∧ next = behind bytes (position + n)
      ∧ (((bytes.drop position).take n).toByteArray.IsValidUTF8 →
          (bytes.drop position).take n = String.utf8EncodeChar c)
      ∧ (¬ ((bytes.drop position).take n).toByteArray.IsValidUTF8 → c = replacement)

theorem charAt_of_le {bytes : List UInt8} {position : Nat} (inside : position ≤ bytes.length) :
    CharAt bytes position := by
  by_cases all : position = bytes.length
  · have nothing : behind bytes position = ⟨[]⟩ := by
      rw [behind, all, List.drop_length]
    constructor
    · rw [nothing]
      exact iff_of_true rfl all
    · intro c next read
      rw [nothing] at read
      cases read
  · have some_left : bytes.drop position ≠ [] := by
      rw [Ne, List.drop_eq_nil_iff]
      omega
    obtain ⟨c, n, taken⟩ := exists_taken some_left
    obtain ⟨one, four, within⟩ := taken.bounds
    rw [List.length_drop] at within
    have reads : (behind bytes position).readChar = (some c, behind bytes (position + n)) := by
      rw [behind, readChar_of_taken taken, List.drop_drop]
      rfl
    constructor
    · rw [reads]
      exact iff_of_false nofun all
    · intro c' next read
      rw [reads] at read
      cases read
      refine ⟨n, one, four, by omega, rfl, ?_, ?_⟩
      · intro valid
        exact taken.eq_or.resolve_right fun broken => broken.2 valid
      · intro invalid
        rcases taken.eq_or with whole | broken
        · rw [whole] at invalid
          exact absurd (isValidUTF8_encode c) invalid
        · exact broken.1

/-- **CHARACTERS ARE READ AS UTF-8.**  From any boundary in the bytes of a text the characters
that follow are read and then nothing.  In any bytes, whatever was read before from wherever
it began, the position has not gone back and is not beyond the end; and what is read as a
character there is one to four bytes of those left, and the replacement if they are not
UTF-8. -/
theorem readChar_exact :
    (∀ (text : String) (before after : List Char), text.toList = before ++ after → ∀ more,
      readChars (after.length + more) (behind text.toUTF8.toList (byteSize before))
        = after.map some ++ List.replicate more none)
      ∧ ∀ (bytes : List UInt8) (start : Nat), start ≤ bytes.length →
          ∀ readers more : List Reader, ∃ position later,
            start ≤ position ∧ position ≤ later ∧ later ≤ bytes.length
              ∧ readAll readers (behind bytes start) = behind bytes position
              ∧ readAll (readers ++ more) (behind bytes start) = behind bytes later
              ∧ CharAt bytes position := by
  constructor
  · intro text before after cut more
    rw [behind_toUTF8 cut]
    exact readChars_encode after more
  · intro bytes start inside readers more
    obtain ⟨position, forward, within, read⟩ := exists_behind inside readers
    obtain ⟨later, forward', within', read'⟩ := exists_behind within more
    refine ⟨position, later, forward, forward', within', read, ?_, charAt_of_le within⟩
    rw [readAll, List.foldl_append]
    show readAll more (readAll readers _) = _
    rw [read, read']

/-- Where a byte claims another one that does not belong to it, both are consumed, and the
second is not read as a character of its own. -/
example : readChars 3 ⟨[0xC3, 0x41, 0x42]⟩ = [some replacement, some 'B', none] := by
  decide +kernel

end Esolang.Machine.Input
