/-
  Esolang.Text.Blank
  ──────────────────
  **WHITE SPACE.**

  `isBlank` is the Unicode property White_Space, `isAsciiBlank` the five bytes
  that separate numbers in a program's input.
-/

namespace Esolang.Text

/-! ## §1. Characters -/

/-- The Unicode property White_Space. -/
def isBlank (c : Char) : Bool :=
  let n := c.toNat
  (9 ≤ n && n ≤ 13) || n == 0x20 || n == 0x85 || n == 0xA0 || n == 0x1680
    || (0x2000 ≤ n && n ≤ 0x200A) || n == 0x2028 || n == 0x2029 || n == 0x202F
    || n == 0x205F || n == 0x3000

/-- A text without the blanks at its two ends. -/
def trim (text : List Char) : List Char :=
  ((text.dropWhile isBlank).reverse.dropWhile isBlank).reverse

/-! ## §2. Bytes -/

/-- Tab, line feed, form feed, carriage return and space. -/
def isAsciiBlank (b : UInt8) : Bool :=
  b == 9 || b == 10 || b == 12 || b == 13 || b == 32

/-- The bytes of `0` to `9`. -/
def isAsciiDigit (b : UInt8) : Bool :=
  48 ≤ b && b ≤ 57

end Esolang.Text
