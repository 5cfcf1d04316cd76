/-
  Esolang.Memory.Word
  ───────────────────
  **ARITHMETIC ON 64-BIT WORDS.**

  Sums, differences and products wrap around.  Division rounds toward negative
  infinity and the remainder has the sign of the divisor; both are undefined for
  a divisor of zero.
-/

namespace Esolang.Memory.Word

/-! ## §1. Division -/

/-- The quotient rounded toward negative infinity: the truncated quotient, less
one if something is left and the signs differ. -/
def floorDiv? (a b : Int64) : Option Int64 :=
  if b = 0 then none
  else
    let q := a / b
    if a % b ≠ 0 ∧ (decide (a < 0) != decide (b < 0)) then some (q - 1) else some q

/-- The remainder of `floorDiv?`: the truncated remainder, plus the divisor if it
is not zero and has the other sign. -/
def floorMod? (a b : Int64) : Option Int64 :=
  if b = 0 then none
  else
    let r := a % b
    if r ≠ 0 ∧ (decide (r < 0) != decide (b < 0)) then some (r + b) else some r

/-! ## §2. Characters -/

/-- The character with this code, if there is one. -/
def toChar? (value : Int64) : Option Char :=
  let n := value.toInt
  if 0 ≤ n ∧ n.toNat.isValidChar then some (Char.ofNat n.toNat) else none

/-- The code of a character. -/
def ofChar (c : Char) : Int64 :=
  Int64.ofNat c.toNat

/-- One for true and zero for false. -/
def ofBool (b : Bool) : Int64 :=
  if b then 1 else 0

/-- The word in decimal. -/
def decimal (value : Int64) : String :=
  toString value.toInt

end Esolang.Memory.Word
