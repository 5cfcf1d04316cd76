/-
  Esolang.Proofs.Memory.Floor
  ───────────────────────────
  **QUOTIENTS ARE FLOORS.**

  What the words of a division stand for: the quotient is the greatest integer that is
  not above the rational number `a / b`, and the remainder is what it leaves of `a`.  The
  least word divided by minus one is the only division whose quotient is no word.

    • `floor_div` — the floor of a fraction is the integer quotient, rounded down,
    • `floorQuotient_of_ne_zero` — what floor division gives for a divisor that is not zero,
    • `floor_division` — when it fails, with what fault, and what it gives.
-/
import Esolang.Memory.Stack
import Esolang.Proofs.Memory.Division
import Mathlib.Data.Int.ModEq
import Mathlib.Data.Rat.Floor

namespace Esolang.Memory.Word

/-! ## §1. Floors of fractions. -/

/-- What is left of a division lies between zero and the divisor. -/
theorem fmod_between {a b : Int} (ne : b ≠ 0) :
    (0 < b ∧ 0 ≤ a.fmod b ∧ a.fmod b < b) ∨ (b < 0 ∧ b < a.fmod b ∧ a.fmod b ≤ 0) := by
  by_cases pos : 0 < b
  · exact .inl ⟨pos, Int.fmod_nonneg_of_pos a pos, Int.fmod_lt_of_pos a pos⟩
  · have neg : b < 0 := by omega
    -- Both signs changed, the divisor is positive.
    have opposite : (-a).fmod (-b) = -(a.fmod b) := Int.neg_fmod_neg a b
    have low := Int.fmod_nonneg_of_pos (-a) (show 0 < -b by omega)
    have high := Int.fmod_lt_of_pos (-a) (show 0 < -b by omega)
    rw [opposite] at low high
    exact .inr ⟨neg, by omega, by omega⟩

/-- **The floor of a fraction is the integer quotient, rounded down.** -/
theorem floor_div {a b : Int} (ne : b ≠ 0) : ⌊(a : ℚ) / b⌋ = a.fdiv b := by
  have whole : (b : ℚ) * a.fdiv b + a.fmod b = a := by
    exact_mod_cast Int.mul_fdiv_add_fmod a b
  rw [Int.floor_eq_iff]
  rcases fmod_between (a := a) ne with ⟨pos, low, high⟩ | ⟨neg, low, high⟩
  · have pos' : (0 : ℚ) < b := by exact_mod_cast pos
    have low' : (0 : ℚ) ≤ a.fmod b := by exact_mod_cast low
    have high' : (a.fmod b : ℚ) < b := by exact_mod_cast high
    constructor
    · rw [le_div_iff₀ pos']
      linarith
    · rw [div_lt_iff₀ pos']
      linarith
  · have neg' : (b : ℚ) < 0 := by exact_mod_cast neg
    have low' : (b : ℚ) < a.fmod b := by exact_mod_cast low
    have high' : (a.fmod b : ℚ) ≤ 0 := by exact_mod_cast high
    constructor
    · rw [le_div_iff_of_neg neg']
      linarith
    · rw [div_lt_iff_of_neg neg']
      linarith

/-! ## §2. The words of a division. -/

/-- The one division whose quotient is no word. -/
def Overflows (a b : Int64) : Prop :=
  a = Int64.minValue ∧ b = -1

/-- What the quotient `q` and the remainder `r` of `a` by `b` are to be. -/
structure FloorQuotient (a b q r : Int64) : Prop where
  /-- The quotient is the floor of the fraction. -/
  quotient : ¬ Overflows a b → q.toInt = ⌊(a.toInt : ℚ) / b.toInt⌋
  /-- The quotient that is no word wraps around, and nothing is left. -/
  overflow : Overflows a b → q = Int64.minValue ∧ r = 0
  /-- The remainder is what the floor leaves, in every case. -/
  remainder : r.toInt = a.toInt - b.toInt * ⌊(a.toInt : ℚ) / b.toInt⌋
  /-- It is zero, or it has the sign of the divisor. -/
  sign : r = 0 ∨ r.toInt.sign = b.toInt.sign
  /-- It is smaller than the divisor. -/
  small : |r.toInt| < |b.toInt|
  /-- Multiplied out, the words give the dividend again. -/
  whole : b.toInt * q.toInt + r.toInt ≡ a.toInt [ZMOD 2 ^ 64]

section
variable {a b : Int64}

theorem natAbs_toInt_le (a : Int64) : a.toInt.natAbs ≤ 2 ^ 63 := by
  have low := Int64.le_toInt a
  have high := Int64.toInt_lt a
  omega

/-- **No other quotient leaves the range of a word.** -/
theorem fdiv_inRange (ne : b ≠ 0) (fits : ¬ Overflows a b) :
    -2 ^ 63 ≤ a.toInt.fdiv b.toInt ∧ a.toInt.fdiv b.toInt < 2 ^ 63 := by
  have nonzero := ne_zero_iff.mp ne
  by_cases down : RoundsDown a.toInt b.toInt
  · -- Where something is left the quotient is small, and so is one less than it.
    have half := natAbs_tdiv_le down.1
    have bound := natAbs_toInt_le a
    rw [fdiv_of_roundsDown nonzero down]
    omega
  · rw [fdiv_of_not_roundsDown down]
    have exact_quotient : (a / b).toInt = a.toInt.tdiv b.toInt := by
      by_cases least : a = Int64.minValue
      · exact Int64.toInt_div_of_ne_right a b fun minus_one => fits ⟨least, minus_one⟩
      · exact Int64.toInt_div_of_ne_left a b least
    rw [← exact_quotient]
    exact ⟨Int64.le_toInt _, Int64.toInt_lt _⟩

theorem fmod_inRange (ne : b ≠ 0) :
    -2 ^ 63 ≤ a.toInt.fmod b.toInt ∧ a.toInt.fmod b.toInt < 2 ^ 63 := by
  have low := Int64.le_toInt b
  have high := Int64.toInt_lt b
  rcases fmod_between (a := a.toInt) (ne_zero_iff.mp ne) with between | between <;> omega

/-- What a division gives, as integers. -/
theorem toInt_floorMod (ne : b ≠ 0) :
    (Int64.ofInt (a.toInt.fmod b.toInt)).toInt = a.toInt.fmod b.toInt := by
  obtain ⟨low, high⟩ := fmod_inRange (a := a) ne
  exact Int64.toInt_ofInt_of_le low high

theorem toInt_floorDiv (ne : b ≠ 0) (fits : ¬ Overflows a b) :
    (Int64.ofInt (a.toInt.fdiv b.toInt)).toInt = a.toInt.fdiv b.toInt := by
  obtain ⟨low, high⟩ := fdiv_inRange ne fits
  exact Int64.toInt_ofInt_of_le low high

/-- **What floor division gives for a divisor that is not zero.** -/
theorem floorQuotient_of_ne_zero (ne : b ≠ 0) :
    FloorQuotient a b (Int64.ofInt (a.toInt.fdiv b.toInt)) (Int64.ofInt (a.toInt.fmod b.toInt)) := by
  have nonzero := ne_zero_iff.mp ne
  have left : a.toInt.fmod b.toInt = a.toInt - b.toInt * a.toInt.fdiv b.toInt := Int.fmod_def _ _
  have between := fmod_between (a := a.toInt) nonzero
  refine ⟨?quotient, ?overflow, ?remainder, ?sign, ?small, ?whole⟩
  case quotient =>
    intro fits
    rw [toInt_floorDiv ne fits, floor_div nonzero]
  case overflow =>
    rintro ⟨rfl, rfl⟩
    decide
  case remainder =>
    rw [toInt_floorMod ne, floor_div nonzero, left]
  case sign =>
    rw [← Int64.toInt_inj, Int64.toInt_zero, toInt_floorMod ne]
    by_cases exact_division : a.toInt.fmod b.toInt = 0
    · exact .inl exact_division
    · right
      rcases between with ⟨pos, low, high⟩ | ⟨neg, low, high⟩
      · rw [Int.sign_eq_one_of_pos pos, Int.sign_eq_one_of_pos (by omega)]
      · rw [Int.sign_eq_neg_one_of_neg neg, Int.sign_eq_neg_one_of_neg (by omega)]
  case small =>
    rw [toInt_floorMod ne, Int.abs_eq_natAbs, Int.abs_eq_natAbs]
    omega
  case whole =>
    by_cases overflows : Overflows a b
    · obtain ⟨rfl, rfl⟩ := overflows
      decide
    · rw [toInt_floorDiv ne overflows, toInt_floorMod ne, left]
      have same : b.toInt * a.toInt.fdiv b.toInt + (a.toInt - b.toInt * a.toInt.fdiv b.toInt)
          = a.toInt := by omega
      rw [same]

theorem floorDiv?_eq_none : floorDiv? a b = none ↔ b = 0 := by
  by_cases zero : b = 0
  · simp [floorDiv?, zero]
  · simp [floorDiv?_eq zero, zero]

theorem floorMod?_eq_none : floorMod? a b = none ↔ b = 0 := by
  by_cases zero : b = 0
  · simp [floorMod?, zero]
  · simp [floorMod?_eq zero, zero]

end

/-! ## §3. Division. -/

/-- An operation on two values that are there fails if and only if it has no result, and
then the divisor is to blame. -/
theorem binary_eq_error {op : Int64 → Int64 → Option Int64} {a b : Int64} {below : List Int64}
    {fault : StackFault} {left : Stack} :
    (Stack.mk (b :: a :: below)).binary op = .error (fault, left)
      ↔ op a b = none ∧ fault = .divisionByZero ∧ left = ⟨below⟩ := by
  unfold Stack.binary
  cases result : op a b with
  | some value => simp [result]
  | none => simp [result, eq_comm (a := fault), eq_comm (a := left)]

/-- **Division rounds down.**  It fails for a divisor of zero and for no other, with the
fault that names it; otherwise quotient and remainder are those of the floor, and neither
wraps around where it is corrected. -/
theorem floor_division (a b : Int64) :
    (floorDiv? a b = none ↔ b = 0)
      ∧ (floorMod? a b = none ↔ b = 0)
      ∧ (∀ op ∈ [floorDiv?, floorMod?], ∀ below fault left,
          (Stack.mk (b :: a :: below)).binary op = .error (fault, left)
            ↔ b = 0 ∧ fault = .divisionByZero ∧ left = ⟨below⟩)
      ∧ (∀ q r, floorDiv? a b = some q → floorMod? a b = some r → FloorQuotient a b q r)
      ∧ DivisionInRange a b := by
  refine ⟨floorDiv?_eq_none, floorMod?_eq_none, ?_, ?_, divisionInRange a b⟩
  · intro op mem below fault left
    rw [binary_eq_error]
    rcases List.mem_pair.mp mem with rfl | rfl
    · rw [floorDiv?_eq_none]
    · rw [floorMod?_eq_none]
  · intro q r quotient remainder
    have ne : b ≠ 0 := by
      rintro rfl
      rw [floorDiv?_eq_none.mpr rfl] at quotient
      cases quotient
    rw [floorDiv?_eq ne] at quotient
    rw [floorMod?_eq ne] at remainder
    cases quotient
    cases remainder
    exact floorQuotient_of_ne_zero ne

/-- The quotient that is no word. -/
example : floorDiv? Int64.minValue (-1) = some Int64.minValue
    ∧ floorMod? Int64.minValue (-1) = some 0 := by
  decide

end Esolang.Memory.Word
