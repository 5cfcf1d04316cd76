/-
  Esolang.Proofs.Memory.Division
  ──────────────────────────────
  **DIVISION ROUNDS DOWN.**

  Words are divided by way of the truncated quotient, which is too large by one
  if something is left and the signs differ.  Then one is taken away from it, and
  the divisor is added to the remainder.

    • `toInt_quotient_sub_one`, `toInt_remainder_add` — neither leaves the range
      of a word,
    • `floorDiv?_eq`, `floorMod?_eq` — the results are those of the integers,
      rounded down; only the least word divided by minus one wraps around.
-/
import Esolang.Memory.Word

namespace Esolang.Memory.Word

/-! ## §1. Truncated and rounded down. -/

/-- Something is left of a division, and the signs differ. -/
def RoundsDown (a b : Int) : Prop :=
  ¬ b ∣ a ∧ (a < 0 ↔ 0 ≤ b)

theorem fdiv_of_roundsDown {a b : Int} (ne : b ≠ 0) (down : RoundsDown a b) :
    a.fdiv b = a.tdiv b - 1 := by
  obtain ⟨left, signs⟩ := down
  rw [Int.fdiv_eq_tdiv, if_neg left]
  by_cases nonneg : 0 ≤ a
  · rw [if_pos nonneg, if_neg (by omega)]
  · have pos : 0 < b := by omega
    rw [if_neg nonneg, if_pos (by omega), Int.sign_eq_one_of_pos pos]

theorem fdiv_of_not_roundsDown {a b : Int} (not_down : ¬ RoundsDown a b) :
    a.fdiv b = a.tdiv b := by
  rw [Int.fdiv_eq_tdiv]
  by_cases divides : b ∣ a
  · rw [if_pos divides]
    omega
  · have signs : ¬ (a < 0 ↔ 0 ≤ b) := fun signs => not_down ⟨divides, signs⟩
    rw [if_neg divides]
    by_cases nonneg : 0 ≤ a
    · rw [if_pos nonneg, if_pos (by omega)]
      omega
    · have neg : b < 0 := by omega
      rw [if_neg nonneg, if_neg (by omega), Int.sign_eq_neg_one_of_neg neg]
      omega

theorem fmod_of_roundsDown {a b : Int} (ne : b ≠ 0) (down : RoundsDown a b) :
    a.fmod b = a.tmod b + b := by
  rw [Int.fmod_def, Int.tmod_def, fdiv_of_roundsDown ne down, Int.mul_sub]
  omega

theorem fmod_of_not_roundsDown {a b : Int} (not_down : ¬ RoundsDown a b) :
    a.fmod b = a.tmod b := by
  rw [Int.fmod_def, Int.tmod_def, fdiv_of_not_roundsDown not_down]

/-! ## §2. Nothing leaves the range of a word. -/

/-- When something is left, the quotient is at most half of the dividend. -/
theorem natAbs_tdiv_le {a b : Int} (left : ¬ b ∣ a) :
    (a.tdiv b).natAbs ≤ a.natAbs / 2 := by
  have not_one : b ≠ 1 := by
    rintro rfl
    exact left (Int.one_dvd a)
  have not_minus_one : b ≠ -1 := by
    rintro rfl
    exact left (Int.neg_dvd.mpr (Int.one_dvd a))
  have quotient : (a.tdiv b).natAbs = a.natAbs / b.natAbs := Int.natAbs_tdiv a b
  rw [quotient]
  by_cases zero : b = 0
  · rw [zero]
    simp
  · exact Nat.div_le_div_left (by omega) (by omega)

section
variable {a b : Int64}

theorem toInt_quotient (left : ¬ b.toInt ∣ a.toInt) : (a / b).toInt = a.toInt.tdiv b.toInt := by
  refine Int64.toInt_div_of_ne_right a b ?_
  rintro rfl
  exact left (Int.neg_dvd.mpr (Int.one_dvd _))

/-- **One less than the quotient is a word.** -/
theorem toInt_quotient_sub_one (left : ¬ b.toInt ∣ a.toInt) :
    (a / b - 1).toInt = (a / b).toInt - 1 := by
  have half := natAbs_tdiv_le left
  have low := Int64.le_toInt a
  have high := Int64.toInt_lt a
  rw [Int64.toInt_sub, toInt_quotient left]
  show (a.toInt.tdiv b.toInt - 1).bmod (2 ^ 64) = _
  exact Int.bmod_eq_of_le (by omega) (by omega)

/-- **A remainder and a divisor of the other sign add up to a word.** -/
theorem toInt_remainder_add (signs : (a % b).toInt < 0 ↔ 0 ≤ b.toInt) :
    (a % b + b).toInt = (a % b).toInt + b.toInt := by
  have low := Int64.le_toInt (a % b)
  have high := Int64.toInt_lt (a % b)
  have low' := Int64.le_toInt b
  have high' := Int64.toInt_lt b
  rw [Int64.toInt_add]
  exact Int.bmod_eq_of_le (by omega) (by omega)

/-! ## §3. The results. -/

theorem ne_zero_iff : a ≠ 0 ↔ a.toInt ≠ 0 := by
  rw [← Int64.toInt_zero, ne_eq, ne_eq, Int64.toInt_inj]

theorem signs_differ : (decide (a < 0) != decide (b < 0)) = true ↔ (a.toInt < 0 ↔ 0 ≤ b.toInt) := by
  have ha : a < 0 ↔ a.toInt < 0 := by rw [Int64.lt_iff_toInt_lt, Int64.toInt_zero]
  have hb : b < 0 ↔ b.toInt < 0 := by rw [Int64.lt_iff_toInt_lt, Int64.toInt_zero]
  rw [bne_iff_ne, ne_eq, decide_eq_decide, ha, hb]
  omega

theorem remainder_ne_zero : a % b ≠ 0 ↔ ¬ b.toInt ∣ a.toInt := by
  rw [ne_zero_iff, Int64.toInt_mod, ne_eq, Int.dvd_iff_tmod_eq_zero]

/-- A remainder has the sign of the dividend. -/
theorem toInt_remainder_neg (left : ¬ b.toInt ∣ a.toInt) :
    (a % b).toInt < 0 ↔ a.toInt < 0 := by
  have nonzero : a.toInt.tmod b.toInt ≠ 0 := by
    rwa [ne_eq, ← Int.dvd_iff_tmod_eq_zero]
  rw [Int64.toInt_mod]
  constructor
  · intro neg
    by_cases nonneg : 0 ≤ a.toInt
    · have := Int.tmod_nonneg b.toInt nonneg
      omega
    · omega
  · intro neg
    -- The opposite dividend leaves the opposite remainder.
    have opposite : 0 ≤ (-a.toInt).tmod b.toInt := Int.tmod_nonneg b.toInt (by omega)
    rw [Int.neg_tmod] at opposite
    omega

/-- The quotient is corrected exactly when it has to be rounded down. -/
theorem corrects_iff :
    (a % b ≠ 0 ∧ (decide (a < 0) != decide (b < 0)) = true) ↔ RoundsDown a.toInt b.toInt := by
  unfold RoundsDown
  rw [remainder_ne_zero, signs_differ]

/-- The remainder is corrected exactly when the quotient is. -/
theorem corrects_remainder_iff :
    (a % b ≠ 0 ∧ (decide (a % b < 0) != decide (b < 0)) = true)
      ↔ RoundsDown a.toInt b.toInt := by
  unfold RoundsDown
  rw [remainder_ne_zero, signs_differ]
  constructor
  · rintro ⟨left, signs⟩
    exact ⟨left, (toInt_remainder_neg left).symm.trans signs⟩
  · rintro ⟨left, signs⟩
    exact ⟨left, (toInt_remainder_neg left).trans signs⟩

/-- Neither correction of a division wraps around. -/
structure DivisionInRange (a b : Int64) : Prop where
  /-- Where one is taken away from the quotient. -/
  quotient : a % b ≠ 0 ∧ (decide (a < 0) != decide (b < 0)) = true →
    (a / b - 1).toInt = (a / b).toInt - 1
  /-- Where the divisor is added to the remainder. -/
  remainder : a % b ≠ 0 ∧ (decide (a % b < 0) != decide (b < 0)) = true →
    (a % b + b).toInt = (a % b).toInt + b.toInt

/-- **Wherever a division is corrected, the correction is a word.** -/
theorem divisionInRange (a b : Int64) : DivisionInRange a b where
  quotient corrected := toInt_quotient_sub_one (corrects_iff.mp corrected).1
  remainder corrected := toInt_remainder_add (signs_differ.mp corrected.2)

theorem floorDiv?_eq (ne : b ≠ 0) :
    floorDiv? a b = some (Int64.ofInt (a.toInt.fdiv b.toInt)) := by
  have nonzero : b.toInt ≠ 0 := ne_zero_iff.mp ne
  unfold floorDiv?
  rw [if_neg ne]
  by_cases down : RoundsDown a.toInt b.toInt
  · have corrected := toInt_quotient_sub_one down.1
    rw [toInt_quotient down.1, ← fdiv_of_roundsDown nonzero down] at corrected
    rw [if_pos (corrects_iff.mpr down), ← corrected, Int64.ofInt_toInt]
  · rw [if_neg (mt corrects_iff.mp down), fdiv_of_not_roundsDown down]
    refine congrArg some (Int64.toInt_inj.mp ?_)
    rw [Int64.toInt_div, Int64.toInt_ofInt]

theorem floorMod?_eq (ne : b ≠ 0) :
    floorMod? a b = some (Int64.ofInt (a.toInt.fmod b.toInt)) := by
  have nonzero : b.toInt ≠ 0 := ne_zero_iff.mp ne
  unfold floorMod?
  rw [if_neg ne]
  by_cases down : RoundsDown a.toInt b.toInt
  · have signs : (a % b).toInt < 0 ↔ 0 ≤ b.toInt := (toInt_remainder_neg down.1).trans down.2
    have corrected := toInt_remainder_add signs
    rw [Int64.toInt_mod, ← fmod_of_roundsDown nonzero down] at corrected
    rw [if_pos (corrects_remainder_iff.mpr down), ← corrected, Int64.ofInt_toInt]
  · rw [if_neg (mt corrects_remainder_iff.mp down), fmod_of_not_roundsDown down,
      ← Int64.toInt_mod, Int64.ofInt_toInt]

end

end Esolang.Memory.Word
