import FrameCode.Operation
import Mathlib.Data.Rat.Floor
import Mathlib.Tactic.FieldSimp
import Mathlib.Tactic.Linarith

/-!
Integer arithmetic against exact arithmetic. Sums, differences and products are the exact ones
reduced to 64 bits. A quotient is the exact one rounded down: it is computed from the quotient
rounded toward zero and is one less if something is left over and the signs differ
(`floor_div_eq`). What is left over also keeps the quotient away from the ends of the range, so the
correction never overflows (`quotient_of_remainder`).
-/

namespace FrameCode.Value

/-! ### Rounding down -/

theorem floor_remainder_of_pos {r b : ℤ} (positive : 0 < b) (small : r.natAbs < b.natAbs) :
    ⌊(r : ℚ) / b⌋ = if r < 0 then -1 else 0 := by
  have above : (0 : ℚ) < b := by exact_mod_cast positive
  have left : -(b : ℚ) < r := by exact_mod_cast (by omega : -b < r)
  have right : (r : ℚ) < b := by exact_mod_cast (by omega : r < b)
  rw [Int.floor_eq_iff, le_div_iff₀ above, div_lt_iff₀ above]
  split
  · next negative =>
    have sign : (r : ℚ) < 0 := by exact_mod_cast negative
    push_cast
    constructor <;> linarith
  · next nonneg =>
    have sign : (0 : ℚ) ≤ r := by exact_mod_cast Int.not_lt.mp nonneg
    push_cast
    constructor <;> linarith

/-- The fraction that a remainder adds to a quotient is negative if the signs differ. -/
theorem floor_remainder {r b : ℤ} (small : r.natAbs < b.natAbs) :
    ⌊(r : ℚ) / b⌋ = if r ≠ 0 ∧ (r < 0 ↔ 0 < b) then -1 else 0 := by
  rcases lt_trichotomy b 0 with negative | rfl | positive
  · have opposite : (r : ℚ) / b = ((-r : ℤ) : ℚ) / (-b : ℤ) := by
      rw [Int.cast_neg, Int.cast_neg, neg_div_neg_eq]
    rw [opposite, floor_remainder_of_pos (by omega) (by omega)]
    split <;> split <;> omega
  · simp at small
  · rw [floor_remainder_of_pos positive small]
    split <;> split <;> omega

/-- A quotient rounded down, from the quotient rounded toward zero. -/
theorem floor_div_eq {a b : ℤ} (nonzero : b ≠ 0) :
    ⌊(a : ℚ) / b⌋ =
      if a.tmod b ≠ 0 ∧ decide (a < 0) ≠ decide (b < 0) then a.tdiv b - 1 else a.tdiv b := by
  have divisor : (b : ℚ) ≠ 0 := by exact_mod_cast nonzero
  have parts : (a : ℚ) / b = (a.tdiv b : ℤ) + (a.tmod b : ℚ) / b := by
    have whole : (b : ℚ) * a.tdiv b + a.tmod b = a := by exact_mod_cast Int.mul_tdiv_add_tmod a b
    field_simp
    linarith
  have small : (a.tmod b).natAbs < b.natAbs := by
    rw [Int.natAbs_tmod]
    exact Nat.mod_lt _ (Int.natAbs_pos.mpr nonzero)
  -- the remainder has the sign of the dividend
  have nonneg : 0 ≤ a → 0 ≤ a.tmod b := Int.tmod_nonneg b
  have nonpos : a < 0 → a.tmod b ≤ 0 := by
    intro negative
    have opposite := Int.tmod_nonneg b (Int.neg_nonneg_of_nonpos (Int.le_of_lt negative))
    rw [Int.neg_tmod] at opposite
    omega
  rw [parts, Int.floor_intCast_add, floor_remainder small]
  simp only [ne_eq, decide_eq_decide]
  split <;> split <;> omega

/-! ### Reduction to 64 bits -/

/-- The integer is the exact number reduced to 64 bits. -/
structure IsReduced (exact : ℤ) (n : Int64) : Prop where
  low : -2 ^ 63 ≤ n.toInt
  high : n.toInt ≤ 2 ^ 63 - 1
  congruent : (2 : ℤ) ^ 64 ∣ exact - n.toInt

/-- A machine integer that differs by a multiple of `2^64` is the reduced one. -/
theorem isReduced_of_dvd {exact : ℤ} {n : Int64} (congruent : (2 : ℤ) ^ 64 ∣ exact - n.toInt) :
    IsReduced exact n :=
  ⟨n.le_toInt, Int.le_sub_one_of_lt n.toInt_lt, congruent⟩

theorem isReduced_of_bmod {exact : ℤ} {n : Int64} (eq : n.toInt = exact.bmod (2 ^ 64)) :
    IsReduced exact n := by
  apply isReduced_of_dvd
  rw [eq]
  exact Int.dvd_self_sub_bmod

section Division

variable {x y : Int64}

theorem remainder_ne_zero_iff : x % y ≠ 0 ↔ x.toInt.tmod y.toInt ≠ 0 := by
  rw [← Int64.toInt_mod, ne_eq, ne_eq, ← Int64.toInt_inj, Int64.toInt_zero]

/-- If something is left over, the quotient is in the middle half of the range. -/
theorem quotient_of_remainder (left : x % y ≠ 0) :
    (x / y).toInt = x.toInt.tdiv y.toInt ∧ (x / y).toInt.natAbs ≤ 2 ^ 62 := by
  have notOne : y.toInt.natAbs ≠ 1 := by
    intro one
    apply remainder_ne_zero_iff.mp left
    rcases Int.natAbs_eq y.toInt with eq | eq
    · rw [eq, one]
      simp
    · rw [eq, one]
      simp
  have exact : (x / y).toInt = x.toInt.tdiv y.toInt := by
    apply Int64.toInt_div_of_ne_right
    rintro rfl
    exact notOne rfl
  have size : (x / y).toInt.natAbs = x.toInt.natAbs / y.toInt.natAbs := by
    rw [exact]
    exact Int.natAbs_tdiv _ _
  constructor
  · exact exact
  · have low := x.le_toInt
    have high := x.toInt_lt
    rcases Nat.eq_zero_or_pos y.toInt.natAbs with zero | positive
    · rw [size, zero, Nat.div_zero]
      exact Nat.zero_le _
    · calc (x / y).toInt.natAbs = x.toInt.natAbs / y.toInt.natAbs := size
        _ ≤ x.toInt.natAbs / 2 := Nat.div_le_div_left (by omega) (by decide)
        _ ≤ 2 ^ 62 := by omega

theorem toInt_sub_one {q : Int64} (size : q.toInt.natAbs ≤ 2 ^ 62) :
    (q - 1).toInt = q.toInt - 1 := by
  rw [Int64.toInt_sub, Int64.toInt_one]
  apply Int.bmod_eq_of_le
  · omega
  · omega

/-- Division rounds down, but for the one quotient that does not fit. -/
theorem toInt_floorDiv (nonzero : y ≠ 0) (fits : ¬ (x = Int64.minValue ∧ y = -1)) :
    (floorDiv x y).toInt = ⌊(x.toInt : ℚ) / y.toInt⌋ := by
  have divisor : y.toInt ≠ 0 := by
    intro zero
    exact nonzero (Int64.toInt_inj.mp zero)
  have quotient : (x / y).toInt = x.toInt.tdiv y.toInt := by
    by_cases minus : y = -1
    · exact Int64.toInt_div_of_ne_left x y fun least => fits ⟨least, minus⟩
    · exact Int64.toInt_div_of_ne_right x y minus
  have negative (z : Int64) : z < 0 ↔ z.toInt < 0 := Int64.lt_iff_toInt_lt
  rw [floor_div_eq divisor, floorDiv]
  simp only [negative, remainder_ne_zero_iff]
  split
  · next correct =>
    have size := (quotient_of_remainder (remainder_ne_zero_iff.mpr correct.1)).2
    rw [toInt_sub_one size, quotient]
  · exact quotient

/-- The one quotient that is out of range is that of the least integer by minus one. -/
theorem floorDiv_least :
    (floorDiv Int64.minValue (-1)).toInt = -2 ^ 63 ∧
      ⌊(Int64.minValue.toInt : ℚ) / (-1 : Int64).toInt⌋ = 2 ^ 63 := by
  have quotient : (Int64.minValue.toInt : ℚ) / (-1 : Int64).toInt = (2 ^ 63 : ℤ) := by simp
  constructor
  · rfl
  · rw [quotient, Int.floor_intCast]

theorem isReduced_floorDiv (nonzero : y ≠ 0) :
    IsReduced ⌊(x.toInt : ℚ) / y.toInt⌋ (floorDiv x y) ∧
      ((floorDiv x y).toInt = ⌊(x.toInt : ℚ) / y.toInt⌋ ↔ ¬ (x = Int64.minValue ∧ y = -1)) := by
  by_cases least : x = Int64.minValue ∧ y = -1
  · obtain ⟨rfl, rfl⟩ := least
    obtain ⟨wrapped, exact⟩ := floorDiv_least
    have congruent : (2 : ℤ) ^ 64 ∣ 2 ^ 63 - -2 ^ 63 := ⟨1, by norm_num⟩
    rw [exact]
    exact ⟨isReduced_of_dvd (by rwa [wrapped]), by simp [wrapped]⟩
  · have exact := toInt_floorDiv nonzero least
    exact ⟨isReduced_of_dvd (by simp [exact]), by simp [exact, least]⟩

end Division

/-! ### The operations -/

def Computes (outcome : Except Fault Value) (exact : ℤ) : Prop :=
  ∃ n, outcome = .ok (.int n) ∧ IsReduced exact n

/-- Sums, differences and products of integers are exact up to reduction to 64 bits. Division fails
for the divisor zero only; otherwise it gives the quotient rounded down, up to a reduction that
changes only the quotient of the least integer by minus one. The correction of the quotient, which
is made only if something is left over, stays in the range of integers. -/
theorem integer_arithmetic_exact (x y : Int64) :
    Computes (add (.int x) (.int y)) (x.toInt + y.toInt) ∧
      Computes (sub (.int x) (.int y)) (x.toInt - y.toInt) ∧
      Computes (mul (.int x) (.int y)) (x.toInt * y.toInt) ∧
      (idiv (.int x) (.int y) = .error (.badValue .divisionByZero) ↔ y = 0) ∧
      (y ≠ 0 → ∃ n, idiv (.int x) (.int y) = .ok (.int n) ∧
        IsReduced ⌊(x.toInt : ℚ) / y.toInt⌋ n ∧
        (n.toInt = ⌊(x.toInt : ℚ) / y.toInt⌋ ↔ ¬ (x = Int64.minValue ∧ y = -1))) ∧
      (x % y ≠ 0 → -2 ^ 63 ≤ (x / y).toInt - 1 ∧ (x / y).toInt - 1 ≤ 2 ^ 63 - 1) := by
  refine ⟨⟨_, rfl, isReduced_of_bmod (Int64.toInt_add x y)⟩,
    ⟨_, rfl, isReduced_of_bmod (Int64.toInt_sub x y)⟩,
    ⟨_, rfl, isReduced_of_bmod (Int64.toInt_mul x y)⟩, ?_, ?_, ?_⟩
  · by_cases zero : y = 0
    · simp [idiv, zero]
    · simp [idiv, zero]
  · intro nonzero
    exact ⟨floorDiv x y, by simp [idiv, nonzero], isReduced_floorDiv nonzero⟩
  · intro left
    have size := (quotient_of_remainder left).2
    omega

/-- A negative quotient with something left over is rounded away from zero, and the quotient that is
out of range is reduced. -/
theorem idiv_rounds_down :
    (∃ n, idiv (.int (-7)) (.int 2) = .ok (.int n) ∧
        n.toInt = ⌊((-7 : Int64).toInt : ℚ) / (2 : Int64).toInt⌋) ∧
      -2 ^ 63 ≤ ((-7 : Int64) / 2).toInt - 1 ∧
      ∃ n, idiv (.int Int64.minValue) (.int (-1)) = .ok (.int n) ∧
        n.toInt ≠ ⌊(Int64.minValue.toInt : ℚ) / (-1 : Int64).toInt⌋ := by
  obtain ⟨-, -, -, -, divided, corrected⟩ := integer_arithmetic_exact (-7) 2
  obtain ⟨-, -, -, -, reduced, -⟩ := integer_arithmetic_exact Int64.minValue (-1)
  obtain ⟨n, eq, -, exact⟩ := divided (by decide)
  obtain ⟨k, eq', -, exact'⟩ := reduced (by decide)
  have changed : k.toInt ≠ ⌊(Int64.minValue.toInt : ℚ) / (-1 : Int64).toInt⌋ := by
    intro equal
    exact exact'.mp equal ⟨rfl, rfl⟩
  exact ⟨⟨n, eq, exact.mpr (by decide)⟩, (corrected (by decide)).1, k, eq', changed⟩

end FrameCode.Value
