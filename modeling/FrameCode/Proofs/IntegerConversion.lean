import FrameCode.Operation
import FrameCode.Proofs.Binary64.Rounding

/-!
Conversion of integers to doubles and back. The double nearest to an integer has an integer value
(`IsNearest.exists_toRat_eq_intCast`), which is the value that truncation finds
(`truncate?_of_toRat_eq`), so the way back fails only where this value is too large. Whether it is
too large is a matter of rounding: the double nearest to a number reaches a power of two as soon as
the number is half way between this power and the double below it (`IsNearest.reaches_iff`).
-/

namespace FrameCode

namespace Binary64

variable {x : Float} {n k : ℤ}

/-! ### Integers -/

/-- The double nearest to an integer has an integer value: where doubles have fractions, all
integers are doubles. -/
theorem IsNearest.exists_toRat_eq_intCast (nearest : IsNearest x n) : ∃ k : ℤ, toRat x = k := by
  rcases lt_or_ge (exponent x) 0 with fractional | whole
  · have small := magnitude_lt nearest.finite fractional
    rw [magnitude_eq_abs, zpow_zero, mul_one, abs_lt] at small
    have bound : n.natAbs ≤ 2 ^ 53 := by
      by_contra large
      obtain ⟨top, finite, value⟩ := @Binary64.exists_toRat_eq_intCast (2 ^ 53) (by decide)
      obtain ⟨bottom, finite', value'⟩ := @Binary64.exists_toRat_eq_intCast (-2 ^ 53) (by decide)
      rcases (by omega : 2 ^ 53 ≤ n ∨ n ≤ -2 ^ 53) with above | below
      · have reached := nearest.le_toRat finite (by rw [value]; exact_mod_cast above)
        rw [value] at reached
        norm_num at reached small
        linarith
      · have reached := nearest.toRat_le finite' (by rw [value']; exact_mod_cast below)
        rw [value'] at reached
        norm_num at reached small
        linarith
    obtain ⟨y, finite, value⟩ := Binary64.exists_toRat_eq_intCast bound
    exact ⟨n, nearest.toRat_eq finite value⟩
  · obtain ⟨j, multiple⟩ := exists_toRat_eq whole
    exact ⟨j, by rw [multiple, zpow_zero, mul_one]⟩

/-- Truncation finds the value of a double that has an integer value. -/
theorem truncate?_of_toRat_eq (finite : isFinite x) (value : toRat x = k) :
    truncate? x = some k := by
  have size : (significand x : ℚ) * 2 ^ exponent x = (k.natAbs : ℕ) * 2 ^ (0 : ℤ) := by
    change magnitude x = _
    rw [magnitude_eq_abs, value, zpow_zero, mul_one, Nat.cast_natAbs, Int.cast_abs]
  have shifted : (if 0 ≤ exponent x then significand x <<< (exponent x).toNat
      else significand x >>> (-exponent x).toNat) = k.natAbs := by
    split
    · next whole =>
      have scaled := (scaled_eq_iff whole).mp size.symm
      rw [Nat.shiftLeft_eq, scaled, Int.sub_zero]
    · next fractional =>
      have scaled := (scaled_eq_iff (by omega)).mp size
      rw [Int.zero_sub] at scaled
      rw [Nat.shiftRight_eq_div_pow, scaled, Nat.mul_div_cancel _ (Nat.two_pow_pos _)]
  have signed : (if isNegative x then -(k.natAbs : ℤ) else k.natAbs) = k := by
    have nonneg := magnitude_nonneg x
    rw [toRat] at value
    split at value
    · next negative =>
      have sign : (k : ℚ) ≤ 0 := by linarith
      have sign' : k ≤ 0 := by exact_mod_cast sign
      rw [if_pos negative]
      omega
    · next positive =>
      have sign : (0 : ℚ) ≤ k := by linarith
      have sign' : 0 ≤ k := by exact_mod_cast sign
      rw [if_neg positive]
      omega
  simp only [truncate?, finite, if_true, shifted, signed]

end Binary64

/-! ### Conversion operations -/

namespace Value

open Binary64

variable {x : Float} {k : ℤ}

theorem float2int_of_toRat_eq {n : Int64} (finite : isFinite x) (value : toRat x = n.toInt) :
    float2int (.float x) = .ok (.int n) := by
  have found : (truncate? x).bind Numeral.int64? = some n := by
    rw [truncate?_of_toRat_eq finite value]
    exact Numeral.int64?_eq_some_iff.mpr rfl
  simp only [float2int, found]

theorem float2int_of_limit_le (finite : isFinite x) (value : toRat x = k) (large : 2 ^ 63 ≤ k) :
    float2int (.float x) = .error (.badValue (.noInteger x)) := by
  have missing : (truncate? x).bind Numeral.int64? = none := by
    rw [truncate?_of_toRat_eq finite value, Option.bind_some, Numeral.int64?]
    exact if_neg (by omega)
  simp only [float2int, missing]

/-- An integer is converted to the one nearest double, ties to even, and back to the integer value
of this double, which is the integer itself up to `2^53`. The way back fails exactly for the
integers that are rounded up to `2^63`. -/
theorem float2int_int2float (n : Int64) :
    ∃ x, int2float (.int n) = .ok (.float x) ∧
      IsNearest x n.toInt ∧ (∀ y, IsNearest y n.toInt → toRat y = toRat x) ∧
      (2 ^ 63 - 512 ≤ n.toInt → float2int (.float x) = .error (.badValue (.noInteger x))) ∧
      (n.toInt < 2 ^ 63 - 512 → ∃ k : Int64, float2int (.float x) = .ok (.int k) ∧
        toRat x = k.toInt) ∧
      (|n.toInt| ≤ 2 ^ 53 → float2int (.float x) = .ok (.int n)) := by
  have nearest := isNearest_ofInt64 n
  obtain ⟨k, value⟩ := nearest.exists_toRat_eq_intCast
  have reaches : 2 ^ 63 ≤ k ↔ 2 ^ 63 - 512 ≤ n.toInt := by
    have iff := @IsNearest.reaches_iff _ _ 10 nearest (by decide) (by decide)
    rw [value] at iff
    norm_num at iff ⊢
    exact_mod_cast iff
  have least : -2 ^ 63 ≤ k := by
    obtain ⟨y, finite, bottom⟩ :=
      exists_toRat_eq_neg (@exists_toRat_eq_twoPow 10 (by decide) (by decide))
    have low : (-2 ^ 63 : ℚ) ≤ n.toInt := by exact_mod_cast n.le_toInt
    have reached := nearest.le_toRat finite (by rw [bottom]; linarith)
    rw [bottom, value] at reached
    norm_num at reached ⊢
    exact_mod_cast reached
  refine ⟨ofInt64 n, rfl, nearest, fun y other => other.unique nearest, ?_, ?_, ?_⟩
  · intro large
    exact float2int_of_limit_le nearest.finite value (reaches.mpr large)
  · intro small
    have below : k < 2 ^ 63 := not_le.mp (mt reaches.mp (not_le.mpr small))
    obtain ⟨k', rfl⟩ : ∃ k' : Int64, k'.toInt = k :=
      ⟨Int64.ofInt k, Int64.toInt_ofInt_of_le least below⟩
    exact ⟨k', float2int_of_toRat_eq nearest.finite value, value⟩
  · intro small
    rw [Int.abs_eq_natAbs] at small
    obtain ⟨y, finite, same⟩ := @exists_toRat_eq_intCast n.toInt (by omega)
    exact float2int_of_toRat_eq nearest.finite (nearest.toRat_eq finite same)

/-- The greatest integer that has a way back is rounded down to a multiple of `1024`, the next one
is rounded up to `2^63` and has none, and `-2^53` comes back as it is. -/
theorem float2int_int2float_at_limits :
    (∃ x, int2float (.int 9223372036854775295) = .ok (.float x) ∧
        float2int (.float x) = .ok (.int 9223372036854774784) ∧
          toRat x = (9223372036854774784 : Int64).toInt) ∧
      (∃ x, int2float (.int 9223372036854775296) = .ok (.float x) ∧
        float2int (.float x) = .error (.badValue (.noInteger x))) ∧
      ∃ x, int2float (.int (-9007199254740992)) = .ok (.float x) ∧
        float2int (.float x) = .ok (.int (-9007199254740992)) := by
  refine ⟨?_, ?_, ?_⟩
  · obtain ⟨x, converted, -, -, -, back, -⟩ := float2int_int2float 9223372036854775295
    obtain ⟨k, found, value⟩ := back (by decide)
    have computed : float2int (.float x) = .ok (.int 9223372036854774784) := by
      cases converted
      rfl
    rw [found] at computed
    cases computed
    exact ⟨x, converted, found, value⟩
  · obtain ⟨x, converted, -, -, fails, -⟩ := float2int_int2float 9223372036854775296
    exact ⟨x, converted, fails (by decide)⟩
  · obtain ⟨x, converted, -, -, -, -, same⟩ := float2int_int2float (-9007199254740992)
    exact ⟨x, converted, same (by decide)⟩

end Value

end FrameCode
