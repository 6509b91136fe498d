import FrameCode.Proofs.Binary64.Nearest

/-!
Rounding of integers to doubles. Shifting an integer to the right keeps track of what is shifted out
(`IsShifted`), so its rounded significand is the nearest multiple of the unit in the last place
(`IsShifted.isRounded`), and that is the nearest double, because the doubles that are no multiples
of this unit are too small (`IsRounded.isNearest`). So integers are converted to the double nearest
to them (`isNearest_ofInt64`).
-/

namespace FrameCode.Binary64

open Float.Model Float.Model.UnpackedFloat

/-! ### Nearest multiples of a unit -/

/-- The multiple of the unit is at most half a unit away from the number, and if it is just as far
the factor is even. -/
structure IsRounded (q unit : ℚ) (m : ℕ) : Prop where
  near : |m * unit - q| ≤ unit / 2
  even : |m * unit - q| = unit / 2 → Even m

section Multiples

variable {x : Float} {q unit : ℚ} {m : ℕ} {j t : ℤ}

/-- All other multiples are at least half a unit away. -/
theorem IsRounded.half_le (rounded : IsRounded q unit m) (positive : 0 < unit) (other : j ≠ m) :
    unit / 2 ≤ |j * unit - q| := by
  have apart : (1 : ℚ) ≤ |(j : ℚ) - m| := by
    have nonzero : 0 < |j - m| := abs_pos.mpr (sub_ne_zero.mpr other)
    exact_mod_cast nonzero
  have between : unit ≤ |j * unit - m * unit| := by
    rw [← sub_mul, abs_mul, abs_of_pos positive]
    exact le_mul_of_one_le_left positive.le apart
  have triangle := abs_sub_le (j * unit) q (m * unit)
  have near := rounded.near
  rw [abs_sub_comm q] at triangle
  linarith

/-- No other multiple of the unit is closer. -/
theorem IsRounded.nearest (rounded : IsRounded q unit m) (positive : 0 < unit) (j : ℤ) :
    |m * unit - q| ≤ |j * unit - q| := by
  by_cases same : j = m
  · rw [same, Int.cast_natCast]
  · exact rounded.near.trans (rounded.half_le positive same)

/-- A double that is the nearest multiple of a unit is the nearest double, if the number is so large
that there are no doubles between the multiples. -/
theorem IsRounded.isNearest (rounded : IsRounded q (2 ^ t) m) (large : 2 ^ 52 * 2 ^ t ≤ q)
    (finite : isFinite x) (value : toRat x = m * 2 ^ t) (even : Even m → Even (significand x)) :
    IsNearest x q := by
  have positive : (0 : ℚ) < 2 ^ t := zpow_pos two_pos t
  -- a double that is no multiple is below a multiple that is itself below the number
  have below : ∀ y, isFinite y → exponent y < t → |m * 2 ^ t - q| < |toRat y - q| := by
    intro y finite' less
    have small := magnitude_lt finite' less
    rw [magnitude_eq_abs] at small
    have least := rounded.nearest positive (2 ^ 52 : ℕ)
    rw [Int.cast_natCast, Nat.cast_pow, Nat.cast_ofNat] at least
    rw [abs_of_nonpos (by linarith : 2 ^ 52 * 2 ^ t - q ≤ 0)] at least
    have size := le_abs_self (toRat y)
    rw [abs_of_nonpos (by linarith : toRat y - q ≤ 0)]
    linarith
  rw [← value] at below
  refine ⟨finite, fun y finite' => ?_, fun y finite' other tie => ?_⟩
  · rcases lt_or_ge (exponent y) t with less | le
    · exact (below y finite' less).le
    · obtain ⟨j, multiple⟩ := exists_toRat_eq le
      rw [value, multiple]
      exact rounded.nearest positive j
  · rcases lt_or_ge (exponent y) t with less | le
    · exact absurd tie (below y finite' less).ne'
    · obtain ⟨j, multiple⟩ := exists_toRat_eq le
      have different : j ≠ m := by
        rintro rfl
        exact other (by rw [multiple, value, Int.cast_natCast])
      have far := rounded.half_le positive different
      rw [← multiple, tie, value] at far
      exact even (rounded.even (le_antisymm rounded.near far))

end Multiples

/-! ### Shifting -/

/-- The bits that were shifted out of a number are a remainder, of which is known whether it is
zero, less than half, half or more. -/
structure IsShifted (n k : ℕ) (em : ExtendedMantissa) (r : ℕ) : Prop where
  eq : n = em.mantissa * 2 ^ k + r
  lt : r < 2 ^ k
  roundBit : em.roundBit = true ↔ 2 ^ k ≤ 2 * r
  stickyBit : em.stickyBit = true ↔ r ≠ 0 ∧ 2 * r ≠ 2 ^ k

section Shifting

variable {n k r m : ℕ} {e : ℤ} {em : ExtendedMantissa}

/-- Shifting by one more place moves a bit into the remainder. -/
theorem IsShifted.shiftRightOne (shifted : IsShifted n k em r) :
    IsShifted n (k + 1) em.shiftRightOne (em.mantissa % 2 * 2 ^ k + r) := by
  obtain ⟨eq, lt, roundBit, stickyBit⟩ := shifted
  have halved : em.mantissa * 2 ^ k =
      em.mantissa / 2 * (2 * 2 ^ k) + em.mantissa % 2 * 2 ^ k := by
    nth_rw 1 [← Nat.div_add_mod em.mantissa 2]
    ring
  refine ⟨?_, ?_, ?_, ?_⟩
  · rw [Nat.pow_succ', ← Nat.add_assoc, ExtendedMantissa.shiftRightOne, ← halved, eq]
  · rcases Nat.mod_two_eq_zero_or_one em.mantissa with bit | bit
    all_goals
      rw [bit, Nat.pow_succ']
      omega
  · have last : em.shiftRightOne.roundBit = true ↔ em.mantissa % 2 = 1 := by
      simp [ExtendedMantissa.shiftRightOne]
    rw [last, Nat.pow_succ']
    rcases Nat.mod_two_eq_zero_or_one em.mantissa with bit | bit
    all_goals
      rw [bit]
      omega
  · have bits : em.shiftRightOne.stickyBit = true ↔ em.roundBit = true ∨ em.stickyBit = true := by
      simp [ExtendedMantissa.shiftRightOne]
    rw [bits, roundBit, stickyBit, Nat.pow_succ']
    rcases Nat.mod_two_eq_zero_or_one em.mantissa with bit | bit
    all_goals
      rw [bit]
      omega

/-- What is shifted out is remembered as a remainder. -/
theorem exists_isShifted (n k : ℕ) :
    ∃ r, IsShifted n k ((⟨n, false, false⟩ : ExtendedMantissa) >>> k) r := by
  change ∃ r, IsShifted n k (k.repeat ExtendedMantissa.shiftRightOne _) r
  induction k with
  | zero => exact ⟨0, by simp [Nat.repeat], by simp, by simp [Nat.repeat], by simp [Nat.repeat]⟩
  | succ k ih =>
      obtain ⟨r, shifted⟩ := ih
      exact ⟨_, shifted.shiftRightOne⟩

/-- Rounding goes by what was shifted out. -/
theorem IsShifted.isRounded (shifted : IsShifted n k em r) :
    IsRounded n (2 ^ k) em.roundedMantissa := by
  obtain ⟨eq, lt, roundBit, stickyBit⟩ := shifted
  obtain ⟨m, round, sticky⟩ := em
  have number : (n : ℚ) = m * 2 ^ k + r := by exact_mod_cast eq
  have down : |(m : ℚ) * 2 ^ k - n| = r := by
    rw [number, sub_add_cancel_left, abs_neg, Nat.abs_cast]
  have up : |((m + 1 : ℕ) : ℚ) * 2 ^ k - n| = 2 ^ k - r := by
    have bound : (r : ℚ) ≤ 2 ^ k := by exact_mod_cast lt.le
    rw [number, ← abs_of_nonneg (sub_nonneg.mpr bound)]
    congr 1
    push_cast
    ring
  have half : (2 ^ k / 2 : ℚ) ≤ r ↔ 2 ^ k ≤ 2 * r := by
    rw [div_le_iff₀ two_pos, mul_comm]
    exact_mod_cast Iff.rfl
  cases round with
  | false =>
      have less : (r : ℚ) < 2 ^ k / 2 := by
        rw [← not_le, half]
        simpa using roundBit
      have rounded : ExtendedMantissa.roundedMantissa ⟨m, false, sticky⟩ = m := by
        cases sticky with
        | false => rfl
        | true => rfl
      rw [rounded]
      exact ⟨down ▸ less.le, fun tie => absurd (down ▸ tie) less.ne⟩
  | true =>
      have reached : 2 ^ k ≤ 2 * r := by simpa using roundBit
      have most : (2 : ℚ) ^ k - r ≤ 2 ^ k / 2 := by linarith [half.mpr reached]
      cases sticky with
      | true =>
          change IsRounded n (2 ^ k) (m + 1)
          have beyond : 2 * r ≠ 2 ^ k := (stickyBit.mp rfl).2
          refine ⟨up ▸ most, fun tie => absurd ?_ beyond⟩
          rw [up] at tie
          have same : (2 * r : ℚ) = 2 ^ k := by linarith
          exact_mod_cast same
      | false =>
          change IsRounded n (2 ^ k) (m + m % 2)
          have tie : 2 * r = 2 ^ k := by
            have power := Nat.two_pow_pos k
            have exact : r = 0 ∨ 2 * r = 2 ^ k := by simpa [or_iff_not_imp_left] using stickyBit
            omega
          have least : (r : ℚ) ≤ 2 ^ k / 2 := by
            rw [le_div_iff₀ two_pos, mul_comm]
            exact_mod_cast tie.le
          rcases Nat.mod_two_eq_zero_or_one m with bit | bit
          · rw [bit]
            exact ⟨down ▸ least, fun _ => Nat.even_iff.mpr bit⟩
          · rw [bit]
            exact ⟨up ▸ most, fun _ => Nat.even_iff.mpr (by omega)⟩

end Shifting

/-! ### Integers -/

section Integers

variable {n k j m : ℕ}

/-- A number of which `k` bits are shifted out keeps fifty-three bits, unless it is rounded up to a
power of two. -/
theorem IsRounded.bounds (rounded : IsRounded n (2 ^ k) m) (low : 2 ^ 52 * 2 ^ k ≤ n)
    (high : n < 2 ^ 53 * 2 ^ k) : 2 ^ 52 ≤ m ∧ m ≤ 2 ^ 53 := by
  have unit : (0 : ℚ) < 2 ^ k := pow_pos two_pos k
  have low' : (2 : ℚ) ^ 52 * 2 ^ k ≤ n := by exact_mod_cast low
  have high' : (n : ℚ) < 2 ^ 53 * 2 ^ k := by exact_mod_cast high
  obtain ⟨below, above⟩ := abs_le.mp rounded.near
  constructor
  · by_contra less
    have most : (m : ℚ) ≤ 2 ^ 52 - 1 := by
      rw [le_sub_iff_add_le]
      exact_mod_cast Nat.lt_of_not_le less
    have product := mul_le_mul_of_nonneg_right most unit.le
    linarith
  · by_contra more
    have least : (2 : ℚ) ^ 53 + 1 ≤ m := by exact_mod_cast Nat.lt_of_not_le more
    have product := mul_le_mul_of_nonneg_right least unit.le
    linarith

/-- A significand that was rounded up to a power of two has one bit too many, which is zero. -/
theorem exists_canonical_of_bounds (low : 2 ^ 52 ≤ m) (high : m ≤ 2 ^ 53) (k : ℕ) :
    ∃ m' j, Canonical m' (k + j : ℕ) ∧ j ≤ 1 ∧ m = m' * 2 ^ j ∧ (Even m → Even m') := by
  rcases Nat.lt_or_eq_of_le high with less | rfl
  · exact ⟨m, 0, ⟨less, by omega, .inl low⟩, Nat.zero_le 1, (Nat.mul_one m).symm, id⟩
  · exact ⟨2 ^ 52, 1, ⟨by decide, by omega, .inl (Nat.le_refl _)⟩, Nat.le_refl 1, by decide,
      fun _ => by decide⟩

/-- An integer of `53 + k` bits is rounded to multiples of `2^k`. -/
theorem targetExponent_natCast (low : 2 ^ 52 * 2 ^ k ≤ n) (high : n < 2 ^ 53 * 2 ^ k) :
    Format.binary64.targetExponent (totalExponent n 0) = k := by
  have positive : n ≠ 0 := by
    have := Nat.two_pow_pos k
    omega
  have bits : n.log2 = 52 + k := by
    rw [Nat.log2_eq_iff positive, Nat.pow_add, Nat.add_right_comm, Nat.pow_add]
    exact ⟨low, high⟩
  have width : (Format.binary64.mantissaBits : Int) = 53 := rfl
  have bottom : Format.binary64.minExponent = -1074 := rfl
  rw [Format.targetExponent, totalExponent, bits, width, bottom]
  omega

/-- A large number is rounded once; making the result canonical loses nothing. -/
theorem round_natCast (low : 2 ^ 52 * 2 ^ k ≤ n) (high : n < 2 ^ 53 * 2 ^ k)
    (rounded : ((⟨n, false, false⟩ : ExtendedMantissa) >>> k).roundedMantissa = m * 2 ^ j)
    (canonical : Canonical m (k + j)) (positive : 0 < m) (sign : Sign) :
    UnpackedFloat.round Format.binary64 sign n 0 = .finite sign m (k + j) positive := by
  have nonzero : m ≠ 0 := Nat.ne_of_gt positive
  have target := targetExponent_natCast low high
  have stays : (0 - (k : Int)).toNat = 0 := by omega
  have first : shiftToTargetExponent Format.binary64 n 0 .exact =
      ((⟨n, false, false⟩ : ExtendedMantissa) >>> k, (k : Int)) := by
    rw [shiftToTargetExponent, target, shiftToExponent]
    simp [ExtendedMantissa.ofMantissaAndAccuracy]
  simp only [UnpackedFloat.round, target, decreaseExponent, stays, Nat.shiftLeft_zero,
    Int.sub_zero, Nat.cast_zero]
  unfold roundWithAccuracy
  simp only [first, rounded, shiftToTargetExponent_scaled canonical nonzero, nonzero, dite_false]

/-- A natural number is converted to the nearest double. -/
theorem isNearest_toFloat (small : n < 2 ^ 64) : IsNearest n.toUInt64.toFloat n := by
  rcases Nat.lt_or_ge n (2 ^ 53) with few | many
  · have stands := standsFor_toFloat few
    exact isNearest_of_toRat_eq stands.finite stands.toRat_eq
  · obtain ⟨k, low, high, shift⟩ : ∃ k, 2 ^ 52 * 2 ^ k ≤ n ∧ n < 2 ^ 53 * 2 ^ k ∧ k ≤ 11 := by
      have nonzero : n ≠ 0 := by omega
      have least : 53 ≤ n.log2 := (Nat.le_log2 nonzero).mpr many
      have most : n.log2 < 64 := (Nat.log2_lt nonzero).mpr small
      obtain ⟨lower, upper⟩ := (Nat.log2_eq_iff nonzero).mp rfl
      obtain ⟨k, bits⟩ := Nat.exists_eq_add_of_le (by omega : 52 ≤ n.log2)
      rw [bits, Nat.pow_add] at lower
      rw [bits, Nat.add_right_comm, Nat.pow_add] at upper
      exact ⟨k, lower, upper, by omega⟩
    obtain ⟨r, shifted⟩ := exists_isShifted n k
    have rounded := shifted.isRounded
    obtain ⟨least, most⟩ := rounded.bounds low high
    obtain ⟨m, j, canonical, carry, same, even⟩ := exists_canonical_of_bounds least most k
    rw [Nat.cast_add] at canonical
    have positive : 0 < m := by
      refine Nat.pos_of_ne_zero fun zero => ?_
      rw [same, zero, Nat.zero_mul] at least
      omega
    have parts : n.toUInt64.toFloat = ofParts false m (k + j) := by
      rw [toFloat_eq small, normalize_of_pos (by omega),
        round_natCast low high same canonical positive, ofParts, unpacked_of_pos positive]
      rfl
    obtain ⟨finite, sign, significand, exponent⟩ := parts_ofParts canonical (by omega) false
    have value : toRat (ofParts false m (k + j)) = (m * 2 ^ j : ℕ) * 2 ^ (k : ℤ) := by
      rw [toRat, sign, magnitude, significand, exponent, zpow_add₀ two_ne_zero, zpow_natCast,
        zpow_natCast]
      push_cast
      ring
    rw [parts]
    rw [same, ← zpow_natCast] at rounded
    refine rounded.isNearest ?_ finite value ?_
    · rw [zpow_natCast]
      exact_mod_cast low
    · rw [significand, ← same]
      exact even

/-- An integer is converted to the nearest double. -/
theorem isNearest_ofInt64 (n : Int64) : IsNearest (ofInt64 n) n.toInt := by
  have low := n.le_toInt
  have high := n.toInt_lt
  have nearest : IsNearest n.toInt.natAbs.toUInt64.toFloat n.toInt.natAbs :=
    isNearest_toFloat (by omega)
  have zero : (0 : Int64).toInt = 0 := rfl
  unfold ofInt64
  split
  · next negative =>
    rw [Int64.lt_iff_toInt_lt, zero] at negative
    have size : ((n.toInt.natAbs : ℕ) : ℚ) = -n.toInt := by
      rw [Nat.cast_natAbs, abs_of_neg negative, Int.cast_neg]
    rw [size] at nearest
    simpa using nearest.neg
  · next nonneg =>
    rw [Int64.lt_iff_toInt_lt, zero, not_lt] at nonneg
    rwa [Nat.cast_natAbs, abs_of_nonneg nonneg] at nearest

end Integers

end FrameCode.Binary64
