import FrameCode.Proofs.Binary64.ExactArithmetic

/-!
Nearest doubles. A double is nearest to a number if no finite double is nearer, and if its
significand is even where another one is just as near (`IsNearest`). Doubles on both sides of a
number enclose the nearest one (`IsNearest.le_toRat`, `IsNearest.toRat_le`). Neighbouring doubles
have significands of different parity (`exists_predecessor`), so there is only one nearest value
(`IsNearest.unique`), and a power of two is reached as soon as the number is half way between this
power and the double below it (`IsNearest.reaches_iff`).
-/

namespace FrameCode.Binary64

variable {x y : Float} {q : ℚ} {m : ℕ} {n e t : ℤ}

/-! ### Doubles and their values -/

/-- Negation keeps a double finite and changes its sign alone. -/
theorem parts_neg (finite : isFinite x) :
    isFinite (-x) ∧ isNegative (-x) = !isNegative x ∧ significand (-x) = significand x ∧
      exponent (-x) = exponent x := by
  obtain ⟨canonical, most⟩ := canonical_parts finite
  rw [neg_eq_ofParts finite]
  exact parts_ofParts canonical most _

/-- Negation negates the value. -/
theorem toRat_neg (finite : isFinite x) : toRat (-x) = -toRat x := by
  obtain ⟨-, sign, significands, exponents⟩ := parts_neg finite
  rw [toRat, toRat, magnitude, magnitude, sign, significands, exponents]
  cases isNegative x with
  | true => simp
  | false => simp

/-- A double whose exponent is not less is a multiple of the unit. -/
theorem exists_toRat_eq (le : t ≤ exponent x) : ∃ j : ℤ, toRat x = j * 2 ^ t := by
  have scaled := @scaled_down (significand x) _ _ le
  refine ⟨if isNegative x then -(significand x * 2 ^ (exponent x - t).toNat : ℕ)
    else (significand x * 2 ^ (exponent x - t).toNat : ℕ), ?_⟩
  rw [toRat, magnitude, ← scaled]
  split
  · push_cast
    ring
  · push_cast
    ring

/-- A double whose exponent is less is small. -/
theorem magnitude_lt (finite : isFinite x) (less : exponent x < t) :
    magnitude x < 2 ^ 52 * 2 ^ t := by
  have bits : (significand x : ℚ) < 2 ^ 53 := by exact_mod_cast (canonical_parts finite).1.lt
  have high : (2 : ℚ) ^ exponent x ≤ 2 ^ (t - 1) := zpow_le_zpow_right₀ one_le_two (by omega)
  calc magnitude x < 2 ^ 53 * 2 ^ exponent x :=
        mul_lt_mul_of_pos_right bits (zpow_pos two_pos _)
    _ ≤ 2 ^ 53 * 2 ^ (t - 1) := mul_le_mul_of_nonneg_left high (pow_nonneg zero_le_two 53)
    _ = 2 ^ 52 * 2 ^ t := by
      rw [← sub_add_cancel t 1, zpow_add_one₀ two_ne_zero, add_sub_cancel_right]
      ring

/-- A significand of fifty-three bits and an exponent in the range of doubles make up a double. -/
theorem exists_toRat_eq_scaled (small : m < 0x20000000000000) (least : -1074 ≤ e) (most : e ≤ 971) :
    ∃ y, isFinite y ∧ toRat y = m * 2 ^ e := by
  obtain ⟨m', e', canonical, same⟩ := IsShort.exists_canonical ⟨m, e, small, least, rfl⟩
  have stands := canonical.standsFor (same ▸ scaled_lt_limit small most)
  exact ⟨_, stands.finite, stands.toRat_eq.trans same.symm⟩

theorem exists_toRat_eq_neg (exists_eq : ∃ y, isFinite y ∧ toRat y = q) :
    ∃ y, isFinite y ∧ toRat y = -q := by
  obtain ⟨y, finite, value⟩ := exists_eq
  exact ⟨-y, (parts_neg finite).1, by rw [toRat_neg finite, value]⟩

/-- The powers of two in the range of doubles. -/
theorem exists_toRat_eq_twoPow (least : -1074 ≤ t) (most : t ≤ 970) :
    ∃ y, isFinite y ∧ toRat y = 2 ^ 53 * 2 ^ t := by
  obtain ⟨y, finite, value⟩ :=
    @exists_toRat_eq_scaled 0x10000000000000 (t + 1) (by decide) (by omega) (by omega)
  refine ⟨y, finite, ?_⟩
  rw [value, zpow_add_one₀ two_ne_zero]
  push_cast
  ring

/-- Integers up to `2^53` are doubles. -/
theorem exists_toRat_eq_intCast (small : n.natAbs ≤ 2 ^ 53) : ∃ y, isFinite y ∧ toRat y = n := by
  have natural : ∃ y, isFinite y ∧ toRat y = n.natAbs := by
    rcases Nat.lt_or_eq_of_le small with less | eq
    · simpa using @exists_toRat_eq_scaled _ 0 less (by decide) (by decide)
    · rw [eq, Nat.cast_pow, Nat.cast_ofNat]
      simpa using @exists_toRat_eq_twoPow 0 (by decide) (by decide)
  rw [Nat.cast_natAbs] at natural
  rcases abs_choice n with same | same
  · rwa [same] at natural
  · rw [same] at natural
    simpa using exists_toRat_eq_neg natural

/-! ### Nearest doubles -/

/-- No finite double is nearer to the number, and where another one is as near, the significand is
even. -/
structure IsNearest (x : Float) (q : ℚ) : Prop where
  finite : isFinite x
  nearest : ∀ y, isFinite y → |toRat x - q| ≤ |toRat y - q|
  even : ∀ y, isFinite y → toRat y ≠ toRat x → |toRat y - q| = |toRat x - q| →
    Even (significand x)

/-- A double that is the number itself is nearest to it. -/
theorem isNearest_of_toRat_eq (finite : isFinite x) (value : toRat x = q) : IsNearest x q := by
  have exact : |toRat x - q| = 0 := by rw [value, sub_self, abs_zero]
  refine ⟨finite, fun y _ => ?_, fun y _ other tie => ?_⟩
  · rw [exact]
    exact abs_nonneg _
  · rw [exact, abs_eq_zero, sub_eq_zero] at tie
    exact absurd (tie.trans value.symm) other

/-- A double that is not below the number is not below the nearest one. -/
theorem IsNearest.toRat_le (nearest : IsNearest x q) (finite : isFinite y) (le : q ≤ toRat y) :
    toRat x ≤ toRat y := by
  by_contra less
  have closer := nearest.nearest y finite
  rw [abs_of_nonneg (by linarith), abs_of_nonneg (by linarith)] at closer
  linarith

/-- A double that is not above the number is not above the nearest one. -/
theorem IsNearest.le_toRat (nearest : IsNearest x q) (finite : isFinite y) (le : toRat y ≤ q) :
    toRat y ≤ toRat x := by
  by_contra less
  have closer := nearest.nearest y finite
  rw [abs_of_nonpos (by linarith), abs_of_nonpos (by linarith)] at closer
  linarith

/-- A double that is equal to the number is equal to the nearest one. -/
theorem IsNearest.toRat_eq (nearest : IsNearest x q) (finite : isFinite y) (value : toRat y = q) :
    toRat x = q :=
  value ▸ le_antisymm (nearest.toRat_le finite value.ge) (nearest.le_toRat finite value.le)

/-- Rounding does not depend on the sign. -/
theorem IsNearest.neg (nearest : IsNearest x q) : IsNearest (-x) (-q) := by
  obtain ⟨finite, -, significands, -⟩ := parts_neg nearest.finite
  have reflect (a : ℚ) : |-a - q| = |a - -q| := by
    rw [← abs_neg]
    congr 1
    ring
  refine ⟨finite, fun y finite' => ?_, fun y finite' other tie => ?_⟩
  · have closer := nearest.nearest (-y) (parts_neg finite').1
    rwa [toRat_neg finite', reflect, ← neg_neg (toRat x), ← toRat_neg nearest.finite, reflect]
      at closer
  · rw [significands]
    rw [toRat_neg nearest.finite] at other tie
    refine nearest.even (-y) (parts_neg finite').1 ?_ ?_
    · rw [toRat_neg finite']
      exact fun same => other (by rw [← same, neg_neg])
    · rw [toRat_neg finite', reflect, tie, ← reflect, neg_neg]

/-! ### Neighbours -/

/-- The significand can be read off the value. -/
theorem significand_eq (finite : isFinite x) (canonical : Canonical m t)
    (value : toRat x = m * 2 ^ t) : significand x = m := by
  have same : magnitude x = m * 2 ^ t := by
    rw [magnitude_eq_abs, value, abs_of_nonneg]
    exact mul_nonneg (Nat.cast_nonneg m) (zpow_nonneg zero_le_two t)
  exact ((canonical_parts finite).1.unique canonical same).1

/-- There is no double between the values of two successive significands. -/
theorem Canonical.toRat_le (canonical : Canonical m t) (finite : isFinite x)
    (less : toRat x < (m + 1) * 2 ^ t) : toRat x ≤ m * 2 ^ t := by
  have positive : (0 : ℚ) < 2 ^ t := zpow_pos two_pos t
  rcases lt_or_ge (exponent x) t with lower | higher
  · have least := (canonical_parts finite).1.least
    have normal : (2 : ℚ) ^ 52 ≤ m := by
      exact_mod_cast canonical.normal.resolve_right (by omega)
    calc toRat x ≤ magnitude x := by
          rw [magnitude_eq_abs]
          exact le_abs_self _
      _ ≤ 2 ^ 52 * 2 ^ t := (magnitude_lt finite lower).le
      _ ≤ m * 2 ^ t := mul_le_mul_of_nonneg_right normal positive.le
  · obtain ⟨j, multiple⟩ := exists_toRat_eq higher
    rw [multiple] at less ⊢
    have below : (j : ℚ) < m + 1 := lt_of_mul_lt_mul_right less positive.le
    have most : j ≤ m := by
      have below' : j < m + 1 := by exact_mod_cast below
      omega
    exact mul_le_mul_of_nonneg_right (by exact_mod_cast most) positive.le

/-- Below a positive double there is one whose significand is of the other parity: it is less by
one, or the double is a power of two and the other one has all its bits set. -/
theorem exists_predecessor (finite : isFinite y) (positive : 0 < toRat y) :
    ∃ m t, Canonical m t ∧ t ≤ 971 ∧ toRat y = (m + 1) * 2 ^ t ∧
      (Even (significand y) → ¬ Even m) := by
  obtain ⟨canonical, most⟩ := canonical_parts finite
  have value : toRat y = significand y * 2 ^ exponent y := by
    change toRat y = magnitude y
    rw [magnitude_eq_abs, abs_of_pos positive]
  obtain ⟨m, eq⟩ : ∃ m, significand y = m + 1 := by
    refine Nat.exists_eq_succ_of_ne_zero fun zero => ?_
    rw [value, zero, Nat.cast_zero, zero_mul] at positive
    exact lt_irrefl 0 positive
  obtain ⟨lt, least, normal⟩ := canonical
  rw [eq] at lt normal value ⊢
  by_cases first : m + 1 = 0x10000000000000 ∧ -1074 < exponent y
  · refine ⟨0x1FFFFFFFFFFFFF, exponent y - 1, ⟨by decide, by omega, .inl (by decide)⟩, by omega,
      ?_, fun _ => by decide⟩
    rw [value, first.1, zpow_sub_one₀ two_ne_zero]
    push_cast
    ring
  · refine ⟨m, exponent y, ⟨by omega, least, by omega⟩, most, by rw [value, Nat.cast_succ], ?_⟩
    exact fun even odd => Nat.not_even_iff_odd.mpr odd.add_one even

/-- Of two nearest doubles the greater one is not positive: the lesser one would have to be just
below it, and the significands of both would be even. -/
theorem IsNearest.not_lt_of_pos (nearest : IsNearest x q) (nearest' : IsNearest y q)
    (positive : 0 < toRat y) : ¬ toRat x < toRat y := by
  intro less
  have tie : |toRat y - q| = |toRat x - q| :=
    le_antisymm (nearest'.nearest x nearest.finite) (nearest.nearest y nearest'.finite)
  have middle : toRat y - q = q - toRat x := by
    rcases abs_eq_abs.mp tie with same | opposite
    · linarith
    · linarith
  obtain ⟨m, t, canonical, most, value, odd⟩ := exists_predecessor nearest'.finite positive
  obtain ⟨z, finite, below⟩ := exists_toRat_eq_scaled canonical.lt canonical.least most
  have unit : (0 : ℚ) < 2 ^ t := zpow_pos two_pos t
  have lower : toRat x ≤ m * 2 ^ t := canonical.toRat_le nearest.finite (value ▸ less)
  have upper : m * 2 ^ t ≤ toRat x := by
    by_contra between
    have closer := nearest.nearest z finite
    rw [below, abs_of_nonpos (by linarith : toRat x - q ≤ 0)] at closer
    exact absurd closer (not_le.mpr (abs_lt.mpr ⟨by linarith, by linarith⟩))
  have even := nearest.even y nearest'.finite less.ne' tie
  rw [significand_eq nearest.finite canonical (le_antisymm lower upper)] at even
  exact odd (nearest'.even x nearest.finite less.ne tie.symm) even

/-- No nearest double lies above another: in a tie both would have even significands. -/
theorem IsNearest.le (nearest : IsNearest x q) (nearest' : IsNearest y q) :
    toRat y ≤ toRat x := by
  by_contra more
  have less := not_le.mp more
  rcases lt_or_ge 0 (toRat y) with positive | nonpos
  · exact nearest.not_lt_of_pos nearest' positive less
  · refine nearest'.neg.not_lt_of_pos nearest.neg ?_ ?_
    · rw [toRat_neg nearest.finite]
      linarith
    · rw [toRat_neg nearest.finite, toRat_neg nearest'.finite]
      linarith

/-- All doubles that are nearest to a number have one value. -/
theorem IsNearest.unique (nearest : IsNearest x q) (nearest' : IsNearest y q) :
    toRat x = toRat y :=
  le_antisymm (nearest'.le nearest) (nearest.le nearest')

/-! ### Rounding up to a power of two -/

/-- The nearest double reaches a power of two as soon as the number is half way between this power
and the double below it: of these two, the power has the even significand. -/
theorem IsNearest.reaches_iff (nearest : IsNearest x q) (least : -1074 ≤ t) (most : t ≤ 970) :
    2 ^ 53 * 2 ^ t ≤ toRat x ↔ (2 ^ 53 - 1 / 2) * 2 ^ t ≤ q := by
  have positive : (0 : ℚ) < 2 ^ t := zpow_pos two_pos t
  have canonical : Canonical 0x1FFFFFFFFFFFFF t := ⟨by decide, least, .inl (by decide)⟩
  have scale : ((0x1FFFFFFFFFFFFF : ℕ) : ℚ) = 2 ^ 53 - 1 := by norm_num
  obtain ⟨power, finite, power_eq⟩ := exists_toRat_eq_twoPow least most
  constructor
  · intro reached
    obtain ⟨below, finite', below_eq⟩ := exists_toRat_eq_scaled canonical.lt least (by omega)
    rw [scale] at below_eq
    by_contra less
    rcases le_total q (toRat below) with le | ge
    · have bound := nearest.toRat_le finite' le
      linarith
    · have closer := nearest.nearest below finite'
      rw [abs_of_nonneg (by linarith), abs_of_nonpos (by linarith)] at closer
      linarith
  · intro half
    by_contra less
    have gap : toRat x ≤ (2 ^ 53 - 1) * 2 ^ t := by
      rw [← scale]
      refine canonical.toRat_le nearest.finite ?_
      rw [scale, sub_add_cancel]
      exact not_le.mp less
    have above : 0 ≤ toRat power - q := by
      by_contra more
      exact less (power_eq ▸ nearest.le_toRat finite (by linarith))
    have below : toRat x - q ≤ 0 := by linarith
    have closer := nearest.nearest power finite
    rw [abs_of_nonpos below, abs_of_nonneg above] at closer
    have value : toRat x = (2 ^ 53 - 1) * 2 ^ t := by linarith
    have tie : |toRat power - q| = |toRat x - q| := by
      rw [abs_of_nonpos below, abs_of_nonneg above]
      linarith
    have different : toRat power ≠ toRat x := fun same => less (by rw [← same, power_eq])
    have even := nearest.even power finite different tie
    rw [significand_eq nearest.finite canonical (scale ▸ value)] at even
    exact absurd even (by decide)

end FrameCode.Binary64
