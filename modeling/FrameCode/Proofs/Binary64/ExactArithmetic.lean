import FrameCode.Proofs.Binary64.Values

/-!
Arithmetic of doubles where it is exact. A number with canonical parts is not changed by rounding
(`round_of_canonical`), so sums and products of nonnegative doubles are exact as soon as they are
doubles themselves (`StandsFor.add`, `StandsFor.mul`), and so are small integers and powers of two
(`standsFor_toFloat`, `standsFor_twoPow`). A product with few enough significant bits that is too
large is infinite (`StandsFor.mul_eq_infinity`), and an infinity is kept by what is multiplied and
added to it afterwards.
-/

namespace FrameCode.Binary64

open Float.Model Float.Model.UnpackedFloat

/-! ### Rounding -/

section Rounding

variable {m n k : Nat} {e e' : Int}

/-- A number written with a smaller exponent. -/
theorem scaled_down (le : e' ≤ e) :
    ((m * 2 ^ (e - e').toNat : ℕ) : ℚ) * 2 ^ e' = m * 2 ^ e :=
  (scaled_eq_iff le).mpr rfl

/-- Zeros are shifted out without a trace. -/
theorem shiftRight_scaled (m k : Nat) :
    (⟨m * 2 ^ k, false, false⟩ : ExtendedMantissa) >>> k = ⟨m, false, false⟩ := by
  change k.repeat ExtendedMantissa.shiftRightOne _ = _
  induction k generalizing m with
  | zero => rw [Nat.repeat, Nat.pow_zero, Nat.mul_one]
  | succ k ih =>
      have split : m * 2 ^ (k + 1) = 2 * m * 2 ^ k := by ring
      rw [Nat.repeat, split, ih]
      simp [ExtendedMantissa.shiftRightOne]

/-- Doubling the significand raises the exponent of the whole by one. -/
theorem totalExponent_scaled (positive : m ≠ 0) :
    totalExponent (m * 2 ^ k) e = totalExponent m (e + k) := by
  have bits : (m * 2 ^ k).log2 = m.log2 + k := by
    rw [Nat.log2_eq_iff (Nat.mul_ne_zero positive (Nat.ne_of_gt (Nat.two_pow_pos k)))]
    obtain ⟨lower, upper⟩ := (Nat.log2_eq_iff positive).mp rfl
    constructor
    · rw [Nat.pow_add]
      exact Nat.mul_le_mul_right _ lower
    · rw [Nat.add_right_comm, Nat.pow_add]
      exact Nat.mul_lt_mul_of_pos_right upper (Nat.two_pow_pos k)
  rw [totalExponent, totalExponent, bits]
  omega

/-- Canonical parts have the exponent at which rounding aims. -/
theorem Canonical.targetExponent_eq (canonical : Canonical m e) (positive : m ≠ 0) :
    Format.binary64.targetExponent (totalExponent m e) = e := by
  have bits : (Format.binary64.mantissaBits : Int) = 53 := rfl
  have bottom : Format.binary64.minExponent = -1074 := rfl
  have upper : m.log2 < 53 := (Nat.log2_lt positive).mpr canonical.lt
  have lower : 52 ≤ m.log2 ↔ 0x10000000000000 ≤ m := Nat.le_log2 positive
  have least := canonical.least
  have normal := canonical.normal
  rw [Format.targetExponent, totalExponent, bits, bottom]
  omega

/-- A canonical value that is written with trailing zeros is shifted back without a loss. -/
theorem shiftToTargetExponent_scaled (canonical : Canonical m (e + k)) (positive : m ≠ 0) :
    shiftToTargetExponent Format.binary64 (m * 2 ^ k) e .exact =
      (⟨m, false, false⟩, e + k) := by
  have amount : (e + k - e).toNat = k := by omega
  rw [shiftToTargetExponent, totalExponent_scaled positive, canonical.targetExponent_eq positive,
    shiftToExponent, amount]
  exact Prod.ext (shiftRight_scaled m k) rfl

/-- A canonical value is rounded to itself, however it is written. -/
theorem roundWithAccuracy_scaled (canonical : Canonical m (e + k)) (positive : 0 < m)
    (sign : Sign) :
    roundWithAccuracy Format.binary64 sign (m * 2 ^ k) e .exact =
      .finite sign m (e + k) positive := by
  have nonzero : m ≠ 0 := Nat.ne_of_gt positive
  have again : shiftToTargetExponent Format.binary64 m (e + k) .exact =
      (⟨m, false, false⟩, e + k) := by
    have unshifted := @shiftToTargetExponent_scaled m 0 (e + k) (by simpa using canonical) nonzero
    simpa using unshifted
  have rounded : (⟨m, false, false⟩ : ExtendedMantissa).roundedMantissa = m := rfl
  unfold roundWithAccuracy
  simp only [shiftToTargetExponent_scaled canonical nonzero, rounded, again, nonzero, dite_false]

/-- Rounding finds the canonical parts of a number that has some. -/
theorem round_of_canonical (canonical : Canonical m e) (positive : 0 < m)
    (same : (n : ℚ) * 2 ^ e' = m * 2 ^ e) (sign : Sign) :
    UnpackedFloat.round Format.binary64 sign n e' = .finite sign m e positive := by
  have nonzero : m ≠ 0 := Nat.ne_of_gt positive
  rcases le_total e' e with le | le
  · -- bits are dropped that are zero
    obtain ⟨k, rfl⟩ : ∃ k : ℕ, e = e' + k := ⟨(e - e').toNat, by omega⟩
    have scaled : n = m * 2 ^ k := by
      have shifted := (scaled_eq_iff le).mp same
      rwa [show (e' + k - e').toNat = k by omega] at shifted
    subst scaled
    have stays : (e' - (e' + k)).toNat = 0 := by omega
    simp only [UnpackedFloat.round, totalExponent_scaled nonzero,
      canonical.targetExponent_eq nonzero, decreaseExponent, stays, Nat.shiftLeft_zero,
      Int.sub_zero, Nat.cast_zero]
    exact roundWithAccuracy_scaled canonical positive sign
  · -- zeros are appended
    obtain ⟨k, rfl⟩ : ∃ k : ℕ, e' = e + k := ⟨(e' - e).toNat, by omega⟩
    have scaled : m = n * 2 ^ k := by
      have shifted := (scaled_eq_iff le).mp same.symm
      rwa [show (e + k - e).toNat = k by omega] at shifted
    have nonzero' : n ≠ 0 := by
      rintro rfl
      simp at scaled
      omega
    have amount : (e + k - e).toNat = k := by omega
    have exponent : e + (k : Int) - k = e := by omega
    have total : totalExponent n (e + k) = totalExponent m e := by
      rw [scaled, totalExponent_scaled nonzero']
    have rounded := @roundWithAccuracy_scaled m 0 e (by simpa using canonical) positive sign
    simp only [UnpackedFloat.round, total, canonical.targetExponent_eq nonzero, decreaseExponent,
      amount, exponent, Nat.shiftLeft_eq, ← scaled]
    simpa using rounded

end Rounding

/-! ### Exact operations -/

section Operations

variable {x y : Float} {m m₁ m₂ n : Nat} {e e₁ e₂ : Int} {p q : ℚ}

theorem unpacked_zero (negative : Bool) (e : Int) :
    unpacked negative 0 e = .zero (signOf negative) :=
  dif_pos rfl

theorem unpacked_of_pos (positive : 0 < m) (negative : Bool) :
    unpacked negative m e = .finite (signOf negative) m e positive :=
  dif_neg (Nat.ne_of_gt positive)

theorem scaled_eq_zero_iff (m : ℕ) (e : ℤ) : (m : ℚ) * 2 ^ e = 0 ↔ m = 0 := by
  rw [mul_eq_zero_iff_right (zpow_ne_zero e two_ne_zero), Nat.cast_eq_zero]

/-- The exponents of two factors add up to no more than the exponent of the product: a product with
a normal factor has too many bits for less, and two subnormal numbers have the least exponent. -/
theorem Canonical.add_exponent_le (left : Canonical m₁ e₁) (right : Canonical m₂ e₂)
    (canonical : Canonical m e) (positive : 0 < m₁) (positive' : 0 < m₂)
    (same : ((m₁ * m₂ : ℕ) : ℚ) * 2 ^ (e₁ + e₂) = m * 2 ^ e) : e₁ + e₂ ≤ e := by
  by_contra more
  have scaled := (scaled_eq_iff (by omega)).mp same.symm
  have double : 2 ^ 1 ≤ 2 ^ (e₁ + e₂ - e).toNat := Nat.pow_le_pow_right (by decide) (by omega)
  have large : m₁ * m₂ * 2 ≤ m := scaled ▸ Nat.mul_le_mul_left _ double
  have small := canonical.lt
  have least := canonical.least
  rcases left.normal with normal | subnormal
  · have := Nat.mul_le_mul normal positive'
    omega
  rcases right.normal with normal | subnormal'
  · have := Nat.mul_le_mul positive normal
    omega
  · omega

/-- A product that can be written canonically is computed exactly. -/
theorem mul_unpacked (left : Canonical m₁ e₁) (right : Canonical m₂ e₂) (canonical : Canonical m e)
    (same : (m₁ * 2 ^ e₁ : ℚ) * (m₂ * 2 ^ e₂) = m * 2 ^ e) :
    UnpackedFloat.mul Format.binary64 (unpacked false m₁ e₁) (unpacked false m₂ e₂) =
      unpacked false m e := by
  rcases Nat.eq_zero_or_pos m₁ with rfl | positive
  · obtain rfl : m = 0 := (scaled_eq_zero_iff m e).mp (by simp [← same])
    rw [unpacked_zero, unpacked_zero, unpacked]
    split <;> rfl
  rcases Nat.eq_zero_or_pos m₂ with rfl | positive'
  · obtain rfl : m = 0 := (scaled_eq_zero_iff m e).mp (by simp [← same])
    rw [unpacked_zero, unpacked_zero, unpacked_of_pos positive]
    rfl
  have product : ((m₁ * m₂ : ℕ) : ℚ) * 2 ^ (e₁ + e₂) = m * 2 ^ e := by
    rw [← same, zpow_add₀ two_ne_zero]
    push_cast
    ring
  have le := left.add_exponent_le right canonical positive positive' product
  obtain ⟨k, rfl⟩ : ∃ k : ℕ, e = e₁ + e₂ + k := ⟨(e - (e₁ + e₂)).toNat, by omega⟩
  have scaled : m₁ * m₂ = m * 2 ^ k := by
    have shifted := (scaled_eq_iff le).mp product
    rwa [show (e₁ + e₂ + k - (e₁ + e₂)).toNat = k by omega] at shifted
  have positive'' : 0 < m := by
    have := Nat.mul_pos positive positive'
    rw [scaled] at this
    exact Nat.pos_of_mul_pos_right this
  rw [unpacked_of_pos positive, unpacked_of_pos positive', unpacked_of_pos positive'']
  change roundWithAccuracy Format.binary64 _ (m₁ * m₂) (e₁ + e₂) .exact = _
  rw [scaled]
  exact roundWithAccuracy_scaled canonical positive'' _

/-- Normalizing a positive significand is rounding it. -/
theorem normalize_of_pos (positive : 0 < n) (e : Int) :
    UnpackedFloat.normalize Format.binary64 n e .positive =
      UnpackedFloat.round Format.binary64 .positive n e := by
  have greater : compare (n : Int) 0 = .gt := by
    rw [Int.compare_eq_gt]
    omega
  simp only [UnpackedFloat.normalize, greater, Int.toNat_natCast]

/-- Whatever equals a canonical value is normalized to it. -/
theorem normalize_of_canonical (canonical : Canonical m e) (same : (n : ℚ) * 2 ^ e₁ = m * 2 ^ e) :
    UnpackedFloat.normalize Format.binary64 n e₁ .positive = unpacked false m e := by
  rcases Nat.eq_zero_or_pos m with rfl | positive
  · obtain rfl : n = 0 := (scaled_eq_zero_iff n e₁).mp (by simp [same])
    rw [unpacked_zero]
    rfl
  · have nonzero : n ≠ 0 := by
      rintro rfl
      exact Nat.ne_of_gt positive ((scaled_eq_zero_iff m e).mp (by simp [← same]))
    rw [unpacked_of_pos positive, normalize_of_pos (Nat.pos_of_ne_zero nonzero)]
    exact round_of_canonical canonical positive same _

/-- A sum that can be written canonically is computed exactly. -/
theorem add_unpacked (left : Canonical m₁ e₁) (right : Canonical m₂ e₂) (canonical : Canonical m e)
    (same : (m₁ * 2 ^ e₁ : ℚ) + m₂ * 2 ^ e₂ = m * 2 ^ e) :
    UnpackedFloat.add Format.binary64 (unpacked false m₁ e₁) (unpacked false m₂ e₂) =
      unpacked false m e := by
  rcases Nat.eq_zero_or_pos m₁ with rfl | positive
  · obtain ⟨rfl, rfl⟩ := right.unique canonical (by simpa using same)
    rw [unpacked_zero, unpacked]
    split <;> rfl
  rcases Nat.eq_zero_or_pos m₂ with rfl | positive'
  · obtain ⟨rfl, rfl⟩ := left.unique canonical (by simpa using same)
    rw [unpacked_zero, unpacked_of_pos positive]
    rfl
  -- both summands are brought to the smaller exponent
  have sum : ((m₁ * 2 ^ (e₁ - min e₁ e₂).toNat + m₂ * 2 ^ (e₂ - min e₁ e₂).toNat : ℕ) : ℚ) *
      2 ^ min e₁ e₂ = m * 2 ^ e := by
    rw [Nat.cast_add, add_mul, scaled_down (Int.min_le_left e₁ e₂),
      scaled_down (Int.min_le_right e₁ e₂), same]
  rw [unpacked_of_pos positive, unpacked_of_pos positive', ← normalize_of_canonical canonical sum,
    Nat.cast_add, ← Nat.shiftLeft_eq, ← Nat.shiftLeft_eq]
  rfl

/-- A double that stands for a number has no sign. -/
theorem StandsFor.unpack_eq (stands : StandsFor x q) :
    x.toModel.unpack = unpacked false (significand x) (exponent x) := by
  rw [Binary64.unpack_eq stands.finite, stands.nonneg]

/-- A product with canonical parts is put together from them. -/
theorem StandsFor.mul_eq (left : StandsFor x p) (right : StandsFor y q) (canonical : Canonical m e)
    (same : p * q = m * 2 ^ e) : x * y = ofParts false m e := by
  change Float.ofModel (.pack (UnpackedFloat.mul _ x.toModel.unpack y.toModel.unpack)) = _
  rw [left.unpack_eq, right.unpack_eq, ofParts]
  rw [mul_unpacked (canonical_parts left.finite).1 (canonical_parts right.finite).1 canonical]
  rw [← same, ← left.value, ← right.value, magnitude, magnitude]

/-- The sum of two doubles is the double of a sum that can be written canonically. -/
theorem StandsFor.add_eq (left : StandsFor x p) (right : StandsFor y q) (canonical : Canonical m e)
    (same : p + q = m * 2 ^ e) : x + y = ofParts false m e := by
  change Float.ofModel (.pack (UnpackedFloat.add _ x.toModel.unpack y.toModel.unpack)) = _
  rw [left.unpack_eq, right.unpack_eq, ofParts]
  rw [add_unpacked (canonical_parts left.finite).1 (canonical_parts right.finite).1 canonical]
  rw [← same, ← left.value, ← right.value, magnitude, magnitude]

/-- A product is exact if it is a double. -/
theorem StandsFor.mul (left : StandsFor x p) (right : StandsFor y q) (short : IsShort (p * q))
    (below : p * q < limit) : StandsFor (x * y) (p * q) := by
  obtain ⟨m, e, canonical, same⟩ := short.exists_canonical
  rw [left.mul_eq right canonical same]
  rw [same] at below ⊢
  exact canonical.standsFor below

/-- A sum is exact if it is a double. -/
theorem StandsFor.add (left : StandsFor x p) (right : StandsFor y q) (short : IsShort (p + q))
    (below : p + q < limit) : StandsFor (x + y) (p + q) := by
  obtain ⟨m, e, canonical, same⟩ := short.exists_canonical
  rw [left.add_eq right canonical same]
  rw [same] at below ⊢
  exact canonical.standsFor below

/-- A product that is short but too large is infinite. -/
theorem StandsFor.mul_eq_infinity (left : StandsFor x p) (right : StandsFor y q)
    (short : IsShort (p * q)) (large : limit ≤ p * q) : x * y = infinity false := by
  obtain ⟨m, e, canonical, same⟩ := short.exists_canonical
  rw [left.mul_eq right canonical same]
  exact canonical.ofParts_eq_infinity (same ▸ large) false

/-! ### Infinities -/

/-- Infinity absorbs positive factors. -/
theorem StandsFor.infinity_mul (stands : StandsFor x q) (positive : 0 < q) :
    infinity false * x = infinity false := by
  have nonzero : 0 < significand x := by
    rw [← stands.value] at positive
    exact Nat.pos_of_ne_zero (mt (scaled_eq_zero_iff _ _).mpr (ne_of_gt positive))
  change Float.ofModel
    (.pack (UnpackedFloat.mul _ (infinity false).toModel.unpack x.toModel.unpack)) = _
  rw [unpack_infinity, stands.unpack_eq, unpacked_of_pos nonzero]
  rfl

/-- Infinity absorbs what is added to it. -/
theorem StandsFor.infinity_add (stands : StandsFor x q) : infinity false + x = infinity false := by
  change Float.ofModel
    (.pack (UnpackedFloat.add _ (infinity false).toModel.unpack x.toModel.unpack)) = _
  rw [unpack_infinity, stands.unpack_eq, unpacked]
  split <;> rfl

/-! ### Signs -/

theorem signOf_neg (negative : Bool) : -signOf negative = signOf (!negative) := by
  cases negative <;> rfl

/-- Negation changes the sign and nothing else. -/
theorem neg_eq_ofParts (finite : isFinite x) :
    -x = ofParts (!isNegative x) (significand x) (exponent x) := by
  change Float.ofModel (.pack (UnpackedFloat.neg x.toModel.unpack)) = _
  rw [unpack_eq finite, ofParts, unpacked, unpacked]
  split <;> rw [UnpackedFloat.neg, signOf_neg]

theorem neg_infinity (negative : Bool) : -infinity negative = infinity (!negative) := by
  change Float.ofModel (.pack (UnpackedFloat.neg (infinity negative).toModel.unpack)) = _
  rw [unpack_infinity, UnpackedFloat.neg, signOf_neg, infinity]

/-! ### Integers and powers of two -/

/-- Integers below `2^53` are short. -/
theorem isShort_natCast (small : n < 0x20000000000000) : IsShort n :=
  ⟨n, 0, small, by decide, by simp⟩

/-- A machine word is converted by normalizing it. -/
theorem toFloat_eq (small : n < 2 ^ 64) :
    n.toUInt64.toFloat =
      .ofModel (.pack (UnpackedFloat.normalize Format.binary64 n 0 .positive)) := by
  have word : n.toUInt64.toNat = n := by
    simp
    omega
  change Float.ofModel
    (.pack (UnpackedFloat.normalize _ (n.toUInt64.toNat : Int) 0 .positive)) = _
  rw [word]

/-- Integers below `2^53` are converted exactly. -/
theorem standsFor_toFloat (small : n < 0x20000000000000) : StandsFor n.toUInt64.toFloat n := by
  obtain ⟨m, e, canonical, same⟩ := (isShort_natCast small).exists_canonical
  have parts : n.toUInt64.toFloat = ofParts false m e := by
    rw [toFloat_eq (by omega), normalize_of_canonical canonical (by simpa using same), ofParts]
  have below : (n : ℚ) * 2 ^ (0 : ℤ) < limit := scaled_lt_limit small (by decide)
  rw [zpow_zero, mul_one] at below
  rw [parts, same]
  exact canonical.standsFor (same ▸ below)

/-- In the normal range powers of two are exact. -/
theorem standsFor_twoPow (least : -1022 ≤ e) (most : e ≤ 1023) : StandsFor (twoPow e) (2 ^ e) := by
  have canonical : Canonical 0x10000000000000 (e - 52) :=
    ⟨by decide, by omega, .inl (Nat.le_refl _)⟩
  have word : ((e + 1023).toNat * 0x10000000000000).toUInt64.toNat =
      (e + 1023).toNat * 0x10000000000000 := by
    simp
    omega
  have number : IsNumberWord ((e + 1023).toNat * 0x10000000000000).toUInt64 := by
    right
    rw [word]
    omega
  have parts : twoPow e = ofParts false 0x10000000000000 (e - 52) := by
    apply Float.toBits_inj.mp
    rw [twoPow, toBits_ofBits number]
    apply UInt64.toNat_inj.mp
    rw [word, toNat_toBits_ofParts canonical (by omega), if_pos (Nat.le_refl _)]
    simp
    omega
  have value : ((0x10000000000000 : ℕ) : ℚ) * 2 ^ (e - 52) = 2 ^ e := by
    have normal : ((0x10000000000000 : ℕ) : ℚ) = 2 ^ (52 : ℤ) := by norm_num
    rw [normal, ← zpow_add₀ two_ne_zero, add_sub_cancel]
  rw [parts, ← value]
  exact canonical.standsFor (canonical.lt_limit_iff.mpr (by omega))

/-- A literal that is the double of a small integer stands for that integer. -/
theorem standsFor_literal {x : Float} {q : ℚ} (n : ℕ) (small : n < 0x20000000000000)
    (same : x = n.toUInt64.toFloat) (value : q = n) : StandsFor x q := by
  rw [same, value]
  exact standsFor_toFloat small

end Operations

end FrameCode.Binary64
