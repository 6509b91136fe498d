import FrameCode.Binary64.Basic
import Mathlib

/-!
The values of doubles. A word of sixty-four bits is a sign, an exponent field and a fraction field
(`word_eq`). A finite double is taken apart into a sign, a significand and an exponent, and is put
together again from these parts (`ofParts_parts`, `parts_ofParts`). Parts that belong to a double
are canonical: the significand has fifty-three bits unless the exponent is the least one. The value
of a finite double is rational, and canonical parts are determined by it (`Canonical.unique`), so
doubles with the same value and the same sign are the same (`eq_of_magnitude_eq`). A number with at
most fifty-three significant bits has canonical parts (`IsShort.exists_canonical`). They are put
together to a double that stands for it, if it is below `2^1024` (`Canonical.standsFor`), and to an
infinity otherwise (`Canonical.ofParts_eq_infinity`).
-/

namespace FrameCode.Binary64

open Float.Model Float.Model.UnpackedFloat

/-! ### Words -/

def IsFiniteWord (bits : UInt64) : Prop :=
  bits.toNat / 0x10000000000000 % 0x800 < 2047

/-- The bits stand for a number or an infinity. -/
def IsNumberWord (bits : UInt64) : Prop :=
  IsFiniteWord bits ∨ bits.toNat % 0x10000000000000 = 0

instance (bits : UInt64) : Decidable (IsFiniteWord bits) :=
  inferInstanceAs (Decidable (_ < _))

instance (bits : UInt64) : Decidable (IsNumberWord bits) :=
  inferInstanceAs (Decidable (_ ∨ _))

/-- The three fields lie side by side. -/
theorem toNat_packComponents (sign : Sign) (exponent : BitVec 11) (fraction : BitVec 52) :
    (packComponents Format.binary64 sign exponent fraction).toNat =
      sign.toBitVec.toNat * 0x8000000000000000 + exponent.toNat * 0x10000000000000 +
        fraction.toNat := by
  have upper : (sign.toBitVec ++ exponent).toNat =
      sign.toBitVec.toNat * 2 ^ 11 + exponent.toNat := by
    rw [BitVec.toNat_append, ← Nat.shiftLeft_add_eq_or_of_lt exponent.isLt, Nat.shiftLeft_eq]
  rw [packComponents, BitVec.toNat_append, ← Nat.shiftLeft_add_eq_or_of_lt fraction.isLt,
    Nat.shiftLeft_eq, upper]
  ring

theorem toNat_unpackMantissa (b : BitVec 64) :
    (@unpackMantissa Format.binary64 b).toNat = b.toNat % 0x10000000000000 := by
  rw [unpackMantissa, BitVec.toNat_cast, BitVec.extractLsb_toNat]
  rfl

theorem toNat_unpackExponent (b : BitVec 64) :
    (@unpackExponent Format.binary64 b).toNat = b.toNat / 0x10000000000000 % 0x800 := by
  rw [unpackExponent, BitVec.toNat_cast, BitVec.extractLsb_toNat, Nat.shiftRight_eq_div_pow]
  rfl

theorem toNat_unpackSign (b : BitVec 64) :
    (@unpackSign Format.binary64 b).toNat = b.toNat / 0x8000000000000000 := by
  have bound := b.isLt
  rw [unpackSign, BitVec.toNat_cast, BitVec.extractLsb_toNat, Nat.shiftRight_eq_div_pow]
  simp
  omega

/-! ### Parts -/

def signOf (negative : Bool) : UnpackedFloat.Sign :=
  if negative then .negative else .positive

/-- A finite number taken apart. Zero has no significand. -/
def unpacked (negative : Bool) (m : Nat) (e : Int) : UnpackedFloat :=
  if zero : m = 0 then .zero (signOf negative)
  else .finite (signOf negative) m e (Nat.pos_of_ne_zero zero)

def ofParts (negative : Bool) (m : Nat) (e : Int) : Float :=
  .ofModel (.pack (unpacked negative m e))

/-- The significand has all its bits, unless the exponent cannot be less. -/
structure Canonical (m : Nat) (e : Int) : Prop where
  lt : m < 0x20000000000000
  least : -1074 ≤ e
  normal : 0x10000000000000 ≤ m ∨ e = -1074

theorem toNat_signOf (negative : Bool) : (signOf negative).toBitVec.toNat = negative.toNat := by
  cases negative <;> rfl

theorem ofBitVec_unpackSign (b : BitVec 64) :
    Sign.ofBitVec (@unpackSign Format.binary64 b) =
      signOf (decide (0x8000000000000000 ≤ b.toNat)) := by
  have zero : @unpackSign Format.binary64 b = 0#1 ↔ b.toNat < 0x8000000000000000 := by
    rw [← BitVec.toNat_inj, toNat_unpackSign]
    simp
  by_cases negative : 0x8000000000000000 ≤ b.toNat
  · simp [Sign.ofBitVec, zero, signOf, negative]
  · simp [Sign.ofBitVec, zero, signOf, negative, Nat.lt_of_not_le negative]

theorem toNat_append_one (f : BitVec 52) : (1#1 ++ f).toNat = 0x10000000000000 + f.toNat := by
  rw [BitVec.toNat_append, ← Nat.shiftLeft_add_eq_or_of_lt f.isLt]
  rfl

/-- A word with any exponent but the highest stands for a finite number. -/
theorem unpack_of_finite (b : BitVec 64) (finite : b.toNat / 0x10000000000000 % 0x800 < 2047) :
    UnpackedFloat.unpack Format.binary64 b =
      unpacked (decide (0x8000000000000000 ≤ b.toNat))
        (if b.toNat / 0x10000000000000 % 0x800 = 0 then b.toNat % 0x10000000000000
          else 0x10000000000000 + b.toNat % 0x10000000000000)
        (max ((b.toNat / 0x10000000000000 % 0x800 : Nat) : Int) 1 - 1075) := by
  have field := toNat_unpackExponent b
  have fraction := toNat_unpackMantissa b
  have top : @unpackExponent Format.binary64 b ≠ -1#11 := by
    intro eq
    rw [eq] at field
    exact Nat.ne_of_lt finite field.symm
  have bottom : @unpackExponent Format.binary64 b = 0#11 ↔
      b.toNat / 0x10000000000000 % 0x800 = 0 := by
    rw [← field, ← BitVec.toNat_inj]
    rfl
  have empty : @unpackMantissa Format.binary64 b = 0#52 ↔
      b.toNat % 0x10000000000000 = 0 := by
    rw [← fraction, ← BitVec.toNat_inj]
    rfl
  unfold UnpackedFloat.unpack unpacked
  simp only [ofBitVec_unpackSign]
  rw [if_neg top]
  by_cases subnormal : b.toNat / 0x10000000000000 % 0x800 = 0
  · simp only [if_pos (bottom.mpr subnormal), if_pos subnormal]
    by_cases zero : b.toNat % 0x10000000000000 = 0
    · rw [dif_pos (empty.mpr zero), dif_pos zero]
    · rw [dif_neg (mt empty.mp zero), dif_neg zero]
      simp only [field, fraction, subnormal]
      rfl
  · have positive : ¬ 0x10000000000000 + b.toNat % 0x10000000000000 = 0 := by omega
    have bias : (Format.binary64.exponentBias : Int) = 1023 := rfl
    simp only [if_neg (mt bottom.mp subnormal), if_neg subnormal]
    rw [dif_neg positive]
    simp only [field, toNat_append_one, fraction, bias]
    congr 1
    omega

/-- A word with the highest exponent and no fraction stands for infinity. -/
theorem unpack_of_infinite (b : BitVec 64) (top : b.toNat / 0x10000000000000 % 0x800 = 2047)
    (empty : b.toNat % 0x10000000000000 = 0) :
    UnpackedFloat.unpack Format.binary64 b =
      .infinity (signOf (decide (0x8000000000000000 ≤ b.toNat))) := by
  have field : @unpackExponent Format.binary64 b = -1#11 := by
    rw [← BitVec.toNat_inj, toNat_unpackExponent, top]
    rfl
  have fraction : @unpackMantissa Format.binary64 b = 0#52 := by
    rw [← BitVec.toNat_inj, toNat_unpackMantissa, empty]
    rfl
  unfold UnpackedFloat.unpack
  simp only [ofBitVec_unpackSign]
  rw [if_pos field, if_pos fraction]

/-- A significand is full if it reaches the hidden bit. -/
theorem log2_add_one_eq_iff {m : Nat} (positive : m ≠ 0) (small : m < 0x20000000000000) :
    m.log2 + 1 = Format.binary64.mantissaBits ↔ 0x10000000000000 ≤ m := by
  have bits : Format.binary64.mantissaBits = 53 := rfl
  have upper : m.log2 < 53 := (Nat.log2_lt positive).mpr small
  have lower : 52 ≤ m.log2 ↔ 0x10000000000000 ≤ m := Nat.le_log2 positive
  omega

/-- A number is put together as an infinity if its exponent is too large, and otherwise as a normal
or a subnormal number. -/
theorem pack_finite {m : Nat} {e : Int} {sign : Sign} {positive : 0 < m}
    (small : m < 0x20000000000000) :
    UnpackedFloat.pack Format.binary64 (.finite sign m e positive) =
      if 2 ^ 11 ≤ (e + 1075).toNat + 1 then packedInfinity Format.binary64 sign
      else if 0x10000000000000 ≤ m then
        packComponents Format.binary64 sign (BitVec.ofNat 11 (e + 1075).toNat) (BitVec.ofNat 52 m)
      else packComponents Format.binary64 sign 0#11 (BitVec.ofNat 52 m) := by
  have biased : (e + Format.binary64.exponentBias + (52 : Nat)).toNat = (e + 1075).toNat := by
    have bias : (Format.binary64.exponentBias : Int) = 1023 := rfl
    rw [bias]
    omega
  rw [UnpackedFloat.pack]
  simp only [biased, log2_add_one_eq_iff (Nat.ne_of_gt positive) small]

section Parts

variable {x y : Float} {m m' : Nat} {e e' : Int} {q : ℚ}

/-- A double is its three fields. -/
theorem word_eq (x : Float) :
    x.toBits.toNat =
      (isNegative x).toNat * 0x8000000000000000 + exponentField x * 0x10000000000000 +
        fractionField x := by
  have bound := x.toBits.toNat_lt
  have sign : (isNegative x).toNat = x.toBits.toNat / 0x8000000000000000 := by
    unfold isNegative
    by_cases negative : 0x8000000000000000 ≤ x.toBits.toNat
    · simp [negative]
      omega
    · simp [negative]
      omega
  rw [sign, exponentField, fractionField]
  omega

theorem fractionField_lt (x : Float) : fractionField x < 0x10000000000000 :=
  Nat.mod_lt _ (by decide)

/-- The parts of a finite double are canonical and in range. -/
theorem canonical_parts (finite : isFinite x) :
    Canonical (significand x) (exponent x) ∧ exponent x ≤ 971 := by
  have bound : exponentField x < 2047 := of_decide_eq_true finite
  have fraction := fractionField_lt x
  unfold significand exponent
  split
  · exact ⟨⟨by omega, by omega, by omega⟩, by omega⟩
  · exact ⟨⟨by omega, by omega, by omega⟩, by omega⟩

/-- A finite double is unpacked into its parts. -/
theorem unpack_eq (finite : isFinite x) :
    x.toModel.unpack = unpacked (isNegative x) (significand x) (exponent x) :=
  unpack_of_finite x.toModel.toBits.toBitVec (of_decide_eq_true finite)

/-- Canonical parts are packed into a word that shows them. -/
theorem toNat_toBits_ofParts (canonical : Canonical m e) (most : e ≤ 971) (negative : Bool) :
    (ofParts negative m e).toBits.toNat =
      negative.toNat * 0x8000000000000000 +
        (if 0x10000000000000 ≤ m then (e + 1075).toNat else 0) * 0x10000000000000 +
          m % 0x10000000000000 := by
  obtain ⟨lt, least, normal⟩ := canonical
  change (UnpackedFloat.pack Format.binary64 (unpacked negative m e)).toNat = _
  rw [← toNat_signOf, unpacked]
  split
  · next zero =>
    rw [UnpackedFloat.pack, packedZero, toNat_packComponents, zero]
    rfl
  · next positive =>
    rw [pack_finite lt, if_neg (by omega)]
    split
    · rw [toNat_packComponents, BitVec.toNat_ofNat, BitVec.toNat_ofNat,
        Nat.mod_eq_of_lt (by omega : (e + 1075).toNat < 2 ^ 11)]
    · rw [toNat_packComponents, BitVec.toNat_ofNat]
      rfl

/-- Canonical parts are the parts of a double. -/
theorem parts_ofParts (canonical : Canonical m e) (most : e ≤ 971) (negative : Bool) :
    isFinite (ofParts negative m e) ∧ isNegative (ofParts negative m e) = negative ∧
      significand (ofParts negative m e) = m ∧ exponent (ofParts negative m e) = e := by
  have word := toNat_toBits_ofParts canonical most negative
  obtain ⟨lt, least, normal⟩ := canonical
  have sign : negative.toNat ≤ 1 := negative.toNat_le
  have field : exponentField (ofParts negative m e) =
      if 0x10000000000000 ≤ m then (e + 1075).toNat else 0 := by
    rw [exponentField, word]
    split <;> omega
  have fraction : fractionField (ofParts negative m e) = m % 0x10000000000000 := by
    rw [fractionField, word]
    omega
  refine ⟨?_, ?_, ?_, ?_⟩
  · apply decide_eq_true
    rw [field]
    split <;> omega
  · rw [isNegative, word]
    cases negative <;> simp <;> split <;> omega
  · rw [significand, field, fraction]
    by_cases normal : 0x10000000000000 ≤ m
    · rw [if_pos normal, if_neg (by omega)]
      omega
    · rw [if_neg normal, if_pos rfl]
      omega
  · rw [exponent, field]
    split <;> omega

/-- A finite double is put together from its parts. -/
theorem ofParts_parts (finite : isFinite x) :
    ofParts (isNegative x) (significand x) (exponent x) = x := by
  obtain ⟨canonical, most⟩ := canonical_parts finite
  have fraction := fractionField_lt x
  apply Float.toBits_inj.mp
  apply UInt64.toNat_inj.mp
  rw [toNat_toBits_ofParts canonical most, word_eq x, significand, exponent]
  by_cases subnormal : exponentField x = 0
  · rw [if_pos subnormal, if_neg (by omega)]
    omega
  · rw [if_neg subnormal, if_pos (by omega)]
    omega

/-! ### Infinities -/

def infinity (negative : Bool) : Float :=
  .ofModel (.pack (.infinity (signOf negative)))

theorem toNat_toBits_infinity (negative : Bool) :
    (infinity negative).toBits.toNat =
      negative.toNat * 0x8000000000000000 + 2047 * 0x10000000000000 := by
  have top : (-1#11).toNat = 2047 := rfl
  have empty : (0 : BitVec 52).toNat = 0 := rfl
  change (packedInfinity Format.binary64 (signOf negative)).toNat = _
  rw [packedInfinity, toNat_packComponents, toNat_signOf, top, empty, Nat.add_zero]

theorem parts_infinity (negative : Bool) :
    isNegative (infinity negative) = negative ∧ exponentField (infinity negative) = 2047 ∧
      fractionField (infinity negative) = 0 := by
  have word := toNat_toBits_infinity negative
  have sign : negative.toNat ≤ 1 := negative.toNat_le
  refine ⟨?_, ?_, ?_⟩
  · rw [isNegative, word]
    cases negative <;> rfl
  · rw [exponentField, word]
    omega
  · rw [fractionField, word]
    omega

theorem not_isFinite_infinity (negative : Bool) : isFinite (infinity negative) = false := by
  rw [isFinite, (parts_infinity negative).2.1]
  rfl

/-- There are two infinities, one for each sign. -/
theorem eq_infinity (infinite : isInfinite x) : x = infinity (isNegative x) := by
  obtain ⟨top, empty⟩ : exponentField x = 2047 ∧ fractionField x = 0 := by
    simpa [isInfinite] using infinite
  apply Float.toBits_inj.mp
  apply UInt64.toNat_inj.mp
  rw [toNat_toBits_infinity, word_eq x, top, empty, Nat.add_zero]

theorem unpack_infinity (negative : Bool) :
    (infinity negative).toModel.unpack = .infinity (signOf negative) := by
  obtain ⟨sign, top, empty⟩ := parts_infinity negative
  have parts := unpack_of_infinite (infinity negative).toModel.toBits.toBitVec top empty
  exact parts.trans (congrArg (UnpackedFloat.infinity ∘ signOf) sign)

/-! ### Words of numbers -/

/-- Only words that stand for no number may be left out. -/
theorem exists_toBits_eq {bits : UInt64} (number : IsNumberWord bits) :
    ∃ x : Float, x.toBits = bits := by
  have valid : Format.binary64.Valid bits.toBitVec := by
    constructor
    intro top nonempty
    have field : bits.toNat / 0x10000000000000 % 0x800 = 2047 :=
      (toNat_unpackExponent bits.toBitVec).symm.trans (congrArg BitVec.toNat top)
    rcases number with finite | empty
    · exact absurd field (Nat.ne_of_lt finite)
    · have fraction := (toNat_unpackMantissa bits.toBitVec).trans empty
      exact absurd (BitVec.eq_of_toNat_eq fraction) nonempty
  exact ⟨.ofModel ⟨bits, valid⟩, rfl⟩

/-- A double that is a number is finite or infinite. -/
theorem isFinite_or_isInfinite (number : IsNumberWord x.toBits) : isFinite x ∨ isInfinite x := by
  by_cases finite : exponentField x < 2047
  · exact .inl (decide_eq_true finite)
  · have bound : exponentField x < 2048 := Nat.mod_lt _ (by decide)
    have top : exponentField x = 2047 := by omega
    have empty : fractionField x = 0 := number.resolve_left finite
    exact .inr (by simp [isInfinite, top, empty])

/-- A word that stands for a number is the word of that number. -/
theorem toBits_ofBits {bits : UInt64} (number : IsNumberWord bits) :
    (Float.ofBits bits).toBits = bits := by
  obtain ⟨x, rfl⟩ := exists_toBits_eq number
  rw [Float.ofBits_toBits]

/-! ### Exact values -/

def magnitude (x : Float) : ℚ :=
  significand x * 2 ^ exponent x

def toRat (x : Float) : ℚ :=
  if isNegative x then -magnitude x else magnitude x

/-- Two scaled integers are equal if the one is the other with zeros behind it. -/
theorem scaled_eq_iff (le : e ≤ e') :
    (m : ℚ) * 2 ^ e = m' * 2 ^ e' ↔ m = m' * 2 ^ (e' - e).toNat := by
  have split : (2 : ℚ) ^ e' = 2 ^ (e' - e).toNat * 2 ^ e := by
    rw [← zpow_natCast, Int.toNat_of_nonneg (by omega), ← zpow_add₀ two_ne_zero,
      Int.sub_add_cancel]
  rw [split, ← mul_assoc, mul_left_inj' (zpow_ne_zero e two_ne_zero)]
  exact_mod_cast Iff.rfl

/-- With a greater exponent a canonical significand would be too large. -/
theorem Canonical.le_of_eq (canonical : Canonical m e) (canonical' : Canonical m' e')
    (same : (m : ℚ) * 2 ^ e = m' * 2 ^ e') : e' ≤ e := by
  by_contra less
  have least := canonical.least
  have shifted := (scaled_eq_iff (by omega)).mp same
  have normal : 0x10000000000000 ≤ m' := canonical'.normal.resolve_right (by omega)
  have double : 2 ^ 1 ≤ 2 ^ (e' - e).toNat := Nat.pow_le_pow_right (by decide) (by omega)
  have large := Nat.mul_le_mul normal double
  have small := canonical.lt
  omega

/-- A number has one canonical form. -/
theorem Canonical.unique (canonical : Canonical m e) (canonical' : Canonical m' e')
    (same : (m : ℚ) * 2 ^ e = m' * 2 ^ e') : m = m' ∧ e = e' := by
  have exponents : e = e' :=
    le_antisymm (canonical'.le_of_eq canonical same.symm) (canonical.le_of_eq canonical' same)
  subst exponents
  have significands := (scaled_eq_iff le_rfl).mp same
  simpa using significands

/-- A finite double is known from its magnitude and its sign. -/
theorem eq_of_magnitude_eq (finite : isFinite x) (finite' : isFinite y)
    (same : magnitude x = magnitude y) (sign : isNegative x = isNegative y) : x = y := by
  obtain ⟨significands, exponents⟩ :=
    (canonical_parts finite).1.unique (canonical_parts finite').1 same
  rw [← ofParts_parts finite, ← ofParts_parts finite', sign, significands, exponents]

theorem magnitude_nonneg (x : Float) : 0 ≤ magnitude x :=
  mul_nonneg (Nat.cast_nonneg _) (zpow_nonneg zero_le_two _)

/-- The magnitude is the absolute value. -/
theorem magnitude_eq_abs (x : Float) : magnitude x = |toRat x| := by
  have nonneg := magnitude_nonneg x
  unfold toRat
  split
  · rw [abs_neg, abs_of_nonneg nonneg]
  · rw [abs_of_nonneg nonneg]

/-! ### The numbers that are values -/

/-- The least power of two above all finite doubles. -/
def limit : ℕ :=
  2 ^ 1024

theorem limit_eq : (limit : ℚ) = 2 ^ 52 * 2 ^ (972 : ℤ) := by
  rw [limit, Nat.cast_pow, Nat.cast_ofNat, ← zpow_natCast, ← zpow_natCast, ← zpow_add₀ two_ne_zero]
  rfl

theorem scaled_lt_limit (small : m < 0x20000000000000) (most : e ≤ 971) :
    (m : ℚ) * 2 ^ e < limit := by
  have bits : (m : ℚ) < 2 ^ 53 := by exact_mod_cast small
  have high : (2 : ℚ) ^ e ≤ 2 ^ (971 : ℤ) := zpow_le_zpow_right₀ one_le_two most
  calc (m : ℚ) * 2 ^ e < 2 ^ 53 * 2 ^ e := mul_lt_mul_of_pos_right bits (zpow_pos two_pos e)
    _ ≤ 2 ^ 53 * 2 ^ (971 : ℤ) := mul_le_mul_of_nonneg_left high (pow_nonneg zero_le_two 53)
    _ = limit := by
      rw [limit_eq, show (972 : ℤ) = 971 + 1 by rfl, zpow_add_one₀ two_ne_zero]
      ring

/-- In canonical form the exponent shows whether a number is in range. -/
theorem Canonical.lt_limit_iff (canonical : Canonical m e) :
    (m : ℚ) * 2 ^ e < limit ↔ e ≤ 971 := by
  constructor
  · intro bounded
    by_contra more
    have normal : (2 : ℚ) ^ 52 ≤ m := by
      exact_mod_cast canonical.normal.resolve_right (by omega)
    have high : (2 : ℚ) ^ (972 : ℤ) ≤ 2 ^ e := zpow_le_zpow_right₀ one_le_two (by omega)
    have reached := mul_le_mul normal high (zpow_nonneg zero_le_two _) (Nat.cast_nonneg m)
    rw [← limit_eq] at reached
    exact absurd bounded (not_lt.mpr reached)
  · exact scaled_lt_limit canonical.lt

/-- The number has at most fifty-three significant bits, none of them below the last bit of the
least double. -/
def IsShort (q : ℚ) : Prop :=
  ∃ (m : ℕ) (e : ℤ), m < 0x20000000000000 ∧ -1074 ≤ e ∧ q = m * 2 ^ e

/-- Short numbers have a canonical form. -/
theorem IsShort.exists_canonical (short : IsShort q) :
    ∃ m e, Canonical m e ∧ q = m * 2 ^ e := by
  obtain ⟨m, e, small, least, rfl⟩ := short
  obtain ⟨k, rfl⟩ : ∃ k : ℕ, e = k - 1074 := ⟨(e + 1074).toNat, by omega⟩
  -- as long as there are bits to spare and the exponent allows it, the significand is doubled
  induction k generalizing m with
  | zero => exact ⟨m, _, ⟨small, least, .inr (by simp)⟩, rfl⟩
  | succ k ih =>
      by_cases normal : 0x10000000000000 ≤ m
      · exact ⟨m, _, ⟨small, least, .inl normal⟩, rfl⟩
      · obtain ⟨m', e', canonical, same⟩ := ih (2 * m) (by omega) (by omega)
        have next : ((k + 1 : ℕ) : ℤ) - 1074 = (k - 1074) + 1 := by
          push_cast
          ring
        refine ⟨m', e', canonical, ?_⟩
        rw [← same, next, zpow_add_one₀ two_ne_zero]
        push_cast
        ring

/-- The double is not negative, and its value is the number. -/
structure StandsFor (x : Float) (q : ℚ) : Prop where
  finite : isFinite x
  nonneg : isNegative x = false
  value : magnitude x = q

/-- One double at most stands for a number. -/
theorem StandsFor.unique (stands : StandsFor x q) (stands' : StandsFor y q) : x = y :=
  eq_of_magnitude_eq stands.finite stands'.finite (stands.value.trans stands'.value.symm)
    (stands.nonneg.trans stands'.nonneg.symm)

theorem StandsFor.toRat_eq (stands : StandsFor x q) : toRat x = q := by
  rw [toRat, stands.nonneg, stands.value]
  rfl

/-- Numbers that doubles stand for are short. -/
theorem StandsFor.isShort (stands : StandsFor x q) : IsShort q := by
  obtain ⟨canonical, -⟩ := canonical_parts stands.finite
  exact ⟨_, _, canonical.lt, canonical.least, stands.value.symm⟩

/-- Numbers that doubles stand for are in range. -/
theorem StandsFor.lt_limit (stands : StandsFor x q) : q < limit := by
  obtain ⟨canonical, most⟩ := canonical_parts stands.finite
  rw [← stands.value]
  exact canonical.lt_limit_iff.mpr most

/-- A canonical form in range makes a double that stands for the number. -/
theorem Canonical.standsFor (canonical : Canonical m e) (below : (m : ℚ) * 2 ^ e < limit) :
    StandsFor (ofParts false m e) (m * 2 ^ e) := by
  obtain ⟨finite, sign, significand, exponent⟩ :=
    parts_ofParts canonical (canonical.lt_limit_iff.mp below) false
  exact ⟨finite, sign, by rw [magnitude, significand, exponent]⟩

/-- What is too large becomes an infinity when it is put together. -/
theorem Canonical.ofParts_eq_infinity (canonical : Canonical m e)
    (large : (limit : ℚ) ≤ m * 2 ^ e) (negative : Bool) :
    ofParts negative m e = infinity negative := by
  have most : ¬ e ≤ 971 := mt canonical.lt_limit_iff.mpr (not_lt.mpr large)
  have normal : 0x10000000000000 ≤ m := canonical.normal.resolve_right (by omega)
  have positive : ¬ m = 0 := by omega
  apply Float.toBits_inj.mp
  change UInt64.ofBitVec (UnpackedFloat.pack Format.binary64 (unpacked negative m e)) = _
  rw [unpacked, dif_neg positive, pack_finite canonical.lt, if_pos (by omega)]
  rfl

end Parts

end FrameCode.Binary64
