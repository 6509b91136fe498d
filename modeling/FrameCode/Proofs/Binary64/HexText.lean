import FrameCode.Proofs.Binary64.HexReading

/-!
The hexadecimal text of a double. The text of a finite double is a hexadecimal number behind the
sign (`hexText_of_isFinite`): a lead digit, the digits of the fraction without their trailing zeros
and the exponent. Its exact value is the value of the double (`value_written`). So the text is read
back as the double it was written for (`float?_hexText`), and different doubles have different
texts (`hexText_denotes`).
-/

namespace FrameCode.Binary64

open Numeral

/-! ### Digits of the fraction -/

section Digits

variable {digits : List Char} {width n : ℕ}

/-- A number is written in as many digits as are asked for. -/
theorem length_hexDigits (width n : ℕ) : (hexDigits width n).length = width := by
  induction width generalizing n with
  | zero => rfl
  | succ width ih => rw [hexDigits, List.length_append, ih, List.length_singleton]

/-- Only hexadecimal digits are written. -/
theorem of_mem_hexDigits {c : Char} (mem : c ∈ hexDigits width n) : ∃ d < 16, c = d.digitChar := by
  induction width generalizing n with
  | zero => cases mem
  | succ width ih =>
      rw [hexDigits, List.mem_append, List.mem_singleton] at mem
      rcases mem with mem | rfl
      · exact ih mem
      · exact ⟨n % 16, Nat.mod_lt n (by decide), rfl⟩

theorem rowValue_digitChar {d : ℕ} (small : d < 16) : rowValue 16 [d.digitChar] = d := by
  have all : ∀ d < 16, rowValue 16 [d.digitChar] = d := by decide
  exact all d small

/-- A number that fits is the value of its digits. -/
theorem rowValue_hexDigits (small : n < 16 ^ width) : rowValue 16 (hexDigits width n) = n := by
  induction width generalizing n with
  | zero =>
      obtain rfl : n = 0 := by simpa using small
      rfl
  | succ width ih =>
      have front : n / 16 < 16 ^ width := by
        rw [pow_succ] at small
        omega
      rw [hexDigits, rowValue_append, ih front, rowValue_digitChar (Nat.mod_lt n (by decide)),
        List.length_singleton, pow_one, Nat.div_add_mod']

/-- Zeros are dropped at the end only. -/
theorem prefix_dropTrailingZeros (digits : List Char) : dropTrailingZeros digits <+: digits :=
  List.rdropWhile_prefix _ _

/-- No zero is left at the end. -/
theorem getLast?_dropTrailingZeros (digits : List Char) :
    (dropTrailingZeros digits).getLast? ≠ some '0' := by
  intro last
  have nonempty : dropTrailingZeros digits ≠ [] := by
    intro empty
    rw [empty] at last
    cases last
  have nonzero := List.rdropWhile_last_not (· == '0') digits nonempty
  rw [List.getLast?_eq_some_getLast nonempty] at last
  exact nonzero (by simpa [dropTrailingZeros, List.rdropWhile] using last)

/-- As digits behind the point, trailing zeros are worth nothing. -/
theorem rowValue_dropTrailingZeros (digits : List Char) :
    (rowValue 16 (dropTrailingZeros digits) / 16 ^ (dropTrailingZeros digits).length : ℚ) =
      rowValue 16 digits / 16 ^ digits.length := by
  have split : dropTrailingZeros digits ++ digits.rtakeWhile (· == '0') = digits :=
    List.rdropWhile_append_rtakeWhile
  have zeros : digits.rtakeWhile (· == '0') =
      List.replicate (digits.rtakeWhile (· == '0')).length '0' := by
    rw [List.eq_replicate_iff]
    exact ⟨rfl, fun c mem => by simpa using List.mem_rtakeWhile_imp mem⟩
  have nonzero (k : ℕ) : (16 : ℚ) ^ k ≠ 0 := pow_ne_zero k (by norm_num)
  rw [zeros] at split
  generalize (digits.rtakeWhile (· == '0')).length = k at split
  have value : rowValue 16 digits = rowValue 16 (dropTrailingZeros digits) * 16 ^ k := by
    rw [← split, rowValue_append, rowValue_replicate_zero, List.length_replicate, Nat.add_zero,
      split]
  have length : digits.length = (dropTrailingZeros digits).length + k := by
    rw [← split, List.length_append, List.length_replicate, split]
  rw [value, length, pow_add, Nat.cast_mul, Nat.cast_pow, Nat.cast_ofNat,
    mul_div_mul_right _ _ (nonzero k)]

end Digits

/-! ### The number that is written -/

def writtenPlaces (fraction : ℕ) : Option (List Char) :=
  let digits := dropTrailingZeros (hexDigits 13 fraction)
  if digits.isEmpty then none else some digits

theorem writtenPlaces_getD (fraction : ℕ) :
    (writtenPlaces fraction).getD [] = dropTrailingZeros (hexDigits 13 fraction) := by
  unfold writtenPlaces
  cases dropTrailingZeros (hexDigits 13 fraction) <;> rfl

/-- If digits are written behind the point, they are those of the fraction without trailing zeros,
and there is at least one. -/
theorem of_mem_writtenPlaces {fraction : ℕ} {digits : List Char}
    (mem : digits ∈ writtenPlaces fraction) :
    digits = dropTrailingZeros (hexDigits 13 fraction) ∧ digits ≠ [] := by
  simp only [writtenPlaces, Option.mem_def, List.isEmpty_iff] at mem
  split at mem
  · cases mem
  · next nonempty =>
    have eq := Option.some.inj mem
    rw [eq] at nonempty
    exact ⟨eq.symm, nonempty⟩

theorem hexFraction_eq (fraction : ℕ) :
    hexFraction fraction = (writtenPlaces fraction).elim [] ('.' :: ·) := by
  unfold hexFraction writtenPlaces
  cases dropTrailingZeros (hexDigits 13 fraction) <;> rfl

def leadDigit (x : Float) : Char :=
  if exponentField x = 0 then '0' else '1'

/-- The exponent that is written: that of the lead digit, and for zero none. -/
def writtenPower (x : Float) : ℤ :=
  if exponentField x = 0 then if fractionField x = 0 then 0 else -1022
  else exponentField x - 1023

/-- Before and behind the point only digits stand. -/
theorem isDigit_of_mem_written {x : Float} {c : Char}
    (mem : c ∈ [leadDigit x] ++ (writtenPlaces (fractionField x)).getD []) :
    ∃ d, IsDigit 16 c d := by
  rw [List.mem_append, List.mem_singleton, writtenPlaces_getD] at mem
  rcases mem with rfl | mem
  · unfold leadDigit
    split
    · exact ⟨0, by decide, .inl rfl⟩
    · exact ⟨1, by decide, .inl rfl⟩
  · obtain ⟨d, small, rfl⟩ := of_mem_hexDigits ((prefix_dropTrailingZeros _).subset mem)
    exact ⟨d, small, .inl rfl⟩

def writtenSign (x : Float) : Sign :=
  if writtenPower x < 0 then .minus else .plus

def written (x : Float) : HexNumber where
  whole := [leadDigit x]
  fraction := writtenPlaces (fractionField x)
  exponent := some (.decimalPower (writtenSign x) (writtenPower x).natAbs)
  nonempty := by simp
  digits := fun _ => isDigit_of_mem_written

section Written

variable {x : Float}

theorem whole_written (x : Float) : (written x).whole = [leadDigit x] :=
  rfl

theorem fraction_written (x : Float) :
    (written x).fraction = writtenPlaces (fractionField x) := by
  simp only [written]

theorem exponent_written (x : Float) :
    (written x).exponent = some (.decimalPower (writtenSign x) (writtenPower x).natAbs) :=
  rfl

theorem exponentText_written (x : Float) :
    exponentText (written x).exponent = hexExponent (writtenPower x) := by
  rw [exponent_written]
  change 'p' :: ((writtenSign x).text ++ Nat.toDigits 10 (writtenPower x).natAbs) = _
  rw [hexExponent, writtenSign]
  split <;> rfl

/-- The magnitude is written as a hexadecimal number of the grammar. -/
theorem hexMagnitude_eq (x : Float) : hexMagnitude x = (written x).text := by
  have text : (written x).text =
      leadDigit x :: (hexFraction (fractionField x) ++ hexExponent (writtenPower x)) := by
    rw [Scientific.text, whole_written, fraction_written, exponentText_written, hexFraction_eq,
      List.singleton_append]
  have empty : hexFraction 0 = [] := by decide
  rw [text, hexMagnitude, leadDigit, writtenPower]
  by_cases subnormal : exponentField x = 0
  · simp only [subnormal, if_true]
    by_cases zero : fractionField x = 0
    · simp only [zero, if_true, empty, List.nil_append]
    · simp only [zero, if_false, List.cons_append]
  · simp only [subnormal, if_false, List.cons_append]

/-- A finite double is written as a sign, the mark and a number of the grammar. -/
theorem hexText_of_isFinite (finite : isFinite x) :
    hexText x = (if isNegative x then ['-'] else []) ++ '0' :: 'x' :: (written x).text := by
  rw [hexText, ← hexMagnitude_eq]
  simp only [finite, if_true]

theorem power_written (x : Float) : (written x).power = writtenPower x := by
  rw [HexNumber.power, exponent_written, Option.elim_some, Exponent.value_decimalPower, signed,
    writtenSign]
  by_cases negative : writtenPower x < 0
  · simp only [negative, if_true, Sign.isMinus]
    omega
  · simp only [negative, if_false, Sign.isMinus, Bool.false_eq_true]
    omega

/-- Behind the point stand the digits of the fraction without trailing zeros. -/
theorem places_written (x : Float) :
    (written x).places = dropTrailingZeros (hexDigits 13 (fractionField x)) := by
  rw [HexNumber.places, fraction_written, writtenPlaces_getD]

/-- Thirteen digits behind the point are fifty-two bits. -/
theorem point_eq_scaled (lead fraction : ℕ) (e : ℤ) :
    (lead + fraction / 16 ^ 13 : ℚ) * 2 ^ e =
      (lead * 0x10000000000000 + fraction : ℕ) * 2 ^ (e - 52) := by
  have bits : (2 : ℚ) ^ (52 : ℤ) = 16 ^ 13 := by norm_num
  rw [zpow_sub₀ two_ne_zero, bits]
  push_cast
  field_simp
  norm_num

/-- The text has the value of the double. -/
theorem value_written (x : Float) : (written x).value = magnitude x := by
  have fraction : fractionField x < 16 ^ 13 := fractionField_lt x
  have value : (written x).value =
      (rowValue 16 [leadDigit x] + fractionField x / 16 ^ 13) * 2 ^ writtenPower x := by
    rw [HexNumber.value, power_written, places_written, rowValue_dropTrailingZeros,
      rowValue_hexDigits fraction, length_hexDigits, whole_written]
  rw [value, point_eq_scaled, magnitude, leadDigit, writtenPower, significand, exponent]
  by_cases subnormal : exponentField x = 0
  · have lead : rowValue 16 ['0'] = 0 := rfl
    simp only [subnormal, if_true, lead, Nat.zero_mul, Nat.zero_add]
    by_cases zero : fractionField x = 0
    · rw [zero, Nat.cast_zero, zero_mul, zero_mul]
    · rw [if_neg zero]
      rfl
  · have lead : rowValue 16 ['1'] = 1 := rfl
    have power : (exponentField x : ℤ) - 1023 - 52 = max (exponentField x : ℤ) 1 - 1075 := by omega
    simp only [subnormal, if_false, lead, Nat.one_mul, power]

/-! ### Reading the text back -/

/-- Digits stay below the power of the radix that their number gives. -/
theorem rowValue_lt {digits : List Char} (row : AllDigits 16 digits) :
    rowValue 16 digits < 16 ^ digits.length :=
  value?_lt (value?_eq_rowValue (Nat.le_refl 16) row)

/-- No more than 13 digits stand behind the point. -/
theorem length_places_written (x : Float) : (written x).places.length ≤ 13 := by
  have length := (prefix_dropTrailingZeros (hexDigits 13 (fractionField x))).length_le
  rwa [length_hexDigits, ← places_written] at length

/-- What is written has moderate exponents. -/
theorem isModerate_written (finite : isFinite x) : (written x).IsModerate := by
  have bound : exponentField x < 2047 := of_decide_eq_true finite
  have length := length_places_written x
  rw [HexNumber.isModerate_iff_of_few (by omega), HexNumber.shift, power_written, writtenPower]
  split
  · split <;> omega
  · omega

/-- What is written has digits that can be read as one integer. -/
theorem mantissa_written_lt (x : Float) : (written x).mantissa < limit := by
  have length := length_places_written x
  refine Nat.lt_trans (rowValue_lt (written x).digits) ((sixteen_pow_lt_limit_iff _).mpr ?_)
  rw [List.length_append, whole_written, List.length_singleton]
  omega

/-- A finite double is read back from its text. -/
theorem float?_hexText (finite : isFinite x) : float? (hexText x) = some x := by
  have sign : (if isNegative x then ['-'] else []) =
      (if isNegative x then Sign.minus else .absent).text := by
    split <;> rfl
  have signs : isNegative x = (if isNegative x then Sign.minus else .absent).isMinus := by
    cases isNegative x <;> rfl
  rw [hexText_of_isFinite finite, sign,
    float?_text_of_magnitude (.inl rfl) (written x) finite (value_written x).symm signs,
    if_pos (isModerate_written finite), if_pos (mantissa_written_lt x)]

/-- The text of infinity is not read back. -/
theorem float?_hexText_infinity (negative : Bool) :
    float? (hexText (infinity negative)) = none := by
  cases negative <;> decide

/-- Every finite double is read back from its hexadecimal text, bit by bit. -/
theorem hexText_round_trip {bits : UInt64} (finite : IsFiniteWord bits) :
    (float? (hexText (Float.ofBits bits))).map Float.toBits = some bits := by
  have word := toBits_ofBits (.inl finite)
  have number : isFinite (Float.ofBits bits) := by
    rw [isFinite, exponentField, word]
    exact decide_eq_true finite
  rw [float?_hexText number, Option.map_some, word]

/-- The negative number next to zero. -/
theorem hexText_round_trip_least :
    hexText (Float.ofBits 0x8000000000000001) = "-0x0.0000000000001p-1022".toList ∧
      (float? (hexText (Float.ofBits 0x8000000000000001))).map Float.toBits =
        some 0x8000000000000001 :=
  ⟨by decide, hexText_round_trip (by decide)⟩

/-! ### The form of the text -/

/-- At most thirteen digits behind the point, in lower case and without trailing zeros, and an
exponent with a sign and without leading zeros. -/
structure HexNumber.IsTidy (s : HexNumber) : Prop where
  places : ∀ digits ∈ s.fraction, 1 ≤ digits.length ∧ digits.length ≤ 13 ∧
    (∀ c ∈ digits, c ∈ "0123456789abcdef".toList) ∧ digits.getLast? ≠ some '0'
  exponent : ∃ e ∈ s.exponent, e.mark = 'p' ∧ e.sign ≠ .absent ∧
    (e.digits.head? = some '0' → e.digits = ['0'])

/-- A decimal numeral that begins with a zero is that zero. -/
theorem toDigits_of_head?_zero {n : ℕ} (zero : (Nat.toDigits 10 n).head? = some '0') :
    Nat.toDigits 10 n = ['0'] := by
  rcases Nat.eq_zero_or_pos n with rfl | positive
  · rfl
  · obtain ⟨c, rest, digits, nonzero⟩ := exists_toDigits_eq_cons positive
    rw [digits, List.head?_cons] at zero
    exact absurd (Option.some.inj zero) nonzero

/-- What is written has no superfluous digits. -/
theorem isTidy_written (x : Float) : (written x).IsTidy := by
  constructor
  · intro digits mem
    rw [fraction_written] at mem
    obtain ⟨trimmed, nonempty⟩ := of_mem_writtenPlaces mem
    have length := length_places_written x
    have last := getLast?_dropTrailingZeros (hexDigits 13 (fractionField x))
    rw [places_written, ← trimmed] at length
    rw [← trimmed] at last
    refine ⟨List.length_pos_iff.mpr nonempty, length, ?_, last⟩
    intro c mem
    rw [trimmed] at mem
    obtain ⟨d, small, rfl⟩ := of_mem_hexDigits ((prefix_dropTrailingZeros _).subset mem)
    have lower : ∀ d < 16, d.digitChar ∈ "0123456789abcdef".toList := by decide
    exact lower d small
  · refine ⟨_, exponent_written x, rfl, ?_, toDigits_of_head?_zero⟩
    change writtenSign x ≠ .absent
    unfold writtenSign
    split <;> simp

theorem sign_of_hexText_infinity :
    ∀ negative negative' : Bool,
      hexText (infinity negative) = hexText (infinity negative') → negative = negative' := by
  decide

/-- Numbers and infinities with the same text are the same. -/
theorem eq_of_hexText_eq {y : Float} (number : isFinite x ∨ isInfinite x)
    (number' : isFinite y ∨ isInfinite y) (same : hexText x = hexText y) : x = y := by
  rcases number with finite | infinite
  · have read := float?_hexText finite
    rcases number' with finite' | infinite'
    · rw [same, float?_hexText finite'] at read
      exact (Option.some.inj read).symm
    · rw [same, eq_infinity infinite', float?_hexText_infinity] at read
      cases read
  · rcases number' with finite' | infinite'
    · have read := float?_hexText finite'
      rw [← same, eq_infinity infinite, float?_hexText_infinity] at read
      cases read
    · rw [eq_infinity infinite, eq_infinity infinite'] at same ⊢
      rw [sign_of_hexText_infinity _ _ same]

/-- The text of a finite double is a tidy hexadecimal number behind the sign. Its value is exactly
that of the double, and its lead digit tells whether the double is normal. Words that are not the
same and that stand for numbers or infinities have different texts. -/
theorem hexText_denotes :
    (∀ x, isFinite x → ∃ s : HexNumber,
      hexText x = (if isNegative x then ['-'] else []) ++ '0' :: 'x' :: s.text ∧
        s.whole = [if exponentField x = 0 then '0' else '1'] ∧ s.IsTidy ∧
          toRat x = if isNegative x then -s.value else s.value) ∧
      ∀ bits bits', IsNumberWord bits → IsNumberWord bits' → bits ≠ bits' →
        hexText (Float.ofBits bits) ≠ hexText (Float.ofBits bits') := by
  constructor
  · intro x finite
    refine ⟨written x, hexText_of_isFinite finite, whole_written x, isTidy_written x, ?_⟩
    rw [toRat, value_written]
  · intro bits bits' number number' differ same
    have word := toBits_ofBits number
    have word' := toBits_ofBits number'
    have equal := eq_of_hexText_eq (isFinite_or_isInfinite (word.symm ▸ number))
      (isFinite_or_isInfinite (word'.symm ▸ number')) same
    exact differ (by rw [← word, ← word', equal])

/-- A number with a long fraction, and the two zeros. -/
theorem hexText_denotes_tenth :
    (∃ s : HexNumber, hexText (-0.1) = '-' :: '0' :: 'x' :: s.text ∧ s.whole = ['1'] ∧
      s.IsTidy ∧ toRat (-0.1) = -s.value) ∧
      hexText (Float.ofBits 0) ≠ hexText (Float.ofBits 0x8000000000000000) := by
  obtain ⟨number, distinct⟩ := hexText_denotes
  refine ⟨number (-0.1) (by decide), ?_⟩
  exact distinct 0 0x8000000000000000 (by decide) (by decide) (by decide)

end Written

end FrameCode.Binary64
