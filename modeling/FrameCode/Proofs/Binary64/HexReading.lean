import FrameCode.Proofs.Binary64.ExactArithmetic
import FrameCode.Proofs.Binary64.Literals
import FrameCode.Proofs.IntegerNumerals

/-!
Hexadecimal literals and their values. A hexadecimal number has an exact rational value, that of its
digits in positional notation times a power of two (`HexNumber.value`). It is read in two stages.
The digits on both sides of the point are put together to one integer, digit by digit
(`hexMantissa?_of_isShort`), and the integer is scaled (`StandsFor.scale`). Both stages are exact
for a number that is a double, except that the integer on its own may be too large for one. Then the
result is an infinity, whatever the exponent says. Exponents of `2^31` and more are refused, and the
digits behind the point are counted in a product of thirty-two bits, which wraps around from `2^29`
digits on; where that leaves an exponent at all, it does no harm (`scale_reducedPower`). So the
numbers with a value among the doubles that are read as that double are exactly those with an
integer below `2^1024` and moderate exponents (`float?_hexadecimal`).
-/

namespace FrameCode

/-! ### Rows of digits -/

namespace Numeral

variable {radix : Nat} {digits : List Char}

/-- The number that a row of digits stands for, the most significant digit first. -/
def rowValue (radix : Nat) (digits : List Char) : Nat :=
  Nat.ofDigits radix (digits.reverse.map fun c => (digit? radix c).getD 0)

/-- Later digits shift earlier ones up. -/
theorem rowValue_append (radix : Nat) (digits later : List Char) :
    rowValue radix (digits ++ later) =
      rowValue radix digits * radix ^ later.length + rowValue radix later := by
  rw [rowValue, List.reverse_append, List.map_append, Nat.ofDigits_append, List.length_map,
    List.length_reverse, rowValue, rowValue]
  ring

theorem rowValue_replicate_zero (zeros : ℕ) : rowValue 16 (List.replicate zeros '0') = 0 := by
  induction zeros with
  | zero => rfl
  | succ zeros ih =>
      rw [List.replicate_succ', rowValue_append, ih]
      rfl

/-- A row of digits is read as its value. -/
theorem value?_eq_rowValue (bound : radix ≤ 16) (row : AllDigits radix digits) :
    value? radix digits = some (rowValue radix digits) := by
  induction digits using List.reverseRecOn with
  | nil => rfl
  | append_singleton digits c ih =>
      obtain ⟨d, digit⟩ := row c (by simp)
      have read := (digit?_eq_some_iff bound).mpr digit
      have front : AllDigits radix digits := fun c mem => row c (by simp [mem])
      rw [value?_append_singleton, ih front, Option.bind_some, read, Option.map_some,
        rowValue_append]
      simp [rowValue, read]

theorem allDigits_toDigits (n : Nat) : AllDigits 10 (Nat.toDigits 10 n) :=
  (isSome_value?_iff (by decide)).mp (Option.isSome_of_eq_some (value?_toDigits n))

/-- The decimal digits of a number have it as their value. -/
theorem rowValue_toDigits (n : Nat) : rowValue 10 (Nat.toDigits 10 n) = n := by
  have read := value?_eq_rowValue (by decide) (allDigits_toDigits n)
  rw [value?_toDigits] at read
  exact (Option.some.inj read).symm

def Sign.apply (sign : Sign) (q : ℚ) : ℚ :=
  if sign.isMinus then -q else q

end Numeral

namespace Binary64

open Numeral

/-! ### Hexadecimal numbers -/

/-- A hexadecimal number: digits, possibly with a point, and possibly a binary exponent. -/
abbrev HexNumber :=
  Scientific 16 ['p', 'P']

def Exponent.value {marks : List Char} (e : Exponent marks) : ℤ :=
  signed e.sign.isMinus (rowValue 10 e.digits)

/-- The exponent with the given sign and size, in decimal digits without leading zeros. -/
def Exponent.decimalPower (sign : Sign) (size : ℕ) : Exponent ['p', 'P'] where
  mark := 'p'
  sign := sign
  digits := Nat.toDigits 10 size
  marked := List.mem_cons_self
  nonempty := Nat.toDigits_ne_nil
  decimal := allDigits_toDigits size

/-- A power that is written with its decimal digits has the value that was meant. -/
theorem Exponent.value_decimalPower (sign : Sign) (size : ℕ) :
    (decimalPower sign size).value = signed sign.isMinus size := by
  rw [Exponent.value, decimalPower, rowValue_toDigits]

namespace HexNumber

variable (s : HexNumber)

def places : List Char :=
  s.fraction.getD []

def power : ℤ :=
  s.exponent.elim 0 Exponent.value

def value : ℚ :=
  (rowValue 16 s.whole + rowValue 16 s.places / 16 ^ s.places.length) * 2 ^ s.power

def mantissa : ℕ :=
  rowValue 16 (s.whole ++ s.places)

/-- The power of two that scales this integer to the value. -/
def shift : ℤ :=
  s.power - 4 * s.places.length

/-- What is left of the written power when four times the number of digits behind the point is taken
off it, where the product is one of thirty-two bits. -/
def reducedPower : ℤ :=
  s.power - (4 * (s.places.length : ℤ)).bmod (2 ^ 32)

/-- The exponent and the number of digits behind the point are below `2^31` in size, and so is what
is left of the exponent. -/
def IsModerate : Prop :=
  s.power.natAbs < 0x80000000 ∧ s.places.length < 0x80000000 ∧
    -0x80000000 ≤ s.reducedPower ∧ s.reducedPower < 0x80000000

instance : Decidable s.IsModerate :=
  inferInstanceAs (Decidable (_ ∧ _))

variable {s}

/-- Where there are not too many digits behind the point, nothing wraps around. -/
theorem reducedPower_of_few (few : s.places.length < 0x20000000) : s.reducedPower = s.shift := by
  rw [reducedPower, shift, Int.bmod_eq_of_le (by omega) (by omega)]

/-- With few digits behind the point only the exponent and what is left of it matter. -/
theorem isModerate_iff_of_few (few : s.places.length < 0x20000000) :
    s.IsModerate ↔ s.power.natAbs < 0x80000000 ∧ -0x80000000 ≤ s.shift := by
  rw [IsModerate, reducedPower_of_few few]
  unfold shift
  omega

/-- With more digits behind the point, what is left of the exponent is too large by a multiple of
`2^32`. -/
theorem shift_lt_of_many (many : 0x20000000 ≤ s.places.length)
    (moderate : s.reducedPower < 0x80000000) : s.shift < -0x80000000 := by
  have wrapped : (4 * (s.places.length : ℤ)).bmod (2 ^ 32) ≤ 4 * s.places.length - 2 ^ 32 := by
    simp only [Int.bmod]
    split <;> omega
  unfold reducedPower at moderate
  unfold shift
  omega

variable (s)

/-- The point only shifts the exponent: the value is all digits as one integer, scaled. -/
theorem value_eq : s.value = s.mantissa * 2 ^ s.shift := by
  have digit : (2 : ℚ) ^ (4 * (s.places.length : ℤ)) = 16 ^ s.places.length := by
    rw [zpow_mul, zpow_natCast]
    norm_num
  have nonzero : (16 : ℚ) ^ s.places.length ≠ 0 := pow_ne_zero _ (by norm_num)
  rw [value, mantissa, shift, rowValue_append, zpow_sub₀ two_ne_zero, digit]
  push_cast
  field_simp

/-! ### Taking a number apart -/

/-- No hexadecimal digit marks an exponent. -/
theorem isExponentMark_eq_false {c : Char} {d : Nat} (digit : IsDigit 16 c d) :
    isExponentMark c = false := by
  simp [isExponentMark, digit.ne (Nat.le_refl 16) (rfl : digit? 16 'p' = none),
    digit.ne (Nat.le_refl 16) (rfl : digit? 16 'P' = none)]

/-- The text is cut where the exponent begins. -/
theorem cut_exponent :
    s.text.takeWhile (!isExponentMark ·) = s.whole ++ s.fraction.elim [] ('.' :: ·) ∧
      s.text.dropWhile (!isExponentMark ·) = exponentText s.exponent := by
  have plain : ∀ c ∈ s.whole ++ s.fraction.elim [] ('.' :: ·), (!isExponentMark c) = true := by
    intro c mem
    have kind : c ∈ s.whole ++ s.fraction.getD [] ∨ c = '.' := by
      cases fraction : s.fraction with
      | none =>
          rw [fraction] at mem
          exact .inl mem
      | some digits =>
          simp only [fraction, Option.elim_some, List.mem_append, List.mem_cons] at mem
          simp only [Option.getD_some, List.mem_append]
          tauto
    rcases kind with mem | rfl
    · obtain ⟨d, digit⟩ := s.digits c mem
      rw [isExponentMark_eq_false digit, Bool.not_false]
    · rfl
  have stop : ∀ c ∈ (exponentText s.exponent).head?, (!isExponentMark c) = false := by
    intro c mem
    have mark : c = 'p' ∨ c = 'P' := by simpa using mem_marks_of_head? mem
    rcases mark with rfl | rfl <;> rfl
  rw [Scientific.text, ← List.append_assoc, List.takeWhile_append_of_pos plain,
    List.dropWhile_append_of_pos plain]
  cases text : exponentText s.exponent with
  | nil => simp
  | cons c rest =>
      have := stop c (by simp [text])
      simp [this]

/-- The part before the exponent is cut at the point. -/
theorem cut_point :
    (s.whole ++ s.fraction.elim [] ('.' :: ·)).takeWhile (· != '.') = s.whole ∧
      ((s.whole ++ s.fraction.elim [] ('.' :: ·)).dropWhile (· != '.')).drop 1 = s.places := by
  have plain : ∀ c ∈ s.whole, (c != '.') = true := by
    intro c mem
    obtain ⟨d, digit⟩ := s.digits c (List.mem_append_left _ mem)
    simpa using digit.ne (Nat.le_refl 16) rfl
  rw [List.takeWhile_append_of_pos plain, List.dropWhile_append_of_pos plain, places]
  cases s.fraction with
  | none => simp
  | some digits => simp

end HexNumber

theorem natAbs_signed (negative : Bool) (n : Nat) : (signed negative n).natAbs = n := by
  cases negative <;> simp [signed]

/-- A written exponent is read if it is below `2^31` in size. -/
theorem hexExponent?_text (e : Exponent ['p', 'P']) :
    hexExponent? (e.sign.text ++ e.digits) =
      if e.value.natAbs < 0x80000000 then some e.value else none := by
  have unsigned := e.decimal.not_isSigned (by decide)
  simp only [hexExponent?, splitSign_append e.sign fun _ => unsigned, List.isEmpty_iff, e.nonempty,
    if_false, value?_eq_rowValue (by decide) e.decimal, Option.bind_eq_bind, Option.bind_some,
    Exponent.value, natAbs_signed]

/-- The number of digits behind the point has to fit, but its product with four wraps around. -/
theorem bind_placesExponent? {α : Type} (places : ℕ) (next : ℤ → Option α) :
    ((placesExponent? places).bind fun off => next off.toInt) =
      if places < 0x80000000 then next ((4 * (places : ℤ)).bmod (2 ^ 32)) else none := by
  unfold placesExponent?
  split
  · next small =>
    have count : (Int32.ofNat places).toInt = places := Int32.toInt_ofNat_of_lt (by omega)
    rw [Option.bind_some, Int32.toInt_mul, count]
    rfl
  · rfl

/-- The digits are put together to an integer, and the integer is scaled. -/
theorem hex?_text (s : HexNumber) :
    hex? s.text =
      (hexMantissa? (s.whole ++ s.places)).bind fun x =>
        if s.IsModerate then some (scale x s.reducedPower) else none := by
  obtain ⟨front, back⟩ := s.cut_exponent
  obtain ⟨whole, places⟩ := s.cut_point
  have nonempty : (s.whole.isEmpty && s.places.isEmpty) = false := by
    simpa [HexNumber.places] using s.nonempty
  simp only [hex?, front, back, whole, places, nonempty, Bool.false_eq_true, if_false,
    Option.bind_eq_bind]
  congr 1
  funext x
  have reduced := bind_placesExponent? s.places.length fun off =>
    if -0x80000000 ≤ s.power - off ∧ s.power - off < 0x80000000 then some (scale x (s.power - off))
    else none
  rw [← ite_and, ← HexNumber.reducedPower] at reduced
  cases exponent : s.exponent with
  | none =>
      have power : s.power = 0 := by rw [HexNumber.power, exponent, Option.elim_none]
      rw [power] at reduced
      simp only [exponentText, Option.elim_none, Option.bind_some, HexNumber.IsModerate, power,
        reduced, Int.natAbs_zero, Nat.ofNat_pos, true_and]
  | some e =>
      have power : s.power = e.value := by rw [HexNumber.power, exponent, Option.elim_some]
      rw [power] at reduced
      simp only [exponentText, Option.elim_some, Exponent.text, hexExponent?_text,
        HexNumber.IsModerate, power]
      by_cases small : e.value.natAbs < 0x80000000
      · simp only [small, if_true, Option.bind_some, true_and, reduced]
      · simp only [small, if_false, Option.bind_none, false_and]

/-! ### Putting digits together -/

section Mantissa

variable {x : Float} {n m d : ℕ} {e : ℤ} {q : ℚ}

theorem standsFor_zero : StandsFor 0.0 0 :=
  standsFor_literal 0 (by decide) (by decide) Nat.cast_zero.symm

theorem standsFor_sixteen : StandsFor 16.0 16 :=
  standsFor_literal 16 (by decide) (by decide) (Nat.cast_ofNat (n := 16)).symm

/-- Scaling up keeps a number short. -/
theorem IsShort.scale (short : IsShort q) (up : 0 ≤ e) : IsShort (q * 2 ^ e) := by
  obtain ⟨m, e', small, least, rfl⟩ := short
  refine ⟨m, e' + e, small, by omega, ?_⟩
  rw [zpow_add₀ two_ne_zero, mul_assoc]

theorem IsShort.mul_sixteen (short : IsShort q) : IsShort (q * 16) := by
  have scaled := short.scale (by decide : (0 : ℤ) ≤ 4)
  norm_num at scaled
  exact scaled

/-- An integer needs no bits behind the point. -/
theorem isShort_of_eq (small : m < 0x20000000000000) (same : (n : ℚ) = m * 2 ^ e) :
    IsShort n := by
  rcases Int.le_total 0 e with up | down
  · exact ⟨m, e, small, by omega, same⟩
  · have less : (n : ℚ) ≤ m := by
      rw [same]
      exact mul_le_of_le_one_right (Nat.cast_nonneg m) (zpow_le_one_of_nonpos₀ one_le_two down)
    have le : n ≤ m := by exact_mod_cast less
    exact isShort_natCast (Nat.lt_of_le_of_lt le small)

/-- An integer with few significant bits has few also without its last digit. -/
theorem IsShort.of_append_digit (short : IsShort (n * 16 + d : ℕ)) (digit : d < 16) :
    IsShort n := by
  obtain ⟨m, e, small, -, same⟩ := short
  by_cases high : 4 ≤ e
  · -- the digit is zero and the other bits move down by its four
    have scaled := (scaled_eq_iff (by omega : 0 ≤ e)).mp (by rwa [zpow_zero, mul_one])
    have bits : 2 ^ (e - 0).toNat = 2 ^ (e - 4).toNat * 16 := by
      rw [show (e - 0).toNat = (e - 4).toNat + 4 by omega]
      exact pow_add 2 _ 4
    rw [bits, ← mul_assoc] at scaled
    have front : n = m * 2 ^ (e - 4).toNat := by omega
    refine isShort_of_eq small (e := (e - 4).toNat) ?_
    rw [front]
    push_cast
    rw [zpow_natCast]
  · have less : ((n * 16 + d : ℕ) : ℚ) ≤ m * 2 ^ (4 : ℤ) := by
      rw [same]
      exact mul_le_mul_of_nonneg_left (zpow_le_zpow_right₀ one_le_two (by omega))
        (Nat.cast_nonneg m)
    have le : n * 16 + d ≤ m * 2 ^ 4 := by exact_mod_cast less
    exact isShort_natCast (by omega)

theorem sixteen_dvd_limit : 16 ∣ limit :=
  pow_dvd_pow 2 (by decide : 4 ≤ 1024)

/-- An integer with 257 hexadecimal digits or more is too large. -/
theorem sixteen_pow_lt_limit_iff (k : ℕ) : 16 ^ k < limit ↔ k < 256 := by
  have bits : 16 ^ k = 2 ^ (4 * k) := by
    rw [pow_mul]
    rfl
  rw [bits, limit, Nat.pow_lt_pow_iff_right (by decide)]
  omega

/-- One more digit, as long as the result is a double. -/
theorem StandsFor.append_digit (stands : StandsFor x n) (digit : d < 16)
    (short : IsShort (n * 16 + d : ℕ)) (below : n * 16 + d < limit) :
    StandsFor (x * 16.0 + d.toUInt64.toFloat) (n * 16 + d : ℕ) := by
  have last : StandsFor d.toUInt64.toFloat d := standsFor_toFloat (by omega)
  have below' : (n * 16 : ℚ) < limit := by exact_mod_cast Nat.lt_of_le_of_lt (by omega) below
  have product := stands.mul standsFor_sixteen stands.isShort.mul_sixteen below'
  push_cast at short ⊢
  exact product.add last short (by exact_mod_cast below)

/-- The digit that makes the integer too large makes it infinite. -/
theorem StandsFor.append_digit_eq_infinity (stands : StandsFor x n) (digit : d < 16)
    (large : limit ≤ n * 16 + d) :
    x * 16.0 + d.toUInt64.toFloat = infinity false := by
  -- the limit is a multiple of sixteen, so the digit cannot be what reaches it
  obtain ⟨k, multiple⟩ := sixteen_dvd_limit
  have reached : limit ≤ n * 16 := by omega
  have product := stands.mul_eq_infinity standsFor_sixteen stands.isShort.mul_sixteen
    (by exact_mod_cast reached)
  rw [product]
  exact (standsFor_toFloat (by omega)).infinity_add

/-- Behind infinity no digit changes anything. -/
theorem infinity_append_digit (digit : d < 16) :
    infinity false * 16.0 + d.toUInt64.toFloat = infinity false := by
  rw [standsFor_sixteen.infinity_mul (by norm_num)]
  exact (standsFor_toFloat (by omega)).infinity_add

/-- Digits are read from left to right, one at a time. -/
theorem hexMantissa?_append_singleton (digits : List Char) (c : Char) :
    hexMantissa? (digits ++ [c]) =
      (hexMantissa? digits).bind fun value =>
        (digit? 16 c).map fun d => value * 16.0 + d.toUInt64.toFloat := by
  rw [hexMantissa?, List.foldlM_append]
  simp [hexMantissa?]

/-- A row of digits is read exactly if its number is a double; a number that is too large is read as
an infinity. -/
theorem hexMantissa?_of_isShort {digits : List Char} (read : value? 16 digits = some n)
    (short : IsShort n) :
    ∃ x, hexMantissa? digits = some x ∧
      (n < limit → StandsFor x n) ∧ (limit ≤ n → x = infinity false) := by
  induction digits using List.reverseRecOn generalizing n with
  | nil =>
      obtain rfl : n = 0 := by simpa [value?] using read.symm
      have positive : 0 < limit := by exact_mod_cast standsFor_zero.lt_limit
      exact ⟨0.0, rfl, fun _ => by exact_mod_cast standsFor_zero, fun large => by omega⟩
  | append_singleton digits c ih =>
      rw [value?_append_singleton] at read
      obtain ⟨before, front, last⟩ := Option.bind_eq_some_iff.mp read
      obtain ⟨d, digit, rfl⟩ := Option.map_eq_some_iff.mp last
      have small : d < 16 := digit?_lt digit
      obtain ⟨x, value, exact, infinite⟩ := ih front (short.of_append_digit small)
      refine ⟨x * 16.0 + d.toUInt64.toFloat, ?_, ?_, ?_⟩
      · rw [hexMantissa?_append_singleton, value, Option.bind_some, digit, Option.map_some]
      · intro below
        exact (exact (by omega)).append_digit small short below
      · intro large
        rcases Nat.lt_or_ge before limit with below | above
        · exact (exact below).append_digit_eq_infinity small large
        · rw [infinite above]
          exact infinity_append_digit small

end Mantissa

/-! ### Scaling -/

section Scaling

variable {x f : Float} {count : ℕ} {e : ℤ} {p r : ℚ}

/-- Repeated multiplication is exact if all intermediate results are doubles. -/
theorem StandsFor.multiplyTimes (stands : StandsFor x p) (factor : StandsFor f r)
    (fit : ∀ j ≤ count, IsShort (p * r ^ j) ∧ p * r ^ j < limit) :
    StandsFor (multiplyTimes f count x) (p * r ^ count) := by
  induction count generalizing x p with
  | zero =>
      rw [pow_zero, mul_one]
      exact stands
  | succ count ih =>
      obtain ⟨short, below⟩ := fit 1 (by omega)
      rw [pow_one] at short below
      have first := stands.mul factor short below
      have later := ih first fun j le => by
        have := fit (j + 1) (by omega)
        rwa [pow_succ', ← mul_assoc] at this
      rw [pow_succ', ← mul_assoc]
      exact later

theorem multiplyTimes_infinity (factor : StandsFor f r) (positive : 0 < r) (count : ℕ) :
    multiplyTimes f count (infinity false) = infinity false := by
  induction count with
  | zero => rfl
  | succ count ih => rw [multiplyTimes, factor.infinity_mul positive, ih]

/-- Scaling goes through powers of two between the number and the result. -/
theorem fits_between (stands : StandsFor x p) (short : IsShort (p * 2 ^ e))
    (below : p * 2 ^ e < limit) {j : ℤ} (between : 0 ≤ j ∧ j ≤ e ∨ e ≤ j ∧ j ≤ 0) :
    IsShort (p * 2 ^ j) ∧ p * 2 ^ j < limit := by
  have nonneg : 0 ≤ p := stands.value ▸ magnitude_nonneg x
  rcases between with ⟨up, le⟩ | ⟨ge, down⟩
  · have less : (2 : ℚ) ^ j ≤ 2 ^ e := zpow_le_zpow_right₀ one_le_two le
    exact ⟨stands.isShort.scale up, lt_of_le_of_lt (mul_le_mul_of_nonneg_left less nonneg) below⟩
  · have rest : p * 2 ^ j = p * 2 ^ e * 2 ^ (j - e) := by
      rw [mul_assoc, ← zpow_add₀ two_ne_zero, add_sub_cancel]
    have less : p * 2 ^ j ≤ p :=
      mul_le_of_le_one_right nonneg (zpow_le_one_of_nonpos₀ one_le_two down)
    exact ⟨rest ▸ short.scale (by omega), lt_of_le_of_lt less stands.lt_limit⟩

/-- Scaling in several steps of the same size and a last one. -/
theorem StandsFor.multiplyTimes_twoPow {k rest : ℤ} (stands : StandsFor x p)
    (short : IsShort (p * 2 ^ e)) (below : p * 2 ^ e < limit) (step : -1022 ≤ k ∧ k ≤ 1023)
    (last : -1022 ≤ rest ∧ rest ≤ 1023) (sum : k * count + rest = e)
    (between : ∀ j ≤ count, 0 ≤ k * j ∧ k * j ≤ e ∨ e ≤ k * j ∧ k * j ≤ 0) :
    StandsFor (Binary64.multiplyTimes (twoPow k) count x * twoPow rest) (p * 2 ^ e) := by
  have power (j : ℕ) : ((2 : ℚ) ^ k) ^ j = 2 ^ (k * j) := by rw [zpow_mul, zpow_natCast]
  have steps := stands.multiplyTimes (standsFor_twoPow step.1 step.2) fun j le => by
    rw [power]
    exact fits_between stands short below (between j le)
  have total : p * (2 ^ k) ^ count * 2 ^ rest = p * 2 ^ e := by
    rw [power, mul_assoc, ← zpow_add₀ two_ne_zero, sum]
  rw [← total] at short below ⊢
  exact steps.mul (standsFor_twoPow last.1 last.2) short below

/-- Scaling is exact if the result is a double. -/
theorem StandsFor.scale (stands : StandsFor x p) (short : IsShort (p * 2 ^ e))
    (below : p * 2 ^ e < limit) : StandsFor (scale x e) (p * 2 ^ e) := by
  unfold Binary64.scale
  split
  · refine stands.multiplyTimes_twoPow short below (by decide) (by omega) (by omega) ?_
    intro j le
    omega
  · refine stands.multiplyTimes_twoPow short below (by decide) (by omega) (by omega) ?_
    intro j le
    omega

/-- Scaling does not bring infinity back. -/
theorem scale_infinity (e : ℤ) : scale (infinity false) e = infinity false := by
  have kept {k rest : ℤ} (step : -1022 ≤ k ∧ k ≤ 1023) (last : -1022 ≤ rest ∧ rest ≤ 1023)
      (count : ℕ) : multiplyTimes (twoPow k) count (infinity false) * twoPow rest =
        infinity false := by
    rw [multiplyTimes_infinity (standsFor_twoPow step.1 step.2) (zpow_pos two_pos k),
      (standsFor_twoPow last.1 last.2).infinity_mul (zpow_pos two_pos rest)]
  unfold scale
  split
  · exact kept (by decide) (by omega) _
  · exact kept (by decide) (by omega) _

end Scaling

/-! ### Reading literals -/

section Reading

variable {x : Float} {q : ℚ} {sign : Sign} {mark : Char}

/-- If the value is short, so is the integer that is scaled to it. -/
theorem HexNumber.isShort_mantissa (s : HexNumber) (short : IsShort s.value) :
    IsShort s.mantissa := by
  obtain ⟨m, e, small, -, same⟩ := short
  refine isShort_of_eq small (e := e - s.shift) ?_
  rw [zpow_sub₀ two_ne_zero, ← mul_div_assoc, ← same, s.value_eq,
    mul_div_cancel_right₀ _ (zpow_ne_zero _ two_ne_zero)]

/-- A double is not so small that an integer below `2^1024` is scaled to it by less. -/
theorem HexNumber.lt_shift (s : HexNumber) (short : IsShort s.value) (positive : 0 < s.mantissa)
    (below : s.mantissa < limit) : -2098 < s.shift := by
  by_contra low
  have upper : s.value < 2 ^ (-1074 : ℤ) :=
    calc s.value = s.mantissa * 2 ^ s.shift := s.value_eq
      _ < limit * 2 ^ s.shift :=
        mul_lt_mul_of_pos_right (by exact_mod_cast below) (zpow_pos two_pos _)
      _ ≤ limit * 2 ^ (-2098 : ℤ) :=
        mul_le_mul_of_nonneg_left (zpow_le_zpow_right₀ one_le_two (by omega)) (Nat.cast_nonneg _)
      _ = 2 ^ (-1074 : ℤ) := by
        rw [limit, Nat.cast_pow, Nat.cast_ofNat, ← zpow_natCast, ← zpow_add₀ two_ne_zero]
        rfl
  obtain ⟨m, e, -, least, same⟩ := short
  have nonzero : m ≠ 0 := by
    rintro rfl
    rw [s.value_eq, Nat.cast_zero, zero_mul] at same
    exact (mul_pos (Nat.cast_pos.mpr positive) (zpow_pos two_pos _)).ne' same
  have lower : (2 : ℚ) ^ (-1074 : ℤ) ≤ s.value := by
    have one : (1 : ℚ) ≤ m := by exact_mod_cast Nat.one_le_iff_ne_zero.mpr nonzero
    calc (2 : ℚ) ^ (-1074 : ℤ) ≤ 2 ^ e := zpow_le_zpow_right₀ one_le_two least
      _ ≤ m * 2 ^ e := le_mul_of_one_le_left (zpow_nonneg zero_le_two _) one
      _ = s.value := same.symm
  exact absurd upper (not_lt.mpr lower)

/-- An integer that is read exactly is scaled to the double, also where the product of thirty-two
bits wraps around: then only zero is left to be read. -/
theorem scale_reducedPower {y : Float} {s : HexNumber} (stands : StandsFor x s.value)
    (moderate : s.IsModerate) (below : s.mantissa < limit) (exact : StandsFor y s.mantissa) :
    scale y s.reducedPower = x := by
  have short := stands.isShort
  rcases Nat.lt_or_ge s.places.length 0x20000000 with few | many
  · have bounded := stands.lt_limit
    rw [HexNumber.reducedPower_of_few few]
    have result : StandsFor (scale y s.shift) s.value := by
      rw [s.value_eq] at short bounded ⊢
      exact exact.scale short bounded
    exact result.unique stands
  · have zero : s.mantissa = 0 := by
      by_contra nonzero
      have low := HexNumber.shift_lt_of_many many moderate.2.2.2
      have high := s.lt_shift short (Nat.pos_of_ne_zero nonzero) below
      omega
    have value : s.value = 0 := by rw [s.value_eq, zero, Nat.cast_zero, zero_mul]
    rw [value] at stands short
    rw [zero, Nat.cast_zero] at exact
    have result := exact.scale (e := s.reducedPower) (by rwa [zero_mul])
      (by rw [zero_mul]; exact stands.lt_limit)
    rw [zero_mul] at result
    exact result.unique stands

/-- What a number without a sign is read as, if its value is a double. -/
theorem hex?_text_of_standsFor (s : HexNumber) (stands : StandsFor x s.value) :
    hex? s.text =
      if s.IsModerate then some (if s.mantissa < limit then x else infinity false) else none := by
  have digits := value?_eq_rowValue (Nat.le_refl 16) s.digits
  obtain ⟨y, read, exact, infinite⟩ :=
    hexMantissa?_of_isShort digits (s.isShort_mantissa stands.isShort)
  rw [hex?_text, HexNumber.places, read, Option.bind_some]
  split
  · next moderate =>
    split
    · next below => rw [scale_reducedPower stands moderate below (exact below)]
    · next above => rw [infinite (Nat.le_of_not_lt above), scale_infinity]
  · rfl

/-- Behind a sign and the mark, the rest is read as a hexadecimal number. -/
theorem float?_marked (sign : Sign) (marked : mark = 'x' ∨ mark = 'X') (body : List Char) :
    float? (sign.text ++ '0' :: mark :: body) = (hex? body).map (withSign sign.isMinus) := by
  have unsigned : ¬ IsSigned ('0' :: mark :: body) := by simp [IsSigned]
  have read : unsigned? ('0' :: mark :: body) = hex? body := by
    rcases marked with rfl | rfl <;> rfl
  simp only [float?, splitSign_append sign fun _ => unsigned, read]

theorem withSign_infinity (negative : Bool) :
    withSign negative (infinity false) = infinity negative := by
  cases negative with
  | false => rfl
  | true => exact neg_infinity false

/-- A finite double is a sign in front of a nonnegative one. -/
theorem exists_standsFor (finite : isFinite x) :
    ∃ y, StandsFor y (magnitude x) ∧ withSign (isNegative x) y = x := by
  obtain ⟨canonical, most⟩ := canonical_parts finite
  obtain ⟨finite', sign, significand, exponent⟩ := parts_ofParts canonical most false
  refine ⟨_, canonical.standsFor (canonical.lt_limit_iff.mpr most), ?_⟩
  cases negative : isNegative x with
  | false =>
      have parts := ofParts_parts finite
      rw [negative] at parts
      exact parts
  | true =>
      rw [withSign, if_pos rfl, neg_eq_ofParts finite', sign, significand, exponent, Bool.not_false,
        ← negative]
      exact ofParts_parts finite

/-- What a literal is read as, if its sign and value are those of a double. -/
theorem float?_text_of_magnitude (marked : mark = 'x' ∨ mark = 'X') (s : HexNumber)
    (finite : isFinite x) (same : magnitude x = s.value) (signs : isNegative x = sign.isMinus) :
    float? (sign.text ++ '0' :: mark :: s.text) =
      if s.IsModerate then some (if s.mantissa < limit then x else infinity sign.isMinus)
      else none := by
  obtain ⟨y, stands, signed⟩ := exists_standsFor finite
  rw [same] at stands
  rw [signs] at signed
  rw [float?_marked sign marked, hex?_text_of_standsFor s stands]
  split
  · rw [Option.map_some, apply_ite (withSign sign.isMinus), signed, withSign_infinity]
  · rfl

/-- Without a sign no value is negative. -/
theorem HexNumber.value_nonneg (s : HexNumber) : 0 ≤ s.value := by
  rw [s.value_eq]
  exact mul_nonneg (Nat.cast_nonneg _) (zpow_nonneg zero_le_two _)

/-- The value of a double gives its magnitude and, except for zero, its sign. -/
theorem parts_of_toRat_eq (nonneg : 0 ≤ q) (value : toRat x = sign.apply q)
    (zero : q = 0 → isNegative x = sign.isMinus) :
    magnitude x = q ∧ isNegative x = sign.isMinus := by
  have same : magnitude x = q := by
    rw [magnitude_eq_abs, value, Sign.apply]
    split
    · rw [abs_neg, abs_of_nonneg nonneg]
    · exact abs_of_nonneg nonneg
  refine ⟨same, ?_⟩
  by_contra differ
  have opposite : isNegative x = !sign.isMinus := Bool.eq_not.mpr differ
  rw [toRat, Sign.apply, same, opposite] at value
  have vanishes : q = 0 := by
    cases minus : sign.isMinus <;> simp [minus] at value <;> linarith
  exact differ (zero vanishes)

/-- One, written with zeros behind it and an exponent that takes them back. -/
def longOne (zeros : ℕ) : HexNumber where
  whole := '1' :: List.replicate zeros '0'
  fraction := none
  exponent := some (.decimalPower .minus (4 * zeros))
  nonempty := by simp
  digits := by
    intro c mem
    have kind : c = '1' ∨ c = '0' := by
      simp at mem
      tauto
    rcases kind with rfl | rfl
    · exact ⟨1, by decide, .inl rfl⟩
    · exact ⟨0, by decide, .inl rfl⟩

/-- Zero, written with zeros behind the point or with an exponent. -/
def longZero (zeros : ℕ) (exponent : Option (Exponent ['p', 'P'])) : HexNumber where
  whole := ['0']
  fraction := some (List.replicate zeros '0')
  exponent := exponent
  nonempty := by simp
  digits := by
    intro c mem
    obtain rfl : c = '0' := by
      simp at mem
      tauto
    exact ⟨0, by decide, .inl rfl⟩

theorem mantissa_longOne (zeros : ℕ) : (longOne zeros).mantissa = 16 ^ zeros := by
  have row : (longOne zeros).mantissa = rowValue 16 (['1'] ++ List.replicate zeros '0') := by
    simp [HexNumber.mantissa, HexNumber.places, longOne]
  have one : rowValue 16 ['1'] = 1 := rfl
  rw [row, rowValue_append, rowValue_replicate_zero, List.length_replicate, one, Nat.one_mul,
    Nat.add_zero]

/-- The exponent undoes the zeros. -/
theorem shift_longOne (zeros : ℕ) :
    (longOne zeros).power = -(4 * zeros) ∧ (longOne zeros).shift = -(4 * zeros) := by
  have power : (longOne zeros).power = -(4 * zeros) := by
    change (Exponent.decimalPower .minus (4 * zeros)).value = _
    rw [Exponent.value_decimalPower]
    simp [signed, Sign.isMinus]
  refine ⟨power, ?_⟩
  rw [HexNumber.shift, power]
  simp [HexNumber.places, longOne]

/-- However many zeros there are, the value is one. -/
theorem value_longOne (zeros : ℕ) : (longOne zeros).value = 1 := by
  have bits : (16 : ℚ) ^ zeros = 2 ^ (4 * (zeros : ℤ)) := by
    rw [zpow_mul, zpow_natCast]
    norm_num
  rw [HexNumber.value_eq, mantissa_longOne, (shift_longOne zeros).2, Nat.cast_pow, Nat.cast_ofNat,
    bits, ← zpow_add₀ two_ne_zero, add_neg_cancel, zpow_zero]

/-- Its exponent is moderate, so only the digits can be too many. -/
theorem isModerate_longOne {zeros : ℕ} (few : zeros < 0x20000000) : (longOne zeros).IsModerate := by
  obtain ⟨power, shift⟩ := shift_longOne zeros
  have none : (longOne zeros).places = [] := rfl
  rw [HexNumber.isModerate_iff_of_few (by simp [none]), power, shift]
  omega

theorem value_longZero (zeros : ℕ) (exponent : Option (Exponent ['p', 'P'])) :
    (longZero zeros exponent).value = 0 := by
  have mantissa : (longZero zeros exponent).mantissa = 0 := by
    have row : (longZero zeros exponent).mantissa =
        rowValue 16 (List.replicate (zeros + 1) '0') := by
      simp [HexNumber.mantissa, HexNumber.places, longZero, List.replicate_succ]
    rw [row, rowValue_replicate_zero]
  rw [HexNumber.value_eq, mantissa, Nat.cast_zero, zero_mul]

/-- An exponent of thirty-two bits is refused. -/
theorem not_isModerate_of_exponent :
    ¬ (longZero 0 (some (.decimalPower .absent 0x80000000))).IsModerate := by
  have power : (longZero 0 (some (.decimalPower .absent 0x80000000))).power = 0x80000000 := by
    change (Exponent.decimalPower .absent 0x80000000).value = _
    rw [Exponent.value_decimalPower]
    rfl
  rintro ⟨small, -⟩
  rw [power] at small
  exact absurd small (by decide)

/-- Four times `2^29` is `-2^31` in thirty-two bits. -/
theorem not_isModerate_of_places : ¬ (longZero 0x20000000 none).IsModerate := by
  have places : (longZero 0x20000000 none).places.length = 0x20000000 := List.length_replicate
  have power : (longZero 0x20000000 none).power = 0 := rfl
  rintro ⟨-, -, -, small⟩
  rw [HexNumber.reducedPower, places, power] at small
  exact absurd small (by decide)

/-- A literal whose value is a double is read as that double, with the sign of the literal if it is
zero, exactly if its exponent and the number of its places are moderate and its digits, taken as an
integer, stay below `2^1024`. With more digits it is read as an infinity, and with a greater
exponent or too many places it is refused. -/
theorem float?_hexadecimal (sign : Sign) (marked : mark = 'x' ∨ mark = 'X') (s : HexNumber)
    (finite : isFinite x) (value : toRat x = sign.apply s.value)
    (zero : s.value = 0 → isNegative x = sign.isMinus) :
    float? (sign.text ++ '0' :: mark :: s.text) =
      if s.IsModerate then some (if s.mantissa < limit then x else infinity sign.isMinus)
      else none := by
  obtain ⟨same, signs⟩ := parts_of_toRat_eq s.value_nonneg value zero
  exact float?_text_of_magnitude marked s finite same signs

/-- With 255 zeros the digits still make a double. -/
theorem float?_hexadecimal_longOne :
    (longOne 255).IsModerate ∧ toRat (-1.0) = Sign.minus.apply (longOne 255).value ∧
      float? ('-' :: '0' :: 'X' :: (longOne 255).text) = some (-1.0) := by
  have moderate : (longOne 255).IsModerate := isModerate_longOne (by decide)
  have small : (longOne 255).mantissa < limit := by
    rw [mantissa_longOne, sixteen_pow_lt_limit_iff]
    decide
  have value : toRat (-1.0) = Sign.minus.apply (longOne 255).value := by
    have significand : significand (-1.0) = 0x10000000000000 := by decide
    have exponent : exponent (-1.0) = -52 := by decide
    have negative : isNegative (-1.0) = true := by decide
    rw [value_longOne, toRat, magnitude, significand, exponent, negative]
    norm_num [Sign.apply, Sign.isMinus]
  have read := float?_hexadecimal .minus (.inr rfl) (longOne 255) (by decide) value
    fun _ => by decide
  rw [if_pos moderate, if_pos small] at read
  exact ⟨moderate, value, read⟩

/-- With one zero more the same number is read as an infinity. Zero is not read at all behind an
exponent of thirty-two bits, nor with `2^29` zeros behind the point. -/
theorem exact_reading_fails :
    (toRat 1.0 = (longOne 256).value ∧
        float? ('0' :: 'x' :: (longOne 256).text) = some (infinity false) ∧
          infinity false ≠ 1.0) ∧
      toRat 0.0 = 0 ∧
        ∀ s ∈ [longZero 0 (some (.decimalPower .absent 0x80000000)), longZero 0x20000000 none],
          s.value = 0 ∧ float? ('0' :: 'x' :: s.text) = none := by
  have one : StandsFor 1.0 (longOne 256).value :=
    value_longOne 256 ▸ standsFor_literal 1 (by decide) (by decide) Nat.cast_one.symm
  have large : ¬ (longOne 256).mantissa < limit := by
    rw [mantissa_longOne, sixteen_pow_lt_limit_iff]
    decide
  have read := float?_text_of_magnitude (.inl rfl) (longOne 256) one.finite one.value
    (show _ = Sign.absent.isMinus from one.nonneg)
  rw [if_pos (isModerate_longOne (by decide)), if_neg large] at read
  have refuses {s : HexNumber} (value : s.value = 0) (refused : ¬ s.IsModerate) :
      s.value = 0 ∧ float? ('0' :: 'x' :: s.text) = none := by
    have stands : StandsFor 0.0 s.value := value ▸ standsFor_zero
    have read := float?_text_of_magnitude (.inl rfl) s stands.finite stands.value
      (show _ = Sign.absent.isMinus from stands.nonneg)
    rw [if_neg refused] at read
    exact ⟨value, read⟩
  refine ⟨⟨one.toRat_eq, read, ?_⟩, standsFor_zero.toRat_eq, ?_⟩
  · intro same
    have finite := one.finite
    rw [← same, not_isFinite_infinity] at finite
    cases finite
  · simp only [List.forall_mem_cons, List.not_mem_nil, false_imp_iff, implies_true, and_true]
    exact ⟨refuses (value_longZero _ _) not_isModerate_of_exponent,
      refuses (value_longZero _ _) not_isModerate_of_places⟩

end Reading

end Binary64

end FrameCode
