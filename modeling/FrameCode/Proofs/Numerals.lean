import FrameCode.Numeral
import Mathlib.Algebra.Ring.Nat
import Mathlib.Data.List.Induction

/-!
Numerals and the numbers they stand for. A digit is read as the number whose digit it is, in either
letter case (`digit?_eq_some_iff`), and one sign is taken off the front of a text (`exists_sign`).
The decimal digits of a number are read as that number (`value?_toDigits`). They never start with a
zero that something follows, so they are not taken for another radix, and an integer is read back
from its own text (`int?_toString`).
-/

namespace FrameCode.Numeral

variable {radix n : Nat}

/-! ### Digits -/

section Digits

variable {c : Char} {d : Nat}

/-- The character is a digit of the radix, in either letter case, and stands for the number. -/
def IsDigit (radix : Nat) (c : Char) (d : Nat) : Prop :=
  d < radix ∧ (c = Nat.digitChar d ∨ c = (Nat.digitChar d).toUpper)

/-- A character is found by its distance from the first one of a range. -/
theorem eq_of_range {first last : Char} {f : Nat → Char} (range : first ≤ c ∧ c ≤ last)
    (row : ∀ k < last.toNat + 1 - first.toNat, Char.ofNat (first.toNat + k) = f k) :
    c = f (c.toNat - first.toNat) := by
  have low : first.toNat ≤ c.toNat := range.1
  have high : c.toNat ≤ last.toNat := range.2
  rw [← row _ (by omega), Nat.add_sub_of_le low, Char.ofNat_toNat]

theorem isDigit_of_digit? (read : digit? radix c = some d) : IsDigit radix c d := by
  obtain ⟨value, small⟩ := Option.filter_eq_some_iff.mp read
  constructor
  · simpa using small
  split at value
  · next range =>
    cases value
    exact .inl (eq_of_range range (by decide))
  split at value
  · next range =>
    cases value
    exact .inl (eq_of_range (f := fun k => Nat.digitChar (k + 10)) range (by decide))
  split at value
  · next range =>
    cases value
    exact .inr (eq_of_range (f := fun k => (Nat.digitChar (k + 10)).toUpper) range (by decide))
  · cases value

/-- A character is read as a digit of the radix if it is one. -/
theorem digit?_eq_some_iff (bound : radix ≤ 16) : digit? radix c = some d ↔ IsDigit radix c d := by
  constructor
  · exact isDigit_of_digit?
  · rintro ⟨small, spelled⟩
    have largest : ∀ d < 16, digit? 16 (Nat.digitChar d) = some d ∧
        digit? 16 (Nat.digitChar d).toUpper = some d := by decide
    have read : digit? 16 c = some d := by
      rcases spelled with rfl | rfl
      · exact (largest d (by omega)).1
      · exact (largest d (by omega)).2
    -- the radix decides only which values are let through
    obtain ⟨value, -⟩ := Option.filter_eq_some_iff.mp read
    exact Option.filter_eq_some_iff.mpr ⟨value, by simpa using small⟩

/-- A digit is none of the characters that are no digits. -/
theorem IsDigit.ne {other : Char} (digit : IsDigit radix c d) (bound : radix ≤ 16)
    (no : digit? 16 other = none) : c ≠ other := by
  rintro rfl
  have largest : IsDigit 16 c d := ⟨Nat.lt_of_lt_of_le digit.1 bound, digit.2⟩
  rw [(digit?_eq_some_iff (Nat.le_refl 16)).mpr largest] at no
  cases no

theorem isDigit_iff : c.isDigit = true ↔ ∃ d, IsDigit 10 c d := by
  constructor
  · intro decimal
    have range : '0' ≤ c ∧ c ≤ '9' := by simpa [Char.isDigit, Char.le_def] using decimal
    have high : c.toNat ≤ '9'.toNat := range.2
    have small : c.toNat - '0'.toNat < 10 :=
      Nat.lt_of_le_of_lt (Nat.sub_le_sub_right high '0'.toNat) (by decide)
    exact ⟨_, small, .inl (eq_of_range range (by decide))⟩
  · rintro ⟨d, small, spelled⟩
    have all : ∀ d < 10,
        (Nat.digitChar d).isDigit = true ∧ (Nat.digitChar d).toUpper.isDigit = true := by decide
    rcases spelled with rfl | rfl
    · exact (all d small).1
    · exact (all d small).2

def AllDigits (radix : Nat) (digits : List Char) : Prop :=
  ∀ c ∈ digits, ∃ d, IsDigit radix c d

theorem allDigits_ten_iff {digits : List Char} :
    AllDigits 10 digits ↔ digits.all Char.isDigit = true := by
  simp only [AllDigits, ← isDigit_iff, List.all_eq_true]

/-- Whatever is made of their values, characters are read one by one exactly if all are digits. -/
theorem isSome_foldlM_digit?_iff {α : Type} {digits : List Char} (bound : radix ≤ 16)
    (next : α → Nat → α) (start : α) :
    (digits.foldlM (fun value c => (digit? radix c).map (next value)) start).isSome ↔
      AllDigits radix digits := by
  induction digits generalizing start with
  | nil => simp [AllDigits]
  | cons c rest ih =>
      rw [AllDigits, List.forall_mem_cons, List.foldlM_cons]
      cases read : digit? radix c with
      | none =>
          have no : ¬ ∃ d, IsDigit radix c d := by
            rintro ⟨d, digit⟩
            rw [(digit?_eq_some_iff bound).mpr digit] at read
            cases read
          simp [no]
      | some d =>
          have digit : ∃ d, IsDigit radix c d := ⟨d, isDigit_of_digit? read⟩
          simpa [digit, AllDigits] using ih (next start d)

/-- A row of characters has a value if all of them are digits. -/
theorem isSome_value?_iff {digits : List Char} (bound : radix ≤ 16) :
    (value? radix digits).isSome ↔ AllDigits radix digits :=
  isSome_foldlM_digit?_iff bound (fun value d => value * radix + d) 0

end Digits

/-! ### Signs -/

inductive Sign where
  | absent | plus | minus
deriving DecidableEq

namespace Sign

def text : Sign → List Char
  | .absent => []
  | .plus => ['+']
  | .minus => ['-']

def isMinus : Sign → Bool
  | .minus => true
  | _ => false

end Sign

def IsSigned (text : List Char) : Prop :=
  text.head? = some '+' ∨ text.head? = some '-'

/-- Splitting a text takes at most one sign off it. -/
theorem exists_sign (text : List Char) :
    ∃ sign : Sign, text = sign.text ++ (splitSign text).2 ∧ (splitSign text).1 = sign.isMinus := by
  fun_cases splitSign text with
  | case1 body => exact ⟨.minus, rfl, rfl⟩
  | case2 body => exact ⟨.plus, rfl, rfl⟩
  | case3 => exact ⟨.absent, rfl, rfl⟩

theorem splitSign_of_not_isSigned {text : List Char} (unsigned : ¬ IsSigned text) :
    splitSign text = (false, text) := by
  fun_cases splitSign text with
  | case1 rest => simp [IsSigned] at unsigned
  | case2 rest => simp [IsSigned] at unsigned
  | case3 => rfl

/-- A sign is taken off. What stands behind no sign must not begin with one. -/
theorem splitSign_append (sign : Sign) {body : List Char}
    (clear : sign = .absent → ¬ IsSigned body) :
    splitSign (sign.text ++ body) = (sign.isMinus, body) := by
  cases sign with
  | absent => exact splitSign_of_not_isSigned (clear rfl)
  | plus => rfl
  | minus => rfl

theorem IsDigit.not_isSigned {c : Char} {d : Nat} (digit : IsDigit radix c d) (bound : radix ≤ 16)
    (rest : List Char) : ¬ IsSigned (c :: rest) := by
  have plus : c ≠ '+' := digit.ne bound rfl
  have minus : c ≠ '-' := digit.ne bound rfl
  simp [IsSigned, plus, minus]

theorem AllDigits.not_isSigned {digits : List Char} (row : AllDigits radix digits)
    (bound : radix ≤ 16) : ¬ IsSigned digits := by
  cases digits with
  | nil => simp [IsSigned]
  | cons c rest =>
      obtain ⟨d, digit⟩ := row c List.mem_cons_self
      exact digit.not_isSigned bound rest

/-! ### Rows of digits -/

theorem digit?_lt {c : Char} {d : Nat} (read : digit? radix c = some d) : d < radix := by
  obtain ⟨-, small⟩ := Option.filter_eq_some_iff.mp read
  simpa using small

theorem digit?_digitChar {d : Nat} (small : d < 10) : digit? 10 (Nat.digitChar d) = some d := by
  have all : ∀ d < 10, digit? 10 (Nat.digitChar d) = some d := by decide
  exact all d small

/-- Digits are read from left to right. -/
theorem value?_append_singleton (radix : Nat) (digits : List Char) (c : Char) :
    value? radix (digits ++ [c]) =
      (value? radix digits).bind fun value => (digit? radix c).map (value * radix + ·) := by
  rw [value?, List.foldlM_append]
  simp [value?]

/-- A number with so many digits is less than that power of the radix. -/
theorem value?_lt {digits : List Char} (read : value? radix digits = some n) :
    n < radix ^ digits.length := by
  induction digits using List.reverseRecOn generalizing n with
  | nil =>
      cases read
      simp
  | append_singleton digits c ih =>
      rw [value?_append_singleton] at read
      obtain ⟨value, before, last⟩ := Option.bind_eq_some_iff.mp read
      obtain ⟨d, digit, rfl⟩ := Option.map_eq_some_iff.mp last
      have small := digit?_lt digit
      have less := Nat.mul_le_mul_right radix (ih before)
      rw [List.length_append, List.length_singleton, Nat.pow_succ]
      rw [Nat.succ_mul] at less
      omega

/-- The decimal digits of a number are read as the number. -/
theorem value?_toDigits (n : Nat) : value? 10 (Nat.toDigits 10 n) = some n := by
  induction n using Nat.strongRecOn with
  | ind n ih =>
      by_cases small : n < 10
      · rw [Nat.toDigits_of_lt_base small]
        simp [value?, digit?_digitChar small]
      · have last : n % 10 < 10 := Nat.mod_lt n (by decide)
        rw [Nat.toDigits_of_base_le (by decide) (Nat.le_of_not_lt small), value?_append_singleton,
          ih (n / 10) (by omega), Option.bind_some, digit?_digitChar last, Option.map_some]
        exact congrArg some (Nat.div_add_mod' n 10)

/-! ### Decimal numerals -/

/-- The first digit of a number that is not zero is not zero. -/
theorem exists_toDigits_eq_cons (positive : 0 < n) :
    ∃ c rest, Nat.toDigits 10 n = c :: rest ∧ c ≠ '0' := by
  induction n using Nat.strongRecOn with
  | ind n ih =>
      by_cases small : n < 10
      · have first : ∀ d < 10, 0 < d → Nat.digitChar d ≠ '0' := by decide
        exact ⟨_, [], Nat.toDigits_of_lt_base small, first n small positive⟩
      · obtain ⟨c, rest, digits, nonzero⟩ := ih (n / 10) (by omega) (by omega)
        refine ⟨c, rest ++ [Nat.digitChar (n % 10)], ?_, nonzero⟩
        rw [Nat.toDigits_of_base_le (by decide) (Nat.le_of_not_lt small), digits,
          List.cons_append]

theorem splitRadix_of_ne_zero {c : Char} {rest : List Char} (nonzero : c ≠ '0') :
    splitRadix (c :: rest) = (10, c :: rest) := by
  unfold splitRadix
  split <;> simp_all

/-- Decimal digits show no other radix. -/
theorem splitRadix_toDigits (n : Nat) :
    splitRadix (Nat.toDigits 10 n) = (10, Nat.toDigits 10 n) := by
  rcases Nat.eq_zero_or_pos n with rfl | positive
  · rfl
  · obtain ⟨c, rest, digits, nonzero⟩ := exists_toDigits_eq_cons positive
    rw [digits, splitRadix_of_ne_zero nonzero]

theorem splitSign_toDigits (n : Nat) :
    splitSign (Nat.toDigits 10 n) = (false, Nat.toDigits 10 n) := by
  have digits : ∀ c ∈ Nat.toDigits 10 n, c.isDigit = true :=
    fun c => Nat.isDigit_of_mem_toDigits (by decide) (by decide)
  unfold splitSign
  split
  · next minus => exact absurd (digits '-' (minus ▸ List.mem_cons_self)) (by decide)
  · next plus => exact absurd (digits '+' (plus ▸ List.mem_cons_self)) (by decide)
  · rfl

theorem ungroup?_toDigits (n : Nat) :
    ungroup? (Nat.toDigits 10 n) = some (Nat.toDigits 10 n) := by
  have single : (Nat.toDigits 10 n).splitOn '_' = [Nat.toDigits 10 n] := by
    refine List.splitOn_eq_singleton fun underscore => ?_
    cases Nat.isDigit_of_mem_toDigits (by decide) (by decide) underscore
  simp [ungroup?, single, Nat.toDigits_ne_nil]

theorem int?_of_splitSign {text : List Char} {negative : Bool}
    (split : splitSign text = (negative, Nat.toDigits 10 n)) :
    int? text = int64? (signed negative n) := by
  simp only [int?, split, splitRadix_toDigits, ungroup?_toDigits, Option.bind_eq_bind,
    Option.bind_some, value?_toDigits]

/-- The text of an integer: a minus sign for a negative one, and decimal digits. -/
theorem toList_toString (k : Int) :
    (toString k).toList =
      if 0 ≤ k then Nat.toDigits 10 k.toNat else '-' :: Nat.toDigits 10 (-k).toNat := by
  rw [Int.toString_eq_repr, Int.repr_eq_if]
  split
  · rw [Nat.repr_eq_ofList_toDigits, String.toList_ofList]
  · rw [Nat.repr_eq_ofList_toDigits, String.toList_append, String.toList_ofList,
      String.toList_ofList]
    rfl

/-- An integer is read back from its text. -/
theorem int?_toString (k : Int64) : int? (toString k.toInt).toList = some k := by
  rw [toList_toString]
  split
  · next nonneg =>
    rw [int?_of_splitSign (splitSign_toDigits _), int64?_eq_some_iff]
    exact (Int.toNat_of_nonneg nonneg).symm
  · next negative =>
    have minus : splitSign ('-' :: Nat.toDigits 10 (-k.toInt).toNat) =
      (true, Nat.toDigits 10 (-k.toInt).toNat) := rfl
    rw [int?_of_splitSign minus, int64?_eq_some_iff, signed, if_pos rfl]
    omega

end FrameCode.Numeral
