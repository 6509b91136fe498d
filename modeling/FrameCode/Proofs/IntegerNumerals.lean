import FrameCode.Proofs.Numerals
import Mathlib.Data.List.Forall2
import Mathlib.Data.Nat.Digits.Defs
import Mathlib.Tactic.Ring

/-!
The grammar of integer numerals. A run of digits may have single underscores between its digits
(`IsRun`); the start of a numeral tells the radix of its run (`IsMagnitude`), and one sign may stand
in front (`IsNumeral`). The value of a numeral is that of its digits in positional notation,
whatever its size (`isNumeral_iff`), and the numerals that are read as 64-bit integers are exactly
those whose value is one (`int?_exact`).
-/

namespace FrameCode.Numeral

variable {radix n : Nat} {run digits : List Char} {values : List Nat}

/-! ### Runs of digits -/

/-- The text is a run of digits of the radix that stand for the given numbers. An underscore may
stand between two digits. -/
inductive IsRun (radix : Nat) : List Char → List Nat → Prop where
  | single {c : Char} {d : Nat} : IsDigit radix c d → IsRun radix [c] [d]
  | digit {c : Char} {d : Nat} {run : List Char} {values : List Nat} :
      IsDigit radix c d → IsRun radix run values → IsRun radix (c :: run) (d :: values)
  | separated {c : Char} {d : Nat} {run : List Char} {values : List Nat} :
      IsDigit radix c d → IsRun radix run values → IsRun radix (c :: '_' :: run) (d :: values)

theorem IsRun.exists_cons (spelled : IsRun radix run values) :
    ∃ c rest d, run = c :: rest ∧ IsDigit radix c d := by
  cases spelled with
  | single digit => exact ⟨_, _, _, rfl, digit⟩
  | digit digit => exact ⟨_, _, _, rfl, digit⟩
  | separated digit => exact ⟨_, _, _, rfl, digit⟩

section Groups

variable {c e : Char}

theorem ungroup?_underscore (rest : List Char) : ungroup? ('_' :: rest) = none := by
  simp [ungroup?, List.splitOn_cons_eq_if_modifyHead]

theorem ungroup?_singleton (plain : c ≠ '_') : ungroup? [c] = some [c] := by
  simp [ungroup?, List.splitOn_cons_eq_if_modifyHead, plain]

theorem ungroup?_separated (plain : c ≠ '_') (rest : List Char) :
    ungroup? (c :: '_' :: rest) = (ungroup? rest).map (c :: ·) := by
  have groups : (c :: '_' :: rest).splitOn '_' = [c] :: rest.splitOn '_' := by
    simp [List.splitOn_cons_eq_if_modifyHead, plain]
  simp only [ungroup?, groups, List.any_cons, List.isEmpty_cons, Bool.false_or, List.flatten_cons]
  split <;> simp

theorem ungroup?_cons_cons (plain : c ≠ '_') (plain' : e ≠ '_') (rest : List Char) :
    ungroup? (c :: e :: rest) = (ungroup? (e :: rest)).map (c :: ·) := by
  obtain ⟨group, groups, split⟩ := List.exists_cons_of_ne_nil (List.splitOn_ne_nil '_' rest)
  simp only [ungroup?, List.splitOn_cons_eq_if_modifyHead, split, beq_iff_eq, plain, plain',
    if_false, List.modifyHead_cons, List.any_cons, List.isEmpty_cons, Bool.false_or,
    List.flatten_cons]
  split <;> simp

end Groups

/-- Underscores between digits are taken out. -/
theorem ungroup?_of_isRun (bound : radix ≤ 16) (spelled : IsRun radix run values) :
    ∃ digits, ungroup? run = some digits ∧ List.Forall₂ (IsDigit radix) digits values := by
  induction spelled with
  | @single c d digit =>
      exact ⟨[c], ungroup?_singleton (digit.ne bound rfl), .cons digit .nil⟩
  | @digit c d run values digit later ih =>
      obtain ⟨digits, grouped, read⟩ := ih
      obtain ⟨e, rest, _, rfl, second⟩ := later.exists_cons
      refine ⟨c :: digits, ?_, .cons digit read⟩
      rw [ungroup?_cons_cons (digit.ne bound rfl) (second.ne bound rfl), grouped, Option.map_some]
  | @separated c d run values digit _ ih =>
      obtain ⟨digits, grouped, read⟩ := ih
      refine ⟨c :: digits, ?_, .cons digit read⟩
      rw [ungroup?_separated (digit.ne bound rfl), grouped, Option.map_some]

/-- What is left when underscores are taken out was a run of digits. -/
theorem isRun_of_ungroup? (grouped : ungroup? run = some digits)
    (read : List.Forall₂ (IsDigit radix) digits values) : IsRun radix run values := by
  -- an underscore takes two characters off the run, so the induction goes two steps back
  induction run using List.twoStepInduction generalizing digits values with
  | nil => cases grouped
  | singleton c =>
      by_cases plain : c = '_'
      · rw [plain, ungroup?_underscore] at grouped
        cases grouped
      · rw [ungroup?_singleton plain] at grouped
        cases grouped
        obtain ⟨d, values, digit, nothing, rfl⟩ := List.forall₂_cons_left_iff.mp read
        cases nothing
        exact .single digit
  | cons_cons c e rest shorter longer =>
      by_cases plain : c = '_'
      · rw [plain, ungroup?_underscore] at grouped
        cases grouped
      by_cases underscore : e = '_'
      · rw [underscore, ungroup?_separated plain] at grouped
        obtain ⟨others, grouped', rfl⟩ := Option.map_eq_some_iff.mp grouped
        obtain ⟨d, values, digit, later, rfl⟩ := List.forall₂_cons_left_iff.mp read
        rw [underscore]
        exact .separated digit (shorter grouped' later)
      · rw [ungroup?_cons_cons plain underscore] at grouped
        obtain ⟨others, grouped', rfl⟩ := Option.map_eq_some_iff.mp grouped
        obtain ⟨d, values, digit, later, rfl⟩ := List.forall₂_cons_left_iff.mp read
        exact .digit digit (longer e grouped' later)

/-- One more digit in front of a row weighs as much as the row is long. -/
theorem ofDigits_reverse_cons (radix d : Nat) (values : List Nat) :
    Nat.ofDigits radix (d :: values).reverse =
      Nat.ofDigits radix values.reverse + radix ^ values.length * d := by
  rw [List.reverse_cons, Nat.ofDigits_append, Nat.ofDigits_singleton, List.length_reverse]

/-- Reading digits that follow a number. -/
theorem foldlM_digit?_iff (bound : radix ≤ 16) {before : Nat} :
    digits.foldlM (fun value c => (digit? radix c).map (value * radix + ·)) before = some n ↔
      ∃ values, List.Forall₂ (IsDigit radix) digits values ∧
        n = before * radix ^ digits.length + Nat.ofDigits radix values.reverse := by
  induction digits generalizing before with
  | nil => simp [eq_comm]
  | cons c rest ih =>
      rw [List.foldlM_cons, Option.bind_eq_bind, Option.bind_eq_some_iff]
      constructor
      · rintro ⟨value, first, later⟩
        obtain ⟨d, digit, rfl⟩ := Option.map_eq_some_iff.mp first
        obtain ⟨values, read, rfl⟩ := ih.mp later
        refine ⟨d :: values, .cons ((digit?_eq_some_iff bound).mp digit) read, ?_⟩
        rw [ofDigits_reverse_cons, ← read.length_eq, List.length_cons]
        ring
      · rintro ⟨values, read, rfl⟩
        obtain ⟨d, values, digit, later, rfl⟩ := List.forall₂_cons_left_iff.mp read
        refine ⟨before * radix + d, ?_, ih.mpr ⟨values, later, ?_⟩⟩
        · rw [(digit?_eq_some_iff bound).mpr digit, Option.map_some]
        · rw [ofDigits_reverse_cons, ← later.length_eq, List.length_cons]
          ring

/-- What is left of a text without its underscores is read as the value of a run. -/
theorem ungroup?_bind_value?_iff (bound : radix ≤ 16) :
    (ungroup? run).bind (value? radix) = some n ↔
      ∃ values, IsRun radix run values ∧ n = Nat.ofDigits radix values.reverse := by
  rw [Option.bind_eq_some_iff]
  constructor
  · rintro ⟨digits, grouped, read⟩
    obtain ⟨values, row, rfl⟩ := (foldlM_digit?_iff bound).mp read
    exact ⟨values, isRun_of_ungroup? grouped row, by simp⟩
  · rintro ⟨values, spelled, rfl⟩
    obtain ⟨digits, grouped, row⟩ := ungroup?_of_isRun bound spelled
    exact ⟨digits, grouped, (foldlM_digit?_iff bound).mpr ⟨values, row, by simp⟩⟩

/-! ### Unsigned numerals -/

/-- The text is a numeral without a sign and stands for the number. A zero that digits follow makes
them octal. -/
inductive IsMagnitude : List Char → Nat → Prop where
  | hexadecimal {mark : Char} {run : List Char} {values : List Nat} :
      mark = 'x' ∨ mark = 'X' → IsRun 16 run values →
        IsMagnitude ('0' :: mark :: run) (Nat.ofDigits 16 values.reverse)
  | octal {mark : Char} {run : List Char} {values : List Nat} :
      mark = 'o' ∨ mark = 'O' → IsRun 8 run values →
        IsMagnitude ('0' :: mark :: run) (Nat.ofDigits 8 values.reverse)
  | leadingZero {run : List Char} {values : List Nat} :
      IsRun 8 run values → IsMagnitude ('0' :: run) (Nat.ofDigits 8 values.reverse)
  | decimal {run : List Char} {values : List Nat} :
      IsRun 10 run values → run = ['0'] ∨ run.head? ≠ some '0' →
        IsMagnitude run (Nat.ofDigits 10 values.reverse)

variable {text body : List Char} {v w : Int}

theorem splitRadix_le (body : List Char) : (splitRadix body).1 ≤ 16 := by
  fun_cases splitRadix body <;> simp

/-- A leading zero makes the digits octal. -/
theorem splitRadix_leadingZero (spelled : IsRun 8 run values) :
    splitRadix ('0' :: run) = (8, run) := by
  obtain ⟨c, rest, d, rfl, digit⟩ := spelled.exists_cons
  -- the letters that mark a radix are no digits
  have noMark {mark : Char} (no : digit? 16 mark = none) : c ≠ mark := digit.ne (by decide) no
  rw [splitRadix]
  all_goals exact noMark rfl

theorem splitRadix_decimal (spelled : IsRun 10 run values)
    (plain : run = ['0'] ∨ run.head? ≠ some '0') : splitRadix run = (10, run) := by
  rcases plain with rfl | nonzero
  · rfl
  · obtain ⟨c, rest, d, rfl, -⟩ := spelled.exists_cons
    exact splitRadix_of_ne_zero (by simpa using nonzero)

/-- The start of a numeral tells the radix of the run that is left. -/
theorem isMagnitude_iff :
    IsMagnitude body n ↔ ∃ values, IsRun (splitRadix body).1 (splitRadix body).2 values ∧
      n = Nat.ofDigits (splitRadix body).1 values.reverse := by
  constructor
  · intro spelled
    cases spelled with
    | hexadecimal mark run =>
        rcases mark with rfl | rfl
        · exact ⟨_, run, rfl⟩
        · exact ⟨_, run, rfl⟩
    | octal mark run =>
        rcases mark with rfl | rfl
        · exact ⟨_, run, rfl⟩
        · exact ⟨_, run, rfl⟩
    | leadingZero run =>
        rw [splitRadix_leadingZero run]
        exact ⟨_, run, rfl⟩
    | decimal run plain =>
        rw [splitRadix_decimal run plain]
        exact ⟨_, run, rfl⟩
  · fun_cases splitRadix body with
    | case1 rest =>
        rintro ⟨values, run, rfl⟩
        exact .hexadecimal (.inl rfl) run
    | case2 rest =>
        rintro ⟨values, run, rfl⟩
        exact .hexadecimal (.inr rfl) run
    | case3 rest =>
        rintro ⟨values, run, rfl⟩
        exact .octal (.inl rfl) run
    | case4 rest =>
        rintro ⟨values, run, rfl⟩
        exact .octal (.inr rfl) run
    | case5 c rest =>
        rintro ⟨values, run, rfl⟩
        exact .leadingZero run
    | case6 _ _ _ _ _ alone =>
        rintro ⟨values, run, rfl⟩
        refine .decimal run ?_
        obtain ⟨c, rest, d, rfl, -⟩ := run.exists_cons
        by_cases zero : c = '0'
        · subst zero
          cases rest with
          | nil => exact .inl rfl
          | cons e rest => exact absurd rfl (alone e rest)
        · exact .inr (by simpa using zero)

/-- A magnitude has no sign of its own. -/
theorem IsMagnitude.not_isSigned (spelled : IsMagnitude body n) : ¬ IsSigned body := by
  cases spelled with
  | hexadecimal => simp [IsSigned]
  | octal => simp [IsSigned]
  | leadingZero => simp [IsSigned]
  | decimal run =>
      obtain ⟨c, rest, d, rfl, digit⟩ := run.exists_cons
      exact digit.not_isSigned (by decide) rest

/-! ### Signed numerals -/

def IsNumeral (text : List Char) (v : Int) : Prop :=
  ∃ (sign : Sign) (body : List Char) (m : Nat),
    text = sign.text ++ body ∧ IsMagnitude body m ∧ v = signed sign.isMinus m

def integer? (text : List Char) : Option Int :=
  let (negative, body) := splitSign text
  let (radix, run) := splitRadix body
  ((ungroup? run).bind (value? radix)).map (signed negative)

theorem int?_eq_integer?_bind (text : List Char) : int? text = (integer? text).bind int64? := by
  simp [int?, integer?, Option.bind_assoc, Option.bind_map]

/-- The grammar of numerals describes what is read as an integer. -/
theorem isNumeral_iff : IsNumeral text v ↔ integer? text = some v := by
  have magnitude (m : Nat) : IsMagnitude (splitSign text).2 m ↔
      (ungroup? (splitRadix (splitSign text).2).2).bind
        (value? (splitRadix (splitSign text).2).1) = some m := by
    rw [ungroup?_bind_value?_iff (splitRadix_le _), isMagnitude_iff]
  rw [integer?, Option.map_eq_some_iff]
  constructor
  · rintro ⟨sign, body, m, rfl, spelled, rfl⟩
    have split := splitSign_append sign fun _ => spelled.not_isSigned
    exact ⟨m, (magnitude m).mp (by rwa [split]), by rw [split]⟩
  · rintro ⟨m, read, rfl⟩
    obtain ⟨sign, eq, minus⟩ := exists_sign text
    exact ⟨sign, _, m, eq, (magnitude m).mpr read, by rw [minus]⟩

instance (text : List Char) (v : Int) : Decidable (IsNumeral text v) :=
  decidable_of_iff _ isNumeral_iff.symm

/-- A text stands for one number at most. -/
theorem IsNumeral.unique (first : IsNumeral text v) (second : IsNumeral text w) : v = w := by
  rw [isNumeral_iff] at first second
  rw [first] at second
  exact Option.some.inj second

/-- A text is read as an integer exactly if it is a numeral for that integer. A numeral for a number
outside the range of 64-bit integers is refused, however long it is. -/
theorem int?_exact (text : List Char) :
    (∀ n : Int64, int? text = some n ↔ IsNumeral text n.toInt) ∧
      ∀ v : Int, IsNumeral text v → v < -2 ^ 63 ∨ 2 ^ 63 ≤ v → int? text = none := by
  have accepted (n : Int64) : int? text = some n ↔ IsNumeral text n.toInt := by
    rw [int?_eq_integer?_bind, Option.bind_eq_some_iff, isNumeral_iff]
    simp only [int64?_eq_some_iff, exists_eq_right']
  refine ⟨accepted, ?_⟩
  intro v numeral outside
  cases read : int? text with
  | none => rfl
  | some n =>
      have same : v = n.toInt := numeral.unique ((accepted n).mp read)
      have low := n.le_toInt
      have high := n.toInt_lt
      omega

/-- The least integer is read from grouped hexadecimal digits. The same digits without the minus
sign stand for a number that is too large by one. -/
theorem int?_exact_at_limits :
    int? "-0X8000_0000_0000_0000".toList = some Int64.minValue ∧
      int? "0x8000_0000_0000_0000".toList = none := by
  constructor
  · have numeral : IsNumeral "-0X8000_0000_0000_0000".toList Int64.minValue.toInt := by decide
    exact ((int?_exact _).1 _).mpr numeral
  · have numeral : IsNumeral "0x8000_0000_0000_0000".toList (2 ^ 63) := by decide
    exact (int?_exact _).2 _ numeral (.inr (Int.le_refl _))

end FrameCode.Numeral
