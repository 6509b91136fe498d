import FrameCode.Binary64.Decimal
import FrameCode.Proofs.Numerals

/-!
The grammar of float literals. A number in scientific notation has digits with at most one point
among them, and possibly an exponent (`Scientific`); hexadecimal and decimal literals differ in the
radix of their digits and in the letter that marks the exponent. What is read as a float is such a
number with at most one sign in front (`IsFloatLiteral`), with one exception: decimals have a sign
of their own, so they are read with two signs as well (`float?_accepts_only`).
-/

namespace FrameCode.Binary64

open Numeral

/-! ### Scientific notation -/

/-- An exponent: a mark, an optional sign and decimal digits. -/
structure Exponent (marks : List Char) where
  mark : Char
  sign : Sign
  digits : List Char
  marked : mark ∈ marks
  nonempty : digits ≠ []
  decimal : AllDigits 10 digits

/-- A number without a sign: digits with at most one point among them, and an optional exponent. -/
structure Scientific (radix : Nat) (marks : List Char) where
  whole : List Char
  /-- The digits behind the point, if there is one. -/
  fraction : Option (List Char)
  exponent : Option (Exponent marks)
  nonempty : whole ++ fraction.getD [] ≠ []
  digits : AllDigits radix (whole ++ fraction.getD [])

section Notation

variable {radix : Nat} {marks : List Char}

def Exponent.text (e : Exponent marks) : List Char :=
  e.mark :: (e.sign.text ++ e.digits)

def exponentText (exponent : Option (Exponent marks)) : List Char :=
  exponent.elim [] Exponent.text

def Scientific.text (s : Scientific radix marks) : List Char :=
  s.whole ++ (s.fraction.elim [] ('.' :: ·) ++ exponentText s.exponent)

/-- An exponent begins with one of its marks. -/
theorem mem_marks_of_head? {exponent : Option (Exponent marks)} {c : Char}
    (mem : c ∈ (exponentText exponent).head?) : c ∈ marks := by
  cases exponent with
  | none => cases mem
  | some e =>
      cases mem
      exact e.marked

/-- A number of the grammar begins with a digit or a point. -/
theorem Scientific.not_isSigned (s : Scientific radix marks) (bound : radix ≤ 16) :
    ¬ IsSigned s.text := by
  obtain ⟨whole, fraction, exponent, nonempty, digits⟩ := s
  cases whole with
  | cons c rest =>
      obtain ⟨d, digit⟩ := digits c (by simp)
      exact digit.not_isSigned bound _
  | nil =>
      cases fraction with
      | none => simp at nonempty
      | some fraction => simp [IsSigned, Scientific.text]

end Notation

/-! ### Hexadecimal notation -/

theorem of_dropWhile_eq_cons {p : Char → Bool} {text rest : List Char} {c : Char}
    (eq : text.dropWhile p = c :: rest) : p c = false := by
  have first := List.head_dropWhile_not p (l := text) (by simp [eq])
  simpa [eq] using first

/-- A text is cut at its first point, if it has one. -/
theorem exists_point (text : List Char) :
    ∃ fraction : Option (List Char),
      text = text.takeWhile (· != '.') ++ fraction.elim [] ('.' :: ·) ∧
        (text.dropWhile (· != '.')).drop 1 = fraction.getD [] := by
  have cut : text = text.takeWhile (· != '.') ++ text.dropWhile (· != '.') :=
    List.takeWhile_append_dropWhile.symm
  cases rest : text.dropWhile (· != '.') with
  | nil =>
      rw [rest] at cut
      exact ⟨none, cut, rfl⟩
  | cons c fraction =>
      have point : c = '.' := by simpa using of_dropWhile_eq_cons rest
      rw [rest, point] at cut
      exact ⟨some fraction, cut, rfl⟩

/-- What is read as an exponent has the form of one. -/
theorem exists_exponent_of_hexExponent? {text : List Char} {n : Int} {mark : Char}
    (read : hexExponent? text = some n) (marked : isExponentMark mark = true) :
    ∃ e : Exponent ['p', 'P'], mark :: text = e.text := by
  obtain ⟨sign, eq, -⟩ := exists_sign text
  simp only [hexExponent?] at read
  split at read
  · cases read
  · next nonempty =>
    obtain ⟨m, value, -⟩ := Option.bind_eq_some_iff.mp read
    have decimal : AllDigits 10 (splitSign text).2 :=
      (isSome_value?_iff (by decide)).mp (Option.isSome_of_eq_some value)
    have marks : mark ∈ ['p', 'P'] := by simpa [isExponentMark] using marked
    exact ⟨⟨mark, sign, _, marks, by simpa using nonempty, decimal⟩, congrArg (mark :: ·) eq⟩

/-- What is read as a hexadecimal number has the form of one. -/
theorem exists_scientific_of_hex? {body : List Char} {x : Float} (read : hex? body = some x) :
    ∃ s : Scientific 16 ['p', 'P'], body = s.text := by
  have cut : body = body.takeWhile (!isExponentMark ·) ++ body.dropWhile (!isExponentMark ·) :=
    List.takeWhile_append_dropWhile.symm
  obtain ⟨fraction, mantissa, behind⟩ := exists_point (body.takeWhile (!isExponentMark ·))
  simp only [hex?, behind] at read
  split at read
  · cases read
  · next nonempty =>
    obtain ⟨value, digits, read⟩ := Option.bind_eq_some_iff.mp read
    have row := (isSome_foldlM_digit?_iff (by decide) _ _).mp (Option.isSome_of_eq_some digits)
    have marked : ∃ exponent : Option (Exponent ['p', 'P']),
        body.dropWhile (!isExponentMark ·) = exponentText exponent := by
      split at read
      · next rest => exact ⟨none, rest⟩
      · next mark text rest =>
        have mark : isExponentMark mark = true := by simpa using of_dropWhile_eq_cons rest
        obtain ⟨n, written, -⟩ := Option.bind_eq_some_iff.mp read
        obtain ⟨e, eq⟩ := exists_exponent_of_hexExponent? written mark
        exact ⟨some e, rest.trans eq⟩
    obtain ⟨exponent, rest⟩ := marked
    refine ⟨⟨_, fraction, exponent, by simpa using nonempty, row⟩, ?_⟩
    rw [Scientific.text, ← List.append_assoc, ← mantissa, ← rest, ← cut]

/-! ### Decimal notation -/

/-- A rest is accepted if it is empty or an exponent. -/
theorem isSome_decimalExponent?_iff {rest : List Char} :
    (decimalExponent? rest).isSome ↔
      ∃ exponent : Option (Exponent ['e', 'E']), rest = exponentText exponent := by
  constructor
  · intro read
    cases rest with
    | nil => exact ⟨none, rfl⟩
    | cons mark text =>
        obtain ⟨sign, eq, -⟩ := exists_sign text
        simp only [decimalExponent?, Option.isSome_ite, Bool.and_eq_true, Bool.or_eq_true,
          beq_iff_eq] at read
        obtain ⟨⟨marked, nonempty⟩, decimal⟩ := read
        have marks : mark ∈ ['e', 'E'] := by simpa using marked
        have row : AllDigits 10 (splitSign text).2 := allDigits_ten_iff.mpr decimal
        exact ⟨some ⟨mark, sign, _, marks, by simpa using nonempty, row⟩, congrArg (mark :: ·) eq⟩
  · rintro ⟨exponent, rfl⟩
    cases exponent with
    | none => rfl
    | some e =>
        have split := splitSign_append e.sign fun _ => e.decimal.not_isSigned (by decide)
        have marked : e.mark = 'e' ∨ e.mark = 'E' := by simpa using e.marked
        have decimal := allDigits_ten_iff.mp e.decimal
        simp [exponentText, Exponent.text, decimalExponent?, split, marked, e.nonempty, decimal]

/-- The number that the parts of a decimal stand for. -/
def assemble? (whole fraction rest : List Char) : Option Float :=
  if whole.isEmpty && fraction.isEmpty then none
  else do
    let magnitude ← value? 10 (whole ++ fraction)
    let e ← decimalExponent? rest
    some (ofDecimal magnitude (e - fraction.length))

/-- The parts are accepted if there is a digit, there are only digits, and the rest is. -/
theorem isSome_assemble?_iff {whole fraction rest : List Char} :
    (assemble? whole fraction rest).isSome ↔
      whole ++ fraction ≠ [] ∧ AllDigits 10 (whole ++ fraction) ∧
        (decimalExponent? rest).isSome := by
  rw [← isSome_value?_iff (by decide), assemble?]
  by_cases empty : whole = [] ∧ fraction = []
  · simp [empty]
  · cases value : value? 10 (whole ++ fraction) with
    | none => simp [empty]
    | some m =>
        cases exponent : decimalExponent? rest with
        | none => simp [empty]
        | some e => simp [empty]

/-- With a point the digits before and behind it are taken. -/
theorem unsignedDecimal?_of_point {text rest : List Char}
    (point : text.dropWhile Char.isDigit = '.' :: rest) :
    unsignedDecimal? text = assemble? (text.takeWhile Char.isDigit) (rest.takeWhile Char.isDigit)
      (rest.dropWhile Char.isDigit) := by
  simp only [unsignedDecimal?, point, assemble?]

/-- Without a point all digits are taken as the whole part. -/
theorem unsignedDecimal?_of_no_point {text : List Char}
    (noPoint : (text.dropWhile Char.isDigit).head? ≠ some '.') :
    unsignedDecimal? text =
      assemble? (text.takeWhile Char.isDigit) [] (text.dropWhile Char.isDigit) := by
  simp only [unsignedDecimal?, assemble?]
  split
  · next point => simp [point] at noPoint
  · rfl

/-- A row of digits is cut off where something else follows. -/
theorem cut_digits {row rest : List Char} (digits : AllDigits 10 row)
    (stop : ∀ c ∈ rest.head?, c.isDigit = false) :
    (row ++ rest).takeWhile Char.isDigit = row ∧ (row ++ rest).dropWhile Char.isDigit = rest := by
  have all : ∀ c ∈ row, c.isDigit = true := fun c mem => isDigit_iff.mpr (digits c mem)
  rw [List.takeWhile_append_of_pos all, List.dropWhile_append_of_pos all]
  cases rest with
  | nil => simp
  | cons c rest => simp [stop c rfl]

theorem isSome_unsignedDecimal?_text (s : Scientific 10 ['e', 'E']) :
    (unsignedDecimal? s.text).isSome := by
  obtain ⟨whole, fraction, exponent, nonempty, digits⟩ := s
  have tail : (decimalExponent? (exponentText exponent)).isSome :=
    isSome_decimalExponent?_iff.mpr ⟨exponent, rfl⟩
  have mark {c : Char} (mem : c ∈ (exponentText exponent).head?) : c = 'e' ∨ c = 'E' := by
    simpa using mem_marks_of_head? mem
  have stop : ∀ c ∈ (exponentText exponent).head?, c.isDigit = false := by
    intro c mem
    rcases mark mem with rfl | rfl <;> rfl
  cases fraction with
  | none =>
      have row : AllDigits 10 whole := fun c mem => digits c (by simp [mem])
      obtain ⟨front, back⟩ := cut_digits row stop
      simp only [Scientific.text, Option.elim_none, List.nil_append]
      rw [unsignedDecimal?_of_no_point, front, back]
      · exact isSome_assemble?_iff.mpr ⟨nonempty, digits, tail⟩
      · intro point
        rw [back] at point
        simpa using mark point
  | some fraction =>
      have row : AllDigits 10 whole := fun c mem => digits c (by simp [mem])
      have row' : AllDigits 10 fraction := fun c mem => digits c (by simp [mem])
      have point : ∀ c ∈ ('.' :: (fraction ++ exponentText exponent)).head?, c.isDigit = false := by
        simp
      obtain ⟨front, back⟩ := cut_digits row point
      obtain ⟨front', back'⟩ := cut_digits row' stop
      simp only [Scientific.text, Option.elim_some, List.cons_append]
      rw [unsignedDecimal?_of_point back, front, front', back']
      exact isSome_assemble?_iff.mpr ⟨nonempty, digits, tail⟩

/-- A decimal number without a sign is accepted if it has the form of one. -/
theorem isSome_unsignedDecimal?_iff {text : List Char} :
    (unsignedDecimal? text).isSome ↔ ∃ s : Scientific 10 ['e', 'E'], text = s.text := by
  constructor
  · intro read
    by_cases pointed : (text.dropWhile Char.isDigit).head? = some '.'
    · obtain ⟨rest, point⟩ := List.head?_eq_some_iff.mp pointed
      rw [unsignedDecimal?_of_point point, isSome_assemble?_iff,
        isSome_decimalExponent?_iff] at read
      obtain ⟨nonempty, row, exponent, tail⟩ := read
      refine ⟨⟨_, some _, exponent, nonempty, row⟩, ?_⟩
      simp only [Scientific.text, Option.elim_some, List.cons_append, ← tail,
        List.takeWhile_append_dropWhile, ← point]
    · rw [unsignedDecimal?_of_no_point pointed, isSome_assemble?_iff,
        isSome_decimalExponent?_iff] at read
      obtain ⟨nonempty, row, exponent, tail⟩ := read
      refine ⟨⟨_, none, exponent, nonempty, row⟩, ?_⟩
      simp only [Scientific.text, Option.elim_none, List.nil_append, ← tail,
        List.takeWhile_append_dropWhile]
  · rintro ⟨s, rfl⟩
    exact isSome_unsignedDecimal?_text s

/-- A decimal has an optional sign of its own. -/
theorem isSome_decimal?_iff {text : List Char} :
    (decimal? text).isSome ↔
      ∃ (sign : Sign) (s : Scientific 10 ['e', 'E']), text = sign.text ++ s.text := by
  rw [decimal?, Option.isSome_map, isSome_unsignedDecimal?_iff]
  constructor
  · rintro ⟨s, body⟩
    obtain ⟨sign, eq, -⟩ := exists_sign text
    exact ⟨sign, s, body ▸ eq⟩
  · rintro ⟨sign, s, rfl⟩
    rw [splitSign_append sign fun _ => s.not_isSigned (by decide)]
    exact ⟨s, rfl⟩

/-! ### Literals -/

/-- A float literal: at most one sign, and a number in hexadecimal or decimal notation. -/
inductive IsFloatLiteral : List Char → Prop where
  | hexadecimal (sign : Sign) {mark : Char} (body : Scientific 16 ['p', 'P']) :
      mark = 'x' ∨ mark = 'X' → IsFloatLiteral (sign.text ++ '0' :: mark :: body.text)
  | decimal (sign : Sign) (body : Scientific 10 ['e', 'E']) :
      IsFloatLiteral (sign.text ++ body.text)

def IsDoublySigned (text : List Char) : Prop :=
  ∃ (first second : Sign) (body : Scientific 10 ['e', 'E']),
    first ≠ .absent ∧ second ≠ .absent ∧ text = first.text ++ (second.text ++ body.text)

def BeginsWithTwoSigns (text : List Char) : Prop :=
  IsSigned text ∧ IsSigned text.tail

variable {text : List Char}

theorem not_beginsWithTwoSigns (sign : Sign) {body : List Char} (unsigned : ¬ IsSigned body) :
    ¬ BeginsWithTwoSigns (sign.text ++ body) := by
  rintro ⟨first, second⟩
  cases sign with
  | absent => exact unsigned first
  | plus => exact unsigned second
  | minus => exact unsigned second

/-- No literal begins with two signs. -/
theorem IsFloatLiteral.not_beginsWithTwoSigns (literal : IsFloatLiteral text) :
    ¬ BeginsWithTwoSigns text := by
  cases literal with
  | hexadecimal sign body mark =>
      exact Binary64.not_beginsWithTwoSigns sign (by simp [IsSigned])
  | decimal sign body =>
      exact Binary64.not_beginsWithTwoSigns sign (body.not_isSigned (by decide))

theorem isSigned_append {sign : Sign} (present : sign ≠ .absent) (body : List Char) :
    IsSigned (sign.text ++ body) := by
  cases sign with
  | absent => exact absurd rfl present
  | plus => exact .inl rfl
  | minus => exact .inr rfl

/-- What is signed twice begins with two signs. -/
theorem IsDoublySigned.beginsWithTwoSigns (doubly : IsDoublySigned text) :
    BeginsWithTwoSigns text := by
  obtain ⟨first, second, body, present, present', rfl⟩ := doubly
  refine ⟨isSigned_append present _, ?_⟩
  cases first with
  | absent => exact absurd rfl present
  | plus => exact isSigned_append present' _
  | minus => exact isSigned_append present' _

/-- Behind a second sign only a decimal number is looked for. -/
theorem unsigned?_of_isSigned {body : List Char} (signed : IsSigned body) :
    unsigned? body = decimal? body := by
  fun_cases unsigned? body with
  | case1 rest => simp [IsSigned] at signed
  | case2 rest => simp [IsSigned] at signed
  | case3 => rfl

/-- Two signs in front of a decimal are both taken. -/
theorem IsDoublySigned.isSome_float? (doubly : IsDoublySigned text) : (float? text).isSome := by
  obtain ⟨first, second, body, present, present', rfl⟩ := doubly
  rw [float?, Option.isSome_map, splitSign_append first fun absent => absurd absent present,
    unsigned?_of_isSigned (isSigned_append present' _), isSome_decimal?_iff]
  exact ⟨second, body, rfl⟩

/-- What is accepted is a literal, or one with a sign too many. -/
theorem literal_or_doublySigned (accepted : (float? text).isSome) :
    IsFloatLiteral text ∨ IsDoublySigned text := by
  obtain ⟨sign, eq, -⟩ := exists_sign text
  rw [float?, Option.isSome_map] at accepted
  generalize (splitSign text).2 = body at eq accepted
  subst eq
  revert accepted
  fun_cases unsigned? body with
  | case1 rest =>
      intro accepted
      obtain ⟨x, read⟩ := Option.isSome_iff_exists.mp accepted
      obtain ⟨s, rfl⟩ := exists_scientific_of_hex? read
      exact .inl (.hexadecimal sign s (.inl rfl))
  | case2 rest =>
      intro accepted
      obtain ⟨x, read⟩ := Option.isSome_iff_exists.mp accepted
      obtain ⟨s, rfl⟩ := exists_scientific_of_hex? read
      exact .inl (.hexadecimal sign s (.inr rfl))
  | case3 =>
      intro accepted
      obtain ⟨second, s, rfl⟩ := isSome_decimal?_iff.mp accepted
      by_cases present : sign = .absent
      · subst present
        exact .inl (.decimal second s)
      by_cases present' : second = .absent
      · subst present'
        exact .inl (.decimal sign s)
      · exact .inr ⟨sign, second, s, present, present', rfl⟩

/-- What is read as a float and does not begin with two signs is a float literal. The texts that are
read without being literals are exactly the decimals behind two signs. -/
theorem float?_accepts_only (text : List Char) :
    ((float? text).isSome → ¬ BeginsWithTwoSigns text → IsFloatLiteral text) ∧
      ((float? text).isSome ∧ ¬ IsFloatLiteral text ↔ IsDoublySigned text) := by
  constructor
  · intro accepted once
    rcases literal_or_doublySigned accepted with literal | doubly
    · exact literal
    · exact absurd doubly.beginsWithTwoSigns once
  constructor
  · rintro ⟨accepted, no⟩
    exact (literal_or_doublySigned accepted).resolve_left no
  · intro doubly
    have no : ¬ IsFloatLiteral text :=
      fun literal => literal.not_beginsWithTwoSigns doubly.beginsWithTwoSigns
    exact ⟨doubly.isSome_float?, no⟩

/-- Numbers of either notation behind one sign, with no digit before the point. -/
theorem float?_accepts_only_once :
    IsFloatLiteral "-.5E+03".toList ∧ IsFloatLiteral "+0X.8p-1".toList := by
  have once : ¬ BeginsWithTwoSigns "-.5E+03".toList ∧ ¬ BeginsWithTwoSigns "+0X.8p-1".toList := by
    simp [BeginsWithTwoSigns, IsSigned]
  exact ⟨(float?_accepts_only _).1 rfl once.1, (float?_accepts_only _).1 rfl once.2⟩

/-- A decimal is read with two minus signs, although it is no literal. -/
theorem twoMinuses_accepted :
    (float? "--5".toList).isSome ∧ ¬ IsFloatLiteral "--5".toList := by
  refine ⟨rfl, ?_⟩
  intro literal
  exact literal.not_beginsWithTwoSigns ⟨.inr rfl, .inr rfl⟩

end FrameCode.Binary64
