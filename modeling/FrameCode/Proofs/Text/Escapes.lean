import FrameCode.Proofs.Numerals
import FrameCode.Text.Escape

/-!
Texts with escapes. Such a text is a row of pieces: characters that stand for themselves and escapes
of three digits (`Piece`). Every escape has a code point, because there is no surrogate below one
thousand (`isValidChar_code`). Decoding takes off one piece at a time, whatever follows it
(`decode?_written`), so it succeeds exactly on rows of pieces, and what it makes of a text does not
depend on what follows (`decode?_exact`).
-/

namespace FrameCode.Text.Escape

/-! ### Pieces -/

def code (hundreds tens ones : Fin 10) : Nat :=
  100 * hundreds + 10 * tens + ones

theorem code_lt (hundreds tens ones : Fin 10) : code hundreds tens ones < 1000 := by
  unfold code
  omega

/-- Surrogates have codes of five digits. -/
theorem isValidChar_code (hundreds tens ones : Fin 10) :
    (code hundreds tens ones).isValidChar :=
  .inl (Nat.lt_trans (code_lt hundreds tens ones) (by decide))

/-- A character other than the backslash, or an escape with its three digits. -/
inductive Piece where
  | plain (c : Char) (ordinary : c ≠ '\\')
  | escape (hundreds tens ones : Fin 10)

namespace Piece

def written : Piece → List Char
  | .plain c _ => [c]
  | .escape hundreds tens ones =>
      ['\\', Nat.digitChar hundreds, Nat.digitChar tens, Nat.digitChar ones]

def meaning : Piece → Char
  | .plain c _ => c
  | .escape hundreds tens ones =>
      Char.ofNatAux (code hundreds tens ones) (isValidChar_code hundreds tens ones)

end Piece

/-- The code of an escape is never refused. -/
theorem character?_code (hundreds tens ones : Fin 10) :
    character? (code hundreds tens ones) = some (Piece.escape hundreds tens ones).meaning :=
  dif_pos (isValidChar_code hundreds tens ones)

theorem character?_toNat (c : Char) : character? c.toNat = some c :=
  dif_pos c.valid

/-! ### Digits -/

/-- The three digits of an escape are read as its code. -/
theorem value?_code (hundreds tens ones : Fin 10) :
    Numeral.value? 10 [Nat.digitChar hundreds, Nat.digitChar tens, Nat.digitChar ones] =
      some (code hundreds tens ones) := by
  have digit (d : Fin 10) : Numeral.digit? 10 (Nat.digitChar d) = some d.val :=
    Numeral.digit?_digitChar d.isLt
  simp only [Numeral.value?, List.foldlM_cons, List.foldlM_nil, digit, Option.map_some,
    Option.bind_eq_bind, Option.bind_some, Option.pure_def, Option.some.injEq, code]
  omega

theorem value?_digits {n : Nat} (small : n < 1000) : Numeral.value? 10 (digits n) = some n := by
  have last (k : Nat) : k % 10 < 10 := Nat.mod_lt k (by decide)
  have value := value?_code ⟨n / 100 % 10, last _⟩ ⟨n / 10 % 10, last _⟩ ⟨n % 10, last _⟩
  rw [digits, value, Option.some.injEq]
  simp only [code]
  omega

theorem exists_digitChar_eq {c : Char} (digit : ∃ d, Numeral.IsDigit 10 c d) :
    ∃ d : Fin 10, c = Nat.digitChar d := by
  obtain ⟨d, small, rfl | rfl⟩ := digit
  · exact ⟨⟨d, small⟩, rfl⟩
  · have upper : ∀ d < 10, (Nat.digitChar d).toUpper = Nat.digitChar d := by decide
    exact ⟨⟨d, small⟩, upper d small⟩

/-- Three characters have a value if they are the digits of a code. -/
theorem exists_code_of_value? {a b c : Char} {n : Nat}
    (read : Numeral.value? 10 [a, b, c] = some n) :
    ∃ hundreds tens ones : Fin 10, a = Nat.digitChar hundreds ∧ b = Nat.digitChar tens ∧
      c = Nat.digitChar ones ∧ n = code hundreds tens ones := by
  have all : Numeral.AllDigits 10 [a, b, c] :=
    (Numeral.isSome_value?_iff (by decide)).mp (by rw [read, Option.isSome_some])
  obtain ⟨hundreds, rfl⟩ := exists_digitChar_eq (all a (by simp))
  obtain ⟨tens, rfl⟩ := exists_digitChar_eq (all b (by simp))
  obtain ⟨ones, rfl⟩ := exists_digitChar_eq (all c (by simp))
  rw [value?_code] at read
  exact ⟨hundreds, tens, ones, rfl, rfl, rfl, (Option.some.inj read).symm⟩

/-! ### Decoding -/

section Decoding

variable {text meant : List Char}

theorem decode?_cons_of_ne {c : Char} (plain : c ≠ '\\') (rest : List Char) :
    decode? (c :: rest) = (decode? rest).map (c :: ·) := by
  rw [decode?, if_neg plain]
  exact fun _ _ _ _ escape _ => plain escape

/-- An escape stands for the character with its code. -/
theorem decode?_of_value? {a b c denoted : Char} {n : Nat}
    (value : Numeral.value? 10 [a, b, c] = some n) (exists_char : character? n = some denoted)
    (rest : List Char) :
    decode? ('\\' :: a :: b :: c :: rest) = (decode? rest).map (denoted :: ·) := by
  simp only [decode?, value, exists_char, Option.bind_eq_bind, Option.bind_some]
  cases decode? rest with
  | none => rfl
  | some text => rfl

/-- A piece is taken off the front, and its meaning is put in front of what the rest stands for. -/
theorem decode?_written (piece : Piece) (rest : List Char) :
    decode? (piece.written ++ rest) = (decode? rest).map (piece.meaning :: ·) := by
  cases piece with
  | plain c ordinary => exact decode?_cons_of_ne ordinary rest
  | escape hundreds tens ones =>
      exact decode?_of_value? (value?_code hundreds tens ones) (character?_code hundreds tens ones)
        rest

/-- Written pieces are decoded into what they mean. -/
theorem decode?_flatMap_written (pieces : List Piece) (rest : List Char) :
    decode? (pieces.flatMap Piece.written ++ rest) =
      (decode? rest).map (pieces.map Piece.meaning ++ ·) := by
  induction pieces with
  | nil => simp
  | cons piece pieces ih =>
      rw [List.flatMap_cons, List.append_assoc, decode?_written, ih, Option.map_map]
      rfl

/-- What can be decoded is a row of pieces. -/
theorem exists_pieces_of_decode? (decoded : decode? text = some meant) :
    ∃ pieces : List Piece,
      text = pieces.flatMap Piece.written ∧ meant = pieces.map Piece.meaning := by
  fun_induction decode? text generalizing meant with
  | case1 =>
      cases decoded
      exact ⟨[], rfl, rfl⟩
  | case2 a b c rest ih =>
      obtain ⟨n, value, tail⟩ := Option.bind_eq_some_iff.mp decoded
      obtain ⟨denoted, character, tail'⟩ := Option.bind_eq_some_iff.mp tail
      obtain ⟨others, decoded', eq⟩ := Option.bind_eq_some_iff.mp tail'
      cases eq
      obtain ⟨hundreds, tens, ones, rfl, rfl, rfl, rfl⟩ := exists_code_of_value? value
      rw [character?_code] at character
      cases character
      obtain ⟨pieces, rfl, rfl⟩ := ih decoded'
      exact ⟨.escape hundreds tens ones :: pieces, rfl, rfl⟩
  | case3 => cases decoded
  | case4 c rest _ ordinary ih =>
      obtain ⟨others, decoded', rfl⟩ := Option.map_eq_some_iff.mp decoded
      obtain ⟨pieces, rfl, rfl⟩ := ih decoded'
      exact ⟨.plain c ordinary :: pieces, rfl, rfl⟩

/-- Decoding succeeds exactly on rows of pieces, and the result is the row of their meanings; the
check that the code of an escape is that of a character never fails. A text that can be decoded is
decoded in the same way whatever follows it. -/
theorem decode?_exact (text : List Char) :
    (∀ meant, decode? text = some meant ↔
        ∃ pieces : List Piece,
          text = pieces.flatMap Piece.written ∧ meant = pieces.map Piece.meaning) ∧
      (∀ hundreds tens ones : Fin 10,
        (100 * hundreds + 10 * tens + ones : Nat).isValidChar ∧
          character? (100 * hundreds + 10 * tens + ones) =
            some (Piece.escape hundreds tens ones).meaning ∧
          (Piece.escape hundreds tens ones).meaning.toNat = 100 * hundreds + 10 * tens + ones) ∧
      ∀ later meant, decode? text = some meant →
        decode? (text ++ later) = (decode? later).map (meant ++ ·) := by
  refine ⟨fun meant => ⟨exists_pieces_of_decode?, ?_⟩, ?_, ?_⟩
  · rintro ⟨pieces, rfl, rfl⟩
    have whole := decode?_flatMap_written pieces []
    simpa [decode?] using whole
  · intro hundreds tens ones
    exact ⟨isValidChar_code hundreds tens ones, character?_code hundreds tens ones, rfl⟩
  · intro later meant decoded
    obtain ⟨pieces, rfl, rfl⟩ := exists_pieces_of_decode? decoded
    exact decode?_flatMap_written pieces later

/-- An escaped backslash does not start an escape, and an escape that is cut short behind it is
still refused. -/
theorem escaped_backslash_decoded :
    decode? ['\\', '0', '9', '2'] = some ['\\'] ∧
      decode? ['\\', '0', '9', '2', '0', '6', '5'] = some ['\\', '0', '6', '5'] ∧
        decode? ['\\', '0', '9', '2', '\\', '0', '6'] = none := by
  have decoded : decode? ['\\', '0', '9', '2'] = some ['\\'] := by decide
  obtain ⟨-, -, followed⟩ := decode?_exact ['\\', '0', '9', '2']
  exact ⟨decoded, followed ['0', '6', '5'] _ decoded, followed ['\\', '0', '6'] _ decoded⟩

end Decoding

end FrameCode.Text.Escape
