import FrameCode.Text.Bytes
import Mathlib.Algebra.Ring.Nat
import Mathlib.Data.List.Lex
import Mathlib.Data.String.Basic
import Mathlib.Order.RelIso.Basic

/-!
The UTF-8 encoding of a text, one character after the other (`encode_eq_flatMap`). A byte below 128
stands for a character of its own (`toNat_eq_of_mem`). The encoding keeps the order
(`encode_lex_iff`): the first byte of a character tells how many bytes it takes, and more bytes have
a greater first byte; characters of the same size are compared by their groups of six bits, the
highest group first (`sixBitGroups_lex`).
-/

namespace FrameCode.Text

variable {text : String} {byte : UInt8}

/-! ### Bytes and characters -/

/-- A text is encoded character by character. -/
theorem encode_eq_flatMap (text : String) :
    encode text = text.toList.flatMap String.utf8EncodeChar := by
  rw [encode, String.toUTF8_eq_toByteArray, ← String.utf8Encode_toList, List.utf8Encode,
    List.data_toByteArray]

/-- Setting the bits of a high byte gives a high byte. -/
theorem le_toNat_or {x high : UInt8} (h : 128 ≤ high.toNat) : 128 ≤ (x ||| high).toNat := by
  rw [UInt8.toNat_or]
  exact Nat.le_trans h Nat.right_le_or

/-- A character that takes several bytes has only high ones. -/
theorem le_toNat_of_mem {c : Char} (wide : c.utf8Size ≠ 1) (mem : byte ∈ String.utf8EncodeChar c) :
    128 ≤ byte.toNat := by
  rcases c.utf8Size_eq with one | two | three | four
  · exact absurd one wide
  · rw [String.utf8EncodeChar_eq_cons_cons two] at mem
    simp only [List.mem_cons, List.not_mem_nil, or_false] at mem
    rcases mem with rfl | rfl <;> exact le_toNat_or (by decide)
  · rw [String.utf8EncodeChar_eq_cons_cons_cons three] at mem
    simp only [List.mem_cons, List.not_mem_nil, or_false] at mem
    rcases mem with rfl | rfl | rfl <;> exact le_toNat_or (by decide)
  · rw [String.utf8EncodeChar_eq_cons_cons_cons_cons four] at mem
    simp only [List.mem_cons, List.not_mem_nil, or_false] at mem
    rcases mem with rfl | rfl | rfl | rfl <;> exact le_toNat_or (by decide)

/-- A byte below 128 is the code of its character. -/
theorem toNat_eq_of_mem {c : Char} (ascii : byte.toNat < 128)
    (mem : byte ∈ String.utf8EncodeChar c) : c.toNat = byte.toNat := by
  by_cases one : c.utf8Size = 1
  · rw [String.utf8EncodeChar_eq_singleton one, List.mem_singleton] at mem
    have small : c.toNat ≤ 127 := UInt32.le_iff_toNat_le.mp (Char.utf8Size_eq_one_iff.mp one)
    have code : byte.toNat = c.toNat % 256 := by
      rw [mem]
      exact UInt32.toNat_toUInt8 c.val
    omega
  · exact absurd ascii (Nat.not_lt.mpr (le_toNat_of_mem one mem))

/-- A byte below 128 is a character of the text. -/
theorem exists_mem_of_mem_encode (ascii : byte.toNat < 128) (mem : byte ∈ encode text) :
    ∃ c ∈ text.toList, c.toNat = byte.toNat := by
  rw [encode_eq_flatMap] at mem
  obtain ⟨c, inText, inChar⟩ := List.mem_flatMap.mp mem
  exact ⟨c, inText, toNat_eq_of_mem ascii inChar⟩

theorem exists_getLast?_of_getLast?_encode (ascii : byte.toNat < 128)
    (last : (encode text).getLast? = some byte) :
    ∃ c, text.toList.getLast? = some c ∧ c.toNat = byte.toNat := by
  rw [encode_eq_flatMap] at last
  rcases List.eq_nil_or_concat text.toList with empty | ⟨front, c, chars⟩
  · rw [empty] at last
    cases last
  · refine ⟨c, by simp [chars], toNat_eq_of_mem ascii ?_⟩
    have nonempty : String.utf8EncodeChar c ≠ [] := by
      rw [← List.length_pos_iff, String.length_utf8EncodeChar]
      exact c.utf8Size_pos
    have ends := List.getLast?_eq_some_getLast nonempty
    rw [chars, List.concat_eq_append, List.flatMap_append, List.flatMap_singleton,
      List.getLast?_append, ends, Option.some_or] at last
    exact List.mem_of_getLast? (ends.trans last)

/-! ### Groups of six bits -/

/-- A code in its first byte, which carries a mark, and so many further bytes of six bits each. -/
def sixBitGroups (mark : Nat) : Nat → Nat → Bytes
  | 0, code => [UInt8.ofNat (mark + code)]
  | count + 1, code => sixBitGroups mark count (code / 64) ++ [UInt8.ofNat (0x80 + code % 64)]

theorem ofNat_lt_ofNat {m n : Nat} (less : m < n) (small : n < 256) :
    UInt8.ofNat m < UInt8.ofNat n := by
  rw [UInt8.lt_iff_toNat_lt, UInt8.toNat_ofNat_of_lt' (Nat.lt_trans less small),
    UInt8.toNat_ofNat_of_lt' small]
  exact less

theorem div_div_pow (code count : Nat) : code / 64 / 64 ^ count = code / 64 ^ (count + 1) := by
  rw [Nat.div_div_eq_div_mul, Nat.pow_succ, Nat.mul_comm]

theorem exists_sixBitGroups_eq_cons (mark count code : Nat) :
    ∃ rest, sixBitGroups mark count code = UInt8.ofNat (mark + code / 64 ^ count) :: rest := by
  induction count generalizing code with
  | zero => exact ⟨[], by rw [sixBitGroups, Nat.pow_zero, Nat.div_one]⟩
  | succ count ih =>
      obtain ⟨rest, eq⟩ := ih (code / 64)
      rw [div_div_pow] at eq
      exact ⟨_, by rw [sixBitGroups, eq, List.cons_append]⟩

/-- Codes in the same number of bytes are in the order of these bytes, whatever follows. -/
theorem sixBitGroups_lex {mark count code code' : Nat} (less : code < code')
    (fits : mark + code' / 64 ^ count < 256) (rest rest' : Bytes) :
    List.Lex (· < ·) (sixBitGroups mark count code ++ rest)
      (sixBitGroups mark count code' ++ rest') := by
  induction count generalizing code code' rest rest' with
  | zero =>
      rw [Nat.pow_zero, Nat.div_one] at fits
      exact .rel (ofNat_lt_ofNat (Nat.add_lt_add_left less mark) fits)
  | succ count ih =>
      rw [sixBitGroups, sixBitGroups, List.append_assoc, List.append_assoc]
      rcases Nat.lt_or_ge (code / 64) (code' / 64) with high | high
      · rw [← div_div_pow] at fits
        exact ih high fits _ _
      · -- the last group decides if the others agree
        have same : code / 64 = code' / 64 := by omega
        rw [same]
        refine List.Lex.append_left _ (.rel (ofNat_lt_ofNat ?_ ?_)) _
        · omega
        · omega

/-! ### Characters by size -/

/-- The mark of the first byte of a character, by the number of its bytes; it would be no byte for
more than four. -/
def leadMark : Nat → Nat
  | 0 | 1 => 0x00
  | 2 => 0xC0
  | 3 => 0xE0
  | 4 => 0xF0
  | _ => 0x100

/-- Longer characters have higher marks. -/
theorem leadMark_mono : Monotone leadMark := by
  apply monotone_nat_of_le_succ
  intro size
  match size with
  | 0 | 1 | 2 | 3 | 4 => decide
  | _ + 5 => exact Nat.le_refl _

theorem toNat_le (c : Char) : c.toNat ≤ 0x10FFFF := by
  rcases c.valid with below | ⟨-, below⟩
  · exact Nat.le_trans (Nat.le_of_lt below) (by decide)
  · exact Nat.le_of_lt_succ below

/-- The codes of the characters that take one, two, three and four bytes. -/
theorem utf8Size_cases (c : Char) :
    (c.utf8Size = 1 ∧ c.toNat ≤ 0x7F) ∨ (c.utf8Size = 2 ∧ 0x7F < c.toNat ∧ c.toNat ≤ 0x7FF) ∨
      (c.utf8Size = 3 ∧ 0x7FF < c.toNat ∧ c.toNat ≤ 0xFFFF) ∨
      (c.utf8Size = 4 ∧ 0xFFFF < c.toNat ∧ c.toNat ≤ 0x10FFFF) := by
  have top := toNat_le c
  have one : c.utf8Size = 1 ↔ c.toNat ≤ 0x7F := Char.utf8Size_eq_one_iff
  have two : c.utf8Size = 2 ↔ 0x7F < c.toNat ∧ c.toNat ≤ 0x7FF := Char.utf8Size_eq_two_iff
  have three : c.utf8Size = 3 ↔ 0x7FF < c.toNat ∧ c.toNat ≤ 0xFFFF := Char.utf8Size_eq_three_iff
  have four : c.utf8Size = 4 ↔ 0xFFFF < c.toNat := Char.utf8Size_eq_four_iff
  omega

theorem utf8EncodeChar_eq_sixBitGroups (c : Char) :
    String.utf8EncodeChar c = sixBitGroups (leadMark c.utf8Size) (c.utf8Size - 1) c.toNat := by
  rw [String.utf8EncodeChar, ← Char.toNat]
  rcases utf8Size_cases c with ⟨size, high⟩ | ⟨size, low, high⟩ | ⟨size, low, high⟩ |
    ⟨size, low, high⟩
  · rw [size, if_pos high, sixBitGroups, leadMark, Nat.zero_add]
  · have lead : c.toNat / 64 % 0x20 + 0xC0 = 0xC0 + c.toNat / 64 := by omega
    rw [size, if_neg (by omega), if_pos high, lead, Nat.add_comm _ 0x80]
    rfl
  · have lead : c.toNat / 4096 % 0x10 + 0xE0 = 0xE0 + c.toNat / 64 / 64 := by omega
    rw [size, if_neg (by omega), if_neg (by omega), if_pos high, lead, Nat.add_comm _ 0x80,
      Nat.add_comm _ 0x80]
    rfl
  · have lead : c.toNat / 262144 % 0x08 + 0xF0 = 0xF0 + c.toNat / 64 / 64 / 64 := by omega
    have second : c.toNat / 4096 % 0x40 + 0x80 = 0x80 + c.toNat / 64 / 64 % 64 := by omega
    rw [size, if_neg (by omega), if_neg (by omega), if_neg (by omega), lead, second,
      Nat.add_comm _ 0x80, Nat.add_comm _ 0x80]
    rfl

/-- The first byte of a character lies below the marks of all greater sizes. -/
theorem lead_lt_leadMark {c : Char} {size : Nat} (wider : c.utf8Size < size) :
    leadMark c.utf8Size + c.toNat / 64 ^ (c.utf8Size - 1) < leadMark size := by
  refine Nat.lt_of_lt_of_le ?_ (leadMark_mono wider)
  rcases utf8Size_cases c with ⟨size, high⟩ | ⟨size, -, high⟩ | ⟨size, -, high⟩ | ⟨size, -, high⟩
  all_goals
    simp only [size, leadMark, Nat.reduceSub, Nat.reducePow]
    omega

/-- Higher characters are not shorter. -/
theorem utf8Size_le {c d : Char} (less : c.toNat < d.toNat) : c.utf8Size ≤ d.utf8Size := by
  have := utf8Size_cases c
  have := utf8Size_cases d
  omega

/-! ### The order of texts -/

/-- The bytes of the smaller one of two characters come first, whatever follows. -/
theorem utf8EncodeChar_lex {c d : Char} (less : c.toNat < d.toNat) (rest rest' : Bytes) :
    List.Lex (· < ·) (String.utf8EncodeChar c ++ rest) (String.utf8EncodeChar d ++ rest') := by
  have fits : leadMark d.utf8Size + d.toNat / 64 ^ (d.utf8Size - 1) < 256 :=
    lead_lt_leadMark (Nat.lt_succ_of_le d.utf8Size_le_four)
  rw [utf8EncodeChar_eq_sixBitGroups, utf8EncodeChar_eq_sixBitGroups]
  rcases Nat.lt_or_eq_of_le (utf8Size_le less) with wider | same
  · obtain ⟨tail, eq⟩ := exists_sixBitGroups_eq_cons (leadMark c.utf8Size) (c.utf8Size - 1) c.toNat
    obtain ⟨tail', eq'⟩ :=
      exists_sixBitGroups_eq_cons (leadMark d.utf8Size) (d.utf8Size - 1) d.toNat
    rw [eq, eq']
    exact .rel (ofNat_lt_ofNat (Nat.lt_add_right _ (lead_lt_leadMark wider)) fits)
  · rw [same]
    exact sixBitGroups_lex less fits rest rest'

/-- Encoding keeps the order of texts. -/
theorem encode_lex {x y : String} (less : x < y) : List.Lex (· < ·) (encode x) (encode y) := by
  have ordered : List.Lex (· < ·) x.toList y.toList := less
  rw [encode_eq_flatMap, encode_eq_flatMap]
  generalize x.toList = chars, y.toList = chars' at ordered
  induction ordered with
  | @nil c _ =>
      obtain ⟨byte, tail, eq⟩ := List.exists_cons_of_ne_nil (String.utf8EncodeChar_ne_nil (c := c))
      rw [List.flatMap_nil, List.flatMap_cons, eq, List.cons_append]
      exact .nil
  | rel less => exact utf8EncodeChar_lex less _ _
  | cons _ ih => exact List.Lex.append_left _ ih _

/-- Texts are in the order of their bytes. -/
theorem encode_lex_iff {x y : String} : List.Lex (· < ·) (encode x) (encode y) ↔ x < y :=
  (RelEmbedding.ofMonotone encode fun _ _ => encode_lex).map_rel_iff

def codePoints (text : String) : List Nat :=
  text.toList.map Char.toNat

/-- Texts are in the order of their code points. -/
theorem codePoints_lex_iff {x y : String} :
    List.Lex (· < ·) (codePoints x) (codePoints y) ↔ x < y :=
  (RelEmbedding.ofMonotone codePoints fun _ _ => List.map_lt fun _ _ less => less).map_rel_iff

end FrameCode.Text
