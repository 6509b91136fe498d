import FrameCode.Numeral

/-!
Escapes in string literals. A backslash and exactly three decimal digits stand for the character
with that code; every other character stands for itself, and a backslash cannot stand alone.
-/

namespace FrameCode.Text.Escape

/-- The character with a code point; there is none for surrogates and past the last code point. -/
def character? (code : Nat) : Option Char :=
  if valid : code.isValidChar then some (Char.ofNatAux code valid) else none

def decode? : List Char → Option (List Char)
  | [] => some []
  | '\\' :: a :: b :: c :: rest => do
      let code ← Numeral.value? 10 [a, b, c]
      let denoted ← character? code
      let text ← decode? rest
      return denoted :: text
  | c :: rest => if c = '\\' then none else (decode? rest).map (c :: ·)

/-- Characters that would end a word, start a comment or start an escape. -/
def isSpecial (c : Char) : Bool :=
  isWhite c || c == '#' || c == '\\'

/-- The three decimal digits of a code below one thousand. -/
def digits (code : Nat) : List Char :=
  [Nat.digitChar (code / 100 % 10), Nat.digitChar (code / 10 % 10), Nat.digitChar (code % 10)]

/-- Writes the special characters as escapes and every other character as itself. -/
def encode (text : List Char) : List Char :=
  text.flatMap fun c => if isSpecial c then '\\' :: digits c.toNat else [c]

end FrameCode.Text.Escape
