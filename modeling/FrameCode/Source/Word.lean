import FrameCode.Operand

/-!
Words of a source line. A word is recognised by its own form: the language header, a variable, a
literal that is not decoded yet, or a bare word, which can be a mnemonic, a label or a type name.
What stands before the first `@` must be a frame or a type.
-/

namespace FrameCode.Source

/-- The word that every source text starts with, in any letter case. -/
def header : String := ".IPPcode22"

inductive Word where
  | header
  | variable (var : Variable)
  | literal (type : DataType) (content : List Char)
  | bare (text : List Char)
deriving DecidableEq

/-- Characters that a name may hold beside letters and digits. -/
def isNameMark (c : Char) : Bool :=
  ['_', '-', '$', '&', '%', '*', '!', '?'].contains c

/-- Names of variables and labels: ASCII letters, digits and marks, not starting with a digit. -/
def isName : List Char → Bool
  | [] => false
  | c :: rest => (c.isAlpha || isNameMark c) && rest.all fun d => d.isAlphanum || isNameMark d

namespace Word

/-- Recognises a word; none if it has the form of an operand but is neither variable nor literal. -/
def ofChars? (chars : List Char) : Option Word :=
  if Text.sameLetters chars Source.header.toList then some .header
  else
    match chars.dropWhile (· != '@') with
    | [] => some (.bare chars)
    | _ :: content =>
        let owner := String.ofList (chars.takeWhile (· != '@'))
        match FrameTag.ofName? owner with
        | some frame =>
            if isName content then some (.variable ⟨frame, String.ofList content⟩) else none
        | none => (DataType.ofName? owner).map (.literal · content)

/-- The word as an error quotes it. -/
def text : Word → String
  | .header => Source.header
  | .variable var => var.text
  | .literal type content => s!"{type.name}@{String.ofList content}"
  | .bare chars => String.ofList chars

end Word

/-- The words of a line, without its comment, which starts at the first number sign. -/
def lineWords (line : List Char) : List (List Char) :=
  Text.words (line.takeWhile (· != '#'))

end FrameCode.Source
