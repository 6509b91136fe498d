import FrameCode.Proofs.Source.ErrorClasses
import FrameCode.Proofs.Source.RoundTrip
import FrameCode.Proofs.Text.Escapes

/-!
The texts that string literals stand for. A literal is part of a word, so white space can stand in
it only as an escape, and an escape has three digits. A text with a white-space character of a
higher code is the text of no literal, and every other text is that of the literal in which its
special characters are escaped (`denotable_iff`).
-/

namespace FrameCode

/-! ### Escapes -/

namespace Text.Escape

variable {text token : List Char}

/-- Escapes have a code for every white-space character of the text. -/
def Covers (text : List Char) : Prop :=
  ∀ c ∈ text, isWhite c = true → c.toNat < 1000

instance (text : List Char) : Decidable (Covers text) :=
  decidable_of_iff (text.all fun c => !isWhite c || decide (c.toNat < 1000)) <| by
    simp [Covers, imp_iff_not_or]

theorem decode?_escape {c : Char} (small : c.toNat < 1000) (rest : List Char) :
    decode? ('\\' :: (digits c.toNat ++ rest)) = (decode? rest).map (c :: ·) :=
  decode?_of_value? (value?_digits small) (character?_toNat c) rest

/-- What is encoded is decoded again. -/
theorem decode?_encode (covers : Covers text) : decode? (encode text) = some text := by
  induction text with
  | nil => rfl
  | cons c rest ih =>
      obtain ⟨here, later⟩ := List.forall_mem_cons.mp covers
      have others := ih later
      rw [encode, List.flatMap_cons]
      change decode? (_ ++ encode rest) = _
      by_cases special : isSpecial c = true
      · have small : c.toNat < 1000 := by
          simp only [isSpecial, Bool.or_eq_true, beq_iff_eq] at special
          rcases special with (white | rfl) | rfl
          · exact here white
          · decide
          · decide
        rw [if_pos special, List.cons_append, decode?_escape small, others]
        rfl
      · have plain : c ≠ '\\' := by
          rintro rfl
          exact special rfl
        rw [if_neg special, List.singleton_append, decode?_cons_of_ne plain, others]
        rfl

/-- The encoding of a text has nothing in it that would end a word or start a comment. -/
theorem of_mem_encode {c : Char} (mem : c ∈ encode text) : isWhite c = false ∧ c ≠ '#' := by
  obtain ⟨d, -, part⟩ := List.mem_flatMap.mp mem
  split at part
  · have digit : ∀ n < 10, isWhite (Nat.digitChar n) = false ∧ Nat.digitChar n ≠ '#' := by decide
    have last (n : Nat) : n % 10 < 10 := Nat.mod_lt n (by decide)
    simp only [digits, List.mem_cons, List.not_mem_nil, or_false] at part
    rcases part with rfl | rfl | rfl | rfl
    · decide
    · exact digit _ (last _)
    · exact digit _ (last _)
    · exact digit _ (last _)
  · next plain =>
    rw [List.mem_singleton] at part
    subst part
    simp only [isSpecial, Bool.or_eq_true, beq_iff_eq, not_or] at plain
    exact ⟨Bool.eq_false_iff.mpr plain.1.1, plain.1.2⟩

/-- White space that is decoded from a word comes from escapes. -/
theorem covers_of_decode? (decoded : decode? token = some text)
    (solid : ∀ c ∈ token, isWhite c = false) : Covers text := by
  obtain ⟨pieces, rfl, rfl⟩ := exists_pieces_of_decode? decoded
  intro c mem white
  obtain ⟨piece, stands, rfl⟩ := List.mem_map.mp mem
  cases piece with
  | plain c ordinary =>
      have plain := solid c (List.mem_flatMap.mpr ⟨_, stands, List.mem_singleton_self c⟩)
      exact absurd white (Bool.eq_false_iff.mp plain)
  | escape hundreds tens ones => exact code_lt hundreds tens ones

end Text.Escape

/-! ### Literals in a source text -/

namespace Source

open Text.Escape (Covers encode)

variable {content : List Char} {text : String}

def writeString (content : List Char) (text : String) : Instruction :=
  ⟨.write, 1, [⟨1, .literal (String.ofList content) (.string text)⟩]⟩

def writing (token : String) : String :=
  header ++ "\nWRITE string@" ++ token

/-- The token, taken as a string literal, stands for the text. -/
def Denotes (token text : String) : Prop :=
  ∃ program content, load (writing token) = .ok program ∧
    program.toList = [writeString content text]

theorem words_writeString (content : List Char) (text : String) :
    (writeString content text).words =
      [Opcode.write.mnemonic.toList, DataType.string.name.toList ++ '@' :: content] := by
  have operand := toList_at DataType.string.name (String.ofList content)
  rw [@String.toList_ofList content] at operand
  exact congrArg ([Opcode.write.mnemonic.toList, ·]) operand

/-- The words of the instruction are read as the instruction if its literal is decoded to the
text. -/
theorem toInstruction_writeString_iff (line : Nat) :
    (⟨line, (writeString content text).words⟩ : Statement).toInstruction 1 =
        .ok (writeString content text) ↔
      Text.Escape.decode? content = some text.toList := by
  have recognized : (⟨line, (writeString content text).words⟩ : Statement).recognize =
      .ok [.bare Opcode.write.mnemonic.toList, .literal .string content] := by
    rw [recognize_eq_ok_iff, words_writeString, List.map_cons, List.map_cons, ofChars?_mnemonic,
      ofChars?_literal]
    rfl
  have made : (⟨line, (writeString content text).words⟩ : Statement).toInstruction 1 =
      (operands line 1 [.symb] [.literal .string content]).map (⟨.write, 1, ·⟩) := by
    rw [Statement.toInstruction, recognized]
    rfl
  rw [made]
  simp only [operands, argument?, literal?, Value.ofLiteral?]
  cases decoded : Text.Escape.decode? content with
  | none => simp [Except.map]
  | some chars =>
      have same : String.ofList chars = text ↔ chars = text.toList := by
        constructor
        · rintro rfl
          simp
        · rintro rfl
          simp
      simpa [Except.map, writeString, pure, Except.pure, bind, Except.bind] using same

/-- A literal in a program that was loaded is decoded to the text that it has there, and no white
space stands in it. -/
theorem decode?_of_loaded {source : String} {program : Program} (loaded : load source = .ok program)
    (only : program.toList = [writeString content text]) :
    Text.Escape.decode? content = some text.toList ∧ ∀ c ∈ content, Text.isWhite c = false := by
  obtain ⟨first, rest, statements, -, read⟩ := load_eq_ok_iff.mp loaded
  have words : ∀ statement ∈ rest, ∀ word ∈ statement.words, IsSourceWord word := by
    intro statement mem
    have found : statement ∈ statementsFrom 1 (Text.lines source.toList) := by
      rw [statements]
      exact List.mem_cons_of_mem _ mem
    exact words_of_mem_statementsFrom found
  rw [only] at read
  obtain ⟨writable, again⟩ := instructionsFrom_text read words
  have writable' := writable _ List.mem_cons_self
  have reread := again 2
  rw [List.map_singleton, statementsFrom_cons_text writable'] at reread
  obtain ⟨instr, made, tail⟩ := bind_eq_ok_iff.mp reread
  cases tail
  refine ⟨(toInstruction_writeString_iff 2).mp made, fun c mem => ?_⟩
  rw [IsWritable, words_writeString] at writable'
  obtain ⟨⟨-, solid⟩, -⟩ := writable' _ (List.mem_cons_of_mem _ List.mem_cons_self)
  exact solid c (by simp [mem])

/-- A word that is decoded to a text stands for it. -/
theorem denotes_of_decode? (plain : ∀ c ∈ content, Text.isWhite c = false ∧ c ≠ '#')
    (decoded : Text.Escape.decode? content = some text.toList) :
    Denotes (String.ofList content) text := by
  have writable : IsWritable (writeString content text) := by
    have name : ∀ c ∈ DataType.string.name.toList, Text.isWhite c = false ∧ c ≠ '#' := by
      have all : (DataType.string.name.toList.all fun c => !Text.isWhite c && c != '#') = true := by
        decide
      intro c mem
      simpa using List.all_eq_true.mp all c mem
    have sign : Text.isWhite '@' = false ∧ '@' ≠ '#' := by decide
    have literal : ∀ c ∈ DataType.string.name.toList ++ '@' :: content,
        Text.isWhite c = false ∧ c ≠ '#' :=
      List.forall_mem_append.mpr ⟨name, List.forall_mem_cons.mpr ⟨sign, plain⟩⟩
    rw [IsWritable, words_writeString]
    refine List.forall_mem_cons.mpr ⟨isSourceWord_mnemonic .write, ?_⟩
    refine List.forall_mem_singleton.mpr ⟨⟨by simp, fun c mem => (literal c mem).1⟩, ?_⟩
    exact fun mem => (literal '#' mem).2 rfl
  have read : instructionsFrom 1 [⟨2, (writeString content text).words⟩] =
      .ok [writeString content text] := by
    rw [instructionsFrom, (toInstruction_writeString_iff 2).mpr decoded]
    rfl
  obtain ⟨program, -, only⟩ := ofInstructions_of_read read
  refine ⟨program, content, load_eq_ok_iff.mpr ?_, only⟩
  refine ⟨⟨1, [header.toList]⟩, _, ?_, rfl, only ▸ read⟩
  have source : (writing (String.ofList content)).toList =
      ['\n'].intercalate (renderedLines program) := by
    rw [renderedLines, only, List.map_singleton, toList_text, words_writeString]
    simp [writing, List.intercalate, Opcode.mnemonic, DataType.name]
  have full : ∀ line ∈ renderedLines program, line ≠ [] ∧ '\n' ∉ line ∧ '\r' ∉ line := by
    refine fun line mem => of_mem_renderedLines ?_ mem
    rw [only]
    simpa using writable
  rw [source, Text.lines_intercalate full, statementsFrom_renderedLines, only, List.map_singleton,
    statementsFrom_cons_text writable]
  rfl

/-- The texts that string literals stand for are those in which every white-space character has a
code below one thousand. Such a text is that of the word in which its white-space characters, number
signs and backslashes are written as escapes, and its other characters as they are. -/
theorem denotable_iff (text : String) :
    ((∃ token, Denotes token text) ↔
        ∀ c ∈ text.toList, Text.isWhite c = true → c.toNat < 1000) ∧
      ((∀ c ∈ text.toList, Text.isWhite c = true → c.toNat < 1000) →
        Denotes (String.ofList (encode text.toList)) text) ∧
      ∀ c ∈ encode text.toList, Text.isWhite c = false ∧ c ≠ '#' := by
  have plain : ∀ c ∈ encode text.toList, Text.isWhite c = false ∧ c ≠ '#' :=
    fun c mem => Text.Escape.of_mem_encode mem
  have denotes (covers : Covers text.toList) : Denotes (String.ofList (encode text.toList)) text :=
    denotes_of_decode? plain (Text.Escape.decode?_encode covers)
  refine ⟨⟨?_, fun covers => ⟨_, denotes covers⟩⟩, denotes, plain⟩
  rintro ⟨token, program, content, loaded, only⟩
  obtain ⟨decoded, solid⟩ := decode?_of_loaded loaded only
  exact Text.Escape.covers_of_decode? decoded solid

/-- A space, a number sign, a backslash and a no-break space are escaped, an accented letter is not;
and an ideographic space is beyond the escapes. -/
theorem blanks_denoted :
    Denotes "a\\032\\035\\092\\160é" "a #\\\u00a0é" ∧ ¬ ∃ token, Denotes token "a\u3000" := by
  constructor
  · have covers : Covers "a #\\\u00a0é".toList := by decide
    exact (denotable_iff "a #\\\u00a0é").2.1 covers
  · intro denoted
    have small := (denotable_iff "a\u3000").1.mp denoted '\u3000' (by decide) (by decide)
    exact absurd small (by decide)

end Source

end FrameCode
