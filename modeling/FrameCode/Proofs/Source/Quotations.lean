import FrameCode.Proofs.Source.ErrorClasses

/-!
What errors quote. An error that quotes a word quotes one of the words of the line that it names.
The word is not kept: it is written again from what it was recognised as. For variables, literals
and bare words this gives back the very characters, but the header, which may be spelled in any
letter case, is always written in its own (`Word.toList_text`). So a quotation is a word of the line
character for character unless that word is the header in another spelling (`load_error_quotes`).
-/

namespace FrameCode.Source

/-! ### Quoting a word -/

/-- A word as an error quotes it: the header in its own spelling and every other word as it is. -/
def quoted (word : List Char) : List Char :=
  if Text.sameLetters word header.toList then header.toList else word

section Words

variable {chars : List Char}

theorem quoted_of_spelled (spelled : Text.sameLetters chars header.toList = true →
    chars = header.toList) : quoted chars = chars := by
  unfold quoted
  split
  · next same => exact (spelled same).symm
  · rfl

theorem Word.toList_text {word : Word} (recognized : Word.ofChars? chars = some word) :
    word.text.toList = quoted chars := by
  unfold quoted
  split
  · next same =>
    rw [ofChars?_eq_header_iff.mpr same] at recognized
    cases recognized
    rfl
  · next other =>
    apply Word.text_of_ofChars? recognized
    rintro rfl
    exact other (ofChars?_eq_header_iff.mp recognized)

/-- A word that is not recognised is not the header, so it is quoted as it is. -/
theorem quoted_of_unrecognized (unknown : Word.ofChars? chars = none) : quoted chars = chars := by
  apply quoted_of_spelled
  intro same
  rw [ofChars?_eq_header_iff.mpr same] at unknown
  cases unknown

end Words

/-! ### Quotations in errors -/

/-- The line and the word that an error quotes, if it quotes one. -/
def Error.quotation? : Error → Option (Nat × String)
  | .unknownOpcode line word => some (line, word)
  | .invalidOperand line word => some (line, word)
  | .missingHeader _ | .operandCount _ _ _ _ | .program _ => none

def Statement.Quotes (statement : Statement) (e : Error) : Prop :=
  ∀ line word, e.quotation? = some (line, word) →
    line = statement.line ∧ ∃ blamed ∈ statement.words, word.toList = quoted blamed

section Statements

variable {statement : Statement} {line order : Nat}

theorem recognize_quotes (statement : Statement) :
    Ensures (fun _ => True) statement.Quotes statement.recognize := by
  obtain ⟨line, words⟩ := statement
  induction words with
  | nil => exact True.intro
  | cons first rest ih =>
      cases recognized : Word.ofChars? first with
      | none =>
          rw [recognize_cons_of_none recognized]
          rintro _ _ ⟨⟩
          refine ⟨rfl, first, List.mem_cons_self, ?_⟩
          rw [String.toList_ofList, quoted_of_unrecognized recognized]
      | some word =>
          rw [recognize_cons_of_some recognized]
          refine Ensures.map (ih.mono (fun _ done => done) ?_)
          intro e quotes line' word' quotation
          obtain ⟨same, blamed, mem, eq⟩ := quotes line' word' quotation
          exact ⟨same, blamed, List.mem_cons_of_mem _ mem, eq⟩

/-- Operands that are refused are quoted by their text. -/
theorem operands_quotes (line position : Nat) (kinds : List OperandKind) (words : List Word) :
    Ensures (fun _ => True) (fun e => ∃ word ∈ words, e = .invalidOperand line word.text)
      (operands line position kinds words) := by
  fun_induction operands line position kinds words with
  | case1 position kind kinds word words refused => exact ⟨word, List.mem_cons_self, rfl⟩
  | case2 position kind kinds word words argument taken ih =>
      refine Ensures.bind (ih.mono (fun _ done => done) ?_) fun _ _ => True.intro
      rintro _ ⟨other, mem, rfl⟩
      exact ⟨other, List.mem_cons_of_mem _ mem, rfl⟩
  | case3 => exact True.intro

theorem instruction_quotes {words : List Word} (nonempty : words ≠ []) :
    Ensures (fun _ => True)
      (fun e => ∀ line' text, e.quotation? = some (line', text) →
        line' = line ∧ ∃ word ∈ words, text = word.text)
      (instruction line order words) := by
  cases words with
  | nil => exact absurd rfl nonempty
  | cons first rest =>
      rw [instruction]
      cases opcode? first with
      | none =>
          rintro _ _ ⟨⟩
          exact ⟨rfl, first, List.mem_cons_self, rfl⟩
      | some opcode =>
          dsimp only
          split
          · refine Ensures.bind ((operands_quotes _ _ _ _).mono (fun _ done => done) ?_)
              fun _ _ => True.intro
            rintro _ ⟨word, mem, rfl⟩ _ _ ⟨⟩
            exact ⟨rfl, word, List.mem_cons_of_mem _ mem, rfl⟩
          · rintro _ _ ⟨⟩

/-- Recognised words come from the words of the statement. -/
theorem exists_of_mem_recognized {words : List Word} {word : Word}
    (recognized : statement.recognize = .ok words) (mem : word ∈ words) :
    ∃ chars ∈ statement.words, Word.ofChars? chars = some word := by
  have same := recognize_eq_ok_iff.mp recognized
  have found : some word ∈ statement.words.map Word.ofChars? := by
    rw [same]
    exact List.mem_map_of_mem mem
  exact List.mem_map.mp found

theorem toInstruction_quotes (nonempty : statement.words ≠ []) :
    Ensures (fun _ => True) statement.Quotes (statement.toInstruction order) := by
  cases recognized : statement.recognize with
  | error e =>
      rw [Statement.toInstruction, recognized]
      exact (recognize_quotes statement).error recognized
  | ok words =>
      have some_word : words ≠ [] := by
        rintro rfl
        exact nonempty (List.map_eq_nil_iff.mp (recognize_eq_ok_iff.mp recognized))
      rw [Statement.toInstruction, recognized]
      refine (instruction_quotes some_word).mono (fun _ done => done) ?_
      intro e quotes line' text quotation
      obtain ⟨same, word, mem, rfl⟩ := quotes line' text quotation
      obtain ⟨chars, stands, source⟩ := exists_of_mem_recognized recognized mem
      exact ⟨same, chars, stands, Word.toList_text source⟩

end Statements

/-! ### Texts -/

/-- The words of a line of a text without its comment. Lines are counted from one. -/
def wordsInLine (text : String) : Nat → List (List Char)
  | 0 => []
  | k + 1 => ((Text.lines text.toList)[k]?.map lineWords).getD []

variable {text : String} {e : Error} {line : Nat} {word : String}

theorem words_eq_wordsInLine {statement : Statement} (mem : statement ∈ statementsOf text) :
    statement.words = wordsInLine text statement.line ∧ statement.words ≠ [] := by
  obtain ⟨k, chars, at_k, rfl, nonempty⟩ := of_mem_statementsFrom mem
  refine ⟨?_, nonempty⟩
  rw [Nat.add_comm, wordsInLine, at_k]
  rfl

/-- What an error quotes stands in one of the statements. -/
theorem body_quotes {statements : List Statement}
    (nonempty : ∀ statement ∈ statements, statement.words ≠ [])
    (failed : body statements = .error e) (quotes : e.quotation? = some (line, word)) :
    ∃ statement ∈ statements, statement.Quotes e := by
  cases statements with
  | nil =>
      cases failed
      cases quotes
  | cons first rest =>
      obtain ⟨e', refused, blocked⟩ | ⟨-, headed⟩ | ⟨_, -, -, missing⟩ := body_cases first
      · rw [blocked] at failed
        cases failed
        exact ⟨first, List.mem_cons_self, (recognize_quotes first).error refused⟩
      · rw [headed] at failed
        obtain ⟨earlier, culprit, later, -, rfl, -, fails⟩ := instructionsFrom_eq_error failed
        have mem : culprit ∈ first :: (earlier ++ culprit :: later) := by simp
        exact ⟨culprit, mem, (toInstruction_quotes (nonempty culprit mem)).error fails⟩
      · rw [missing] at failed
        cases failed
        cases quotes

/-- An error that quotes a word quotes one that stands in the line that it names, the header in its
own spelling. So it quotes the very characters of a word of this line if the header is spelled there
in no other way. -/
theorem load_error_quotes (failed : load text = .error e)
    (quotes : e.quotation? = some (line, word)) :
    (∃ blamed ∈ wordsInLine text line, word.toList = quoted blamed) ∧
      ((∀ other ∈ wordsInLine text line,
          Text.sameLetters other header.toList = true → other = header.toList) →
        word.toList ∈ wordsInLine text line) := by
  have nonempty : ∀ statement ∈ statementsOf text, statement.words ≠ [] :=
    fun statement mem => (words_eq_wordsInLine mem).2
  obtain ⟨statement, mem, source⟩ := body_quotes nonempty (load_eq_error_iff.mp failed) quotes
  obtain ⟨rfl, blamed, stands, eq⟩ := source line word quotes
  rw [(words_eq_wordsInLine mem).1] at stands
  refine ⟨⟨blamed, stands, eq⟩, fun spelled => ?_⟩
  rw [eq, quoted_of_spelled (spelled blamed stands)]
  exact stands

/-- A source text with comments and an escape that is too short. -/
def shortEscape : String :=
  ".IPPcode22 # header\nWRITE string@a\\03 # text"

/-- The literal with the escape is quoted as it stands. -/
theorem shortEscape_quoted :
    load shortEscape = .error (.invalidOperand 2 "string@a\\03") ∧
      "string@a\\03".toList ∈ wordsInLine shortEscape 2 := by
  have failed : load shortEscape = .error (.invalidOperand 2 "string@a\\03") := by
    decide +kernel
  exact ⟨failed, (load_error_quotes failed rfl).2 (by decide +kernel)⟩

/-- A header in another spelling is not quoted as it stands, neither as an opcode nor as an
operand. -/
theorem respelled_header_misquoted :
    (load ".IPPcode22\n.ippcode22\n" = .error (.unknownOpcode 2 ".IPPcode22") ∧
        ".IPPcode22".toList ∉ wordsInLine ".IPPcode22\n.ippcode22\n" 2) ∧
      load ".IPPcode22\nWRITE .ippcode22\n" = .error (.invalidOperand 2 ".IPPcode22") ∧
        ".IPPcode22".toList ∉ wordsInLine ".IPPcode22\nWRITE .ippcode22\n" 2 := by
  decide +kernel

end FrameCode.Source
