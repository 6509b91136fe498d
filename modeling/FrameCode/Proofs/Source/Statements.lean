import FrameCode.Proofs.Fallible
import FrameCode.Source.Statement

/-!
What is kept when a statement is taken apart. Recognising a word and taking it as an argument keep
its text, so an instruction can be written with the words it was read from, the mnemonic alone in
its own spelling, and is read from them again (`toInstruction_words`).
-/

namespace FrameCode

theorem FrameTag.name_of_ofName? {owner : String} {tag : FrameTag}
    (named : FrameTag.ofName? owner = some tag) : tag.name = owner := by
  unfold ofName? at named
  split at named <;> cases named <;> rfl

theorem DataType.name_of_ofName? {owner : String} {type : DataType}
    (named : DataType.ofName? owner = some type) : type.name = owner := by
  unfold ofName? at named
  have found := List.find?_some named
  exact eq_of_beq found

theorem Value.type_of_ofLiteral? {type : DataType} {text : List Char} {value : Value}
    (read : Value.ofLiteral? type text = some value) : value.type = type := by
  unfold ofLiteral? at read
  cases type with
  | nil =>
      obtain ⟨-, rfl⟩ : text = ['n', 'i', 'l'] ∧ .nil = value := by simpa using read
      rfl
  | bool | int | string | float =>
      obtain ⟨_, -, rfl⟩ := Option.map_eq_some_iff.mp read
      rfl

def Instruction.words (instr : Instruction) : List (List Char) :=
  instr.opcode.mnemonic.toList :: instr.operands.map (·.argument.text.toList)

namespace Source

theorem toList_at (owner content : String) :
    (s!"{owner}@{content}").toList = owner.toList ++ '@' :: content.toList := by
  change (owner ++ "@" ++ content).toList = _
  rw [String.toList_append, String.toList_append, List.append_assoc]
  rfl

/-- A word consists of what stands before its first at sign, the sign and what follows. -/
theorem append_of_dropWhile {chars content : List Char} {c : Char}
    (rest : chars.dropWhile (· != '@') = c :: content) :
    chars.takeWhile (· != '@') ++ '@' :: content = chars := by
  have sign : c = '@' := by
    have stops := List.head_dropWhile_not (· != '@') (l := chars) (by simp [rest])
    simpa [rest] using stops
  subst sign
  rw [← rest, List.takeWhile_append_dropWhile]

/-- A recognised word has the text it was recognised from; only the header is put in its own
spelling. -/
theorem Word.text_of_ofChars? {chars : List Char} {word : Word}
    (recognized : Word.ofChars? chars = some word) (plain : word ≠ .header) :
    word.text.toList = chars := by
  unfold ofChars? at recognized
  split at recognized
  · cases recognized
    exact absurd rfl plain
  · split at recognized
    · cases recognized
      exact String.toList_ofList
    · next rest =>
      have joined := append_of_dropWhile rest
      dsimp only at recognized
      split at recognized
      · next frame owner =>
        split at recognized
        · cases recognized
          rw [text, Variable.text, toList_at, FrameTag.name_of_ofName? owner]
          simpa using joined
        · cases recognized
      · obtain ⟨type, owner, rfl⟩ := Option.map_eq_some_iff.mp recognized
        rw [text, toList_at, DataType.name_of_ofName? owner]
        simpa using joined

/-- An argument has the text of the word that it was taken from, which is not the header. -/
theorem text_of_argument? {kind : OperandKind} {word : Word} {argument : Argument}
    (taken : argument? kind word = some argument) :
    argument.text = word.text ∧ word ≠ .header := by
  have literal : ∀ {type content}, literal? type content = some argument →
      argument.text = (Word.literal type content).text := by
    intro type content read
    obtain ⟨value, valued, rfl⟩ := Option.map_eq_some_iff.mp read
    rw [Argument.text, Value.type_of_ofLiteral? valued, Word.text]
  unfold argument? at taken
  split at taken
  · cases taken
    exact ⟨rfl, nofun⟩
  · cases taken
    exact ⟨rfl, nofun⟩
  · exact ⟨literal taken, nofun⟩
  · split at taken
    · exact ⟨literal taken, nofun⟩
    · cases taken
  · split at taken
    · cases taken
      exact ⟨rfl, nofun⟩
    · cases taken
  · obtain ⟨type, named, rfl⟩ := Option.map_eq_some_iff.mp taken
    exact ⟨DataType.name_of_ofName? named, nofun⟩
  · cases taken

/-- What operands keep of the words that they were taken from. The number of the line does not
matter where no word is wrong. -/
theorem operands_eq_ok {line position : Nat} {kinds : List OperandKind} {words : List Word}
    {taken : List Operand} (ok : operands line position kinds words = .ok taken)
    (length : words.length = kinds.length) :
    taken.map (·.argument.text) = words.map Word.text ∧ (∀ word ∈ words, word ≠ .header) ∧
      taken.map (·.position) = List.range' position taken.length ∧
        ∀ line', operands line' position kinds words = .ok taken := by
  induction kinds generalizing position words taken with
  | nil =>
      cases List.eq_nil_of_length_eq_zero length
      cases ok
      simp [operands]
  | cons kind kinds ih =>
      cases words with
      | nil => cases length
      | cons word words =>
          rw [operands] at ok
          split at ok
          · cases ok
          · next argument argued =>
            obtain ⟨rest, restOk, eq⟩ := bind_eq_ok_iff.mp ok
            cases eq
            obtain ⟨text, plain⟩ := text_of_argument? argued
            obtain ⟨texts, plains, positions, anyLine⟩ := ih restOk (Nat.succ.inj length)
            refine ⟨?_, List.forall_mem_cons.mpr ⟨plain, plains⟩, ?_, ?_⟩
            · rw [List.map_cons, List.map_cons, text, texts]
            · rw [List.map_cons, positions, List.length_cons, List.range'_succ]
            · intro line'
              rw [operands, argued]
              exact bind_eq_ok_iff.mpr ⟨rest, anyLine line', rfl⟩

theorem recognize_cons_of_none {line : Nat} {first : List Char} {rest : List (List Char)}
    (unknown : Word.ofChars? first = none) :
    (⟨line, first :: rest⟩ : Statement).recognize =
      .error (.invalidOperand line (String.ofList first)) := by
  simp only [Statement.recognize, List.mapM_cons, unknown]
  rfl

theorem recognize_cons_of_some {line : Nat} {first : List Char} {rest : List (List Char)}
    {word : Word} (known : Word.ofChars? first = some word) :
    (⟨line, first :: rest⟩ : Statement).recognize =
      (⟨line, rest⟩ : Statement).recognize.map (word :: ·) := by
  simp only [Statement.recognize, List.mapM_cons, known]
  rfl

/-- A statement is recognised exactly when each of its words is. -/
theorem recognize_eq_ok_iff {line : Nat} {chars : List (List Char)} {words : List Word} :
    (⟨line, chars⟩ : Statement).recognize = .ok words ↔
      chars.map Word.ofChars? = words.map some := by
  induction chars generalizing words with
  | nil =>
      have empty : (⟨line, []⟩ : Statement).recognize = .ok [] := rfl
      rw [empty]
      cases words with
      | nil => simp
      | cons word words => simp
  | cons first rest ih =>
      cases recognized : Word.ofChars? first with
      | none =>
          rw [recognize_cons_of_none recognized, List.map_cons, recognized]
          cases words with
          | nil => simp
          | cons word words => simp
      | some word =>
          rw [recognize_cons_of_some recognized, List.map_cons, recognized]
          constructor
          · intro ok
            cases others : (⟨line, rest⟩ : Statement).recognize with
            | error e =>
                rw [others] at ok
                cases ok
            | ok found =>
                rw [others] at ok
                cases ok
                rw [List.map_cons, ih.mp others]
          · intro same
            cases words with
            | nil => cases same
            | cons word' words =>
                obtain ⟨eq, others⟩ := List.cons.inj same
                cases eq
                rw [ih.mpr others]
                rfl

/-- Recognised words that are not the header have the texts that they were recognised from. -/
theorem map_text_of_recognized {chars : List (List Char)} {words : List Word}
    (recognized : chars.map Word.ofChars? = words.map some)
    (plain : ∀ word ∈ words, word ≠ .header) :
    words.map (·.text.toList) = chars := by
  induction chars generalizing words with
  | nil =>
      cases words with
      | nil => rfl
      | cons word words => cases recognized
  | cons first rest ih =>
      cases words with
      | nil => cases recognized
      | cons word words =>
          obtain ⟨here, later⟩ := List.cons.inj recognized
          obtain ⟨plainHere, plainLater⟩ := List.forall_mem_cons.mp plain
          rw [List.map_cons, Word.text_of_ofChars? here plainHere, ih later plainLater]

theorem ofChars?_mnemonic (op : Opcode) :
    Word.ofChars? op.mnemonic.toList = some (.bare op.mnemonic.toList) := by
  have all : ∀ op ∈ Opcode.all,
      Word.ofChars? op.mnemonic.toList = some (.bare op.mnemonic.toList) := by
    decide +kernel
  exact all op op.mem_all

/-- Words make an instruction when the first is a mnemonic and the others are its operands. -/
theorem instruction_eq_ok_iff {line order : Nat} {words : List Word} {instr : Instruction} :
    instruction line order words = .ok instr ↔
      ∃ first rest, words = first :: rest ∧ opcode? first = some instr.opcode ∧
        rest.length = instr.opcode.arity ∧ instr.order = order ∧
          operands line 1 instr.opcode.signature rest = .ok instr.operands := by
  constructor
  · intro ok
    cases words with
    | nil => cases ok
    | cons first rest =>
        rw [instruction] at ok
        split at ok
        · cases ok
        · next opcode named =>
          split at ok
          · next length =>
            obtain ⟨taken, operandsOk, eq⟩ := bind_eq_ok_iff.mp ok
            cases eq
            exact ⟨first, rest, rfl, named, length, rfl, operandsOk⟩
          · cases ok
  · rintro ⟨first, rest, rfl, named, length, rfl, operandsOk⟩
    simp only [instruction, named, length, if_true]
    exact bind_eq_ok_iff.mpr ⟨instr.operands, operandsOk, rfl⟩

/-- Reading a statement again with the mnemonic in its own spelling gives the same instruction. -/
theorem instruction_eq_ok {line order : Nat} {words : List Word} {instr : Instruction}
    (ok : instruction line order words = .ok instr) :
    ∃ first rest, words = first :: rest ∧ (∀ word ∈ rest, word ≠ .header) ∧
      instr.operands.map (·.argument.text) = rest.map Word.text ∧
        instr.order = order ∧ instr.Numbered ∧
          ∀ line', instruction line' order (.bare instr.opcode.mnemonic.toList :: rest) =
            .ok instr := by
  obtain ⟨first, rest, rfl, -, length, ordered, operandsOk⟩ := instruction_eq_ok_iff.mp ok
  obtain ⟨texts, plain, positions, anyLine⟩ := operands_eq_ok operandsOk length
  refine ⟨first, rest, rfl, plain, texts, ordered, positions, ?_⟩
  intro line'
  have again : opcode? (.bare instr.opcode.mnemonic.toList) = some instr.opcode := by
    rw [opcode?, String.ofList_toList, Opcode.ofMnemonic?_mnemonic]
  exact instruction_eq_ok_iff.mpr ⟨_, rest, rfl, again, length, ordered, anyLine line'⟩

/-- An instruction is read again from the words that it is written with. Apart from the mnemonic
they are the words of the statement that it was read from. -/
theorem toInstruction_words {statement : Statement} {order : Nat} {instr : Instruction}
    (ok : statement.toInstruction order = .ok instr) :
    (∀ line', (⟨line', instr.words⟩ : Statement).toInstruction order = .ok instr) ∧
      (∀ word ∈ instr.operands.map (·.argument.text.toList), word ∈ statement.words) ∧
        instr.order = order ∧ instr.Numbered := by
  obtain ⟨line, chars⟩ := statement
  obtain ⟨words, recognizes, made⟩ := bind_eq_ok_iff.mp ok
  obtain ⟨first, rest, rfl, plain, texts, ordered, numbered, anyLine⟩ := instruction_eq_ok made
  have recognized := recognize_eq_ok_iff.mp recognizes
  cases chars with
  | nil => cases recognized
  | cons firstChars restChars =>
      obtain ⟨-, later⟩ := List.cons.inj recognized
      have kept : instr.operands.map (·.argument.text.toList) = restChars := by
        have listed := congrArg (List.map String.toList) texts
        rw [List.map_map, List.map_map] at listed
        exact listed.trans (map_text_of_recognized later plain)
      refine ⟨fun line' => ?_, ?_, ordered, numbered⟩
      · refine bind_eq_ok_iff.mpr ⟨_, recognize_eq_ok_iff.mpr ?_, anyLine line'⟩
        rw [Instruction.words, kept, List.map_cons, List.map_cons, later, ofChars?_mnemonic]
      · rw [kept]
        exact fun word mem => List.mem_cons_of_mem _ mem

end Source

end FrameCode
