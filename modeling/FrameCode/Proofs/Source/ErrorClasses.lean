import FrameCode.Proofs.Source.Relocation

/-!
Which error a text fails with. One would report a missing header before anything else, and the
opcode of a line before its operands (`ReportsInOrder`). But the words of a line are recognised
before it is asked what they are good for, so a word that is not of any known form (`IsLegible`)
comes first of all. `load_error_classes` says which class of error each text fails with, and in
which texts the order of the reports is the expected one.
-/

namespace FrameCode.Source

/-! ### Forms of words -/

/-- The forms that words have: without an at sign, a variable, or a literal of any content. -/
inductive IsLegible (word : List Char) : Prop where
  | bare (plain : '@' ∉ word)
  | var (tag : FrameTag) (name : List Char) (named : isName name = true)
      (eq : word = tag.name.toList ++ '@' :: name)
  | literal (type : DataType) (content : List Char) (eq : word = type.name.toList ++ '@' :: content)

section Words

variable {word : List Char}

/-- Letter case has nothing to do with at signs. -/
theorem not_mem_of_sameLetters {other : List Char} (same : Text.sameLetters word other = true)
    (plain : '@' ∉ other.map Char.toLower) : '@' ∉ word := by
  intro mem
  have lower : '@'.toLower ∈ word.map Char.toLower := List.mem_map_of_mem mem
  rw [eq_of_beq same] at lower
  exact plain lower

theorem dropWhile_eq_nil_of_not_mem (plain : '@' ∉ word) : word.dropWhile (· != '@') = [] := by
  rw [List.dropWhile_eq_nil_iff]
  intro c mem
  simpa using ne_of_mem_of_not_mem mem plain

/-- Without an at sign a word is bare, unless it is the header. -/
theorem ofChars?_of_not_mem (plain : '@' ∉ word)
    (other : Text.sameLetters word header.toList = false) :
    Word.ofChars? word = some (.bare word) := by
  unfold Word.ofChars?
  rw [other, dropWhile_eq_nil_of_not_mem plain]
  rfl

theorem ofChars?_eq_header_iff :
    Word.ofChars? word = some .header ↔ Text.sameLetters word header.toList = true := by
  unfold Word.ofChars?
  split
  · next same => simp [same]
  · next other =>
    refine iff_of_false (fun recognized => ?_) other
    split at recognized
    · cases recognized
    · dsimp only at recognized
      split at recognized
      · split at recognized <;> cases recognized
      · obtain ⟨_, -, eq⟩ := Option.map_eq_some_iff.mp recognized
        cases eq

/-- A word with an at sign is cut at the first one, and is not the header. -/
theorem cut_at {owner : List Char} (plain : '@' ∉ owner) (content : List Char) :
    Text.sameLetters (owner ++ '@' :: content) header.toList = false ∧
      (owner ++ '@' :: content).takeWhile (· != '@') = owner ∧
        (owner ++ '@' :: content).dropWhile (· != '@') = '@' :: content := by
  have before : ∀ c ∈ owner, (c != '@') = true := by
    intro c mem
    simpa using ne_of_mem_of_not_mem mem plain
  refine ⟨?_, ?_, ?_⟩
  · rw [Bool.eq_false_iff]
    intro same
    exact not_mem_of_sameLetters same (by decide) (by simp)
  · rw [List.takeWhile_append_of_pos before]
    simp
  · rw [List.dropWhile_append_of_pos before]
    simp

theorem ofChars?_variable (tag : FrameTag) {name : List Char} (named : isName name = true) :
    Word.ofChars? (tag.name.toList ++ '@' :: name) =
      some (.variable ⟨tag, String.ofList name⟩) := by
  have plain : '@' ∉ tag.name.toList := by
    cases tag <;> decide
  obtain ⟨other, owner, rest⟩ := cut_at plain name
  simp [Word.ofChars?, other, owner, rest, named]

theorem ofChars?_literal (type : DataType) (content : List Char) :
    Word.ofChars? (type.name.toList ++ '@' :: content) = some (.literal type content) := by
  have plain : '@' ∉ type.name.toList := by
    cases type <;> decide
  have noFrame : FrameTag.ofName? type.name = none := by
    cases type <;> rfl
  obtain ⟨other, owner, rest⟩ := cut_at plain content
  simp [Word.ofChars?, other, owner, rest, noFrame]

theorem IsLegible.ofChars?_isSome (legible : IsLegible word) :
    (Word.ofChars? word).isSome = true := by
  cases legible with
  | bare plain =>
      cases same : Text.sameLetters word header.toList with
      | true => rw [ofChars?_eq_header_iff.mpr same, Option.isSome_some]
      | false => rw [ofChars?_of_not_mem plain same, Option.isSome_some]
  | var tag name named eq => rw [eq, ofChars?_variable tag named, Option.isSome_some]
  | literal type content eq => rw [eq, ofChars?_literal, Option.isSome_some]

/-- What is recognized is legible. -/
theorem isLegible_of_ofChars? {found : Word} (recognized : Word.ofChars? word = some found) :
    IsLegible word := by
  unfold Word.ofChars? at recognized
  split at recognized
  · next same => exact .bare (not_mem_of_sameLetters same (by decide))
  · split at recognized
    · next whole =>
      refine .bare fun mem => ?_
      rw [List.dropWhile_eq_nil_iff] at whole
      simpa using whole '@' mem
    · next content rest =>
      have joined := append_of_dropWhile rest
      dsimp only at recognized
      split at recognized
      · next tag owner =>
        split at recognized
        · next named =>
          refine .var tag content named ?_
          rw [FrameTag.name_of_ofName? owner, String.toList_ofList, joined]
        · cases recognized
      · obtain ⟨type, owner, -⟩ := Option.map_eq_some_iff.mp recognized
        refine .literal type content ?_
        rw [DataType.name_of_ofName? owner, String.toList_ofList, joined]

/-- Words of these forms are the ones that are recognised. -/
theorem ofChars?_isSome_iff : (Word.ofChars? word).isSome = true ↔ IsLegible word := by
  constructor
  · intro isSome
    obtain ⟨_, recognized⟩ := Option.isSome_iff_exists.mp isSome
    exact isLegible_of_ofChars? recognized
  · exact IsLegible.ofChars?_isSome

/-- A mnemonic in any letter case is a bare word. -/
theorem ofChars?_of_ofMnemonic? {opcode : Opcode}
    (named : Opcode.ofMnemonic? (String.ofList word) = some opcode) :
    Word.ofChars? word = some (.bare word) := by
  have table : ∀ op ∈ Opcode.all, '@' ∉ op.mnemonic.toList.map Char.toLower ∧
      op.mnemonic.toList.map Char.toLower ≠ header.toList.map Char.toLower := by
    decide +kernel
  obtain ⟨plain, other⟩ := table opcode opcode.mem_all
  have same : opcode.mnemonic.toList.map Char.toLower = word.map Char.toLower := by
    unfold Opcode.ofMnemonic? at named
    have found := List.find?_some named
    rw [String.toList_ofList] at found
    exact eq_of_beq found
  apply ofChars?_of_not_mem
  · exact not_mem_of_sameLetters (beq_iff_eq.mpr same.symm) plain
  · rw [Bool.eq_false_iff]
    intro headed
    exact other (same.trans (eq_of_beq headed))

/-- What a recognised word selects can be read off its characters. -/
theorem opcode?_of_ofChars? {found : Word} (recognized : Word.ofChars? word = some found) :
    opcode? found = Opcode.ofMnemonic? (String.ofList word) := by
  cases named : Opcode.ofMnemonic? (String.ofList word) with
  | some opcode =>
      rw [ofChars?_of_ofMnemonic? named] at recognized
      cases recognized
      exact named
  | none =>
      cases found with
      | bare text =>
          have same := Word.text_of_ofChars? recognized nofun
          rw [Word.text, String.toList_ofList] at same
          rw [opcode?, same, named]
      | _ => rfl

end Words

instance : DecidablePred IsLegible := fun _ => decidable_of_iff _ ofChars?_isSome_iff

/-! ### Kinds of errors -/

/-- Errors that a line can be refused with, in the order in which one would look for them. -/
inductive Error.Kind where
  | header
  | opcode
  | operands
deriving DecidableEq, Repr

def Error.Kind.exitCode : Error.Kind → Nat
  | .header => 21
  | .opcode => 22
  | .operands => 23

def Error.kind? : Error → Option Error.Kind
  | .missingHeader _ => some .header
  | .unknownOpcode _ _ => some .opcode
  | .invalidOperand _ _ => some .operands
  | .operandCount _ _ _ _ => some .operands
  | .program _ => none

theorem Error.exitCode_of_kind? {e : Error} {kind : Error.Kind} (known : e.kind? = some kind) :
    e.exitCode = kind.exitCode := by
  cases e <;> cases known <;> rfl

def FailsAs (kind : Error.Kind) {α : Type} (x : Except Error α) : Prop :=
  Ensures (fun _ => True) (fun e => e.kind? = some kind) x

theorem RefusesWord.failsAs {α : Type} {line : Nat} {x : Except Error α}
    (refuses : RefusesWord line x) : FailsAs .operands x := by
  refine Ensures.mono refuses (fun _ done => done) ?_
  rintro _ ⟨word, rfl⟩
  rfl

/-- A line is refused for its operands if its opcode is known, and else for the opcode. -/
theorem instruction_failsAs (line order : Nat) (words : List Word) :
    FailsAs (if (words.head?.bind opcode?).isSome then .operands else .opcode)
      (instruction line order words) := by
  cases words with
  | nil => exact rfl
  | cons first rest =>
      rw [instruction, List.head?_cons, Option.bind_some]
      cases opcode? first with
      | none => exact rfl
      | some opcode =>
          rw [Option.isSome_some, if_pos rfl]
          dsimp only
          split
          · exact (operands_refusesWord _ _ _ _).failsAs.bind fun _ _ => True.intro
          · exact rfl

/-! ### What stands in a statement -/

namespace Statement

def IsLegible (statement : Statement) : Prop :=
  ∀ word ∈ statement.words, Source.IsLegible word

instance : DecidablePred IsLegible := fun statement =>
  inferInstanceAs (Decidable (∀ word ∈ statement.words, Source.IsLegible word))

def isHeader (statement : Statement) : Bool :=
  match statement.words with
  | [word] => Text.sameLetters word header.toList
  | _ => false

def firstOpcode? (statement : Statement) : Option Opcode :=
  statement.words.head?.bind fun word => Opcode.ofMnemonic? (String.ofList word)

/-- Whether the statement can be read as an instruction, which does not depend on its place. -/
def isLoadable (statement : Statement) : Bool :=
  (statement.toInstruction 0).isOk

def expectedKind (headed : Bool) (statement : Statement) : Error.Kind :=
  if headed then if statement.firstOpcode?.isSome then .operands else .opcode
  else .header

/-- The kind of error that is reported: a word that is not legible counts as an operand, wherever
it stands. -/
def reportedKind (headed : Bool) (statement : Statement) : Error.Kind :=
  if statement.IsLegible then statement.expectedKind headed else .operands

variable {statement : Statement}

theorem isLegible_iff : statement.IsLegible ↔ ∃ words, statement.recognize = .ok words := by
  obtain ⟨line, chars⟩ := statement
  simp only [recognize_eq_ok_iff]
  change (∀ word ∈ chars, Source.IsLegible word) ↔ _
  induction chars with
  | nil => exact iff_of_true (by simp) ⟨[], rfl⟩
  | cons first rest ih =>
      rw [List.forall_mem_cons, ih, ← ofChars?_isSome_iff, Option.isSome_iff_exists]
      constructor
      · rintro ⟨⟨word, here⟩, words, later⟩
        exact ⟨word :: words, by rw [List.map_cons, List.map_cons, here, later]⟩
      · rintro ⟨words, all⟩
        cases words with
        | nil => cases all
        | cons word words =>
            obtain ⟨here, later⟩ := List.cons.inj all
            exact ⟨⟨word, here⟩, words, later⟩

theorem recognize_eq_header_iff : statement.recognize = .ok [.header] ↔ statement.isHeader := by
  obtain ⟨line, chars⟩ := statement
  rw [recognize_eq_ok_iff, isHeader]
  rcases chars with _ | ⟨first, _ | ⟨second, rest⟩⟩
  · simp
  · simp [ofChars?_eq_header_iff]
  · simp

theorem head?_bind_opcode? {words : List Word} (recognized : statement.recognize = .ok words) :
    words.head?.bind opcode? = statement.firstOpcode? := by
  obtain ⟨line, chars⟩ := statement
  have same := recognize_eq_ok_iff.mp recognized
  cases chars with
  | nil =>
      cases words with
      | nil => rfl
      | cons _ _ => cases same
  | cons first rest =>
      cases words with
      | nil => cases same
      | cons word words => exact opcode?_of_ofChars? (List.cons.inj same).1

/-- A word that is not recognized is reported as an operand. -/
theorem kind?_of_recognize {e : Error} {headed : Bool} (failed : statement.recognize = .error e) :
    e.kind? = some (statement.reportedKind headed) := by
  have illegible : ¬ statement.IsLegible := by
    rw [isLegible_iff]
    rintro ⟨words, recognized⟩
    rw [failed] at recognized
    cases recognized
  rw [reportedKind, if_neg illegible]
  exact (recognize_refusesWord statement).failsAs.error failed

theorem kind?_of_toInstruction {order : Nat} {e : Error}
    (failed : statement.toInstruction order = .error e) :
    e.kind? = some (statement.reportedKind true) := by
  rcases bind_eq_error_iff.mp failed with failed | ⟨words, recognized, failed⟩
  · exact kind?_of_recognize failed
  · have kind := (instruction_failsAs statement.line order words).error failed
    rw [head?_bind_opcode? recognized] at kind
    rw [reportedKind, if_pos (isLegible_iff.mpr ⟨words, recognized⟩)]
    exact kind

/-- Whether a statement can be read does not depend on its place. -/
theorem isLoadable_iff {order : Nat} :
    statement.isLoadable = true ↔ ∃ instr, statement.toInstruction order = .ok instr := by
  have moved := toInstruction_moved id statement order 0
  change statement.toInstruction order = _ at moved
  rw [moved, isLoadable]
  cases statement.toInstruction 0 with
  | ok instr => exact iff_of_true rfl ⟨_, rfl⟩
  | error e => exact iff_of_false nofun nofun

/-- The two kinds differ where an illegible word hides something worse. -/
theorem reportedKind_eq_expectedKind_iff {headed : Bool} :
    statement.reportedKind headed = statement.expectedKind headed ↔
      statement.IsLegible ∨ (headed = true ∧ statement.firstOpcode?.isSome = true) := by
  unfold reportedKind
  split
  · next legible => exact iff_of_true rfl (.inl legible)
  · next illegible =>
    rw [or_iff_right illegible, expectedKind]
    cases headed <;> cases statement.firstOpcode?.isSome <;> simp

end Statement

/-! ### Which statement decides -/

def statementsOf (text : String) : List Statement :=
  statementsFrom 1 (Text.lines text.toList)

def isHeaded : List Statement → Bool
  | [] => false
  | first :: _ => first.isHeader

/-- The statement that a text is refused for: the first one unless it is the header, or else the
first of the others that cannot be read. -/
def culprit? : List Statement → Option Statement
  | [] => none
  | first :: rest => if first.isHeader then rest.find? (!·.isLoadable) else some first

theorem instructionsFrom_of_loadable {statements : List Statement} (order : Nat)
    (loadable : ∀ statement ∈ statements, statement.isLoadable = true) :
    ∃ instrs, instructionsFrom order statements = .ok instrs := by
  induction statements generalizing order with
  | nil => exact ⟨[], rfl⟩
  | cons statement rest ih =>
      rw [List.forall_mem_cons] at loadable
      obtain ⟨instr, made⟩ := Statement.isLoadable_iff.mp loadable.1
      obtain ⟨instrs, read⟩ := ih (order + 1) loadable.2
      refine ⟨instr :: instrs, bind_eq_ok_iff.mpr ⟨instr, made, ?_⟩⟩
      exact bind_eq_ok_iff.mpr ⟨instrs, read, rfl⟩

/-- The first statement that cannot be read decides the error. -/
theorem instructionsFrom_of_find? {statements : List Statement} {culprit : Statement} (order : Nat)
    (found : statements.find? (!·.isLoadable) = some culprit) :
    ∃ e order', instructionsFrom order statements = .error e ∧
      culprit.toInstruction order' = .error e := by
  obtain ⟨unloadable, earlier, later, rfl, loadable⟩ := List.find?_eq_some_iff_append.mp found
  simp only [Bool.not_not, Bool.not_eq_true'] at unloadable loadable
  obtain ⟨instrs, read⟩ := instructionsFrom_of_loadable order loadable
  cases made : culprit.toInstruction (order + earlier.length) with
  | ok instr =>
      rw [Statement.isLoadable_iff.mpr ⟨instr, made⟩] at unloadable
      cases unloadable
  | error e =>
      refine ⟨e, _, ?_, made⟩
      rw [instructionsFrom_append, read, instructionsFrom, made]
      rfl

/-- Where no statement is to blame, the text is loaded. -/
theorem body_of_culprit?_eq_none {first : Statement} {rest : List Statement}
    (innocent : culprit? (first :: rest) = none) : ∃ instrs, body (first :: rest) = .ok instrs := by
  rw [culprit?] at innocent
  split at innocent
  · next headed =>
    rw [body_of_header (Statement.recognize_eq_header_iff.mpr headed)]
    apply instructionsFrom_of_loadable
    simpa using innocent
  · cases innocent

/-- Whatever is wrong, the error is met in the statement that decides. -/
theorem body_of_culprit? {statements : List Statement} {culprit : Statement}
    (found : culprit? statements = some culprit) :
    ∃ e, body statements = .error e ∧ e.line? = some culprit.line ∧
      e.kind? = some (culprit.reportedKind (isHeaded statements)) := by
  cases statements with
  | nil => cases found
  | cons first rest =>
      rw [culprit?] at found
      rw [isHeaded]
      split at found
      · next headed =>
        obtain ⟨e, order, failed, made⟩ := instructionsFrom_of_find? 1 found
        rw [body_of_header (Statement.recognize_eq_header_iff.mpr headed), headed]
        exact ⟨e, failed, line?_of_toInstruction made, Statement.kind?_of_toInstruction made⟩
      · next other =>
        obtain rfl := Option.some.inj found
        obtain ⟨e, failed, blocked⟩ | ⟨header, -⟩ | ⟨words, recognized, -, missing⟩ :=
          body_cases first
        · exact ⟨e, blocked rest, line?_of_recognize failed, Statement.kind?_of_recognize failed⟩
        · exact absurd (Statement.recognize_eq_header_iff.mp header) other
        · refine ⟨_, missing rest, rfl, ?_⟩
          rw [Statement.reportedKind, if_pos (Statement.isLegible_iff.mpr ⟨words, recognized⟩),
            Statement.expectedKind, if_neg other]
          rfl

/-! ### Texts -/

/-- The text is refused for what stands in the line, with an error of the kind. -/
def RefusedFor (text : String) (line : Nat) (kind : Error.Kind) : Prop :=
  ∃ e, load text = .error e ∧ e.line? = some line ∧ e.kind? = some kind ∧
    e.exitCode = kind.exitCode

/-- Errors are reported in the order in which one would look for them: the header if it is missing,
and else, of the first line that cannot be read, the opcode if it is unknown and else an operand. -/
structure ReportsInOrder (text : String) : Prop where
  header : isHeaded (statementsOf text) = false → ∃ line, load text = .error (.missingHeader line)
  line : isHeaded (statementsOf text) = true → ∀ statement,
    culprit? (statementsOf text) = some statement →
      RefusedFor text statement.line
        (if statement.firstOpcode?.isSome then .operands else .opcode)

/-- What becomes of a text, and with which error it is refused. -/
structure Classified (text : String) : Prop where
  blank : statementsOf text = [] → load text = .error (.missingHeader 1)
  loaded : statementsOf text ≠ [] → culprit? (statementsOf text) = none →
    ∃ program, load text = .ok program
  refused : ∀ statement, culprit? (statementsOf text) = some statement →
    RefusedFor text statement.line (statement.reportedKind (isHeaded (statementsOf text)))

theorem classified (text : String) : Classified text := by
  refine ⟨?_, ?_, ?_⟩
  · intro blank
    apply load_eq_error_iff.mpr
    change body (statementsOf text) = _
    rw [blank, body]
  · intro nonempty innocent
    obtain ⟨first, rest, eq⟩ := List.exists_cons_of_ne_nil nonempty
    rw [eq] at innocent
    obtain ⟨instrs, read⟩ := body_of_culprit?_eq_none innocent
    rw [← eq] at read
    obtain ⟨program, loaded, -⟩ := load_of_body_ok read
    exact ⟨program, loaded⟩
  · intro statement found
    obtain ⟨e, failed, line, kind⟩ := body_of_culprit? found
    exact ⟨e, load_eq_error_iff.mpr failed, line, kind, Error.exitCode_of_kind? kind⟩

/-- A text is refused for one reason. -/
theorem RefusedFor.kind_eq {text : String} {line line' : Nat} {kind kind' : Error.Kind}
    (refused : RefusedFor text line kind) (refused' : RefusedFor text line' kind') :
    kind = kind' := by
  obtain ⟨e, failed, -, known, -⟩ := refused
  obtain ⟨e', failed', -, known', -⟩ := refused'
  rw [failed] at failed'
  cases failed'
  rw [known] at known'
  exact Option.some.inj known'

theorem refusedFor_header_iff {text : String} {line : Nat} :
    RefusedFor text line .header ↔ load text = .error (.missingHeader line) := by
  constructor
  · rintro ⟨e, failed, named, known, -⟩
    cases e with
    | missingHeader _ =>
        cases named
        exact failed
    | unknownOpcode _ _ | invalidOperand _ _ | operandCount _ _ _ _ | program _ => cases known
  · exact fun failed => ⟨_, failed, rfl, rfl, rfl⟩

theorem exists_culprit_of_not_headed {statements : List Statement}
    (other : isHeaded statements = false) :
    statements = [] ∨ ∃ statement, culprit? statements = some statement := by
  cases statements with
  | nil => exact .inl rfl
  | cons first rest =>
      rw [isHeaded] at other
      exact .inr ⟨first, by rw [culprit?, other]; rfl⟩

/-- Every text has its class. The order of the reports is the expected one unless the statement that
decides has an illegible word and, besides, no header before it or no opcode in front. -/
theorem load_error_classes (text : String) :
    Classified text ∧
      (ReportsInOrder text ↔ ∀ statement, culprit? (statementsOf text) = some statement →
        statement.IsLegible ∨
          (isHeaded (statementsOf text) = true ∧ statement.firstOpcode?.isSome = true)) := by
  have classes := classified text
  refine ⟨classes, ?_, ?_⟩
  · intro inOrder statement found
    have reported := classes.refused statement found
    apply Statement.reportedKind_eq_expectedKind_iff.mp
    cases headed : isHeaded (statementsOf text) with
    | true =>
        rw [headed] at reported
        exact reported.kind_eq (inOrder.line headed statement found)
    | false =>
        rw [headed] at reported
        obtain ⟨line, missing⟩ := inOrder.header headed
        exact reported.kind_eq (refusedFor_header_iff.mpr missing)
  · intro legible
    have expected : ∀ statement, culprit? (statementsOf text) = some statement →
        RefusedFor text statement.line
          (statement.expectedKind (isHeaded (statementsOf text))) := by
      intro statement found
      rw [← Statement.reportedKind_eq_expectedKind_iff.mpr (legible statement found)]
      exact classes.refused statement found
    constructor
    · intro other
      rcases exists_culprit_of_not_headed other with blank | ⟨statement, found⟩
      · exact ⟨1, classes.blank blank⟩
      · have refused := expected statement found
        rw [other] at refused
        exact ⟨statement.line, refusedFor_header_iff.mp refused⟩
    · intro headed statement found
      have refused := expected statement found
      rw [headed] at refused
      exact refused

/-- An illegible operand hides that there is no header, and that the opcode is unknown. -/
theorem illegible_operand_hides :
    ¬ ReportsInOrder "WRITE XF@x\n" ∧ ¬ ReportsInOrder ".IPPcode22\nFOO XF@x\n" := by
  constructor
  · intro inOrder
    obtain ⟨line, missing⟩ := inOrder.header (by decide +kernel)
    have failed : load "WRITE XF@x\n" = .error (.invalidOperand 1 "XF@x") := by
      decide +kernel
    rw [failed] at missing
    cases missing
  · intro inOrder
    obtain ⟨e, refused, -, known, -⟩ := inOrder.line (by decide +kernel)
      ⟨2, ["FOO".toList, "XF@x".toList]⟩ (by decide +kernel)
    have failed : load ".IPPcode22\nFOO XF@x\n" = .error (.invalidOperand 2 "XF@x") := by
      decide +kernel
    rw [failed] at refused
    cases refused
    revert known
    decide +kernel

end FrameCode.Source
