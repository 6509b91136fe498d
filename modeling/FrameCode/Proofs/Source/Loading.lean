import FrameCode.Proofs.Source.RoundTrip

/-!
How a text is loaded, step by step: lines have statements, statements are read as instructions, and
these make up a program. Each step fails in the first place that is wrong, whatever follows
(`instructionsFrom_eq_error`, `body_append_of_error`), and the last one never fails, so a text fails
to be loaded exactly when its statements cannot be read (`load_eq_error_iff`).
-/

namespace FrameCode.Source

/-! ### Statements -/

/-- A statement is a line with words on it. -/
theorem of_mem_statementsFrom {line : Nat} {lines : List (List Char)} {statement : Statement}
    (mem : statement ∈ statementsFrom line lines) :
    ∃ k chars, lines[k]? = some chars ∧ statement = ⟨line + k, lineWords chars⟩ ∧
      lineWords chars ≠ [] := by
  induction lines generalizing line with
  | nil => cases mem
  | cons chars rest ih =>
      have later : statement ∈ statementsFrom (line + 1) rest →
          ∃ k chars', (chars :: rest)[k]? = some chars' ∧
            statement = ⟨line + k, lineWords chars'⟩ ∧ lineWords chars' ≠ [] := by
        intro mem
        obtain ⟨k, chars', at_k, eq, nonempty⟩ := ih mem
        refine ⟨k + 1, chars', at_k, ?_, nonempty⟩
        rw [eq, Nat.add_assoc, Nat.add_comm 1 k]
      rw [statementsFrom] at mem
      split at mem
      · exact later mem
      · next words nonempty =>
        rcases List.mem_cons.mp mem with rfl | mem
        · exact ⟨0, chars, rfl, rfl, nonempty⟩
        · exact later mem

theorem statementsFrom_eq_nil_iff {line : Nat} {lines : List (List Char)} :
    statementsFrom line lines = [] ↔ ∀ chars ∈ lines, lineWords chars = [] := by
  induction lines generalizing line with
  | nil => simp [statementsFrom]
  | cons chars rest ih =>
      rw [statementsFrom, List.forall_mem_cons]
      split
      · next blank => rw [ih, blank, eq_self, true_and]
      · next words nonempty =>
        constructor
        · intro eq
          cases eq
        · intro blank
          exact absurd blank.1 nonempty

theorem statementsFrom_append (line : Nat) (first rest : List (List Char)) :
    statementsFrom line (first ++ rest) =
      statementsFrom line first ++ statementsFrom (line + first.length) rest := by
  induction first generalizing line with
  | nil => rfl
  | cons chars first ih =>
      have later : line + 1 + first.length = line + (chars :: first).length := by
        rw [List.length_cons]
        omega
      rw [List.cons_append, statementsFrom, statementsFrom, ih, later]
      cases lineWords chars with
      | nil => rfl
      | cons word words => rfl

/-! ### Instructions -/

theorem instructionsFrom_append (order : Nat) (first rest : List Statement) :
    instructionsFrom order (first ++ rest) = (do
      let earlier ← instructionsFrom order first
      let later ← instructionsFrom (order + first.length) rest
      return earlier ++ later) := by
  induction first generalizing order with
  | nil =>
      change instructionsFrom order rest = instructionsFrom order rest >>= _
      cases instructionsFrom order rest with
      | ok instrs => rfl
      | error e => rfl
  | cons statement first ih =>
      have later : order + 1 + first.length = order + (statement :: first).length := by
        rw [List.length_cons]
        omega
      rw [List.cons_append, instructionsFrom, instructionsFrom, ih, later]
      cases statement.toInstruction order with
      | error e => rfl
      | ok instr =>
          cases instructionsFrom (order + 1) first with
          | error e => rfl
          | ok instrs =>
              cases instructionsFrom (order + (statement :: first).length) rest with
              | error e => rfl
              | ok others => rfl

/-- Reading statements fails in the first of them that cannot be read. -/
theorem instructionsFrom_eq_error {order : Nat} {statements : List Statement} {e : Error}
    (failed : instructionsFrom order statements = .error e) :
    ∃ earlier statement later instrs, statements = earlier ++ statement :: later ∧
      instructionsFrom order earlier = .ok instrs ∧
        statement.toInstruction (order + earlier.length) = .error e := by
  induction statements generalizing order with
  | nil => cases failed
  | cons statement rest ih =>
      rcases bind_eq_error_iff.mp failed with fails | ⟨instr, made, failed⟩
      · exact ⟨[], statement, rest, [], rfl, rfl, fails⟩
      · rcases bind_eq_error_iff.mp failed with failed | ⟨_, -, returned⟩
        · obtain ⟨earlier, culprit, later, instrs, rfl, read, fails⟩ := ih failed
          refine ⟨statement :: earlier, culprit, later, instr :: instrs, rfl, ?_, ?_⟩
          · exact bind_eq_ok_iff.mpr ⟨instr, made, bind_eq_ok_iff.mpr ⟨instrs, read, rfl⟩⟩
          · rw [List.length_cons, Nat.add_comm earlier.length 1, ← Nat.add_assoc]
            exact fails
        · cases returned

/-! ### Texts -/

/-- The first statement has a word that cannot be recognised, it is the header, or it is something
else; only if it is the header do the others matter. -/
theorem body_cases (first : Statement) :
    (∃ e, first.recognize = .error e ∧ ∀ rest, body (first :: rest) = .error e) ∨
      (first.recognize = .ok [.header] ∧ ∀ rest, body (first :: rest) = instructionsFrom 1 rest) ∨
        ∃ words, first.recognize = .ok words ∧ words ≠ [.header] ∧
          ∀ rest, body (first :: rest) = .error (.missingHeader first.line) := by
  cases recognized : first.recognize with
  | error e =>
      refine .inl ⟨e, rfl, fun rest => ?_⟩
      rw [body, recognized]
      rfl
  | ok words =>
      by_cases headed : words = [.header]
      · subst headed
        refine .inr (.inl ⟨rfl, fun rest => ?_⟩)
        rw [body, recognized]
        rfl
      · refine .inr (.inr ⟨words, rfl, headed, fun rest => ?_⟩)
        rw [body, recognized]
        exact if_neg headed

theorem body_of_header {first : Statement} (headed : first.recognize = .ok [.header])
    (rest : List Statement) : body (first :: rest) = instructionsFrom 1 rest := by
  rw [body, headed]
  rfl

/-- An error that is met in some statement is met whatever follows. -/
theorem body_append_of_error {first : Statement} {rest : List Statement} {e : Error}
    (failed : body (first :: rest) = .error e) (more : List Statement) :
    body (first :: (rest ++ more)) = .error e := by
  obtain ⟨e', -, blocked⟩ | ⟨-, headed⟩ | ⟨_, -, -, missing⟩ := body_cases first
  · rw [blocked] at failed ⊢
    exact failed
  · rw [headed] at failed ⊢
    rw [instructionsFrom_append, failed]
    rfl
  · rw [missing] at failed ⊢
    exact failed

/-- Instructions that are read from a text make up a program. -/
theorem load_of_body_ok {text : String} {instrs : List Instruction}
    (read : body (statementsFrom 1 (Text.lines text.toList)) = .ok instrs) :
    ∃ program, load text = .ok program ∧ program.toList = instrs := by
  obtain ⟨_, _, _, _, instrsRead⟩ := body_eq_ok_iff.mp read
  obtain ⟨program, made, same⟩ := ofInstructions_of_read instrsRead
  refine ⟨program, bind_eq_ok_iff.mpr ⟨instrs, read, ?_⟩, same⟩
  rw [made]
  rfl

/-- So a text that cannot be loaded fails for one of its statements, or for the lack of any. -/
theorem load_eq_error_iff {text : String} {e : Error} :
    load text = .error e ↔ body (statementsFrom 1 (Text.lines text.toList)) = .error e := by
  cases read : body (statementsFrom 1 (Text.lines text.toList)) with
  | error e' =>
      unfold load
      rw [read]
      change (.error e' : Except Error Program) = .error e ↔ _
      simp
  | ok instrs =>
      obtain ⟨program, loaded, -⟩ := load_of_body_ok read
      simp [loaded]

end FrameCode.Source
