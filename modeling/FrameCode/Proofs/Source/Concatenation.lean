import FrameCode.Proofs.Source.Relocation

/-!
Texts that are put together from lines. Neither a carriage return at the end of a line nor an empty
line at the end of the text makes a difference to the statements (`statementsFrom_lines_joined`), so
the statements of two rows of lines are those of the first and those of the second, moved. Lines
that follow a text which can be loaded are read as they are behind a bare header, and lines that
follow a text which cannot are not read (`load_joined_append`).
-/

namespace FrameCode.Source

/-! ### Lines -/

def IsBlank (line : String) : Prop :=
  lineWords line.toList = []

instance (line : String) : Decidable (IsBlank line) :=
  inferInstanceAs (Decidable (_ = _))

def joined (lines : List String) : String :=
  "\n".intercalate lines

def statementsIn (lines : List String) : List Statement :=
  statementsFrom 1 (lines.map (·.toList))

/-- A carriage return at the end of a line makes no difference to its words: it is white space, or
part of a comment. -/
theorem lineWords_dropReturn (line : List Char) :
    lineWords (Text.dropReturn line) = lineWords line := by
  unfold Text.dropReturn
  split
  · next last =>
    obtain ⟨init, rfl⟩ := List.getLast?_eq_some_iff.mp last
    rw [List.dropLast_concat, lineWords, lineWords, List.takeWhile_append]
    split
    · next whole =>
      have white : Text.isWhite '\r' = true := by decide
      have kept : init.takeWhile (· != '#') = init :=
        List.IsPrefix.eq_of_length (List.takeWhile_prefix _) whole
      change _ = Text.words (init ++ '\r' :: [])
      rw [kept, Text.words_append_white white]
      exact (List.append_nil _).symm
    · rfl
  · rfl

/-- Nor does an empty piece behind the last line feed. -/
theorem statementsFrom_endLines (line : Nat) (pieces : List (List Char)) :
    statementsFrom line (Text.endLines pieces) = statementsFrom line pieces := by
  fun_induction Text.endLines pieces generalizing line with
  | case1 => rfl
  | case2 last empty =>
      rw [List.isEmpty_iff.mp empty]
      rfl
  | case3 last full => rfl
  | case4 piece rest _ ih => rw [statementsFrom, statementsFrom, lineWords_dropReturn, ih]

theorem statementsFrom_lines_joined {lines : List String}
    (plain : ∀ line ∈ lines, '\n' ∉ line.toList) :
    statementsFrom 1 (Text.lines (joined lines).toList) = statementsIn lines := by
  cases lines with
  | nil => rfl
  | cons first rest =>
      have feedless : ∀ chars ∈ (first :: rest).map (·.toList), '\n' ∉ chars := by
        intro chars mem
        obtain ⟨line, inLines, rfl⟩ := List.mem_map.mp mem
        exact plain line inLines
      rw [joined, String.toList_intercalate, Text.lines, statementsFrom_endLines, statementsIn]
      exact congrArg (statementsFrom 1) (List.splitOn_intercalate '\n' feedless (by simp))

section Joined

variable {before after : List String}

theorem statementsIn_append :
    statementsIn (before ++ after) =
      statementsIn before ++ statementsFrom (1 + before.length) (after.map (·.toList)) := by
  rw [statementsIn, List.map_append, statementsFrom_append, List.length_map, statementsIn]

theorem body_header :
    body (statementsIn (header :: after)) =
      instructionsFrom 1 (statementsFrom 2 (after.map (·.toList))) := by
  have words : lineWords header.toList = [header.toList] := by decide
  rw [statementsIn, List.map_cons, statementsFrom, words]
  exact body_of_header rfl _

/-- What is read behind a bare header is moved as a whole when other lines take its place. -/
theorem body_append {first : Statement} {rest : List Statement} {instrs : List Instruction}
    (statements : statementsIn before = first :: rest) (headed : first.recognize = .ok [.header])
    (read : instructionsFrom 1 rest = .ok instrs) :
    body (statementsIn (before ++ after)) =
      relocate (· - 1 + before.length) (instrs ++ ·.map (Instruction.shifted instrs.length))
        (body (statementsIn (header :: after))) := by
  have count : rest.length = instrs.length := (toInstruction_of_instructionsFrom read).1.symm
  have moves : ∀ k, 2 + k - 1 + before.length = 1 + before.length + k := by omega
  rw [statementsIn_append, statements, List.cons_append, body_of_header headed, body_header,
    instructionsFrom_append, read, count, Nat.add_comm 1 instrs.length,
    statementsFrom_moved (· - 1 + before.length) moves, instructionsFrom_moved]
  cases instructionsFrom 1 (statementsFrom 2 (after.map (·.toList))) with
  | ok later => rfl
  | error e => rfl

/-- Loading the lines stops in one of them, rather than for the lack of any with words on it. -/
def StopsIn (lines : List String) (e : Error) : Prop :=
  load (joined lines) = .error e ∧ ∃ line ∈ lines, ¬ IsBlank line

/-- Such an error names a line with words on it. -/
theorem StopsIn.line? {lines : List String} {e : Error} (stops : StopsIn lines e)
    (plain : ∀ line ∈ lines, '\n' ∉ line.toList) :
    ∃ first rest, statementsIn lines = first :: rest ∧ body (first :: rest) = .error e ∧
      ∃ k line, lines[k]? = some line ∧ ¬ IsBlank line ∧ e.line? = some (k + 1) := by
  obtain ⟨failed, line, mem, words⟩ := stops
  rw [load_eq_error_iff, statementsFrom_lines_joined plain] at failed
  cases statements : statementsIn lines with
  | nil =>
      rw [statementsIn, statementsFrom_eq_nil_iff] at statements
      exact absurd (statements _ (List.mem_map_of_mem mem)) words
  | cons first rest =>
      rw [statements] at failed
      obtain ⟨statement, inText, named⟩ := line?_of_body failed
      rw [← statements] at inText
      obtain ⟨k, chars, at_k, rfl, nonempty⟩ := of_mem_statementsFrom inText
      rw [List.getElem?_map] at at_k
      obtain ⟨line, at_line, rfl⟩ := Option.map_eq_some_iff.mp at_k
      refine ⟨first, rest, rfl, failed, k, line, at_line, nonempty, ?_⟩
      rw [named, Nat.add_comm]

/-- Loading is compositional over lines. Behind lines that can be loaded, further lines are read as
behind a bare header: their instructions follow in order, and an error among them is the same in its
new place. Behind lines in which loading stops, they are not read. -/
theorem load_joined_append (before after : List String)
    (plain : ∀ line ∈ before ++ after, '\n' ∉ line.toList) :
    (∀ p, load (joined before) = .ok p →
      (∀ q, load (joined (header :: after)) = .ok q →
        ∃ r, load (joined (before ++ after)) = .ok r ∧
          r.toList = p.toList ++ q.toList.map (Instruction.shifted p.size)) ∧
      ∀ e, load (joined (header :: after)) = .error e →
        ∃ k, e.line? = some k ∧
          load (joined (before ++ after)) = .error (e.atLine (k - 1 + before.length))) ∧
      ∀ e, StopsIn before e →
        (∃ k line, before[k]? = some line ∧ ¬ IsBlank line ∧ e.line? = some (k + 1)) ∧
          load (joined (before ++ after)) = .error e := by
  obtain ⟨plainBefore, plainAfter⟩ := List.forall_mem_append.mp plain
  have plainHeader : ∀ line ∈ header :: after, '\n' ∉ line.toList :=
    List.forall_mem_cons.mpr ⟨by decide, plainAfter⟩
  refine ⟨fun p loaded => ?_, fun e stops => ?_⟩
  · obtain ⟨first, rest, statements, headed, read⟩ := load_eq_ok_iff.mp loaded
    rw [statementsFrom_lines_joined plainBefore] at statements
    have moved : body (statementsIn (before ++ after)) = _ := body_append statements headed read
    rw [← statementsFrom_lines_joined plain, ← statementsFrom_lines_joined plainHeader] at moved
    refine ⟨fun q loadedAfter => ?_, fun e failed => ?_⟩
    · rw [body_eq_ok_iff.mpr (load_eq_ok_iff.mp loadedAfter)] at moved
      exact load_of_body_ok moved
    · obtain ⟨k, named⟩ := Option.isSome_iff_exists.mp ((load_failsInLine _).error failed)
      rw [load_eq_error_iff.mp failed, relocate, Error.moved_of_line? _ named] at moved
      exact ⟨k, named, load_eq_error_iff.mpr moved⟩
  · obtain ⟨first, rest, statements, failed, named⟩ := stops.line? plainBefore
    refine ⟨named, load_eq_error_iff.mpr ?_⟩
    rw [statementsFrom_lines_joined plain, statementsIn_append, statements, List.cons_append]
    exact body_append_of_error failed _

end Joined

def opening : List String :=
  ["# opening", ".ippCODE22", "", "WRITE int@1\r"]

/-- Instructions behind these lines are numbered from two, and the second of two further lines is
the sixth. An instruction that lacks its operand is reported whatever follows. -/
theorem opening_continued :
    (∃ p q r, load (joined opening) = .ok p ∧
      load (joined [header, "NOP", "break # here"]) = .ok q ∧
      load (joined (opening ++ ["NOP", "break # here"])) = .ok r ∧ p.size = 1 ∧
        r.toList = p.toList ++ q.toList.map (Instruction.shifted 1)) ∧
      load (joined (opening ++ ["", "FOO"])) = .error (.unknownOpcode 6 "FOO") ∧
        load (joined ([header, "WRITE"] ++ ["FOO"])) = .error (.operandCount 2 .write 1 0) := by
  have first : (load (joined opening)).map Program.size = .ok 1 := by decide +kernel
  have second : (load (joined [header, "NOP", "break # here"])).map Program.size = .ok 2 := by
    decide +kernel
  have unknown : load (joined [header, "", "FOO"]) = .error (.unknownOpcode 3 "FOO") := by
    decide +kernel
  have stops : StopsIn [header, "WRITE"] (.operandCount 2 .write 1 0) := by
    constructor
    · decide +kernel
    · exact ⟨"WRITE", by simp, by decide +kernel⟩
  cases loaded : load (joined opening) with
  | error e =>
      rw [loaded] at first
      cases first
  | ok p =>
      have size : p.size = 1 := by
        rw [loaded] at first
        exact Except.ok.inj first
      refine ⟨?_, ?_, ((load_joined_append [header, "WRITE"] ["FOO"] (by decide)).2 _ stops).2⟩
      · cases loadedAfter : load (joined [header, "NOP", "break # here"]) with
        | error e =>
            rw [loadedAfter] at second
            cases second
        | ok q =>
            have both := (load_joined_append opening ["NOP", "break # here"] (by decide)).1 p loaded
            obtain ⟨r, loadedBoth, instrs⟩ := both.1 q loadedAfter
            exact ⟨p, q, r, rfl, rfl, loadedBoth, size, size ▸ instrs⟩
      · have both := (load_joined_append opening ["", "FOO"] (by decide)).1 p loaded
        obtain ⟨k, named, failed⟩ := both.2 _ unknown
        cases named
        exact failed

end FrameCode.Source
