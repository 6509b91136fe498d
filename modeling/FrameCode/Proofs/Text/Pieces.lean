import FrameCode.Text.Lines
import FrameCode.Text.White

/-!
Cutting a text into words and lines, and putting words and lines together again. Words that are
joined by spaces are found again (`words_intercalate`), and so are lines that are joined by line
feeds (`lines_intercalate`).
-/

namespace FrameCode.Text

/-- What holds of a text without a separator, and of a text that begins with a piece if it holds of
what follows the separator, holds of every text. -/
theorem separated_induction {α : Type} (separator : α) {P : List α → Prop}
    (last : ∀ piece, separator ∉ piece → P piece)
    (next : ∀ piece rest, separator ∉ piece → P rest → P (piece ++ separator :: rest))
    (text : List α) : P text := by
  by_cases separated : separator ∈ text
  · obtain ⟨piece, rest, eq, whole⟩ := List.eq_append_cons_of_mem separated
    rw [eq]
    exact next piece rest whole (separated_induction separator last next rest)
  · exact last text separated
termination_by text.length
decreasing_by
  rw [eq, List.length_append, List.length_cons]
  omega

/-- What lies between two separators comes from the text and has no separator in it. -/
theorem of_mem_splitOnP {α : Type} {p : α → Bool} {text piece : List α}
    (mem : piece ∈ text.splitOnP p) : ∀ c ∈ piece, p c = false ∧ c ∈ text := by
  induction text generalizing piece with
  | nil => simp_all
  | cons first rest ih =>
      rw [List.splitOnP_cons_eq_if_modifyHead] at mem
      intro c inPiece
      by_cases separates : p first
      · rw [if_pos separates] at mem
        rcases List.mem_cons.mp mem with rfl | mem
        · cases inPiece
        · have ⟨inside, inRest⟩ := ih mem c inPiece
          exact ⟨inside, List.mem_cons_of_mem _ inRest⟩
      · rw [if_neg separates] at mem
        obtain ⟨head, others, split⟩ := List.exists_cons_of_ne_nil (List.splitOnP_ne_nil p rest)
        rw [split, List.modifyHead_cons] at mem
        rcases List.mem_cons.mp mem with rfl | mem
        · rcases List.mem_cons.mp inPiece with rfl | inHead
          · exact ⟨Bool.eq_false_iff.mpr separates, List.mem_cons_self⟩
          · have ⟨inside, inRest⟩ := ih (split ▸ List.mem_cons_self) c inHead
            exact ⟨inside, List.mem_cons_of_mem _ inRest⟩
        · have ⟨inside, inRest⟩ := ih (split ▸ List.mem_cons_of_mem _ mem) c inPiece
          exact ⟨inside, List.mem_cons_of_mem _ inRest⟩

/-! ### Words -/

def IsSolid (word : List Char) : Prop :=
  word ≠ [] ∧ ∀ c ∈ word, isWhite c = false

/-- Words hold no white space and nothing that is not in the text. -/
theorem of_mem_words {text word : List Char} (mem : word ∈ words text) :
    IsSolid word ∧ ∀ c ∈ word, c ∈ text := by
  obtain ⟨piece, nonempty⟩ := List.mem_filter.mp mem
  have inside := of_mem_splitOnP piece
  exact ⟨⟨by simpa using nonempty, fun c h => (inside c h).1⟩, fun c h => (inside c h).2⟩

/-- White space separates words. -/
theorem words_append_white {c : Char} (white : isWhite c = true) (before after : List Char) :
    words (before ++ c :: after) = words before ++ words after := by
  unfold words
  rw [List.splitOnP_append_cons before after white, List.filter_append]

theorem words_of_isSolid {word : List Char} (solid : IsSolid word) : words word = [word] := by
  obtain ⟨nonempty, inside⟩ := solid
  rw [words, List.splitOnP_eq_singleton inside]
  simp [nonempty]

/-- Words with blanks between them are found again. -/
theorem words_intercalate {pieces : List (List Char)} (solid : ∀ word ∈ pieces, IsSolid word) :
    words ([' '].intercalate pieces) = pieces := by
  induction pieces with
  | nil => rfl
  | cons first rest ih =>
      obtain ⟨here, later⟩ := List.forall_mem_cons.mp solid
      cases rest with
      | nil => rw [List.intercalate_singleton, words_of_isSolid here]
      | cons second rest =>
          rw [List.intercalate_cons_cons, List.append_assoc, List.singleton_append,
            words_append_white (by decide), words_of_isSolid here, ih later, List.singleton_append]

theorem mem_intercalate {c separator : Char} {pieces : List (List Char)}
    (mem : c ∈ [separator].intercalate pieces) : c = separator ∨ ∃ piece ∈ pieces, c ∈ piece := by
  induction pieces with
  | nil => cases mem
  | cons first rest ih =>
      cases rest with
      | nil =>
          rw [List.intercalate_singleton] at mem
          exact .inr ⟨first, List.mem_cons_self, mem⟩
      | cons second rest =>
          rw [List.intercalate_cons_cons, List.mem_append, List.mem_append,
            List.mem_singleton] at mem
          rcases mem with (inFirst | eq) | inRest
          · exact .inr ⟨first, List.mem_cons_self, inFirst⟩
          · exact .inl eq
          · rcases ih inRest with eq | ⟨piece, later, inPiece⟩
            · exact .inl eq
            · exact .inr ⟨piece, List.mem_cons_of_mem _ later, inPiece⟩

/-! ### Lines -/

theorem dropReturn_of_not_mem {line : List Char} (noReturn : '\r' ∉ line) :
    dropReturn line = line :=
  if_neg fun last => noReturn (List.mem_of_getLast? last)

theorem endLines_cons_cons (piece second : List Char) (rest : List (List Char)) :
    endLines (piece :: second :: rest) = dropReturn piece :: endLines (second :: rest) := rfl

theorem lines_last {line : List Char} (whole : '\n' ∉ line) :
    lines line = if line.isEmpty then [] else [line] := by
  rw [lines, List.splitOn_eq_singleton whole]
  rfl

/-- A line ends before its line feed and one carriage return. -/
theorem lines_line {line : List Char} (whole : '\n' ∉ line) (rest : List Char) :
    lines (line ++ '\n' :: rest) = dropReturn line :: lines rest := by
  obtain ⟨first, others, split⟩ := List.exists_cons_of_ne_nil (List.splitOn_ne_nil '\n' rest)
  rw [lines, lines, List.splitOn_append_cons_self, List.splitOn_eq_singleton whole, split]
  exact endLines_cons_cons line first others

section Joined

variable {pieces : List (List Char)}

/-- Lines that are not empty and have no carriage return stay as they are. -/
theorem endLines_eq_self (full : ∀ line ∈ pieces, line ≠ [] ∧ '\r' ∉ line) :
    endLines pieces = pieces := by
  induction pieces with
  | nil => rfl
  | cons line rest ih =>
      obtain ⟨⟨nonempty, noReturn⟩, later⟩ := List.forall_mem_cons.mp full
      cases rest with
      | nil => simp [endLines, nonempty]
      | cons second rest =>
          rw [endLines_cons_cons, dropReturn_of_not_mem noReturn, ih later]

theorem endLines_append_nil (noReturn : ∀ line ∈ pieces, '\r' ∉ line) :
    endLines (pieces ++ [[]]) = pieces := by
  induction pieces with
  | nil => rfl
  | cons line rest ih =>
      obtain ⟨here, later⟩ := List.forall_mem_cons.mp noReturn
      have others := ih later
      obtain ⟨second, others', split⟩ := List.exists_cons_of_ne_nil
        (List.append_ne_nil_of_right_ne_nil rest (List.cons_ne_nil [] []))
      rw [List.cons_append]
      rw [split] at others ⊢
      rw [endLines_cons_cons, dropReturn_of_not_mem here, others]

/-- Lines that are joined by line feeds are found again. -/
theorem lines_intercalate
    (full : ∀ line ∈ pieces, line ≠ [] ∧ '\n' ∉ line ∧ '\r' ∉ line) :
    lines (['\n'].intercalate pieces) = pieces := by
  cases pieces with
  | nil => rfl
  | cons line rest =>
      rw [lines, List.splitOn_intercalate '\n' (fun line mem => (full line mem).2.1)
        (List.cons_ne_nil line rest)]
      exact endLines_eq_self fun line mem => ⟨(full line mem).1, (full line mem).2.2⟩

/-- The same with a line feed behind the last line. -/
theorem lines_intercalate_append (nonempty : pieces ≠ [])
    (plain : ∀ line ∈ pieces, '\n' ∉ line ∧ '\r' ∉ line) :
    lines (['\n'].intercalate pieces ++ ['\n']) = pieces := by
  rw [lines, List.splitOn_append_cons_self,
    List.splitOn_intercalate '\n' (fun line mem => (plain line mem).1) nonempty, List.splitOn_nil]
  exact endLines_append_nil fun line mem => (plain line mem).2

end Joined

end FrameCode.Text
