import FrameCode.Proofs.Machine.Rewiring
import FrameCode.Proofs.RepeatedRuns

/-!
How far into its input a run looks. Input is read line by line from the front, so what a run has not
consumed at its end was there all the time (`pending_suffix_of_next`). Reading a line that is ended
by a line feed does not touch what follows it, be it only to find that nothing does. So if a run
reads no other lines, anything can be put in the place of the input that it leaves
(`unread_input_irrelevant`).
-/

namespace FrameCode

open Text (Bytes)

namespace Input

variable {input : Input} {line rest : Bytes}

theorem readLine_of_line (unbroken : lineFeed ∉ line)
    (pending : input.pending = line ++ lineFeed :: rest) :
    input.readLine = (.ok (some (dropReturn line)), { input with pending := rest }) := by
  have other : ∀ byte ∈ line, (byte != lineFeed) = true := by
    intro byte mem
    exact bne_iff_ne.mpr fun eq => unbroken (eq ▸ mem)
  have before : input.pending.takeWhile (· != lineFeed) = line := by
    rw [pending, List.takeWhile_append_of_pos other]
    simp
  have behind : input.pending.dropWhile (· != lineFeed) = lineFeed :: rest := by
    rw [pending, List.dropWhile_append_of_pos other]
    simp
  unfold readLine
  rw [before, behind]

/-- Reading takes away from the front. -/
theorem readLine_suffix (input : Input) : input.readLine.2.pending <:+ input.pending := by
  unfold readLine
  split
  · next feed rest behind =>
    have all : input.pending.dropWhile (· != lineFeed) <:+ input.pending := List.dropWhile_suffix _
    rw [behind] at all
    exact (List.suffix_cons feed rest).trans all
  · split
    · exact List.nil_suffix
    · exact List.nil_suffix

/-- Other input in the place of the rest that the pending input ends with. -/
def replace (rest : Bytes) (other input : Input) : Input :=
  { other with
    pending := input.pending.take (input.pending.length - rest.length) ++ other.pending }

theorem replace_of_append {other : Input} {front : Bytes}
    (pending : input.pending = front ++ rest) :
    replace rest other input = { other with pending := front ++ other.pending } := by
  simp [replace, pending]

/-- Reading a whole line gives the same line whatever follows it. -/
theorem readLine_replace {other : Input}
    (whole : input.pending = line ++ lineFeed :: input.readLine.2.pending)
    (left : rest <:+ input.readLine.2.pending) :
    (replace rest other input).readLine =
      (input.readLine.1, replace rest other input.readLine.2) := by
  have feed : lineFeed ∈ input.pending := by
    rw [whole]
    simp
  obtain ⟨first, behind, pending, unbroken⟩ := List.eq_append_cons_of_mem feed
  rw [readLine_of_line unbroken pending] at left ⊢
  obtain ⟨between, rfl⟩ := left
  have front : input.pending = (first ++ lineFeed :: between) ++ rest := by
    rw [pending]
    simp
  have replaced : (replace rest other input).pending =
      first ++ lineFeed :: (between ++ other.pending) := by
    rw [replace_of_append front]
    simp
  rw [readLine_of_line unbroken replaced, replace_of_append front]
  exact congrArg (Prod.mk _) (replace_of_append rfl).symm

end Input

namespace Machine

variable {x : Machine} {instr : Instruction} {index fuel : Nat}
  {outcome : Outcome RuntimeError}

/-! ### What a run leaves of its input -/

theorem input_of_step_read (found : x.program.get? index = some instr)
    (opcode : instr.opcode = .read) {type : DataType} (asks : instr.inputType = .ok type) :
    (x.step index).machine.input = x.input.readLine.2 := by
  rw [(step_channels found).1]
  simp only [Instruction.perform, opcode, Opcode.action, Action.perform, asks, evaluate_ok]
  exact readInto_input type

theorem pending_suffix_of_step (x : Machine) (index : Nat) :
    (x.step index).machine.input.pending <:+ x.input.pending := by
  cases found : x.program.get? index with
  | none =>
      simp only [step, found]
      exact List.suffix_refl _
  | some instr =>
      by_cases opcode : instr.opcode = .read
      · cases asks : instr.inputType with
        | ok type =>
            rw [input_of_step_read found opcode asks]
            exact x.input.readLine_suffix
        | error fault =>
            rw [(step_channels found).1]
            simp only [Instruction.perform, opcode, Opcode.action, Action.perform, asks,
              evaluate_error]
            exact List.suffix_refl _
      · rw [(step_channels found).1, Instruction.perform_input rfl opcode]
        exact List.suffix_refl _

/-- What a run has not consumed at its end is not consumed in any of its steps. -/
theorem pending_suffix_of_next (ended : resume fuel x = .ended outcome) (pc : x.pc = some index) :
    outcome.machine.input.pending <:+ (x.step index).machine.input.pending :=
  resume_chain_next (R := fun x y => y.input.pending <:+ x.input.pending)
    (fun _ => List.suffix_refl _) (fun _ _ _ first next => next.trans first)
    pending_suffix_of_step ended pc

/-! ### Other input in its place -/

/-- Every line that the run of `m` reads is ended by a line feed, and the input is consumed through
it. An instruction whose type is missing or nil fails before it reads. -/
def ReadsWholeLines (m : Machine) : Prop :=
  ∀ n x index instr type, m.stateAt? n = some x → x.pc = some index →
    m.program.get? index = some instr → instr.opcode = .read → instr.inputType = .ok type →
      ∃ line, x.input.pending = line ++ Input.lineFeed :: (x.step index).machine.input.pending

/-- A run depends on no more of its input than it consumes. If a run has ended after consuming `k`
bytes, and every line that it has read was ended by a line feed, then the run on the same `k` bytes
with any other input behind them ends with the same result and leaves the same machine, and the
other input is all there. -/
theorem unread_input_irrelevant (program : Program) (input other : Input)
    (output diagnostics : Sink) (outcome : Outcome RuntimeError) (k : Nat)
    (ended : (fresh program input output diagnostics).Finishes outcome)
    (consumed : input.pending.length = k + outcome.machine.input.pending.length)
    (lines : (fresh program input output diagnostics).ReadsWholeLines) :
    (fresh program { other with pending := input.pending.take k ++ other.pending } output
        diagnostics).Finishes ⟨outcome.result, { outcome.machine with input := other }⟩ := by
  let rest := outcome.machine.input.pending
  let r : Rewiring := ⟨Input.replace rest other, id⟩
  have fits : ∀ n x, (fresh program input output diagnostics).stateAt? n = some x →
      r.FitsNext x := by
    intro n x reached index instr pc found
    obtain ⟨fuel, resumed⟩ := resume_of_finishes ended reached
    refine ⟨fun opcode type asks => ?_, fun _ _ _ => rfl⟩
    have left := pending_suffix_of_next resumed pc
    obtain ⟨line, whole⟩ := lines n x index instr type reached pc
      ((setting_of_stateAt? reached).1 ▸ found) opcode asks
    rw [input_of_step_read found opcode asks] at left whole
    exact Input.readLine_replace whole left
  have start : r.input input =
      { other with pending := input.pending.take k ++ other.pending } := by
    simp only [r, Input.replace, consumed, rest, Nat.add_sub_cancel]
  have finish : r.input outcome.machine.input = other :=
    Input.replace_of_append (List.nil_append rest).symm
  have finishes := r.finishes_apply fits ended
  unfold Outcome.map Rewiring.apply at finishes
  rw [finish] at finishes
  rw [← start]
  exact finishes

def readsThrice : Program where
  instructions :=
    #[.of 1 .defVar [.variable ⟨.global, "x"⟩],
      .of 2 .read [.variable ⟨.global, "x"⟩, .typeName .int],
      .of 3 .read [.variable ⟨.global, "x"⟩, .typeName .string],
      .of 4 .read [.variable ⟨.global, "x"⟩, .typeName .int],
      .of 5 .write [.variable ⟨.global, "x"⟩]]

/-- A line that holds no number and ends with a carriage return, a line that is no text, the number
seven, and the beginning of a fourth line. -/
def mixedLines : Input where
  pending := [113, 13, 10, 255, 10, 55, 10, 56]

/-- The fourth line is not read, so instead of it the input may as well break off. -/
theorem readsThrice_unread :
    ∃ outcome, (fresh readsThrice mixedLines {} {}).Finishes outcome ∧
      outcome.machine.output.written = [55] ∧ outcome.machine.input.pending = [56] ∧
        (fresh readsThrice mixedLines {} {}).ReadsWholeLines ∧
          (fresh readsThrice ⟨[113, 13, 10, 255, 10, 55, 10], some "broken"⟩ {} {}).Finishes
            ⟨outcome.result, { outcome.machine with input := ⟨[], some "broken"⟩ }⟩ := by
  obtain ⟨outcome, ended, written, unread⟩ :
      ∃ outcome, (fresh readsThrice mixedLines {} {}).Finishes outcome ∧
        outcome.machine.output.written = [55] ∧ outcome.machine.input.pending = [56] :=
    ⟨_, ⟨6, rfl⟩, rfl, rfl⟩
  have lines : (fresh readsThrice mixedLines {} {}).ReadsWholeLines := by
    intro n x index instr type reached pc found opcode asks
    have early : n < 6 := by
      refine Nat.lt_of_not_le fun late => ?_
      obtain ⟨d, rfl⟩ := Nat.exists_eq_add_of_le late
      rw [stateAt?_add] at reached
      cases reached
    have cases : n = 1 ∨ n = 2 ∨ n = 3 ∨ n = 0 ∨ n = 4 ∨ n = 5 := by omega
    rcases cases with rfl | rfl | rfl | rfl | rfl | rfl
    · cases reached
      cases pc
      exact ⟨[113, 13], rfl⟩
    · cases reached
      cases pc
      exact ⟨[255], rfl⟩
    · cases reached
      cases pc
      exact ⟨[55], rfl⟩
    -- The first and the last instruction read no line, and after the last there is none.
    all_goals
      cases reached
      cases pc
    all_goals
      cases found
      cases opcode
  refine ⟨outcome, ended, written, unread, lines, ?_⟩
  have consumed : mixedLines.pending.length = 7 + outcome.machine.input.pending.length := by
    rw [unread]
    rfl
  exact unread_input_irrelevant readsThrice mixedLines ⟨[], some "broken"⟩ {} {} outcome 7 ended
    consumed lines

end Machine

end FrameCode
