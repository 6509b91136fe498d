import FrameCode.Proofs.Machine.Rewiring
import FrameCode.Proofs.RepeatedRuns

/-!
Runs whose output has a limit. A sink that takes so many bytes in all answers as an unlimited one
does until the limit is passed, and then it has taken the first bytes of what was offered. So the
run on it is the run on an unlimited sink as far as the limit allows, and in the instruction that
passes it the run ends (`limited_output_truncates`).
-/

namespace FrameCode

open Text (Bytes)

namespace Sink

variable {sink : Sink} {limit : Nat} {message : String} {chunk : Bytes}

def Unlimited (sink : Sink) : Prop :=
  ∀ taken chunk, sink.refusal? taken chunk = none

/-- A sink of limited size that has taken the same. -/
def within (limit : Nat) (message : String) (sink : Sink) : Sink :=
  { bounded limit message with transcript := sink.transcript }

theorem length_written (sink : Sink) : sink.written.length = sink.transcript.size :=
  sink.transcript.length_bytes

theorem Unlimited.write (unlimited : sink.Unlimited) (chunk : Bytes) :
    (sink.write chunk).2.Unlimited ∧ (sink.write chunk).2.written = sink.written ++ chunk := by
  unfold Sink.write
  cases chunk with
  | nil => exact ⟨unlimited, (List.append_nil _).symm⟩
  | cons byte rest =>
      simp only [List.isEmpty_cons, Bool.false_eq_true, if_false, unlimited _ _]
      exact ⟨unlimited, Transcript.bytes_append _ _⟩

/-- What fits is taken. -/
theorem write_within (unlimited : sink.Unlimited)
    (fits : (sink.written ++ chunk).length ≤ limit) :
    (sink.within limit message).write chunk =
      ((sink.write chunk).1, (sink.write chunk).2.within limit message) := by
  rw [List.length_append, length_written] at fits
  have room : chunk.length ≤ limit - sink.transcript.size := by omega
  unfold Sink.write
  cases chunk with
  | nil => rfl
  | cons byte rest =>
      simp only [List.isEmpty_cons, Bool.false_eq_true, if_false, unlimited _ _, within, bounded,
        room, if_true]

/-- What does not fit is taken as far as it does. -/
theorem write_within_of_lt (message : String) (room : sink.written.length ≤ limit)
    (exceeds : limit < (sink.written ++ chunk).length) :
    ∃ full, (sink.within limit message).write chunk = (.error message, full) ∧
      full.written = (sink.written ++ chunk).take limit := by
  have front : (sink.written ++ chunk).take limit =
      sink.written ++ chunk.take (limit - sink.transcript.size) := by
    rw [List.take_append, List.take_of_length_le room, length_written]
  rw [List.length_append, length_written] at exceeds
  rw [length_written] at room
  have refused : ¬ chunk.length ≤ limit - sink.transcript.size := by omega
  unfold Sink.write
  cases chunk with
  | nil => exact absurd (Nat.zero_le _) refused
  | cons byte rest =>
      simp only [List.isEmpty_cons, Bool.false_eq_true, if_false, within, bounded, refused]
      refine ⟨_, rfl, ?_⟩
      rw [front]
      exact Transcript.bytes_append _ _

end Sink

def Rewiring.limiting (limit : Nat) (message : String) : Rewiring :=
  ⟨id, Sink.within limit message⟩

namespace Machine

variable {m x y z : Machine} {instr : Instruction} {value : Value} {index limit k n : Nat}
  {message : String}

/-! ### What a step writes -/

theorem output_of_step_write (found : x.program.get? index = some instr)
    (opcode : instr.opcode = .write) (source : x.source instr 1 = .ok value) :
    (x.step index).machine.output = (x.output.write (Text.encode value.text)).2 := by
  have source' : (x.poised index).source instr 1 = .ok value := source
  rw [(step_channels found).2]
  simp only [Instruction.perform, opcode, Opcode.action, Action.perform, source', evaluate_ok]
  rfl

/-- A step that does not execute an instruction which writes a value leaves the output alone. -/
theorem output_of_step (silent : ∀ instr value, x.program.get? index = some instr →
      instr.opcode = .write → x.source instr 1 ≠ .ok value) :
    (x.step index).machine.output = x.output := by
  cases found : x.program.get? index with
  | none =>
      simp only [step, found]
      rfl
  | some instr =>
      rw [(step_channels found).2]
      by_cases opcode : instr.opcode = .write
      · cases source : x.source instr 1 with
        | ok value => exact absurd source (silent instr value found opcode)
        | error fault =>
            have source' : (x.poised index).source instr 1 = .error fault := source
            simp only [Instruction.perform, opcode, Opcode.action, Action.perform, source',
              evaluate_error]
            rfl
      · exact Instruction.perform_output rfl opcode

/-- On an unlimited sink the first machine has written a part of what the second one has. -/
def OutputGrows (x y : Machine) : Prop :=
  x.output.Unlimited → y.output.Unlimited ∧ x.output.written <+: y.output.written

namespace OutputGrows

theorem refl (x : Machine) : OutputGrows x x :=
  fun unlimited => ⟨unlimited, List.prefix_refl _⟩

theorem trans (x y z : Machine) (first : OutputGrows x y) (next : OutputGrows y z) :
    OutputGrows x z := by
  intro unlimited
  obtain ⟨unlimited', shorter⟩ := first unlimited
  obtain ⟨unlimited'', longer⟩ := next unlimited'
  exact ⟨unlimited'', shorter.trans longer⟩

theorem step (x : Machine) (index : Nat) : OutputGrows x (x.step index).machine := by
  intro unlimited
  by_cases writes : ∃ instr value, x.program.get? index = some instr ∧ instr.opcode = .write ∧
      x.source instr 1 = .ok value
  · obtain ⟨instr, value, found, opcode, source⟩ := writes
    rw [output_of_step_write found opcode source]
    obtain ⟨unlimited', written⟩ := unlimited.write (Text.encode value.text)
    exact ⟨unlimited', _, written.symm⟩
  · rw [output_of_step fun instr value found opcode source =>
      writes ⟨instr, value, found, opcode, source⟩]
    exact refl x unlimited

end OutputGrows

/-! ### Steps and the limit -/

/-- A limit that the next step does not pass does not show in it. -/
theorem limiting_fitsNext (unlimited : x.output.Unlimited)
    (room : ∀ index, x.pc = some index → (x.step index).machine.output.written.length ≤ limit) :
    (Rewiring.limiting limit message).FitsNext x := by
  intro index instr pc found
  refine ⟨fun _ _ _ => rfl, fun opcode value source => ?_⟩
  have next := room index pc
  rw [output_of_step_write found opcode source, (unlimited.write _).2] at next
  exact Sink.write_within unlimited next

/-- A step that passes the limit executes an instruction that writes, which fails on the limited
sink and does nothing else. -/
theorem step_limiting_of_lt (message : String) (unlimited : x.output.Unlimited)
    (room : x.output.written.length ≤ limit)
    (exceeds : limit < (x.step index).machine.output.written.length) :
    ∃ instr full, x.program.get? index = some instr ∧ instr.opcode = .write ∧
      ((Rewiring.limiting limit message).apply x).step index =
          { x.poised index with output := full }.fail ⟨.output message, some instr.site⟩ ∧
        full.written = (x.step index).machine.output.written.take limit := by
  by_cases writes : ∃ instr value, x.program.get? index = some instr ∧ instr.opcode = .write ∧
      x.source instr 1 = .ok value
  · obtain ⟨instr, value, found, opcode, source⟩ := writes
    rw [output_of_step_write found opcode source, (unlimited.write _).2] at exceeds ⊢
    obtain ⟨full, refused, written⟩ := Sink.write_within_of_lt message room exceeds
    refine ⟨instr, full, found, opcode, ?_, written⟩
    have source' : ((Rewiring.limiting limit message).apply (x.poised index)).source instr 1 =
        .ok value := source
    refine step_eq_fail_iff.mpr ⟨instr, .output message, found, ?_, rfl⟩
    rw [Rewiring.poised_apply]
    simp only [Instruction.perform, opcode, Opcode.action, Action.perform, source', evaluate_ok,
      emit]
    rw [show ((Rewiring.limiting limit message).apply (x.poised index)).output.write
      (Text.encode value.text) = (.error message, full) from refused]
    rfl
  · rw [output_of_step fun instr value found opcode source =>
      writes ⟨instr, value, found, opcode, source⟩] at exceeds
    omega

/-! ### Runs and the limit -/

section Run

variable (unlimited : m.output.Unlimited)
include unlimited

theorem unlimited_of_stateAt? (reached : m.stateAt? n = some x) : x.output.Unlimited := by
  obtain ⟨first, started, after⟩ := Option.bind_eq_some_iff.mp reached
  have same : first.output = m.output := by
    obtain ⟨-, rfl⟩ := start?_eq_some_iff.mp started
    rfl
  rw [← same] at unlimited
  exact (after?_chain OutputGrows.refl OutputGrows.trans OutputGrows.step after unlimited).1

theorem written_prefix_of_shows (le : n ≤ k) (reached : m.stateAt? n = some x)
    (shows : m.Shows k z) : x.output.written <+: z.output.written :=
  (shows_chain OutputGrows.refl OutputGrows.trans OutputGrows.step le reached shows
    (unlimited_of_stateAt? unlimited reached)).2

/-- While the limit is not passed, the limited run is in the same states. -/
theorem limiting_stateAt? (reached : m.stateAt? n = some x)
    (room : x.output.written.length ≤ limit) :
    ((Rewiring.limiting limit message).apply m).stateAt? n =
      some ((Rewiring.limiting limit message).apply x) := by
  rw [Rewiring.stateAt?_apply, reached]
  · rfl
  · intro k before y reachedY
    refine limiting_fitsNext (unlimited_of_stateAt? unlimited reachedY) fun index pc => ?_
    obtain ⟨z, reachedZ⟩ := exists_stateAt?_of_le (Nat.succ_le_of_lt before) reached
    have step : y.step index = z.succeed := by
      rw [stateAt?_succ, reachedY] at reachedZ
      exact step_of_advance? pc reachedZ
    rw [step]
    have shorter := written_prefix_of_shows unlimited before reachedZ (.between reached)
    exact Nat.le_trans shorter.length_le room

/-- If it is never passed, the limited run ends alike. -/
theorem limiting_finishes {outcome : Outcome RuntimeError} (finishes : m.Finishes outcome)
    (room : outcome.machine.output.written.length ≤ limit) :
    ((Rewiring.limiting limit message).apply m).Finishes
      (outcome.map (Rewiring.limiting limit message).apply) := by
  refine Rewiring.finishes_apply (fun k y reached => ?_) finishes
  have unlimited' := unlimited_of_stateAt? unlimited reached
  refine limiting_fitsNext unlimited' fun index pc => ?_
  obtain ⟨fuel, ended⟩ := resume_of_finishes finishes reached
  have grows := resume_chain_next OutputGrows.refl OutputGrows.trans OutputGrows.step ended pc
  have shorter := (grows (OutputGrows.step y index unlimited').1).2
  exact Nat.le_trans shorter.length_le room

end Run

/-- A full sink only truncates. Compare the run of a program on an unlimited sink with that on a
sink which takes so many bytes in all. As long as the limit is not passed, both are in the same
states and end alike. The step that passes it executes an instruction that writes; there the limited
run ends with a fault of the output, having done nothing else in this step, and what it has written
is the front of all that the unlimited run writes. -/
theorem limited_output_truncates (program : Program) (input : Input) (diagnostics : Sink)
    (limit : Nat) (message : String) :
    let free := fresh program input {} diagnostics
    let limited := fresh program input (.bounded limit message) diagnostics
    (∀ n x, free.stateAt? n = some x → x.output.written.length ≤ limit →
        limited.stateAt? n = some { x with output := x.output.within limit message }) ∧
      (∀ outcome, free.Finishes outcome → outcome.machine.output.written.length ≤ limit →
        limited.Finishes ⟨outcome.result,
          { outcome.machine with output := outcome.machine.output.within limit message }⟩) ∧
        ∀ n x y, free.stateAt? n = some x → x.output.written.length ≤ limit →
          free.stateAt? (n + 1) = some y → limit < y.output.written.length →
            ∃ index instr full, x.pc = some index ∧ program.get? index = some instr ∧
              instr.opcode = .write ∧
                limited.Finishes ({ x.poised index with output := full }.fail
                  ⟨.output message, some instr.site⟩) ∧
                  ∀ k z, n < k → free.Shows k z →
                    full.written = z.output.written.take limit := by
  intro free limited
  have unlimited : free.output.Unlimited := fun _ _ => rfl
  refine ⟨fun n x reached room => limiting_stateAt? unlimited reached room,
    fun outcome finishes room => limiting_finishes unlimited finishes room, ?_⟩
  intro n x y reached room reached' exceeds
  obtain ⟨before, same, advance⟩ := stateAt?_succ_iff.mp reached'
  cases reached.symm.trans same
  obtain ⟨index, pc, step⟩ := advance?_eq_some_iff.mp advance
  have stepped : (x.step index).machine = y := congrArg Outcome.machine step
  rw [← stepped] at exceeds
  obtain ⟨instr, full, found, opcode, fails, written⟩ :=
    step_limiting_of_lt message (unlimited_of_stateAt? unlimited reached) room exceeds
  rw [(setting_of_stateAt? reached).1] at found
  refine ⟨index, instr, full, pc, found, opcode, ?_, ?_⟩
  · refine finishes_iff.mpr (.inr ⟨n, _, limiting_stateAt? unlimited reached room, ?_⟩)
    exact .failure pc fails
  · intro k z later shows
    rw [written, stepped]
    rw [stepped] at exceeds
    obtain ⟨rest, longer⟩ := written_prefix_of_shows unlimited later reached' shows
    rw [← longer, List.take_append_of_le_length (Nat.le_of_lt exceeds)]

/-- Writes two bytes, then none, then a character of two bytes, then another byte. -/
def writingInParts (output : Sink) : Machine :=
  fresh
    { instructions :=
        #[.of 1 .write [.literal "ab" (.string "ab")], .of 2 .write [.literal "nil" .nil],
          .of 3 .write [.literal "é" (.string "é")], .of 4 .write [.literal "7" (.int 7)]] }
    { pending := [] } output {}

/-- Room for two bytes is enough to write nothing behind them, room for three ends in the middle of
the character, and room for five is enough for all. -/
theorem writingInParts_truncated :
    ∃ (x y out : Machine) (outcome : Outcome RuntimeError),
      (writingInParts {}).stateAt? 2 = some x ∧ (writingInParts {}).stateAt? 3 = some y ∧
        (writingInParts {}).Finishes outcome ∧
          outcome.machine.output.written = [97, 98, 195, 169, 55] ∧
            (writingInParts (.bounded 2 "full")).stateAt? 2 =
              some { x with output := x.output.within 2 "full" } ∧
            (writingInParts (.bounded 3 "full")).Finishes
              (out.fail ⟨.output "full", some ⟨.write, 3⟩⟩) ∧
            out.output.written = [97, 98, 195] ∧
            (writingInParts (.bounded 5 "full")).Finishes ⟨outcome.result,
              { outcome.machine with output := outcome.machine.output.within 5 "full" }⟩ := by
  obtain ⟨x, reached, pc, before⟩ : ∃ x, (writingInParts {}).stateAt? 2 = some x ∧
      x.pc = some 2 ∧ x.output.written = [97, 98] := ⟨_, rfl, rfl, rfl⟩
  obtain ⟨y, reached', after⟩ : ∃ y, (writingInParts {}).stateAt? 3 = some y ∧
      y.output.written = [97, 98, 195, 169] := ⟨_, rfl, rfl⟩
  obtain ⟨outcome, finishes, whole⟩ : ∃ outcome, (writingInParts {}).Finishes outcome ∧
      outcome.machine.output.written = [97, 98, 195, 169, 55] := ⟨_, ⟨4, rfl⟩, rfl⟩
  have truncates := limited_output_truncates (writingInParts {}).program { pending := [] } {}
  obtain ⟨index, instr, full, pc', found, -, stops, front⟩ :=
    (truncates 3 "full").2.2 2 x y reached (by rw [before]; decide) reached' (by rw [after]; decide)
  cases pc.symm.trans pc'
  cases found
  refine ⟨x, y, _, outcome, reached, reached', finishes, whole, ?_, stops, ?_, ?_⟩
  · exact (truncates 2 "full").1 2 x reached (by rw [before]; decide)
  · exact (front 3 y (by decide) (.between reached')).trans (by rw [after]; rfl)
  · exact (truncates 5 "full").2.1 outcome finishes (by rw [whole]; decide)

end Machine

end FrameCode
