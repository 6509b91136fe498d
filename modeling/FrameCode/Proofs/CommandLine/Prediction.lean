import FrameCode.Main.Arguments
import FrameCode.Proofs.Endings

/-!
What a check of a program says about running it. Both commands load the program and look for
findings before they do anything else (`program_ensures`), so a check that refuses the program is
what the run does, too; and a run that gets further comes to one of the ends that `Runs` lists
(`check_predicts_run`). The streams of the two commands may refuse what is written to them, and then
the exit code of the one says little about the other (`full_output_unpredicted`).
-/

namespace FrameCode.CommandLine

open Machine

variable {env env' : Environment} {source input : Option String} {program : Program}

/-! ### Complaints -/

namespace Complaint

variable {complaint : Complaint} {stdout stdout' stderr : Sink}

/-- A complaint that cannot be heard aborts the command. -/
theorem exitCode_respond :
    (complaint.respond stdout stderr).exitCode = complaint.exitCode ∨
      (complaint.respond stdout stderr).exitCode = abortCode := by
  unfold respond
  split
  · exact .inl rfl
  · exact .inr rfl

/-- Complaining writes nothing to standard output. -/
theorem stdout_respond : (complaint.respond stdout stderr).stdout = stdout.written := by
  unfold respond
  split
  · rfl
  · rfl

/-- Of standard output only what it has taken matters to a complaint. -/
theorem respond_congr (same : stdout'.written = stdout.written) :
    complaint.respond stdout' stderr = complaint.respond stdout stderr := by
  unfold respond
  rw [same]

/-- A complaint is never mistaken for success. -/
theorem exitCode_respond_ne_zero (nonzero : complaint.exitCode ≠ 0) :
    (complaint.respond stdout stderr).exitCode ≠ 0 := by
  rcases exitCode_respond with code | code
  · rwa [code]
  · rw [code]
    decide

end Complaint

/-! ### Loading -/

/-- Where only failure matters, a translated error decides. -/
theorem mapError_nonzero {ε α : Type} {x : Except ε α} {complain : ε → Complaint}
    (nonzero : ∀ e, (complain e).exitCode ≠ 0) :
    Ensures (fun _ => True) (fun complaint => complaint.exitCode ≠ 0) (x.mapError complain) :=
  .mapError (Ensures.trivial.mono (fun _ h => h) fun e _ => nonzero e)

theorem sourceText_nonzero (env : Environment) (source : Option String) :
    Ensures (fun _ => True) (fun complaint => complaint.exitCode ≠ 0) (env.sourceText source) := by
  have eleven : 11 ≠ 0 := by decide
  cases source with
  | none => exact mapError_nonzero fun _ => eleven
  | some path => exact mapError_nonzero fun _ => eleven

/-- No error of loading has the exit code of success. -/
theorem exitCode_ne_zero_of_load (e : Source.Error) : e.exitCode ≠ 0 := by
  cases e <;> simp [Source.Error.exitCode, StructureError.exitCode]

/-- No finding has the exit code of success. -/
theorem exitCode_ne_zero_of_finding (finding : Check.Finding) : finding.exitCode ≠ 0 := by
  cases finding <;> simp [Check.Finding.exitCode]

/-- A program that is loaded has no findings, and one that is not has an exit code that says so. -/
theorem program_ensures (env : Environment) (source : Option String) :
    Ensures (fun program => Check.findings program = []) (fun complaint => complaint.exitCode ≠ 0)
      (env.program source) := by
  refine (sourceText_nonzero env source).bind fun text _ => ?_
  refine (mapError_nonzero exitCode_ne_zero_of_load).bind fun program _ => ?_
  cases findings : Check.findings program with
  | nil => exact findings
  | cons first rest => exact exitCode_ne_zero_of_finding first

/-- Of the environment only the source text decides what is loaded. -/
theorem program_eq_of_sourceText (same : env'.sourceText source = env.sourceText source) :
    env'.program source = env.program source := by
  unfold Environment.program
  rw [same]

/-! ### Checking -/

/-- The program is approved of, but standard output refuses the line that says so. -/
def Environment.Unprinted (env : Environment) (source : Option String) : Prop :=
  ∃ program, env.program source = .ok program ∧
    (env.stdout.sink.write (approval program)).1 ≠ .ok ()

/-- The exit code of a check that approves of the program depends on standard output alone. -/
theorem exitCode_check_of_program (loaded : env.program source = .ok program) :
    (¬ env.Unprinted source ∧ (check env source).exitCode = 0) ∨
      (env.Unprinted source ∧ (check env source).exitCode = abortCode) := by
  simp only [Environment.Unprinted, check, loaded]
  rcases written : env.stdout.sink.write (approval program) with ⟨message | _, stdout⟩
  · exact .inr ⟨⟨program, rfl, by simp [written]⟩, rfl⟩
  · refine .inl ⟨?_, rfl⟩
    rintro ⟨program', loaded', refused⟩
    cases loaded'
    exact refused (congrArg Prod.fst written)

/-! ### Running -/

/-- What the command to run a program without findings can come to within so many steps. -/
inductive Runs (env : Environment) (source input : Option String) (fuel : Nat) :
    Option Response → Prop where
  /-- The input cannot be opened. -/
  | unopened {path reason : String} (given : input = some path)
      (closed : (env.entry path).opened = .error reason) :
      Runs env source input fuel
        (some (Complaint.respond ⟨11, [s!"cannot open '{path}': {reason}"]⟩ env.stdout.sink
          env.stderr.sink))
  /-- The run ends, in whatever way, and its output cannot be passed on. -/
  | unflushed {m : Machine} {outcome : Outcome RuntimeError} {reason : String}
      (prepared : prepare env source input = .ok m) (ended : m.execute fuel = .ended outcome)
      (failed : env.stdout.flushError? outcome.machine.output.transcript = some reason) :
      Runs env source input fuel
        (some (Complaint.respond ⟨12, [s!"cannot write output: {reason}"]⟩ outcome.machine.output
          outcome.machine.diagnostics))
  /-- The run succeeds. -/
  | succeeded {m out : Machine} {code : Nat} (prepared : prepare env source input = .ok m)
      (ended : m.execute fuel = .ended out.succeed)
      (flushed : env.stdout.flushError? out.output.transcript = none)
      (ending : m.Ending out.succeed code) :
      Runs env source input fuel
        (some { exitCode := code, stdout := out.output.written, stderr := out.diagnostics.written })
  /-- An instruction fails. -/
  | failed {m out : Machine} {e : RuntimeError} {code : Nat}
      (prepared : prepare env source input = .ok m) (ended : m.execute fuel = .ended (out.fail e))
      (flushed : env.stdout.flushError? out.output.transcript = none)
      (ending : m.Ending (out.fail e) code) :
      Runs env source input fuel
        (some (Complaint.respond ⟨code, [e.message]⟩ out.output out.diagnostics))
  /-- The program has not ended yet. -/
  | unfinished {m x : Machine} (prepared : prepare env source input = .ok m)
      (running : m.execute fuel = .running x) : Runs env source input fuel none

/-- What is refused is refused before the input is opened. -/
theorem run_of_refused {complaint : Complaint} (refused : env.program source = .error complaint)
    (fuel : Nat) :
    run fuel env source input = some (complaint.respond env.stdout.sink env.stderr.sink) := by
  unfold run prepare
  rw [refused]
  rfl

/-- A run that has ended leaves what the way it ended and the flush of its output say. -/
theorem runs_of_ended {m : Machine} {fuel : Nat} {outcome : Outcome RuntimeError}
    (clean : Check.findings m.program = []) (prepared : prepare env source input = .ok m)
    (ended : m.execute fuel = .ended outcome) :
    Runs env source input fuel (some (conclude env outcome)) := by
  cases flushed : env.stdout.flushError? outcome.machine.output.transcript with
  | some reason =>
      simp only [conclude, flushed]
      exact .unflushed prepared ended flushed
  | none =>
      obtain ⟨code, ending⟩ := ending_of_clean clean ⟨fuel, ended⟩
      simp only [conclude, flushed]
      cases ending with
      | exit reached pc found opcode operand range last set =>
          simp only [succeed, set, Option.getD_some]
          exact .succeeded prepared ended flushed
            (.exit reached pc found opcode operand range last set)
      | offEnd runsOff last unset =>
          simp only [succeed, unset, Option.getD_none]
          exact .succeeded prepared ended flushed (.offEnd runsOff last unset)
      | error code redefinition =>
          exact .failed prepared ended flushed (.error code redefinition)

/-- Every run of an approved program is in the list. -/
theorem runs_of_program (loaded : env.program source = .ok program) (fuel : Nat) :
    Runs env source input fuel (run fuel env source input) := by
  have clean := (program_ensures env source).ok loaded
  cases opened : env.input source input with
  | error complaint =>
      have unprepared : prepare env source input = .error complaint := by
        unfold prepare
        rw [loaded, opened]
        rfl
      simp only [run, unprepared]
      cases input with
      | none => cases opened
      | some path =>
          simp only [Environment.input] at opened
          cases closed : (env.entry path).opened with
          | error reason =>
              rw [closed] at opened
              cases opened
              exact .unopened rfl closed
          | ok given =>
              rw [closed] at opened
              cases opened
  | ok given =>
      let m : Machine :=
        { program, input := given, output := env.stdout.sink, diagnostics := env.stderr.sink }
      have prepared : prepare env source input = .ok m := by
        unfold prepare
        rw [loaded, opened]
        rfl
      simp only [run, prepared]
      cases progress : m.execute fuel with
      | running x => exact .unfinished prepared progress
      | ended outcome => exact runs_of_ended clean prepared progress

/-- A check predicts the run, as far as the streams let it. If it refuses a program, so does the
command to run it, in the same words and with nothing else written, provided that standard error
takes them alike. If it approves of the program, which it may fail to print, the run comes to one of
the ends that are listed: the code of an exit that is executed, 0 when the program runs off its end,
11 when the input cannot be opened, the code of a dynamic fault, which is 52 only for a variable
that is declared again, or 12 when the output of a run that has ended cannot be flushed. And no
other fault arises however the channels behave. -/
theorem check_predicts_run (env env' : Environment) (source input : Option String)
    (same : env'.sourceText source = env.sourceText source) :
    let checked := check env source
    (checked.exitCode ≠ 0 → ¬ env.Unprinted source → checked.stdout = [] ∧
        (env'.stderr = env.stderr → ∀ fuel, run fuel env' source input = some checked)) ∧
      (env.Unprinted source → checked.exitCode = abortCode) ∧
      (checked.exitCode = 0 ∨ env.Unprinted source → ∃ program, env.program source = .ok program ∧
        (∀ fuel, Runs env' source input fuel (run fuel env' source input)) ∧
          ∀ (m : Machine) (fuel : Nat) (outcome : Outcome RuntimeError), m.program = program →
            m.execute fuel = .ended outcome → ∃ code, m.Ending outcome code) := by
  intro checked
  have moved := program_eq_of_sourceText same
  have ensured := program_ensures env source
  cases loaded : env.program source with
  | error complaint =>
      have eq : checked = complaint.respond env.stdout.sink env.stderr.sink := by
        simp only [checked, check, loaded]
      have nonzero : checked.exitCode ≠ 0 := by
        rw [eq]
        exact Complaint.exitCode_respond_ne_zero (ensured.error loaded)
      have printed : ¬ env.Unprinted source := by
        rintro ⟨program, approved, -⟩
        cases loaded.symm.trans approved
      refine ⟨fun _ _ => ⟨?_, fun sameErrors fuel => ?_⟩, fun unprinted => absurd unprinted printed,
        ?_⟩
      · rw [eq, Complaint.stdout_respond]
        rfl
      · rw [run_of_refused (moved.trans loaded), eq, sameErrors]
        exact congrArg some (Complaint.respond_congr rfl)
      · rintro (zero | unprinted)
        · exact absurd zero nonzero
        · exact absurd unprinted printed
  | ok program =>
      have code := exitCode_check_of_program loaded
      refine ⟨fun nonzero printed => ?_, fun unprinted => ?_, fun _ => ⟨program, rfl, ?_, ?_⟩⟩
      · obtain ⟨-, zero⟩ | ⟨unprinted, -⟩ := code
        · exact absurd zero nonzero
        · exact absurd unprinted printed
      · obtain ⟨printed, -⟩ | ⟨-, aborted⟩ := code
        · exact absurd unprinted printed
        · exact aborted
      · exact runs_of_program (moved.trans loaded)
      · rintro m fuel outcome rfl ended
        exact ending_of_clean (ensured.ok loaded) ⟨fuel, ended⟩

/-- Two source files, of which the first jumps to a label that is not there, and an input whose path
looks like an option. -/
def twoSources (stdin : Text.Bytes) (stdout : Stream) : Environment where
  entry := fun path =>
    if path = "wrong" then .file (Text.encode ".IPPcode22\nJUMP nowhere\n")
    else if path = "right" then .file (Text.encode ".IPPcode22\nWRITE string@a\nEXIT int@7\n")
    else if path = "-x" then .file []
    else .missing
  stdin := { pending := stdin }
  stdout := stdout

/-- The one is refused in a run as it is in a check. The other ends itself with its code, or does
not get that far because there is no input to open. -/
theorem twoSources_predicted :
    (check (twoSources [] {}) (some "wrong")).exitCode = 52 ∧
      (∀ fuel, run fuel (twoSources [55] {}) (some "wrong") none =
        some (check (twoSources [] {}) (some "wrong"))) ∧
        (check (twoSources [] {}) (some "right")).exitCode = 0 ∧
          (∃ response, run 2 (twoSources [55] {}) (some "right") none = some response ∧
            response.exitCode = 7 ∧
              Runs (twoSources [55] {}) (some "right") none 2 (some response)) ∧
            Runs (twoSources [55] {}) (some "right") (some "gone") 1
              (run 1 (twoSources [55] {}) (some "right") (some "gone")) := by
  have refused : (check (twoSources [] {}) (some "wrong")).exitCode = 52 := by decide +kernel
  have approved : (check (twoSources [] {}) (some "right")).exitCode = 0 := by decide +kernel
  have code : (run 2 (twoSources [55] {}) (some "right") none).map (·.exitCode) = some 7 := by
    decide +kernel
  obtain ⟨response, ran, seven⟩ := Option.map_eq_some_iff.mp code
  have predicts (source : String) (input : Option String) :=
    check_predicts_run (twoSources [] {}) (twoSources [55] {}) (some source) input rfl
  obtain ⟨-, -, runs, -⟩ := (predicts "right" none).2.2 (.inl approved)
  obtain ⟨-, -, unopened, -⟩ := (predicts "right" (some "gone")).2.2 (.inl approved)
  have aborted := (predicts "wrong" none).2.1
  have printed : ¬ (twoSources [] {}).Unprinted (some "wrong") := by
    intro unprinted
    cases refused.symm.trans (aborted unprinted)
  refine ⟨refused, ?_, approved, ⟨response, ran, seven, ran ▸ runs 2⟩, unopened 1⟩
  exact ((predicts "wrong" none).1 (by rw [refused]; decide) printed).2 rfl

/-- A stream that keeps what it takes until a line ends, and can pass nothing on. -/
def Stream.full : Stream where
  refusal? := fun _ chunk =>
    if 10 ∈ chunk then some ⟨0, "No space left on device (os error 28)"⟩ else none
  flushError? := fun taken =>
    if taken.size = 0 then none else some "No space left on device (os error 28)"

/-- The exit code that the program leaves, if it succeeds within so many steps. -/
def codeOf? (fuel : Nat) (env : Environment) (source input : Option String) :
    Option (Option Nat) :=
  match prepare env source input with
  | .error _ => none
  | .ok m =>
      match m.execute fuel with
      | .ended ⟨.ok (), out⟩ => some out.exitCode
      | _ => none

/-- The program is approved of where there is room, and it ends itself with 7. But where there is
none for its output, the command to run it says 12 although no instruction has failed, and the check
says 101, which no run says. Where the path of the input looks like an option, the arguments are
refused with 10, although the input is there and the run would end with 7. -/
theorem full_output_unpredicted :
    (check (twoSources [] {}) (some "right")).exitCode = 0 ∧
      codeOf? 2 (twoSources [] .full) (some "right") none = some (some 7) ∧
        (run 2 (twoSources [] .full) (some "right") none).map (·.exitCode) = some 12 ∧
          (check (twoSources [] .full) (some "right")).exitCode = 101 ∧
            (run 2 (twoSources [] {}) (some "right") (some "-x")).map (·.exitCode) = some 7 ∧
              parse ["run", "--source", "right", "--input", "-x"] = .error .misuse ∧
                Stop.misuse.exitCode = 10 := by
  refine ⟨?_, ?_, ?_, ?_, ?_, ?_, rfl⟩
  · decide +kernel
  · decide +kernel
  · decide +kernel
  · decide +kernel
  · decide +kernel
  · rfl

end FrameCode.CommandLine
