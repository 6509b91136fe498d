import FrameCode.Proofs.Labels
import FrameCode.Proofs.Machine.Control
import FrameCode.Proofs.Machine.Transport

/-!
Instructions for debugging do not show. Without them the instructions of a program stand at other
indices, so its labels, return addresses and program counter are different numbers; but the run of
the shorter program follows that of the longer one, making no step where the longer one executes an
instruction for debugging, and both end alike.
-/

namespace FrameCode

def Instruction.isPlain (instr : Instruction) : Bool :=
  instr.opcode.kind ≠ .debug

theorem Instruction.isPlain_iff {instr : Instruction} :
    instr.isPlain = true ↔ instr.opcode.kind ≠ .debug :=
  decide_eq_true_iff

namespace Program

/-- The program without its instructions for debugging; the others keep their order numbers. -/
def withoutDebug (program : Program) : Program where
  instructions := program.instructions.filter Instruction.isPlain
  positive := fun instr mem => by
    rw [Array.toList_filter] at mem
    exact program.positive instr (List.mem_filter.mp mem).1
  ascending := by
    rw [Array.toList_filter]
    exact program.ascending.filter _
  numbered := fun instr mem => by
    rw [Array.toList_filter] at mem
    exact program.numbered instr (List.mem_filter.mp mem).1

@[simp] theorem toList_withoutDebug (program : Program) :
    program.withoutDebug.toList = program.toList.filter Instruction.isPlain :=
  Array.toList_filter

/-- The index that an instruction has when those for debugging are left out. -/
def plainIndex (program : Program) (index : Nat) : Nat :=
  (program.toList.take index).countP Instruction.isPlain

theorem plainIndex_zero (program : Program) : program.plainIndex 0 = 0 := rfl

/-- The index among the plain instructions counts those before. -/
theorem plainIndex_succ {program : Program} {index : Nat} {instr : Instruction}
    (found : program.get? index = some instr) :
    program.plainIndex (index + 1) =
      program.plainIndex index + if instr.isPlain then 1 else 0 := by
  rw [← getElem?_toList] at found
  simp [plainIndex, List.take_add_one, found, List.countP_append, List.countP_singleton]

/-- A plain instruction is found at its index among the plain ones. -/
theorem get?_plainIndex {program : Program} {index : Nat} {instr : Instruction}
    (found : program.get? index = some instr) (plain : instr.isPlain) :
    program.withoutDebug.get? (program.plainIndex index) = some instr := by
  rw [← getElem?_toList] at found
  obtain ⟨inRange, at_index⟩ := List.getElem?_eq_some_iff.mp found
  have split : program.toList =
      program.toList.take index ++ instr :: program.toList.drop (index + 1) := by
    rw [← at_index, List.getElem_cons_drop, List.take_append_drop]
  have before : program.plainIndex index =
      ((program.toList.take index).filter Instruction.isPlain).length :=
    List.countP_eq_length_filter
  rw [← getElem?_toList, toList_withoutDebug, before, split, List.filter_append,
    List.filter_cons_of_pos plain, ← split, List.getElem?_append_right (Nat.le_refl _),
    Nat.sub_self, List.getElem?_cons_zero]

/-- Behind the last instruction of the program lies the end of the shorter one. -/
theorem lt_size_of_plainIndex {program : Program} {index : Nat}
    (inRange : program.plainIndex index < program.withoutDebug.size) : index < program.size := by
  rcases Nat.lt_or_ge index program.size with within | beyond
  · exact within
  · have all : program.toList.take index = program.toList := List.take_of_length_le beyond
    have whole : program.plainIndex index = program.withoutDebug.toList.length := by
      rw [plainIndex, all, List.countP_eq_length_filter, toList_withoutDebug]
    exact absurd inRange (by rw [whole]; exact Nat.lt_irrefl _)

end Program

namespace Machine

/-- One table has the labels of the other, each sent elsewhere. -/
def Relocates (place : Nat → Nat) (table table' : Labels) : Prop :=
  ∀ label : String, table'[label]? = (table[label]?).map place

namespace Relocates

variable {place : Nat → Nat} {table table' : Labels}

/-- Relocation keeps which labels are known. -/
theorem mem_iff (relocates : Relocates place table table') (label : String) :
    label ∈ table' ↔ label ∈ table := by
  rw [← Std.TreeMap.isSome_getElem?_iff_mem, ← Std.TreeMap.isSome_getElem?_iff_mem,
    relocates label, Option.isSome_map]

/-- Labels that are inserted at corresponding places keep the tables in step. -/
theorem insert (relocates : Relocates place table table') (label : String) (target : Nat) :
    Relocates place (table.insert label target) (table'.insert label (place target)) := by
  intro other
  rw [Std.TreeMap.getElem?_insert, Std.TreeMap.getElem?_insert, relocates other]
  split <;> rfl

end Relocates

/-- Leaving instructions out of the collection of labels changes the targets and nothing else. -/
theorem collectLabels_filter {place : Nat → Nat} {index : Nat} {table table' : Labels}
    {instrs : List Instruction}
    (placed : ∀ k instr, instrs[k]? = some instr →
      place (index + k + 1) = place (index + k) + if instr.isPlain then 1 else 0)
    (relocates : Relocates place table table') :
    (collectLabels (place index) table' (instrs.filter Instruction.isPlain)).1 =
        (collectLabels index table instrs).1 ∧
      Relocates place (collectLabels index table instrs).2
        (collectLabels (place index) table' (instrs.filter Instruction.isPlain)).2 := by
  induction instrs generalizing index table table' with
  | nil => exact ⟨rfl, relocates⟩
  | cons instr rest ih =>
      have next : place (index + 1) = place index + if instr.isPlain then 1 else 0 :=
        placed 0 instr rfl
      have later : ∀ k other, rest[k]? = some other →
          place (index + 1 + k + 1) = place (index + 1 + k) + if other.isPlain then 1 else 0 := by
        intro k other at_k
        have shifted := placed (k + 1) other at_k
        rwa [show index + (k + 1) = index + 1 + k by omega] at shifted
      by_cases plain : instr.isPlain
      · rw [if_pos plain] at next
        rw [List.filter_cons_of_pos plain]
        obtain ⟨opcode, -⟩ | ⟨opcode, unnamed, -⟩ | ⟨label, -, -, defines⟩ :=
          instr.defines?_cases
        · rw [collectLabels_cons_of_ne opcode, collectLabels_cons_of_ne opcode, ← next]
          exact ih later relocates
        · rw [collectLabels_cons_of_unnamed opcode unnamed,
            collectLabels_cons_of_unnamed opcode unnamed]
          exact ⟨rfl, relocates⟩
        · have inserted := relocates.insert label (index + 1)
          by_cases old : label ∈ table
          · rw [collectLabels_cons_of_old defines old,
              collectLabels_cons_of_old defines ((relocates.mem_iff label).mpr old), ← next]
            exact ⟨rfl, inserted⟩
          · rw [collectLabels_cons_of_new defines old,
              collectLabels_cons_of_new defines (mt (relocates.mem_iff label).mp old), ← next]
            exact ih later inserted
      · have opcode : instr.opcode ≠ .label := by
          intro opcode
          rw [Instruction.isPlain_iff, opcode] at plain
          exact plain (by decide)
        replace next : place (index + 1) = place index := by
          rw [next, if_neg plain]
          rfl
        rw [List.filter_cons_of_neg plain, collectLabels_cons_of_ne opcode, ← next]
        exact ih later relocates

end Machine

/-- The labels of the shorter program are those of the longer one at their new indices. -/
theorem Program.labels_withoutDebug (program : Program) :
    (Machine.collectLabels 0 ∅ program.withoutDebug.toList).1 =
        (Machine.collectLabels 0 ∅ program.toList).1 ∧
      Machine.Relocates program.plainIndex program.labels program.withoutDebug.labels := by
  have placed : ∀ k instr, program.toList[k]? = some instr →
      program.plainIndex (0 + k + 1) =
        program.plainIndex (0 + k) + if instr.isPlain then 1 else 0 := by
    intro k instr at_k
    rw [Nat.zero_add]
    exact plainIndex_succ ((program.getElem?_toList k).symm.trans at_k)
  have empty : Machine.Relocates program.plainIndex ∅ ∅ := fun label => by simp
  have collected := Machine.collectLabels_filter placed empty
  rwa [plainIndex_zero, ← toList_withoutDebug] at collected

/-! ### The run of the shorter program -/

def Transport.withoutDebug (program : Program) (diagnostics : Sink) : Transport where
  program := program.withoutDebug
  labels := program.withoutDebug.labels
  index := program.plainIndex
  input := id
  output := id
  diagnostics := fun _ => diagnostics

namespace Machine

variable {full : Program} {diagnostics : Sink} {m m' next : Machine}

/-- The second machine stands where the first one does when instructions for debugging are passed
over. -/
structure Follows (full : Program) (diagnostics : Sink) (m m' : Machine) : Prop where
  program : m.program = full
  labels : m.labels = full.labels
  state : ∃ current, m' =
    { (Transport.withoutDebug full diagnostics).apply m with
      current
      pc := (m.pc.map full.plainIndex).filter (· < full.withoutDebug.size) }

/-- An instruction for debugging writes diagnostics and does nothing else. -/
theorem perform_debug {instr : Instruction} (debug : instr.opcode.kind = .debug) :
    (instr.perform m).Ensures (fun out => ∃ diagnostics, out = { m with diagnostics })
      (fun _ out => ∃ diagnostics, out = { m with diagnostics }) := by
  unfold Instruction.perform
  rcases Opcode.kind_eq_debug_iff.mp debug with action | action
  · rw [action, Action.perform]
    cases m.source instr 1 with
    | ok value => exact emitDiagnostic_ensures value.text
    | error fault => exact .fail ⟨m.diagnostics, rfl⟩
  · rw [action, Action.perform]
    exact emitDiagnostic_ensures _

/-- A program counter behind the end of the program is behind the end of the shorter one. -/
theorem filter_plainIndex (full : Program) (pc : Option Nat) :
    ((pc.filter (· < full.size)).map full.plainIndex).filter (· < full.withoutDebug.size) =
      (pc.map full.plainIndex).filter (· < full.withoutDebug.size) := by
  cases pc with
  | none => rfl
  | some index =>
      by_cases within : index < full.size
      · simp [Option.filter, within]
      · have beyond := mt Program.lt_size_of_plainIndex within
        simp [Option.filter, within, beyond]

namespace Follows

/-- At an instruction that is not for debugging, both machines are about to execute it. -/
theorem poised (follows : Follows full diagnostics m m') {index : Nat} {instr : Instruction}
    (pc : m.pc = some index) (found : full.get? index = some instr) (plain : instr.isPlain) :
    m'.pc = some (full.plainIndex index) ∧
      m'.program.get? (full.plainIndex index) = some instr ∧
        m'.poised (full.plainIndex index) =
          (Transport.withoutDebug full diagnostics).apply (m.poised index) := by
  obtain ⟨-, -, current, rfl⟩ := follows
  have found' := Program.get?_plainIndex found plain
  have within : full.plainIndex index < full.withoutDebug.size :=
    (Array.getElem?_eq_some_iff.mp found').1
  have succ : full.plainIndex (index + 1) = full.plainIndex index + 1 := by
    rw [Program.plainIndex_succ found, if_pos plain]
  refine ⟨?_, found', ?_⟩
  · simp [pc, Option.filter, within]
  · simp [Machine.poised, Transport.apply, Transport.withoutDebug, succ]

/-- Both machines execute it alike. -/
theorem perform (follows : Follows full diagnostics m m') {index : Nat} {instr : Instruction}
    (pc : m.pc = some index) (found : full.get? index = some instr) (plain : instr.isPlain) :
    instr.perform (m'.poised (full.plainIndex index)) =
      (instr.perform (m.poised index)).map (Transport.withoutDebug full diagnostics).apply := by
  rw [(follows.poised pc found plain).2.2]
  refine Transport.perform_apply ⟨rfl, ?_, fun _ => rfl, fun _ _ _ => rfl⟩
    (Instruction.isPlain_iff.mp plain)
  intro label
  have labels : (m.poised index).labels = full.labels := follows.labels
  rw [labels]
  exact full.labels_withoutDebug.2 label

/-- While the longer run makes a step, the shorter one makes the same step or none. -/
theorem advance (follows : Follows full diagnostics m m') (advance : m.advance? = some next) :
    Follows full diagnostics next m' ∨
      ∃ next', m'.advance? = some next' ∧ Follows full diagnostics next next' := by
  obtain ⟨index, pc, step⟩ := advance?_eq_some_iff.mp advance
  cases found : full.get? index with
  | none =>
      have missing : m.program.get? index = none := by rw [follows.program, found]
      simp only [Machine.step, missing] at step
      cases step
      have beyond : ¬ full.plainIndex index < full.withoutDebug.size := by
        intro within
        have defined := Array.getElem?_eq_getElem (Program.lt_size_of_plainIndex within)
        cases found.symm.trans defined
      obtain ⟨program, labels, current, rfl⟩ := follows
      refine .inl ⟨program, labels, current, ?_⟩
      simp [pc, Option.filter, beyond, Transport.apply]
  | some instr =>
      have here : m.program.get? index = some instr := by rw [follows.program, found]
      obtain ⟨out, performed, rfl⟩ := (step_eq_succeed_iff here).mp step
      by_cases plain : instr.isPlain
      · obtain ⟨pc', found', -⟩ := follows.poised pc found plain
        have performed' := follows.perform pc found plain
        rw [performed] at performed'
        have setting := ((instr.perform_steers (m.poised index)).ok
          (congrArg Outcome.result performed)).1
        rw [performed] at setting
        have program : out.program = full := setting.program.trans follows.program
        refine .inr ⟨((Transport.withoutDebug full diagnostics).apply out).retire instr, ?_, ?_⟩
        · refine advance?_eq_some_iff.mpr ⟨_, pc', ?_⟩
          exact (step_eq_succeed_iff found').mpr ⟨_, performed', rfl⟩
        · refine ⟨program, setting.labels.trans follows.labels,
            ((Transport.withoutDebug full diagnostics).apply out).current, ?_⟩
          simp only [retire, program, filter_plainIndex]
          rfl
      · have debug : instr.opcode.kind = .debug := by
          simpa [Instruction.isPlain_iff] using plain
        have written := (perform_debug debug).ok (congrArg Outcome.result performed)
        rw [performed] at written
        obtain ⟨taken, rfl⟩ : ∃ taken, out = { m.poised index with diagnostics := taken } := written
        have same : full.plainIndex (index + 1) = full.plainIndex index := by
          rw [Program.plainIndex_succ found, if_neg plain]
          rfl
        obtain ⟨program, labels, current, rfl⟩ := follows
        refine .inl ⟨program, labels, current, ?_⟩
        simp only [retire, Machine.poised, program, filter_plainIndex, Option.map_some, same, debug,
          if_true, pc, Transport.apply, Transport.withoutDebug]

/-- So the shorter run gets to wherever the longer one does. -/
theorem reach (follows : Follows full diagnostics m m') {n : Nat}
    (reached : m.after? n = some next) :
    ∃ k next', m'.after? k = some next' ∧ Follows full diagnostics next next' := by
  refine after?_induction
    (P := fun x => ∃ k x', m'.after? k = some x' ∧ Follows full diagnostics x x')
    ⟨0, m', rfl, follows⟩ ?_ reached
  rintro a b ⟨k, x', reached', follows'⟩ advance
  rcases follows'.advance advance with stays | ⟨next', advance', goesOn⟩
  · exact ⟨k, x', reached', stays⟩
  · refine ⟨k + 1, next', ?_, goesOn⟩
    rw [after?, reached']
    exact advance'

end Follows

/-- Two runs end alike: with the same result, exit code and count of instructions, having read and
written the same. -/
structure EndsLike (outcome outcome' : Outcome RuntimeError) : Prop where
  result : outcome'.result = outcome.result
  exitCode : outcome'.machine.exitCode = outcome.machine.exitCode
  executed : outcome'.machine.executed = outcome.machine.executed
  output : outcome'.machine.output = outcome.machine.output
  input : outcome'.machine.input = outcome.machine.input

/-- Where the longer run ends, other than by an instruction for debugging, the shorter one ends. -/
theorem Follows.ends (follows : Follows full diagnostics m m') {outcome : Outcome RuntimeError}
    (ends : m.EndsWith outcome)
    (plain : ∀ error site, outcome.result = .error error → error.site = some site →
      site.opcode.kind ≠ .debug) :
    ∃ outcome', m'.EndsWith outcome' ∧ EndsLike outcome outcome' := by
  cases ends with
  | rest pc =>
      obtain ⟨-, -, current, rfl⟩ := follows
      exact ⟨_, .rest (by simp [pc]), rfl, rfl, rfl, rfl, rfl⟩
  | @failure index error out pc step =>
      obtain ⟨instr, fault, found, performed, rfl⟩ := step_eq_fail_iff.mp step
      rw [follows.program] at found
      have plain' := Instruction.isPlain_iff.mpr (plain _ instr.site rfl rfl)
      obtain ⟨pc', found', -⟩ := follows.poised pc found plain'
      have performed' := follows.perform pc found plain'
      rw [performed] at performed'
      refine ⟨_, .failure pc' (step_eq_fail_iff.mpr ⟨instr, fault, found', performed', rfl⟩), ?_⟩
      exact ⟨rfl, rfl, rfl, rfl, rfl⟩

/-- The first index of a program, if it has one. -/
theorem start_eq_filter (size : Nat) :
    (if size = 0 then none else some 0) = (some 0).filter (· < size) := by
  cases size with
  | zero => rfl
  | succ n => rfl

/-- The shorter run starts when the longer one does. -/
theorem Follows.start {first : Machine} (started : m.start? = some first) (diagnostics : Sink) :
    ∃ first', { m with program := m.program.withoutDebug, diagnostics }.start? = some first' ∧
      Follows m.program diagnostics first first' := by
  obtain ⟨collected, rfl⟩ := start?_eq_some_iff.mp started
  have collected' := m.program.labels_withoutDebug.1.trans collected
  refine ⟨_, start?_eq_some_iff.mpr ⟨collected', rfl⟩, rfl, rfl, none, ?_⟩
  have pc := filter_plainIndex m.program (some 0)
  simp only [Option.map_some, Program.plainIndex_zero] at pc
  simp only [reset, start_eq_filter, pc]
  rfl

/-- The shorter run is stopped by the label that stops the longer one. -/
theorem endsLike_of_blocked (blocked : m.start? = none) (diagnostics : Sink) :
    { m with program := m.program.withoutDebug, diagnostics }.start? = none ∧
      EndsLike m.mapLabels { m with program := m.program.withoutDebug, diagnostics }.mapLabels := by
  have result := m.program.labels_withoutDebug.1
  refine ⟨Option.eq_none_iff_forall_ne_some.mpr ?_, result, rfl, rfl, rfl, rfl⟩
  intro first started
  have collected := result.symm.trans (start?_eq_some_iff.mp started).1
  cases blocked.symm.trans (start?_eq_some_iff.mpr ⟨collected, rfl⟩)

/-- Instructions for debugging are transparent. If a run ends, and not by one of them, then the
program without them ends alike, whatever becomes of its diagnostics. -/
theorem debug_transparent (m : Machine) (diagnostics : Sink) (outcome : Outcome RuntimeError)
    (finishes : m.Finishes outcome)
    (plain : ∀ error site, outcome.result = .error error → error.site = some site →
      site.opcode.kind ≠ .debug) :
    ∃ outcome', { m with program := m.program.withoutDebug, diagnostics }.Finishes outcome' ∧
      EndsLike outcome outcome' := by
  obtain ⟨blocked, rfl⟩ | ⟨n, x, reached, ends⟩ := finishes_iff.mp finishes
  · obtain ⟨blocked', like⟩ := endsLike_of_blocked blocked diagnostics
    exact ⟨_, finishes_iff.mpr (.inl ⟨blocked', rfl⟩), like⟩
  · obtain ⟨first, started, after⟩ := Option.bind_eq_some_iff.mp reached
    obtain ⟨first', started', follows⟩ := Follows.start started diagnostics
    obtain ⟨k, x', after', follows'⟩ := follows.reach after
    obtain ⟨outcome', ends', like⟩ := follows'.ends ends plain
    refine ⟨outcome', finishes_iff.mpr (.inr ⟨k, x', ?_, ends'⟩), like⟩
    exact Option.bind_eq_some_iff.mpr ⟨first', started', after'⟩

/-- A call that returns to a breakpoint, behind which a variable is missing. -/
def breakAfterCall : Machine where
  program :=
    { instructions := #[⟨.call, 1, [⟨1, .label "f"⟩]⟩, ⟨.breakpoint, 2, []⟩,
        ⟨.write, 3, [⟨1, .variable ⟨.global, "x"⟩⟩]⟩, ⟨.label, 4, [⟨1, .label "f"⟩]⟩,
        ⟨.dprint, 5, [⟨1, .literal "1" (.int 1)⟩]⟩, ⟨.ret, 6, []⟩] }
  input := { pending := [] }

/-- Both runs fail in the same instruction, which stands at different indices. -/
theorem breakAfterCall_transparent :
    ∃ outcome outcome', breakAfterCall.Finishes outcome ∧
      outcome.result = .error ⟨.noVariable ⟨.global, "x"⟩, some ⟨.write, 3⟩⟩ ∧
      { breakAfterCall with program := breakAfterCall.program.withoutDebug }.Finishes outcome' ∧
      EndsLike outcome outcome' := by
  have finishes : breakAfterCall.Finishes _ := ⟨6, rfl⟩
  obtain ⟨outcome', finishes', like⟩ :=
    debug_transparent breakAfterCall breakAfterCall.diagnostics _ finishes (by
      intro error site failed blamed
      cases failed
      cases blamed
      decide)
  exact ⟨_, outcome', finishes, rfl, finishes', like⟩

end Machine

end FrameCode
