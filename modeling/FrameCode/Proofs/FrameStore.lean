import FrameCode.Proofs.SuccessEffects

/-!
The laws of the frames as a store. A variable is looked up by its frame and its name, so storing in
one leaves all others alone, those of the same name in other frames and in the frames below the
local one included. A frame is moved as a whole when it is pushed and popped: popping undoes
pushing, and pushing undoes popping if there was no temporary frame that popping has replaced.
-/

namespace FrameCode

namespace Frames

variable {frames frames' : Frames} {var : Variable}

/-! ### Reading -/

/-- A lookup finds the slot of the variable. -/
theorem lookup_eq_ok_iff {slot : Option Value} :
    frames.lookup var = .ok slot ↔ frames.slot? var = some slot := by
  unfold lookup slot?
  simp only [bind_eq_ok_iff, frame_eq_ok_iff, Option.bind_eq_some_iff]
  refine exists_congr fun frame => and_congr_right fun _ => ?_
  cases frame.get? var.name with
  | none => simp
  | some slot' => simp

/-- Reading finds the value in the slot, so a variable without a value cannot be read. -/
theorem read_eq_ok_iff {value : Value} :
    frames.read var = .ok value ↔ frames.slot? var = some (some value) := by
  unfold read
  simp only [bind_eq_ok_iff, lookup_eq_ok_iff]
  constructor
  · rintro ⟨slot, found, rest⟩
    cases slot with
    | none => cases rest
    | some value' =>
        cases rest
        exact found
  · intro found
    exact ⟨some value, found, rfl⟩

/-! ### Storing and declaring -/

/-- Setting a slot neither pushes nor pops a frame. -/
theorem depth_of_setsSlot {slot : Option Value} (sets : SetsSlot var slot frames frames') :
    frames'.depth = frames.depth := by
  have present : frames'.locals.items.head?.isSome = frames.locals.items.head?.isSome :=
    sets.present .local
  have hidden := sets.hidden
  unfold depth Stack.size
  cases after : frames'.locals.items with
  | nil =>
      cases before : frames.locals.items with
      | nil => rfl
      | cons top rest => simp [after, before] at present
  | cons top rest =>
      cases before : frames.locals.items with
      | nil => simp [after, before] at present
      | cons top' rest' =>
          rw [after, before, List.tail_cons, List.tail_cons] at hidden
          rw [hidden, List.length_cons, List.length_cons]

/-- A declaration succeeds exactly in a frame that is there and does not hold the variable. -/
theorem exists_declare_eq_ok_iff :
    (∃ frames', frames.declare var = (.ok (), frames')) ↔
      (frames.frame? var.frame).isSome ∧ frames.slot? var = none := by
  simp only [declare_eq_ok_iff]
  constructor
  · rintro ⟨_, frame, present, free, -⟩
    exact ⟨by rw [present]; rfl, (slot?_of_frame? present).trans free⟩
  · rintro ⟨there, free⟩
    obtain ⟨frame, present⟩ := Option.isSome_iff_exists.mp there
    exact ⟨_, frame, present, (slot?_of_frame? present).symm.trans free, rfl⟩

/-! ### Moving the temporary frame -/

/-- Popping undoes pushing. -/
theorem popTemporary_of_pushTemporary (pushed : frames.pushTemporary = (.ok (), frames')) :
    frames'.popTemporary = (.ok (), frames) := by
  obtain ⟨frame, present, rfl⟩ := pushTemporary_eq_ok_iff.mp pushed
  refine popTemporary_eq_ok_iff.mpr ⟨frame, frames.locals.items, rfl, ?_⟩
  rw [← present]

/-- Pushing what has been popped leaves no temporary frame and is otherwise as before. -/
theorem pushTemporary_of_popTemporary (popped : frames.popTemporary = (.ok (), frames')) :
    frames'.pushTemporary = (.ok (), { frames with temporary := none }) := by
  obtain ⟨frame, rest, items, rfl⟩ := popTemporary_eq_ok_iff.mp popped
  refine pushTemporary_eq_ok_iff.mpr ⟨frame, rfl, ?_⟩
  rw [Stack.push, ← items]

/-- Taking the temporary frame away changes nothing exactly if there is none. -/
theorem without_temporary_eq_iff :
    { frames with temporary := none } = frames ↔ frames.frame? .temporary = none := by
  constructor
  · intro same
    rw [← same]
    rfl
  · intro missing
    change frames.temporary = none at missing
    rw [← missing]

/-- What was temporary is local after pushing. -/
theorem slot?_of_pushTemporary (pushed : frames.pushTemporary = (.ok (), frames'))
    (name : String) :
    frames'.slot? ⟨.local, name⟩ = frames.slot? ⟨.temporary, name⟩ := by
  obtain ⟨frame, present, rfl⟩ := pushTemporary_eq_ok_iff.mp pushed
  have before : frames.frame? .temporary = some frame := present
  rw [slot?, slot?, before]
  rfl

/-! ### The store -/

/-- The laws of the frames, of any frames and not only of those that operations lead to. An
operation that fails, or an instruction that does, leaves the frames as they are. A value that is
stored is read back, and a declaration succeeds exactly in a frame that is there and does not hold
the variable; both set one slot and leave all others and the depth alone. Popping undoes pushing,
and pushing undoes popping exactly if there was no temporary frame. What was read in the temporary
frame is read in the local one after pushing, and the temporary frame is gone. -/
theorem frame_store_laws (frames : Frames) :
    (∀ var value, frames.Unharmed (frames.declare var) ∧ frames.Unharmed (frames.write var value) ∧
        frames.Unharmed frames.pushTemporary ∧ frames.Unharmed frames.popTemporary) ∧
      (∀ (m : Machine) (instr : Instruction) (fault : Fault), m.frames = frames →
        (instr.perform m).result = .error fault → (instr.perform m).machine.frames = frames) ∧
      (∀ var value frames', frames.write var value = (.ok (), frames') →
        frames'.read var = .ok value ∧ SetsSlot var (some value) frames frames' ∧
          frames'.depth = frames.depth) ∧
      (∀ var, (∃ frames', frames.declare var = (.ok (), frames')) ↔
        (frames.frame? var.frame).isSome ∧ frames.slot? var = none) ∧
      (∀ var frames', frames.declare var = (.ok (), frames') →
        SetsSlot var none frames frames' ∧ frames'.depth = frames.depth) ∧
      (∀ frames', frames.pushTemporary = (.ok (), frames') →
        frames'.popTemporary = (.ok (), frames)) ∧
      (∀ frames', frames.popTemporary = (.ok (), frames') →
        ∃ again, frames'.pushTemporary = (.ok (), again) ∧
          (again = frames ↔ frames.frame? .temporary = none)) ∧
      ∀ frames', frames.pushTemporary = (.ok (), frames') →
        frames'.frame? .temporary = none ∧
          ∀ name, frames'.slot? ⟨.local, name⟩ = frames.slot? ⟨.temporary, name⟩ ∧
            (∀ slot, frames'.lookup ⟨.local, name⟩ = .ok slot ↔
              frames.lookup ⟨.temporary, name⟩ = .ok slot) ∧
            ∀ value, frames'.read ⟨.local, name⟩ = .ok value ↔
              frames.read ⟨.temporary, name⟩ = .ok value := by
  refine ⟨?_, ?_, ?_, fun _ => exists_declare_eq_ok_iff, ?_,
    fun _ => popTemporary_of_pushTemporary, ?_, ?_⟩
  · intro var value
    exact ⟨frames.declare_unharmed var, frames.write_unharmed var value,
      frames.pushTemporary_unharmed, frames.popTemporary_unharmed⟩
  · rintro m instr fault rfl failed
    exact (instr.perform_touches m).error failed
  · intro var value frames' written
    have sets := (setsSlot_of_write written).2
    refine ⟨read_eq_ok_iff.mpr ?_, sets, depth_of_setsSlot sets⟩
    rw [sets.slots, if_pos rfl]
  · intro var frames' declared
    have sets := (setsSlot_of_declare declared).2
    exact ⟨sets, depth_of_setsSlot sets⟩
  · intro frames' popped
    exact ⟨_, pushTemporary_of_popTemporary popped, without_temporary_eq_iff⟩
  · intro frames' pushed
    have gone : frames'.frame? .temporary = none := by
      obtain ⟨frame, -, rfl⟩ := pushTemporary_eq_ok_iff.mp pushed
      rfl
    refine ⟨gone, fun name => ?_⟩
    have same := slot?_of_pushTemporary pushed name
    simp only [lookup_eq_ok_iff, read_eq_ok_iff, same, implies_true, and_self]

/-- A variable of one name in all three frames. -/
def threefold : Frames where
  global := Frame.set {} "x" none
  temporary := some (Frame.set {} "x" (some (.int 1)))
  locals := ⟨[Frame.set {} "x" (some (.int 2)), {}]⟩

def declaringAgain : Machine where
  program := { instructions := #[.of 1 .defVar [.variable ⟨.local, "x"⟩]] }
  frames := threefold
  input := { pending := [] }

/-- The declaration fails and changes nothing. Storing in the local frame leaves the variables of
the same name alone. The frames are restored by popping after pushing, but not by pushing after
popping. -/
theorem threefold_laws :
    (threefold.declare ⟨.local, "x"⟩).2 = threefold ∧
      ((Instruction.of 1 .defVar [.variable ⟨.local, "x"⟩]).perform declaringAgain).machine.frames =
        threefold ∧
      (∃ frames', threefold.write ⟨.local, "x"⟩ .nil = (.ok (), frames') ∧
        frames'.read ⟨.local, "x"⟩ = .ok .nil ∧
        frames'.slot? ⟨.temporary, "x"⟩ = some (some (.int 1)) ∧
        frames'.slot? ⟨.global, "x"⟩ = some none ∧ frames'.depth = 2) ∧
      (∃ frames', threefold.pushTemporary = (.ok (), frames') ∧
        frames'.popTemporary = (.ok (), threefold) ∧
        frames'.read ⟨.local, "x"⟩ = .ok (.int 1)) ∧
      ∃ frames' again, threefold.popTemporary = (.ok (), frames') ∧
        frames'.pushTemporary = (.ok (), again) ∧ again ≠ threefold := by
  obtain ⟨unharmed, failure, write, -, -, pushPop, popPush, pushed⟩ := frame_store_laws threefold
  obtain ⟨written, wrote⟩ : ∃ frames', threefold.write ⟨.local, "x"⟩ .nil = (.ok (), frames') :=
    ⟨_, rfl⟩
  obtain ⟨after, push⟩ : ∃ frames', threefold.pushTemporary = (.ok (), frames') := ⟨_, rfl⟩
  obtain ⟨taken, pop⟩ : ∃ frames', threefold.popTemporary = (.ok (), frames') := ⟨_, rfl⟩
  obtain ⟨readBack, sets, depth⟩ := write _ _ _ wrote
  obtain ⟨again, pushedAgain, restored⟩ := popPush _ pop
  refine ⟨(unharmed ⟨.local, "x"⟩ .nil).1 (.variableRedefinition ⟨.local, "x"⟩) rfl,
    failure declaringAgain _ (.variableRedefinition ⟨.local, "x"⟩) rfl rfl,
    ⟨written, wrote, readBack, ?_, ?_, depth⟩, ⟨after, push, pushPop _ push, ?_⟩,
    taken, again, pop, pushedAgain, ?_⟩
  · exact (sets.slots _).trans rfl
  · exact (sets.slots _).trans rfl
  · exact ((pushed _ push).2 "x").2.2 _ |>.mpr rfl
  · intro same
    cases restored.mp same

end Frames

end FrameCode
