import FrameCode.Proofs.Fallible

/-!
Laws of the frames. What the frames hold is known from the slots of the variables: each operation is
described by the one slot that it changes, and by what it finds there when it fails. An operation
that fails leaves the frames as they were (`Frames.Unharmed`), so the actions that change frames do
all or nothing (`Machine.withFrames_ensures`, `Machine.assign_ensures`).
-/

namespace FrameCode

/-- Setting a name changes what is held under it and nothing else. -/
theorem Frame.get?_set (frame : Frame) (name other : String) (slot : Option Value) :
    (frame.set name slot).get? other = if other = name then some slot else frame.get? other := by
  unfold Frame.set Frame.get?
  rw [Std.TreeMap.getElem?_insert]
  by_cases same : other = name
  · simp [same]
  · simp [same, Ne.symm same]

namespace Frames

/-- Replacing a frame changes what stands under its tag and nothing else. -/
theorem frame?_setFrame (frames : Frames) (tag other : FrameTag) (frame : Frame) :
    (frames.setFrame tag frame).frame? other =
      if other = tag then some frame else frames.frame? other := by
  cases tag <;> cases other <;> rfl

/-- Setting a slot of a frame that is there changes no other slot, in this frame or another. -/
theorem slot?_setFrame {frames : Frames} {frame : Frame} {var : Variable}
    (present : frames.frame? var.frame = some frame) (slot : Option Value) (other : Variable) :
    (frames.setFrame var.frame (frame.set var.name slot)).slot? other =
      if other = var then some slot else frames.slot? other := by
  unfold slot?
  rw [frame?_setFrame]
  by_cases tag : other.frame = var.frame
  · rw [if_pos tag, Option.bind_some, Frame.get?_set, tag, present, Option.bind_some]
    by_cases name : other.name = var.name
    · have same : other = var := by
        cases other
        cases var
        simp_all
      rw [if_pos name, if_pos same]
    · rw [if_neg name, if_neg fun same => name (congrArg Variable.name same)]
  · rw [if_neg tag, if_neg fun same => tag (congrArg Variable.frame same)]

/-- The slot of a variable lies in its frame. -/
theorem slot?_of_frame? {frames : Frames} {frame : Frame} {var : Variable}
    (present : frames.frame? var.frame = some frame) :
    frames.slot? var = frame.get? var.name := by
  rw [slot?, present, Option.bind_some]

/-- A frame that is asked for is there, or the fault names it. -/
theorem frame_ensures (frames : Frames) (tag : FrameTag) :
    Ensures (fun frame => frames.frame? tag = some frame)
      (fun fault => fault = .noFrame tag ∧ frames.frame? tag = none) (frames.frame tag) := by
  unfold frame
  cases present : frames.frame? tag with
  | none => exact ⟨rfl, rfl⟩
  | some frame => exact rfl

theorem frame_eq_ok_iff {frames : Frames} {tag : FrameTag} {frame : Frame} :
    frames.frame tag = .ok frame ↔ frames.frame? tag = some frame := by
  unfold Frames.frame
  cases frames.frame? tag with
  | none => simp
  | some frame' => simp

/-- Putting back the frame that is there changes nothing. -/
theorem setFrame_of_frame? {frames : Frames} {tag : FrameTag} {frame : Frame}
    (present : frames.frame? tag = some frame) : frames.setFrame tag frame = frames := by
  cases tag with
  | global =>
      cases present
      rfl
  | «local» =>
      obtain ⟨rest, items⟩ := List.head?_eq_some_iff.mp present
      rw [setFrame, items, List.tail_cons, ← items]
  | temporary =>
      have same : frames.temporary = some frame := present
      rw [setFrame, ← same]

/-! ### Failures -/

/-- An operation that fails leaves the frames as they were. -/
def Unharmed (frames : Frames) (change : Except Fault Unit × Frames) : Prop :=
  ∀ fault, change.1 = .error fault → change.2 = frames

/-- The frame of a variable that is declared already is put back as it is. -/
theorem declare_unharmed (frames : Frames) (var : Variable) :
    frames.Unharmed (frames.declare var) := by
  intro fault failed
  unfold declare at failed ⊢
  cases present : frames.frame var.frame with
  | error missing => rfl
  | ok frame =>
      cases held : frame.get? var.name with
      | some slot =>
          simp only [Frame.declare, held]
          exact setFrame_of_frame? (frame_eq_ok_iff.mp present)
      | none => simp [present, Frame.declare, held] at failed

/-- Where the variable is not found, nothing is written. -/
theorem write_unharmed (frames : Frames) (var : Variable) (value : Value) :
    frames.Unharmed (frames.write var value) := by
  intro fault failed
  unfold write at failed ⊢
  cases present : frames.frame var.frame with
  | error missing => rfl
  | ok frame =>
      cases held : frame.get? var.name with
      | some slot => simp [present, held] at failed
      | none => simp only [held]

/-- The temporary frame is taken away before it is known to be there. -/
theorem pushTemporary_unharmed (frames : Frames) : frames.Unharmed frames.pushTemporary := by
  intro fault failed
  unfold pushTemporary at failed ⊢
  cases present : frames.temporary with
  | some frame => simp [present] at failed
  | none =>
      change { frames with temporary := none } = frames
      rw [← present]

/-- An empty stack of frames is left as it is. -/
theorem popTemporary_unharmed (frames : Frames) : frames.Unharmed frames.popTemporary := by
  intro fault failed
  unfold popTemporary at failed ⊢
  cases popped : frames.locals.pop (Fault.noFrame .local) with
  | error empty => rfl
  | ok taken => simp [popped] at failed

/-! ### What makes an operation succeed -/

/-- A declaration succeeds in a frame that is there and does not hold the name. -/
theorem declare_eq_ok_iff {frames frames' : Frames} {var : Variable} :
    frames.declare var = (.ok (), frames') ↔
      ∃ frame, frames.frame? var.frame = some frame ∧ frame.get? var.name = none ∧
        frames.setFrame var.frame (frame.set var.name none) = frames' := by
  unfold declare
  simp only [← frame_eq_ok_iff]
  cases frames.frame var.frame with
  | error missing => simp
  | ok frame =>
      cases held : frame.get? var.name with
      | none => simp [Frame.declare, held]
      | some slot => simp [Frame.declare, held]

/-- A value is stored in a frame that is there and holds the name. -/
theorem write_eq_ok_iff {frames frames' : Frames} {var : Variable} {value : Value} :
    frames.write var value = (.ok (), frames') ↔
      ∃ frame, frames.frame? var.frame = some frame ∧ (frame.get? var.name).isSome ∧
        frames.setFrame var.frame (frame.set var.name (some value)) = frames' := by
  unfold write
  simp only [← frame_eq_ok_iff]
  cases frames.frame var.frame with
  | error missing => simp
  | ok frame =>
      cases held : frame.get? var.name with
      | none => simp [held]
      | some slot => simp [held]

/-- The temporary frame, if there is one, becomes the local one. -/
theorem pushTemporary_eq_ok_iff {frames frames' : Frames} :
    frames.pushTemporary = (.ok (), frames') ↔
      ∃ frame, frames.temporary = some frame ∧
        { frames with temporary := none, locals := frames.locals.push frame } = frames' := by
  unfold pushTemporary
  cases frames.temporary with
  | none => simp
  | some frame => simp

/-- The local frame, if there is one, becomes the temporary one. -/
theorem popTemporary_eq_ok_iff {frames frames' : Frames} :
    frames.popTemporary = (.ok (), frames') ↔
      ∃ frame rest, frames.locals.items = frame :: rest ∧
        { frames with temporary := some frame, locals := ⟨rest⟩ } = frames' := by
  unfold popTemporary Stack.pop
  cases frames.locals.items with
  | nil => simp
  | cons frame rest => simp [and_assoc]

/-- A declaration fails where the frame is missing or holds the variable already. Otherwise it adds
the variable, without a value, and changes no other slot. -/
theorem declare_ensures (frames : Frames) (var : Variable) :
    Ensures
      (fun frames' => frames.slot? var = none ∧
        ∀ other, frames'.slot? other = if other = var then some none else frames.slot? other)
      (fun fault =>
        (fault = .noFrame var.frame ∧ frames.frame? var.frame = none) ∨
          (fault = .variableRedefinition var ∧ (frames.slot? var).isSome))
      (committed (frames.declare var)) := by
  have ensured := frames.frame_ensures var.frame
  unfold declare
  cases found : frames.frame var.frame with
  | error missing =>
      rw [found] at ensured
      exact .inl ensured
  | ok frame =>
      rw [found] at ensured
      have slot := slot?_of_frame? ensured
      cases held : frame.get? var.name with
      | some present =>
          simp only [Frame.declare, held]
          exact .inr ⟨rfl, by rw [slot, held]; rfl⟩
      | none =>
          simp only [Frame.declare, held]
          exact ⟨slot.trans held, slot?_setFrame ensured none⟩

/-- A redefinition is reported exactly where the variable is declared already. -/
theorem declare_eq_redefinition_iff {frames : Frames} {var other : Variable} :
    (frames.declare var).1 = .error (.variableRedefinition other) ↔
      other = var ∧ (frames.slot? var).isSome := by
  have ensured := frames.declare_ensures var
  rw [← committed_eq_error_iff]
  constructor
  · intro failed
    obtain ⟨fault, -⟩ | ⟨fault, held⟩ := ensured.error failed
    · cases fault
    · cases fault
      exact ⟨rfl, held⟩
  · rintro ⟨rfl, held⟩
    cases declared : committed (frames.declare other) with
    | ok frames' => simp [(ensured.ok declared).1] at held
    | error fault =>
        obtain ⟨-, missing⟩ | ⟨rfl, -⟩ := ensured.error declared
        · simp [slot?, missing] at held
        · rfl

/-- Storing a value fails where the variable is not declared. Otherwise it changes no other slot. -/
theorem write_ensures (frames : Frames) (var : Variable) (value : Value) :
    Ensures
      (fun frames' => (frames.slot? var).isSome ∧
        ∀ other, frames'.slot? other =
          if other = var then some (some value) else frames.slot? other)
      (fun _ => frames.slot? var = none) (committed (frames.write var value)) := by
  have ensured := frames.frame_ensures var.frame
  unfold write
  cases found : frames.frame var.frame with
  | error missing =>
      rw [found] at ensured
      change frames.slot? var = none
      rw [slot?, ensured.2, Option.bind_none]
  | ok frame =>
      rw [found] at ensured
      have slot := slot?_of_frame? ensured
      cases held : frame.get? var.name with
      | some present =>
          simp only [held]
          exact ⟨by rw [slot, held]; rfl, slot?_setFrame ensured (some value)⟩
      | none =>
          simp only [held]
          exact slot.trans held

/-- Moving the temporary frame leaves the global one alone. -/
theorem pushTemporary_global {frames frames' : Frames}
    (pushed : frames.pushTemporary = (.ok (), frames')) : frames'.global = frames.global := by
  obtain ⟨frame, -, rfl⟩ := pushTemporary_eq_ok_iff.mp pushed
  rfl

theorem popTemporary_global {frames frames' : Frames}
    (popped : frames.popTemporary = (.ok (), frames')) : frames'.global = frames.global := by
  obtain ⟨frame, rest, -, rfl⟩ := popTemporary_eq_ok_iff.mp popped
  rfl

end Frames

/-! ### Actions on the frames -/

namespace Machine

variable {m : Machine} {instr : Instruction}

/-- Taking over the frames is all or nothing if the operation on them is. -/
theorem withFrames_eq_attempt {change : Except Fault Unit × Frames}
    (unharmed : m.frames.Unharmed change) :
    m.withFrames change = m.attempt ((committed change).map fun frames => { m with frames }) := by
  obtain ⟨result, frames⟩ := change
  cases result with
  | ok _ => rfl
  | error fault =>
      obtain rfl : frames = m.frames := unharmed fault rfl
      rfl

/-- The rule for an operation on the frames: if it fails, the machine is left as it is. -/
theorem withFrames_ensures {good : Machine → Prop} {bad : Fault → Machine → Prop}
    {change : Except Fault Unit × Frames} (unharmed : m.frames.Unharmed change)
    (onOk : ∀ frames, change = (.ok (), frames) → good { m with frames })
    (onError : ∀ fault, change.1 = .error fault → bad fault m) :
    (m.withFrames change).Ensures good bad := by
  rw [withFrames_eq_attempt unharmed]
  refine .attempt (.map ?_)
  cases eq : committed change with
  | ok frames => exact onOk frames (committed_eq_ok_iff.mp eq)
  | error fault => exact onError fault (committed_eq_error_iff.mp eq)

/-- The rule for storing a value: it is stored in the destination or nothing is changed. -/
theorem assign_ensures {good : Machine → Prop} {bad : Fault → Machine → Prop} {value : Value}
    (onOk : ∀ var frames, instr.destination = .ok var →
      m.frames.write var value = (.ok (), frames) → good { m with frames })
    (onError : ∀ fault, bad fault m) : (m.assign instr value).Ensures good bad :=
  evaluate_ensures (fun fault _ => onError fault) fun var destination =>
    withFrames_ensures (m.frames.write_unharmed var value)
      (fun frames written => onOk var frames destination written) fun fault _ => onError fault

end Machine

end FrameCode
