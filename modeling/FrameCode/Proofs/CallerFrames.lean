import FrameCode.Proofs.Machine.Variables

/-!
The frames of callers. An instruction reaches no pushed frame but the top one: it changes the frame
in this place, puts another one on top of it or takes it away (`Touches.reaches`). So what lies
below the top frame stays as it is, and a run that keeps one frame above the bottom `d` frames
leaves those alone, whatever it declares, stores, calls, pushes and pops in the meantime.
-/

namespace FrameCode

namespace Frames

/-- The lowest pushed frames, so many of them, from the bottom up. -/
def bottom (frames : Frames) (count : Nat) : List Frame :=
  frames.locals.toList.take count

/-- What can become of the pushed frames without reaching below the top one. -/
inductive Reaches (frames frames' : Frames) : Prop where
  | keep (same : frames'.locals = frames.locals)
  | change {top top' : Frame} {rest : List Frame} (before : frames.locals.items = top :: rest)
      (after : frames'.locals.items = top' :: rest)
  | push {top : Frame} (after : frames'.locals.items = top :: frames.locals.items)
  | pop {top : Frame} (before : frames.locals.items = top :: frames'.locals.items)

/-! ### Operations -/

/-- Replacing a frame changes none that lies below the top. -/
theorem reaches_setFrame {frames : Frames} {tag : FrameTag} {frame : Frame}
    (present : frames.frame? tag = some frame) (changed : Frame) :
    frames.Reaches (frames.setFrame tag changed) := by
  cases tag with
  | global => exact .keep rfl
  | temporary => exact .keep rfl
  | «local» =>
      cases items : frames.locals.items with
      | nil => simp [frame?, Stack.top?, items] at present
      | cons top rest =>
          have after : (frames.setFrame .local changed).locals.items = changed :: rest := by
            simp [setFrame, items]
          exact .change items after

/-- Storing a value changes the top frame at most. -/
theorem reaches_write {frames frames' : Frames} {var : Variable} {value : Value}
    (written : frames.write var value = (.ok (), frames')) : frames.Reaches frames' := by
  obtain ⟨frame, present, -, rfl⟩ := write_eq_ok_iff.mp written
  exact reaches_setFrame present _

/-- A declaration changes the top frame at most. -/
theorem reaches_declare {frames frames' : Frames} {var : Variable}
    (declared : frames.declare var = (.ok (), frames')) : frames.Reaches frames' := by
  obtain ⟨frame, present, -, rfl⟩ := declare_eq_ok_iff.mp declared
  exact reaches_setFrame present _

/-- Pushing leaves all frames where they are, below the new one. -/
theorem reaches_pushTemporary {frames frames' : Frames}
    (pushed : frames.pushTemporary = (.ok (), frames')) : frames.Reaches frames' := by
  obtain ⟨frame, -, rfl⟩ := pushTemporary_eq_ok_iff.mp pushed
  exact .push rfl

theorem reaches_popTemporary {frames frames' : Frames}
    (popped : frames.popTemporary = (.ok (), frames')) : frames.Reaches frames' := by
  obtain ⟨frame, rest, items, rfl⟩ := popTemporary_eq_ok_iff.mp popped
  exact .pop items

/-! ### What lies below the top frame -/

/-- The bottom frames do not depend on the top one. -/
theorem bottom_of_items {frames : Frames} {top : Frame} {rest : List Frame} {d : Nat}
    (items : frames.locals.items = top :: rest) (within : d ≤ rest.length) :
    frames.bottom d = rest.reverse.take d := by
  rw [bottom, Stack.toList, items, List.reverse_cons]
  exact List.take_append_of_le_length (by simpa using within)

/-- A stack that is deep enough has as many bottom frames as are asked for. -/
theorem length_bottom {frames : Frames} {d : Nat} (deep : d ≤ frames.depth) :
    (frames.bottom d).length = d := by
  rw [bottom, Stack.toList, List.length_take, List.length_reverse]
  exact Nat.min_eq_left deep

/-- Frames that are not on top before or after are the same before and after. -/
theorem Reaches.bottom {frames frames' : Frames} {d : Nat} (reaches : frames.Reaches frames')
    (deep : d < frames.depth) (deep' : d < frames'.depth) :
    frames'.bottom d = frames.bottom d := by
  unfold depth Stack.size at deep deep'
  cases reaches with
  | keep same => rw [Frames.bottom, Frames.bottom, same]
  | change before after =>
      have within : d ≤ _ := Nat.le_of_lt_succ (by simpa [before] using deep)
      rw [bottom_of_items before within, bottom_of_items after within]
  | push after =>
      rw [bottom_of_items after (Nat.le_of_lt deep)]
      rfl
  | pop before =>
      rw [bottom_of_items before (Nat.le_of_lt deep')]
      rfl

end Frames

/-! ### Instructions and runs -/

/-- No instruction reaches below the top frame. -/
theorem Instruction.Touches.reaches {instr : Instruction} {frames frames' : Frames}
    (touches : instr.Touches frames frames') : frames.Reaches frames' := by
  cases touches with
  | keep _ same => exact .keep (by rw [same])
  | store _ _ written => exact Frames.reaches_write written
  | declare _ _ declared => exact Frames.reaches_declare declared
  | create _ same => exact .keep (by rw [same]; rfl)
  | push _ pushed => exact Frames.reaches_pushTemporary pushed
  | pop _ popped => exact Frames.reaches_popTemporary popped

namespace Machine

/-- No step reaches below the top frame. -/
theorem reaches_of_advance? {m m' : Machine} (advance : m.advance? = some m') :
    m.frames.Reaches m'.frames := by
  obtain ⟨index, pc, -⟩ := advance?_eq_some_iff.mp advance
  obtain ⟨-, same⟩ | ⟨instr, -, touches⟩ := advance?_touches pc advance
  · exact .keep (by rw [same])
  · exact touches.reaches

/-- The bottom frames between two steps of a run, if in between there was always one above them. -/
theorem bottom_of_stateAt? {m x y : Machine} {first last d : Nat} (later : first ≤ last)
    (start : m.stateAt? first = some x) (stop : m.stateAt? last = some y)
    (deep : ∀ n z, first ≤ n → n ≤ last → m.stateAt? n = some z → d < z.frames.depth) :
    y.frames.bottom d = x.frames.bottom d := by
  obtain ⟨k, rfl⟩ := Nat.exists_eq_add_of_le later
  induction k generalizing y with
  | zero =>
      cases start.symm.trans stop
      rfl
  | succ k ih =>
      have deepAfter := deep (first + (k + 1)) y (by omega) (by omega) stop
      obtain ⟨z, before, advance⟩ := stateAt?_succ_iff.mp stop
      have deepBefore := deep (first + k) z (by omega) (by omega) before
      have kept := ih (by omega) before fun n z lower upper => deep n z lower (by omega)
      exact ((reaches_of_advance? advance).bottom deepBefore deepAfter).trans kept

/-- Caller frames are isolated. Between two states of a run, of which the later one may be what a
failing step leaves, the bottom `d` frames are the same, with all their variables and values, if
there are more than `d` of them all the time. -/
theorem caller_frames_isolated {m x y : Machine} {first last d : Nat} (later : first ≤ last)
    (start : m.stateAt? first = some x) (stop : m.Shows last y)
    (deep : ∀ n z, first ≤ n → n ≤ last → m.stateAt? n = some z → d + 1 ≤ z.frames.depth) :
    (x.frames.bottom d).length = d ∧ y.frames.bottom d = x.frames.bottom d := by
  constructor
  · exact Frames.length_bottom (Nat.le_of_lt (deep first x (Nat.le_refl _) later start))
  · cases stop with
    | between reached => exact bottom_of_stateAt? later start reached deep
    | failure reached _ failed =>
        rw [frames_of_step_fail failed]
        exact bottom_of_stateAt? later start reached deep

/-- A program that declares a variable of the same name in two frames on top of each other, and a
third frame for a while. The last instruction fails. -/
def shadowing : Machine where
  program :=
    { instructions := #[⟨.createFrame, 1, []⟩, ⟨.defVar, 2, [⟨1, .variable ⟨.temporary, "x"⟩⟩]⟩,
        ⟨.move, 3, [⟨1, .variable ⟨.temporary, "x"⟩⟩, ⟨2, .literal "1" (.int 1)⟩]⟩,
        ⟨.pushFrame, 4, []⟩, ⟨.createFrame, 5, []⟩, ⟨.pushFrame, 6, []⟩,
        ⟨.defVar, 7, [⟨1, .variable ⟨.local, "x"⟩⟩]⟩,
        ⟨.move, 8, [⟨1, .variable ⟨.local, "x"⟩⟩, ⟨2, .literal "2" (.int 2)⟩]⟩,
        ⟨.createFrame, 9, []⟩, ⟨.pushFrame, 10, []⟩, ⟨.popFrame, 11, []⟩,
        ⟨.move, 12, [⟨1, .variable ⟨.local, "y"⟩⟩, ⟨2, .variable ⟨.local, "x"⟩⟩]⟩] }
  input := { pending := [] }

/-- From the second frame on, until the run fails, the variable in the first frame is what it was,
while that of the same name in the second frame is another one. -/
theorem shadowing_isolated :
    ∃ (x y out : Machine) (error : RuntimeError), shadowing.stateAt? 6 = some x ∧
      shadowing.stateAt? 11 = some y ∧ y.step 11 = out.fail error ∧
      (x.frames.bottom 1).map (·.get? "x") = [some (some (.int 1))] ∧
      out.frames.slot? ⟨.local, "x"⟩ = some (some (.int 2)) ∧
      out.frames.bottom 1 = x.frames.bottom 1 := by
  have deep : ∀ n z, 6 ≤ n → n ≤ 11 → shadowing.stateAt? n = some z → 1 + 1 ≤ z.frames.depth := by
    intro n z lower upper reached
    have cases : n = 6 ∨ n = 7 ∨ n = 8 ∨ n = 9 ∨ n = 10 ∨ n = 11 := by omega
    rcases cases with rfl | rfl | rfl | rfl | rfl | rfl
    all_goals
      cases reached
      decide
  obtain ⟨x, start, caller⟩ : ∃ x, shadowing.stateAt? 6 = some x ∧
      (x.frames.bottom 1).map (·.get? "x") = [some (some (.int 1))] :=
    ⟨_, rfl, rfl⟩
  obtain ⟨y, out, error, reached, pc, failed, callee⟩ :
      ∃ (y out : Machine) (error : RuntimeError), shadowing.stateAt? 11 = some y ∧
        y.pc = some 11 ∧ y.step 11 = out.fail error ∧
        out.frames.slot? ⟨.local, "x"⟩ = some (some (.int 2)) :=
    ⟨_, _, _, rfl, rfl, rfl, rfl⟩
  have stop : shadowing.Shows 11 out := .failure reached pc failed
  refine ⟨x, y, out, error, start, reached, failed, caller, callee, ?_⟩
  exact (caller_frames_isolated (by decide) start stop deep).2

end Machine

end FrameCode
