import FrameCode.Proofs.Machine.Control
import FrameCode.Proofs.Operands

/-!
Calls and returns. Between the steps of any run the call records and the running function form a
chain: the function that a record saves is the one that the record below it entered, and the running
function is the one that the top record entered. So a return goes back behind the call that it
matches, into the function that made it, whatever was called or jumped to in between. A step that
fails leaves a chain too, unless it calls an undefined label: the record of that call is kept, but
no function is running.
-/

namespace FrameCode

/-- The label named by the call at an index; none if no call stands there. -/
def Program.calledAt? (program : Program) (index : Nat) : Option String :=
  (program.get? index).bind fun instr => if instr.opcode = .call then instr.label? else none

def Program.CallsUndefined (program : Program) (index : Nat) (label : String) : Prop :=
  ∃ instr, program.get? index = some instr ∧ instr.CallsMissing program.labels label

namespace Machine

/-- The function that a call entered, found in front of the point it returns to. -/
def callee? (m : Machine) (record : CallRecord) : Option String :=
  m.program.calledAt? (record.returnTo - 1)

/-- The call records, from the bottom, and the running function agree with the program's calls. -/
structure CallChain (m : Machine) : Prop where
  /-- Every record returns behind a call. -/
  returns : ∀ record ∈ m.callStack.toList, ∃ index label,
    record.returnTo = index + 1 ∧ m.program.calledAt? index = some label
  /-- The running function is the one entered last. -/
  function : m.function = m.callStack.toList.getLast?.bind m.callee?
  /-- The first call is made outside of functions. -/
  bottom : ∀ record, m.callStack.toList.head? = some record → record.function = none
  /-- Every later call is made in the function entered by the call before it. -/
  link : ∀ j lower upper, m.callStack.toList[j]? = some lower →
    m.callStack.toList[j + 1]? = some upper → upper.function = m.callee? lower

/-- The step number `n` of the run of `m` is a return that brings the call depth to `depth`. -/
def ReturnsTo (m : Machine) (n depth : Nat) : Prop :=
  (∃ index, m.ExecutesAt n index .ret) ∧
    ∃ x, m.stateAt? (n + 1) = some x ∧ x.callStack.size = depth

/-! ### The chain -/

/-- The form of the chain that pushing and popping a record preserve: the saved functions and then
the running one are, in this order, none and then the functions entered. -/
structure Linked (m : Machine) : Prop where
  returns : ∀ record ∈ m.callStack.toList, ∃ index label,
    record.returnTo = index + 1 ∧ m.program.calledAt? index = some label
  shift : m.callStack.toList.map (·.function) ++ [m.function] =
    none :: m.callStack.toList.map m.callee?

/-- Linked records form a chain of calls. -/
theorem Linked.callChain {m : Machine} (linked : m.Linked) : m.CallChain := by
  obtain ⟨returns, shift⟩ := linked
  refine ⟨returns, ?_, ?_, ?_⟩ <;> generalize m.callStack.toList = records at shift ⊢
  · rcases List.eq_nil_or_concat records with rfl | ⟨lower, top, rfl⟩
    · simpa using shift
    · simp only [List.concat_eq_append, List.map_append, List.map_cons, List.map_nil,
        ← List.cons_append] at shift ⊢
      simpa using List.append_inj_right' shift rfl
  · intro record first
    cases records with
    | nil => cases first
    | cons bottom upper =>
        cases first
        exact (List.cons.inj shift).1
  · intro j lower upper atLower atUpper
    obtain ⟨bound, rfl⟩ := List.getElem?_eq_some_iff.mp atUpper
    have next := congrArg (·[j + 1]?) shift
    simpa [List.getElem?_append, atLower, bound] using next

theorem calledAt?_of_target {m : Machine} {index : Nat} {instr : Instruction} {label : String}
    (found : m.program.get? index = some instr) (opcode : instr.opcode = .call)
    (named : instr.target = .ok label) : m.program.calledAt? index = some label := by
  have isJump : instr.opcode.isJump := by rw [opcode]; rfl
  simp [Program.calledAt?, found, opcode, Instruction.label?_of_target (.inr isJump) named]

/-- Whether records are linked depends on the control of the machine alone. -/
theorem Linked.congr {m m' : Machine} (linked : m.Linked) (program : m'.program = m.program)
    (callStack : m'.callStack = m.callStack) (function : m'.function = m.function) : m'.Linked := by
  have callee : m'.callee? = m.callee? := by
    funext record
    rw [callee?, callee?, program]
  refine ⟨?_, ?_⟩
  · rw [callStack, program]
    exact linked.returns
  · rw [callStack, function, callee]
    exact linked.shift

/-- A call saves a record that links to the chain. -/
theorem Linked.push {m : Machine} (linked : m.Linked) {index : Nat} {label : String}
    (called : m.program.calledAt? index = some label) :
    Linked { m with
      callStack := m.callStack.push ⟨index + 1, m.function⟩, function := some label } := by
  refine ⟨?_, ?_⟩
  · intro record mem
    rw [Stack.toList_push] at mem
    rcases List.mem_append.mp mem with below | top
    · exact linked.returns record below
    · cases List.mem_singleton.mp top
      exact ⟨index, label, rfl, called⟩
  · have entered : m.callee? ⟨index + 1, m.function⟩ = some label := called
    change (m.callStack.push ⟨index + 1, m.function⟩).toList.map (·.function) ++ [some label] =
      none :: (m.callStack.push ⟨index + 1, m.function⟩).toList.map m.callee?
    rw [Stack.toList_push, List.map_append, List.map_append, List.map_singleton, List.map_singleton,
      linked.shift, entered, List.cons_append]

/-- A return leaves the rest of the chain linked. -/
theorem Linked.pop {m : Machine} (linked : m.Linked) {record : CallRecord} {rest : List CallRecord}
    (top : m.callStack.items = record :: rest) :
    Linked { m with callStack := ⟨rest⟩, function := record.function } := by
  have records : m.callStack.toList = rest.reverse ++ [record] := by
    rw [Stack.toList, top, List.reverse_cons]
  obtain ⟨returns, shift⟩ := linked
  rw [records] at returns shift
  refine ⟨fun lower mem => returns lower (List.mem_append_left _ mem), ?_⟩
  rw [List.map_append, List.map_append, ← List.cons_append] at shift
  exact List.append_inj_left' shift rfl

/-- A call adds a record that returns behind it; a return takes one away; no other step touches the
records. -/
theorem Linked.advance {m m' : Machine} (linked : m.Linked) (advance : m.advance? = some m') :
    m'.Linked := by
  obtain ⟨index, pc, ⟨-, rfl⟩ | ⟨instr, out, found, setting, moves, rfl⟩⟩ := advance?_cases advance
  · exact linked.congr rfl rfl rfl
  · cases moves with
    | onward _ same => exact linked.congr setting.program same.callStack same.function
    | jump _ _ _ same => exact linked.congr setting.program same.callStack same.function
    | call opcode named _ same =>
        have called := calledAt?_of_target found opcode named
        exact (linked.push called).congr setting.program same.callStack same.function
    | ret _ top same =>
        exact (linked.pop top).congr setting.program same.callStack same.function
    | exit _ _ same => exact linked.congr setting.program same.callStack same.function

/-- In every state of a run the records are linked. -/
theorem linked_of_stateAt? {m x : Machine} {n : Nat} (reached : m.stateAt? n = some x) :
    x.Linked := by
  refine stateAt?_induction (fun a started => ?_) (fun a b linked => linked.advance) reached
  obtain ⟨-, rfl⟩ := start?_eq_some_iff.mp started
  exact ⟨fun record mem => (List.not_mem_nil mem).elim, rfl⟩

/-- A step that fails leaves the records linked. Of a call of an undefined label this is true but
for the running function, which is gone. -/
theorem Linked.stall {m x out : Machine} {n index : Nat} {error : RuntimeError}
    (reached : m.stateAt? n = some x) (failed : x.step index = out.fail error) :
    (out.Linked ∧ ∀ label, ¬ m.program.CallsUndefined index label) ∨
      ∃ label, m.program.CallsUndefined index label ∧ out.function = none ∧
        Linked { out with function := some label } := by
  have linked := linked_of_stateAt? reached
  obtain ⟨program, labels⟩ := setting_of_stateAt? reached
  obtain ⟨instr, found, setting, stalls⟩ := stalls_of_step failed
  have found' : m.program.get? index = some instr := program ▸ found
  cases stalls with
  | still present same =>
      refine .inl ⟨linked.congr setting.program same.callStack same.function, ?_⟩
      rintro label ⟨instr', found'', calls⟩
      cases found'.symm.trans found''
      exact present label (labels ▸ calls)
  | @call label missing same =>
      refine .inr ⟨label, ⟨instr, found', labels ▸ missing⟩, same.function, ?_⟩
      have called := calledAt?_of_target found missing.opcode missing.named
      exact (linked.push called).congr setting.program same.callStack rfl

/-! ### Matching calls and returns -/

/-- A call that succeeds saves the next index and the function it was made from. -/
theorem items_of_call {m m' : Machine} {index : Nat} {instr : Instruction}
    (pc : m.pc = some index) (found : m.program.get? index = some instr)
    (opcode : instr.opcode = .call) (advance : m.advance? = some m') :
    m'.callStack.items = ⟨index + 1, m.function⟩ :: m.callStack.items := by
  obtain ⟨out, -, moves, rfl⟩ := advance?_moves pc found advance
  cases moves with
  | call _ _ _ same => exact congrArg Stack.items same.callStack
  | onward other _ => exact absurd opcode other.1
  | jump other _ _ _ => exact absurd opcode other.2
  | ret other _ _ => cases opcode.symm.trans other
  | exit other _ _ => cases opcode.symm.trans other

/-- A return that succeeds goes on where the topmost record says, and takes the record away. -/
theorem control_of_return {m m' : Machine} {index : Nat} {instr : Instruction}
    {record : CallRecord} {rest : List CallRecord} (pc : m.pc = some index)
    (found : m.program.get? index = some instr) (opcode : instr.opcode = .ret)
    (top : m.callStack.items = record :: rest) (advance : m.advance? = some m') :
    m'.pc = (some record.returnTo).filter (· < m.program.size) ∧
      m'.function = record.function ∧ m'.callStack.items = rest := by
  obtain ⟨out, setting, moves, rfl⟩ := advance?_moves pc found advance
  cases moves with
  | @ret record' rest' _ top' same =>
      cases top.symm.trans top'
      refine ⟨?_, same.function, congrArg Stack.items same.callStack⟩
      simp only [retire, same.pc, setting.program]
      rfl
  | onward other _ => exact absurd opcode other.2.1
  | jump other _ _ _ => simp [opcode, Opcode.isJump] at other
  | call other _ _ _ => cases opcode.symm.trans other
  | exit other _ _ => cases opcode.symm.trans other

/-- A step leaves a record where it is, with all that is below it, unless it is the return that
takes it. -/
theorem suffix_of_advance? {m m' : Machine} {record : CallRecord} {below : List CallRecord}
    (suffix : record :: below <:+ m.callStack.items) (advance : m.advance? = some m') :
    record :: below <:+ m'.callStack.items ∨
      ∃ index instr, m.pc = some index ∧ m.program.get? index = some instr ∧
        instr.opcode = .ret ∧ m'.callStack.items = below := by
  obtain ⟨index, pc, ⟨-, rfl⟩ | ⟨instr, out, found, -, moves, rfl⟩⟩ := advance?_cases advance
  · exact .inl suffix
  · simp only [retire]
    cases moves with
    | onward _ same => exact .inl (same.callStack ▸ suffix)
    | jump _ _ _ same => exact .inl (same.callStack ▸ suffix)
    | call _ _ _ same =>
        rw [same.callStack]
        exact .inl (suffix.trans (List.suffix_cons _ _))
    | @ret record' rest opcode top same =>
        rw [same.callStack]
        change m.callStack.items = record' :: rest at top
        rw [top] at suffix
        rcases List.suffix_cons_iff.mp suffix with whole | within
        · cases whole
          exact .inr ⟨index, instr, pc, found, opcode, rfl⟩
        · exact .inl within
    | exit _ _ same => exact .inl (same.callStack ▸ suffix)

/-- From a call until the first return to its depth, the record of the call stays in place. -/
theorem suffix_of_stateAt? {m before x : Machine} {call index last n : Nat}
    (executes : m.ExecutesAt call index .call) (start : m.stateAt? call = some before)
    (first : ∀ n, call < n → n < last → ¬ m.ReturnsTo n before.callStack.size)
    (later : call < n) (bound : n ≤ last) (reached : m.stateAt? n = some x) :
    ⟨index + 1, before.function⟩ :: before.callStack.items <:+ x.callStack.items := by
  obtain ⟨k, rfl⟩ := Nat.exists_eq_add_of_lt later
  induction k generalizing x with
  | zero =>
      obtain ⟨_, instr, same, pc, found, opcode, -⟩ := executes
      cases start.symm.trans same
      rw [← (setting_of_stateAt? start).1] at found
      rw [Nat.add_zero, stateAt?_succ, start] at reached
      exact ⟨[], (items_of_call pc found opcode reached).symm⟩
  | succ k ih =>
      obtain ⟨y, reachedBefore, advance⟩ := stateAt?_succ_iff.mp reached
      have suffix := ih (by omega) (by omega) reachedBefore
      rcases suffix_of_advance? suffix advance with kept | ⟨at_, instr, pc, found, opcode, popped⟩
      · exact kept
      · -- The record is gone after a return to the depth of the call, which is not yet due.
        rw [(setting_of_stateAt? reachedBefore).1] at found
        have again : m.stateAt? (call + k + 1 + 1) = some x :=
          stateAt?_succ_iff.mpr ⟨y, reachedBefore, advance⟩
        refine absurd
          ⟨⟨at_, y, instr, reachedBefore, pc, found, opcode, by simp [again]⟩, x, again, ?_⟩
          (first (call + k + 1) (by omega) (by omega))
        rw [Stack.size, popped, Stack.size]

/-- The first return to the depth of a call takes the record of that call. -/
theorem control_of_first_return {m before after : Machine} {call ret index : Nat}
    (executes : m.ExecutesAt call index .call) (start : m.stateAt? call = some before)
    (later : call < ret) (returns : m.ReturnsTo ret before.callStack.size)
    (first : ∀ n, call < n → n < ret → ¬ m.ReturnsTo n before.callStack.size)
    (reached : m.stateAt? (ret + 1) = some after) :
    after.pc = (some (index + 1)).filter (· < m.program.size) ∧
      after.function = before.function := by
  obtain ⟨⟨at_, x, instr, reachedBefore, pc, found, opcode, -⟩, y, sameAfter, depth⟩ := returns
  cases reached.symm.trans sameAfter
  have suffix := suffix_of_stateAt? executes start first later (Nat.le_refl _) reachedBefore
  have program := (setting_of_stateAt? reachedBefore).1
  rw [stateAt?_succ, reachedBefore] at reached
  rw [← program] at found
  cases top : x.callStack.items with
  | nil => simp [top] at suffix
  | cons record rest =>
      obtain ⟨pcAfter, functionAfter, itemsAfter⟩ :=
        control_of_return pc found opcode top reached
      -- The return takes one record, so the record of the call was the top one.
      have length : rest.length = before.callStack.items.length := by
        rw [← itemsAfter]
        exact depth
      rw [top] at suffix
      have whole := suffix.eq_of_length (by simp [length])
      cases whole
      rw [← program]
      exact ⟨pcAfter, functionAfter⟩

/-- Call discipline. In every state between the steps of a run the call records form a chain with
the running function; collecting the labels, which can fail before the first step, keeps a chain.
The records form a chain in the state that a failing step leaves, too, unless it calls an undefined
label; then no function is running, and they do if the label is taken for it. A return that is the
first to bring the call depth back to what it was before a call goes on behind that call, or comes
to rest if that is the end of the program, in the function that made the call. -/
theorem call_discipline (m : Machine) :
    (∀ n x, m.stateAt? n = some x → x.CallChain) ∧
      (m.CallChain → m.mapLabels.machine.CallChain) ∧
      (∀ n x index error (out : Machine),
        m.stateAt? n = some x → x.pc = some index → x.step index = out.fail error →
        (out.CallChain ∧ ∀ label, ¬ m.program.CallsUndefined index label) ∨
          ∃ label, m.program.CallsUndefined index label ∧ out.function = none ∧
            CallChain { out with function := some label }) ∧
      ∀ call ret index before after,
        m.ExecutesAt call index .call → m.stateAt? call = some before →
        call < ret → m.ReturnsTo ret before.callStack.size →
        (∀ n, call < n → n < ret → ¬ m.ReturnsTo n before.callStack.size) →
        m.stateAt? (ret + 1) = some after →
        after.pc = (if index + 1 < m.program.size then some (index + 1) else none) ∧
          after.function = before.function := by
  refine ⟨?_, ?_, ?_, ?_⟩
  · intro n x reached
    exact (linked_of_stateAt? reached).callChain
  · rintro ⟨returns, function, bottom, link⟩
    exact ⟨returns, function, bottom, link⟩
  · intro n x index error out reached _ failed
    obtain ⟨linked, defined⟩ | ⟨label, calls, function, linked⟩ := Linked.stall reached failed
    · exact .inl ⟨linked.callChain, defined⟩
    · exact .inr ⟨label, calls, function, linked.callChain⟩
  · intro call ret index before after executes start later returns first reached
    obtain ⟨pc, function⟩ := control_of_first_return executes start later returns first reached
    refine ⟨?_, function⟩
    rw [pc]
    simp [Option.filter]

/-- A program whose last instruction calls a function that makes a call itself. -/
def nestedCalls : Machine where
  program :=
    { instructions := #[⟨.jump, 1, [⟨1, .label "main"⟩]⟩,
        ⟨.label, 2, [⟨1, .label "outer"⟩]⟩, ⟨.call, 3, [⟨1, .label "inner"⟩]⟩, ⟨.ret, 4, []⟩,
        ⟨.label, 5, [⟨1, .label "inner"⟩]⟩, ⟨.ret, 6, []⟩,
        ⟨.label, 7, [⟨1, .label "main"⟩]⟩, ⟨.call, 8, [⟨1, .label "outer"⟩]⟩] }
  input := { pending := [] }

def strayCall : Machine where
  program := { instructions := #[⟨.call, 1, [⟨1, .label "nowhere"⟩]⟩, ⟨.nop, 2, []⟩] }
  input := { pending := [] }

/-- The run of the stray call ends with a record on the call stack and no running function, which is
no chain. -/
theorem strayCall_not_callChain :
    ∃ (out : Machine) (error : RuntimeError), strayCall.Finishes (out.fail error) ∧
      error.fault = .undefinedLabel "nowhere" ∧ out.callStack.size = 1 ∧ out.function = none ∧
      ¬ out.CallChain := by
  refine ⟨_, _, ⟨1, rfl⟩, rfl, rfl, rfl, fun chain => ?_⟩
  cases chain.function

/-- The inner return comes first but leads to another depth; the outer one ends the run. The stray
call leaves a chain as soon as its label is taken for the running function. -/
theorem nestedCalls_return :
    (∃ x, nestedCalls.stateAt? 3 = some x ∧ x.callStack.size = 2 ∧ x.CallChain) ∧
      (∃ (x out : Machine) (error : RuntimeError), strayCall.stateAt? 0 = some x ∧
        x.step 0 = out.fail error ∧
        ∃ label, strayCall.program.CallsUndefined 0 label ∧
          CallChain { out with function := some label }) ∧
      ∃ before after, nestedCalls.stateAt? 1 = some before ∧ nestedCalls.stateAt? 5 = some after ∧
        after.pc = none ∧ after.function = before.function := by
  refine ⟨⟨_, rfl, rfl, (call_discipline nestedCalls).1 3 _ rfl⟩, ⟨_, _, _, rfl, rfl, ?_⟩,
    _, _, rfl, rfl, ?_⟩
  · obtain ⟨-, defined⟩ | ⟨label, calls, -, chain⟩ :=
      (call_discipline strayCall).2.2.1 0 _ 0 _ _ rfl rfl rfl
    · exact absurd ⟨_, rfl, rfl, rfl, rfl⟩ (defined "nowhere")
    · exact ⟨label, calls, chain⟩
  refine (call_discipline nestedCalls).2.2.2 1 4 7 _ _ ⟨_, _, rfl, rfl, rfl, rfl, rfl⟩ rfl
    (by decide) ⟨⟨3, _, _, rfl, rfl, rfl, rfl, rfl⟩, _, rfl, rfl⟩ ?_ rfl
  rintro n later earlier ⟨-, x, reached, depth⟩
  have cases : n = 2 ∨ n = 3 := by omega
  rcases cases with rfl | rfl
  · cases reached
    cases depth
  · cases reached
    cases depth

end Machine

end FrameCode
