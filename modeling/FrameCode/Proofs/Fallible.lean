import FrameCode.Machine.Action

/-!
Rules for computations that can fail. `Ensures` says what holds of the result of a computation and
what holds of its error; `Outcome.Ensures` says the same of an operation on a machine, together with
the machine that it leaves. There is one rule for each way the actions are put together, so a
statement about an action follows the shape of its definition.
-/

namespace FrameCode

variable {ε α β : Type}

/-- A success satisfies `good`, a failure satisfies `bad`. -/
def Ensures (good : α → Prop) (bad : ε → Prop) : Except ε α → Prop
  | .ok a => good a
  | .error e => bad e

namespace Ensures

variable {good good' : α → Prop} {bad bad' : ε → Prop} {x : Except ε α}

theorem ok {a : α} (h : Ensures good bad x) (eq : x = .ok a) : good a := by
  subst eq
  exact h

theorem error {e : ε} (h : Ensures good bad x) (eq : x = .error e) : bad e := by
  subst eq
  exact h

/-- What is ensured may be weakened on both sides. -/
theorem mono (h : Ensures good bad x) (onOk : ∀ a, good a → good' a)
    (onError : ∀ e, bad e → bad' e) : Ensures good' bad' x := by
  cases x with
  | ok a => exact onOk a h
  | error e => exact onError e h

/-- Of a computation about which nothing is known, nothing is ensured. -/
theorem trivial : Ensures (fun _ => True) (fun _ => True) x := by
  cases x with
  | ok _ => exact True.intro
  | error _ => exact True.intro

/-- A computation returns what it returns. -/
theorem self : Ensures (fun a => x = .ok a) (fun _ => True) x := by
  cases x with
  | ok _ => exact rfl
  | error _ => exact True.intro

/-- A sequence ensures what its second part does, and fails as either part does. -/
theorem bind {goal : β → Prop} {next : α → Except ε β} (first : Ensures good bad x)
    (rest : ∀ a, good a → Ensures goal bad (next a)) : Ensures goal bad (x >>= next) := by
  cases x with
  | ok a => exact rest a first
  | error e => exact first

/-- Where only success matters, the last part of a sequence decides. -/
theorem last {goal : β → Prop} {next : α → Except ε β}
    (rest : ∀ a, Ensures goal (fun _ => True) (next a)) :
    Ensures goal (fun _ => True) (x >>= next) :=
  Ensures.trivial.bind fun a _ => rest a

/-- A function of the result changes what is said of it. -/
theorem map {goal : β → Prop} {f : α → β} (h : Ensures (fun a => goal (f a)) bad x) :
    Ensures goal bad (x.map f) := by
  cases x with
  | ok a => exact h
  | error e => exact h

/-- A function of the error changes what is said of it. -/
theorem mapError {ε' : Type} {worse : ε' → Prop} {f : ε → ε'}
    (h : Ensures good (fun e => worse (f e)) x) : Ensures good worse (x.mapError f) := by
  cases x with
  | ok a => exact h
  | error e => exact h

end Ensures

/-- A sequence succeeds if its parts do, one after the other. -/
theorem bind_eq_ok_iff {x : Except ε α} {next : α → Except ε β} {b : β} :
    x >>= next = .ok b ↔ ∃ a, x = .ok a ∧ next a = .ok b := by
  constructor
  · intro h
    cases x with
    | ok a => exact ⟨a, rfl, h⟩
    | error e => cases h
  · rintro ⟨a, rfl, h⟩
    exact h

/-- A sequence fails in its first part, or in its second after the first has succeeded. -/
theorem bind_eq_error_iff {x : Except ε α} {next : α → Except ε β} {e : ε} :
    x >>= next = .error e ↔ x = .error e ∨ ∃ a, x = .ok a ∧ next a = .error e := by
  cases x with
  | ok a =>
      constructor
      · exact fun h => .inr ⟨a, rfl, h⟩
      · rintro (h | ⟨_, eq, h⟩)
        · cases h
        · cases eq
          exact h
  | error e' =>
      constructor
      · intro h
        cases h
        exact .inl rfl
      · rintro (h | ⟨_, h, -⟩)
        · cases h
          rfl
        · cases h

/-! ### Operations that leave a state -/

section Committed

variable {σ : Type} {change : Except ε Unit × σ}

/-- The state that an operation leaves if it succeeds. -/
def committed (change : Except ε Unit × σ) : Except ε σ :=
  change.1.map fun _ => change.2

/-- The committed state is the one that a success leaves. -/
theorem committed_eq_ok_iff {s : σ} : committed change = .ok s ↔ change = (.ok (), s) := by
  obtain ⟨_ | _, left⟩ := change <;> simp [committed, Except.map]

theorem committed_eq_error_iff {e : ε} : committed change = .error e ↔ change.1 = .error e := by
  obtain ⟨_ | _, left⟩ := change <;> simp [committed, Except.map]

end Committed

namespace Outcome

/-- A success leaves a machine that satisfies `good`; a failure leaves one that satisfies `bad`
together with the error. -/
def Ensures (good : Machine → Prop) (bad : ε → Machine → Prop) (outcome : Outcome ε) : Prop :=
  match outcome.result with
  | .ok () => good outcome.machine
  | .error e => bad e outcome.machine

namespace Ensures

variable {good : Machine → Prop} {bad : ε → Machine → Prop}

theorem ok {outcome : Outcome ε} (h : outcome.Ensures good bad) (eq : outcome.result = .ok ()) :
    good outcome.machine := by
  simpa only [Outcome.Ensures, eq] using h

theorem error {outcome : Outcome ε} {e : ε} (h : outcome.Ensures good bad)
    (eq : outcome.result = .error e) : bad e outcome.machine := by
  simpa only [Outcome.Ensures, eq] using h

/-- What holds in both cases holds of the machine that is left. -/
theorem machine {outcome : Outcome ε} (h : outcome.Ensures good fun _ => good) :
    good outcome.machine := by
  obtain ⟨_ | _, m⟩ := outcome
  · exact h
  · exact h

/-- What is ensured of the machine may be weakened on both sides. -/
theorem mono {good' : Machine → Prop} {bad' : ε → Machine → Prop} {outcome : Outcome ε}
    (h : outcome.Ensures good bad) (onOk : ∀ m, good m → good' m)
    (onError : ∀ e m, bad e m → bad' e m) : outcome.Ensures good' bad' := by
  obtain ⟨e | _, m⟩ := outcome
  · exact onError e m h
  · exact onOk m h

theorem succeed {m : Machine} (h : good m) : (m.succeed : Outcome ε).Ensures good bad := h

theorem fail {m : Machine} {e : ε} (h : bad e m) : (m.fail e).Ensures good bad := h

/-- An attempt that fails leaves the machine it started from. -/
theorem attempt {m : Machine} {x : Except ε Machine}
    (h : FrameCode.Ensures good (bad · m) x) : (m.attempt x).Ensures good bad := by
  cases x with
  | ok m' => exact h
  | error e => exact h

/-- The rule for an attempt of which only success matters. -/
theorem attempt_of_ok {m : Machine} {x : Except ε Machine}
    (h : FrameCode.Ensures good (fun _ => True) x) (start : ∀ e, bad e m) :
    (m.attempt x).Ensures good bad :=
  attempt (h.mono (fun _ h => h) fun e _ => start e)

end Ensures

end Outcome

namespace Machine

variable {good : Machine → Prop} {bad : Fault → Machine → Prop}

@[simp]
theorem evaluate_ok {m : Machine} {a : α} {next : α → Outcome Fault} :
    m.evaluate (.ok a) next = next a := rfl

@[simp]
theorem evaluate_error {m : Machine} {fault : Fault} {next : α → Outcome Fault} :
    m.evaluate (.error fault) next = m.fail fault := rfl

/-- A value that cannot be found leaves the machine as it is. -/
theorem evaluate_ensures {m : Machine} {value : Except Fault α} {next : α → Outcome Fault}
    (onError : ∀ fault, value = .error fault → bad fault m)
    (onValue : ∀ a, value = .ok a → (next a).Ensures good bad) :
    (m.evaluate value next).Ensures good bad := by
  cases value with
  | ok a => exact onValue a rfl
  | error fault => exact onError fault rfl

/-- What is left to show when the top of the data stack is taken. -/
theorem popThen_ensures {m : Machine} {next : Value → Machine → Outcome Fault}
    (onEmpty : bad (.missingValue (.emptyStack "data")) m)
    (onValue : ∀ value rest, m.dataStack.items = value :: rest →
      (next value { m with dataStack := ⟨rest⟩ }).Ensures good bad) :
    (m.popThen next).Ensures good bad := by
  unfold popThen Stack.pop
  cases items : m.dataStack.items with
  | nil => exact Outcome.Ensures.fail onEmpty
  | cons value rest => exact onValue value rest items

end Machine

end FrameCode
