import FrameCode.Operation
import FrameCode.Proofs.Text.Utf8

/-!
Comparisons of values. Two values can be ordered if they have the same type, which is not nil; for
equality nil goes with everything. Truth values, integers and strings are in a linear order, which
is stated here by itself (`Precedes`): false is before true, integers are in the order of numbers,
and strings are in the lexicographic order of their code points, which is that of their bytes too.
-/

namespace FrameCode

/-- Types whose values are in a linear order. Floats are not: not-a-number is neither less than nor
equal to nor greater than any of them. -/
def DataType.isLinear : DataType → Bool
  | .bool | .int | .string => true
  | .nil | .float => false

namespace Value

variable {a b c : Value}

/-! ### Types that can be compared -/

/-- Values are ordered within a type, and nil is not ordered. -/
theorem exists_less_eq_ok_iff :
    (∃ truth, less a b = .ok truth) ↔ a.type = b.type ∧ a.type ≠ .nil := by
  cases a <;> cases b <;> simp [less, badTypes, type]

/-- Values are equated within a type, and with nil. -/
theorem exists_equals_eq_ok_iff :
    (∃ truth, equals a b = .ok truth) ↔ a.type = b.type ∨ a.type = .nil ∨ b.type = .nil := by
  cases a <;> cases b <;> simp [equals, badTypes, type]

def Holds (outcome : Except Fault Value) : Prop :=
  outcome = .ok (.bool true)

/-- The value of a comparison is the truth value that it computes. -/
theorem map_bool_eq_ok_iff {x : Except Fault Bool} {value : Value} :
    x.map bool = .ok value ↔ ∃ truth, x = .ok truth ∧ bool truth = value := by
  cases x with
  | ok truth => simp [Except.map]
  | error fault => simp [Except.map]

theorem exists_map_bool_eq_ok_iff {x : Except Fault Bool} :
    (∃ value, x.map bool = .ok value) ↔ ∃ truth, x = .ok truth := by
  simp only [map_bool_eq_ok_iff]
  constructor
  · rintro ⟨_, truth, eq, -⟩
    exact ⟨truth, eq⟩
  · rintro ⟨truth, eq⟩
    exact ⟨_, truth, eq, rfl⟩

/-- A comparison holds if it computes the truth value true. -/
theorem holds_map_bool_iff {x : Except Fault Bool} : Holds (x.map bool) ↔ x = .ok true := by
  simp only [Holds, map_bool_eq_ok_iff, bool.injEq, exists_eq_right]

/-- The greater is the less with its arguments exchanged; only the faults differ. -/
theorem gt_eq_ok_iff {value : Value} : gt a b = .ok value ↔ lt b a = .ok value := by
  unfold gt lt
  cases less b a with
  | ok truth => exact Iff.rfl
  | error fault =>
      constructor
      · intro absurd
        cases absurd
      · intro absurd
        cases absurd

/-- The order is defined on values of one type other than nil. -/
theorem exists_lt_eq_ok_iff :
    (∃ value, lt a b = .ok value) ↔ a.type = b.type ∧ a.type ≠ .nil :=
  exists_map_bool_eq_ok_iff.trans exists_less_eq_ok_iff

theorem exists_gt_eq_ok_iff :
    (∃ value, gt a b = .ok value) ↔ a.type = b.type ∧ a.type ≠ .nil := by
  have swap {s t : DataType} (h : s = t ∧ s ≠ .nil) : t = s ∧ t ≠ .nil :=
    ⟨h.1.symm, h.1 ▸ h.2⟩
  simp only [gt_eq_ok_iff, exists_lt_eq_ok_iff]
  exact ⟨swap, swap⟩

/-- Equality is defined on values of one type, and where one of them is nil. -/
theorem exists_eq_eq_ok_iff :
    (∃ value, eq a b = .ok value) ↔ a.type = b.type ∨ a.type = .nil ∨ b.type = .nil :=
  exists_map_bool_eq_ok_iff.trans exists_equals_eq_ok_iff

/-- Nil equals nil and nothing else. -/
theorem holds_eq_of_nil (nil : a.type = .nil ∨ b.type = .nil) :
    Holds (eq a b) ↔ a.type = .nil ∧ b.type = .nil := by
  rw [eq, holds_map_bool_iff]
  cases a <;> cases b <;> simp_all [equals, type, isNil]

/-! ### The linear order -/

def Precedes : Value → Value → Prop
  | .bool x, .bool y => x = false ∧ y = true
  | .int x, .int y => x.toInt < y.toInt
  | .string x, .string y => List.Lex (· < ·) (Text.codePoints x) (Text.codePoints y)
  | _, _ => False

/-- On linear types the order that is computed is the strict order of the type. -/
theorem less_eq_true_iff (linear : a.type.isLinear) : less a b = .ok true ↔ Precedes a b := by
  cases a with
  | bool x => cases b <;> simp [less, Precedes, badTypes]
  | int x => cases b <;> simp [less, Precedes, badTypes, Int64.lt_iff_toInt_lt]
  | string x =>
      cases b with
      | string y =>
          rw [less, Except.ok.injEq, decide_eq_true_iff]
          exact Text.codePoints_lex_iff.symm
      | _ => simp [less, Precedes, badTypes]
  | nil => cases linear
  | float x => cases linear

/-- On linear types the equality that is computed is the identity of values. -/
theorem equals_eq_true_iff (linear : a.type.isLinear) : equals a b = .ok true ↔ a = b := by
  cases a with
  | bool x => cases b <;> simp [equals, isNil, badTypes]
  | int x => cases b <;> simp [equals, isNil, badTypes]
  | string x => cases b <;> simp [equals, isNil, badTypes]
  | nil => cases linear
  | float x => cases linear

theorem holds_lt_iff (linear : a.type.isLinear) : Holds (lt a b) ↔ Precedes a b :=
  holds_map_bool_iff.trans (less_eq_true_iff linear)

theorem holds_eq_iff (linear : a.type.isLinear) : Holds (eq a b) ↔ a = b :=
  holds_map_bool_iff.trans (equals_eq_true_iff linear)

namespace Precedes

theorem irrefl : ¬ Precedes a a := by
  cases a with
  | bool x => cases x <;> simp [Precedes]
  | int x => exact Int.lt_irrefl _
  | string x => exact fun before => List.lt_irrefl _ before
  | nil => exact id
  | float x => exact id

theorem trans (first : Precedes a b) (second : Precedes b c) : Precedes a c := by
  cases a with
  | bool x =>
      cases b with
      | bool y => cases c <;> simp_all [Precedes]
      | _ => exact first.elim
  | int x =>
      cases b with
      | int y =>
          cases c with
          | int z => exact Int.lt_trans first second
          | _ => exact second.elim
      | _ => exact first.elim
  | string x =>
      cases b with
      | string y =>
          cases c with
          | string z => exact List.lt_trans first second
          | _ => exact second.elim
      | _ => exact first.elim
  | nil => exact first.elim
  | float x => exact first.elim

theorem asymm (before : Precedes a b) : ¬ Precedes b a := by
  intro after
  exact irrefl (before.trans after)

end Precedes

/-- Of two values of one linear type, one precedes the other or they are the same. -/
theorem precedes_trichotomy (linear : a.type.isLinear) (same : a.type = b.type) :
    Precedes a b ∨ a = b ∨ Precedes b a := by
  cases a with
  | bool x =>
      cases b with
      | bool y => cases x <;> cases y <;> simp [Precedes]
      | _ => cases same
  | int x =>
      cases b with
      | int y =>
          rw [int.injEq, ← Int64.toInt_inj]
          exact Int.lt_trichotomy x.toInt y.toInt
      | _ => cases same
  | string x =>
      cases b with
      | string y =>
          rw [string.injEq, Precedes, Precedes, Text.codePoints_lex_iff, Text.codePoints_lex_iff]
          exact lt_trichotomy x y
      | _ => cases same
  | nil => cases linear
  | float x => cases linear

/-! ### The comparisons -/

def ExactlyOne (p q r : Prop) : Prop :=
  (p ∧ ¬ q ∧ ¬ r) ∨ (¬ p ∧ q ∧ ¬ r) ∨ (¬ p ∧ ¬ q ∧ r)

/-- On linear types exactly one of the three comparisons holds. -/
theorem exactlyOne_of_linear (linear : a.type.isLinear) (same : a.type = b.type) :
    ExactlyOne (Holds (lt a b)) (Holds (eq a b)) (Holds (gt a b)) := by
  have greater : Holds (gt a b) ↔ Precedes b a := by
    rw [Holds, gt_eq_ok_iff]
    exact holds_lt_iff (same ▸ linear)
  rw [holds_lt_iff linear, holds_eq_iff linear, greater]
  rcases precedes_trichotomy linear same with before | rfl | after
  · refine .inl ⟨before, ?_, before.asymm⟩
    rintro rfl
    exact Precedes.irrefl before
  · exact .inr (.inl ⟨Precedes.irrefl, rfl, Precedes.irrefl⟩)
  · refine .inr (.inr ⟨after.asymm, ?_, after⟩)
    rintro rfl
    exact Precedes.irrefl after

/-- The laws of comparison. The orders are defined for two values of one type, which is not nil, and
equality also if one of the values is nil, which equals nil only. Greater is less the other way
round. On truth values, integers and strings exactly one of less, equal and greater is true, and
less is transitive. Strings are in the lexicographic order of their bytes, which is that of their
code points. -/
theorem comparison_laws (a b : Value) :
    ((∃ value, lt a b = .ok value) ↔ a.type = b.type ∧ a.type ≠ .nil) ∧
      ((∃ value, gt a b = .ok value) ↔ a.type = b.type ∧ a.type ≠ .nil) ∧
      ((∃ value, eq a b = .ok value) ↔ a.type = b.type ∨ a.type = .nil ∨ b.type = .nil) ∧
      (a.type = .nil ∨ b.type = .nil → (Holds (eq a b) ↔ a.type = .nil ∧ b.type = .nil)) ∧
      (∀ value, gt a b = .ok value ↔ lt b a = .ok value) ∧
      (a.type.isLinear → a.type = b.type →
        ExactlyOne (Holds (lt a b)) (Holds (eq a b)) (Holds (gt a b))) ∧
      (∀ c, a.type.isLinear → Holds (lt a b) → Holds (lt b c) → Holds (lt a c)) ∧
      ∀ x y, a = .string x → b = .string y →
        (Holds (lt a b) ↔ List.Lex (· < ·) (Text.encode x) (Text.encode y)) ∧
          (Holds (lt a b) ↔ List.Lex (· < ·) (Text.codePoints x) (Text.codePoints y)) := by
  refine ⟨exists_lt_eq_ok_iff, exists_gt_eq_ok_iff, exists_eq_eq_ok_iff, holds_eq_of_nil,
    fun _ => gt_eq_ok_iff, exactlyOne_of_linear, ?_, ?_⟩
  · intro c linear first second
    have same : a.type = b.type := (exists_lt_eq_ok_iff.mp ⟨_, first⟩).1
    rw [holds_lt_iff linear] at first ⊢
    rw [holds_lt_iff (same ▸ linear)] at second
    exact first.trans second
  · rintro x y rfl rfl
    have order : Holds (lt (.string x) (.string y)) ↔ Precedes (.string x) (.string y) :=
      holds_lt_iff rfl
    rw [order, Precedes, Text.codePoints_lex_iff, Text.encode_lex_iff]
    exact ⟨Iff.rfl, Iff.rfl⟩

/-- A fullwidth tilde takes three bytes and is before a face, which takes four; in the order of
UTF-16 units it would be behind. Nil equals no integer. -/
theorem tilde_before_face :
    Holds (lt (.string "～") (.string "😀")) ∧ Holds (lt (.string "😀") (.string "😀a")) ∧
      Holds (lt (.string "～") (.string "😀a")) ∧
      ExactlyOne (Holds (lt (.string "～") (.string "😀"))) (Holds (eq (.string "～") (.string "😀")))
        (Holds (gt (.string "～") (.string "😀"))) ∧
      List.Lex (· < ·) (Text.encode "～") (Text.encode "😀") ∧ ¬ Holds (eq .nil (.int 0)) := by
  obtain ⟨-, -, -, -, -, one, transitive, strings⟩ :=
    comparison_laws (.string "～") (.string "😀")
  obtain ⟨-, -, -, equal, -⟩ := comparison_laws .nil (.int 0)
  have first : Holds (lt (.string "～") (.string "😀")) := rfl
  have second : Holds (lt (.string "😀") (.string "😀a")) := rfl
  refine ⟨first, second, transitive _ rfl first second, one rfl rfl,
    (strings _ _ rfl rfl).1.mp first, ?_⟩
  intro holds
  cases ((equal (.inl rfl)).mp holds).2

end Value

end FrameCode
