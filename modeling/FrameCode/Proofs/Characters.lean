import FrameCode.Proofs.Fallible
import FrameCode.Proofs.Text.Utf8

/-!
Characters of strings. All operations that look at one character of a string find it in the same
way, so they are described by one partial function (`character?`): an index that is negative or
reaches behind the end denotes no character. Replacing a character and joining strings are then
laws about lists of characters. A character and its code point determine each other, and the code
points are the integers from 0 to 0x10FFFF without the surrogates (`isValidChar_iff`).
-/

namespace FrameCode.Value

/-! ### The character at an index -/

def character? (text : String) (index : Int) : Option Char :=
  if 0 ≤ index then text.toList[index.toNat]? else none

section Index

variable {text : String} {index : Int64}

/-- A text has characters from index zero to its length. -/
theorem isSome_character?_iff {i : Int} :
    (character? text i).isSome ↔ 0 ≤ i ∧ i < text.length := by
  unfold character?
  split
  · next nonneg =>
    rw [isSome_getElem?, String.length_toList]
    omega
  · next negative => simp [negative]

theorem character?_eq_none {i : Int} (outside : ¬ (0 ≤ i ∧ i < text.length)) :
    character? text i = none := by
  rw [← Option.not_isSome_iff_eq_none, isSome_character?_iff]
  exact outside

/-- An index within the text is accepted as a position. -/
theorem position_of_within {chars : List Char}
    (within : 0 ≤ index.toInt ∧ index.toInt < chars.length) :
    position chars index = .ok index.toInt.toNat :=
  if_pos within

/-- Any other index is refused with a fault that names it. -/
theorem position_of_outside {chars : List Char}
    (outside : ¬ (0 ≤ index.toInt ∧ index.toInt < chars.length)) :
    position chars index = .error (.badString (.indexOutOfRange index chars.length)) :=
  if_neg outside

/-- The character that an index denotes, and without one the fault that names index and length. Once
the index is checked there is a character. -/
theorem characterAt_eq (text : String) (index : Int64) :
    characterAt text index =
      (character? text index.toInt).elim
        (.error (.badString (.indexOutOfRange index text.length))) .ok := by
  by_cases within : 0 ≤ index.toInt ∧ index.toInt < text.toList.length
  · obtain ⟨c, found⟩ : ∃ c, text.toList[index.toInt.toNat]? = some c :=
      ⟨_, List.getElem?_eq_getElem (by omega)⟩
    simp only [characterAt, position_of_within within, bind, Except.bind, character?, within.1,
      if_true, found, Option.elim_some]
  · simp only [characterAt, position_of_outside within, bind, Except.bind]
    rw [character?_eq_none within]
    rfl

/-- The character at an index is the one that the text denotes there. -/
theorem characterAt_eq_ok_iff {c : Char} :
    characterAt text index = .ok c ↔ character? text index.toInt = some c := by
  rw [characterAt_eq]
  cases character? text index.toInt with
  | some d => simp
  | none => simp

/-- Getting a character gives it as a text of its own. -/
theorem getChar_of_character? {c : Char} (denoted : character? text index.toInt = some c) :
    getChar (.string text) (.int index) = .ok (.string (String.singleton c)) := by
  rw [getChar, characterAt_eq_ok_iff.mpr denoted]
  rfl

/-- Converting a character gives its code. -/
theorem stri2int_of_character? {c : Char} (denoted : character? text index.toInt = some c) :
    stri2int (.string text) (.int index) = .ok (.int (Int64.ofNat c.toNat)) := by
  rw [stri2int, characterAt_eq_ok_iff.mpr denoted]
  rfl

/-- What is found at an index depends on the character there and on the length. -/
theorem getChar_congr {text' : String} (length : text'.length = text.length)
    (same : character? text' index.toInt = character? text index.toInt) :
    getChar (.string text') (.int index) = getChar (.string text) (.int index) := by
  rw [getChar, getChar, characterAt_eq, characterAt_eq, length, same]

end Index

/-! ### Length -/

theorem strlen_congr {text text' : String} (length : text'.length = text.length) :
    strlen (.string text') = strlen (.string text) := by
  rw [strlen, strlen, length]

structure IsLength (text : String) (n : Int64) : Prop where
  computed : strlen (.string text) = .ok (.int n)
  exact : n.toInt = text.length

/-- The length of a text is computed exactly if it fits a machine word. -/
theorem isLength_of_lt (text : String) (short : text.length < 2 ^ 63) :
    IsLength text (Int64.ofNat text.length) where
  computed := by
    rw [strlen, Nat.min_eq_left (Nat.le_of_lt_succ short)]
  exact := Int64.toInt_ofNat_of_lt short

/-- Lengths add up if the text that is put together is not too long. -/
theorem IsLength.add {a b : String} {m n : Int64} (left : IsLength a m) (right : IsLength b n)
    (short : (a ++ b).length < 2 ^ 63) : IsLength (a ++ b) (m + n) := by
  have whole := isLength_of_lt (a ++ b) short
  have sum : Int64.ofNat (a ++ b).length = m + n := by
    rw [← Int64.toInt_inj, whole.exact, Int64.toInt_add, left.exact, right.exact,
      String.length_append, Int.natCast_add]
    rw [String.length_append] at short
    rw [Int.bmod_eq_of_le]
    · omega
    · omega
  exact sum ▸ whole

/-! ### Replacement -/

structure Replaces (target : String) (index : Int64) (c : Char) (result : String) : Prop where
  length : strlen (.string result) = strlen (.string target)
  replaced : getChar (.string result) (.int index) = .ok (.string (String.singleton c))
  others : ∀ j ≠ index, getChar (.string result) (.int j) = getChar (.string target) (.int j)

/-- Setting a character changes what the text denotes at its index alone. -/
theorem character?_set {text : String} {c : Char} {i j : Int}
    (within : 0 ≤ i ∧ i < text.length) :
    character? (String.ofList (text.toList.set i.toNat c)) j =
      if j = i then some c else character? text j := by
  unfold character?
  rw [String.toList_ofList, List.getElem?_set, String.length_toList]
  by_cases same : j = i
  · subst same
    rw [if_pos within.1, if_pos rfl, if_pos (by omega), if_pos rfl]
  · rw [if_neg same]
    split
    · next nonneg => rw [if_neg (by omega)]
    · rfl

/-- What the operation makes of the text is the text with one character replaced. -/
theorem replaces_set {text : String} {index : Int64} (c : Char)
    (within : 0 ≤ index.toInt ∧ index.toInt < text.length) :
    Replaces text index c (String.ofList (text.toList.set index.toInt.toNat c)) := by
  have length : (String.ofList (text.toList.set index.toInt.toNat c)).length = text.length := by
    rw [String.length_ofList, List.length_set, String.length_toList]
  refine ⟨strlen_congr length, getChar_of_character? ?_, ?_⟩
  · rw [character?_set within, if_pos rfl]
  · intro j other
    apply getChar_congr length
    rw [character?_set within, if_neg fun same => other (Int64.toInt_inj.mp same)]

/-- A replacement needs a character and a place for it. -/
theorem setChar_ensures (target source : String) (index : Int64) :
    Ensures
      (fun value => ∃ u c, value = .string u ∧ source.toList.head? = some c ∧
        (0 ≤ index.toInt ∧ index.toInt < target.length) ∧ Replaces target index c u)
      (fun fault => (∃ reason, fault = .badString reason) ∧
        ¬ (source ≠ "" ∧ 0 ≤ index.toInt ∧ index.toInt < target.length))
      (setChar (.string target) (.int index) (.string source)) := by
  simp only [setChar]
  split
  · next empty =>
    refine ⟨⟨_, rfl⟩, ?_⟩
    rintro ⟨nonempty, -⟩
    exact nonempty (String.toList_eq_nil_iff.mp empty)
  · next c rest chars =>
    by_cases within : 0 ≤ index.toInt ∧ index.toInt < target.toList.length
    · simp only [position_of_within within]
      exact ⟨_, c, rfl, by rw [chars]; rfl, within, replaces_set c within⟩
    · simp only [position_of_outside within]
      exact ⟨⟨_, rfl⟩, fun possible => within possible.2⟩

/-- A character is set where there is one to take and one to replace. -/
theorem exists_setChar_eq_ok_iff {target source : String} {index : Int64} :
    (∃ value, setChar (.string target) (.int index) (.string source) = .ok value) ↔
      source ≠ "" ∧ 0 ≤ index.toInt ∧ index.toInt < target.length := by
  have ensured := setChar_ensures target source index
  constructor
  · rintro ⟨value, set⟩
    obtain ⟨u, c, -, first, within, -⟩ := ensured.ok set
    refine ⟨?_, within⟩
    rintro rfl
    cases first
  · intro possible
    cases set : setChar (.string target) (.int index) (.string source) with
    | ok value => exact ⟨value, rfl⟩
    | error fault => exact absurd possible (ensured.error set).2

/-! ### Concatenation -/

/-- A string that consists of two others: its length is the sum of theirs, and its characters are
theirs, those of the second one moved by the length of the first. -/
structure Joins (a b joined : String) : Prop where
  length : joined.length < 2 ^ 63 →
    ∃ m n, IsLength a m ∧ IsLength b n ∧ IsLength joined (m + n) ∧
      (m + n).toInt = m.toInt + n.toInt
  first : ∀ j : Int64, 0 ≤ j.toInt → j.toInt < a.length →
    getChar (.string joined) (.int j) = getChar (.string a) (.int j)
  second : ∀ j m : Int64, strlen (.string a) = .ok (.int m) → a.length ≤ j.toInt →
    j.toInt < a.length + b.length →
      getChar (.string joined) (.int j) = getChar (.string b) (.int (j - m))

/-- Before the seam the first text counts. -/
theorem character?_append_left {a b : String} {j : Int} (within : 0 ≤ j ∧ j < a.length) :
    character? (a ++ b) j = character? a j := by
  rw [character?, character?, if_pos within.1, if_pos within.1, String.toList_append,
    List.getElem?_append_left]
  rw [String.length_toList]
  omega

/-- Behind the seam the second text counts, from the seam on. -/
theorem character?_append_right {a b : String} {j : Int} (behind : a.length ≤ j) :
    character? (a ++ b) j = character? b (j - a.length) := by
  rw [character?, character?, if_pos (by omega), if_pos (by omega), String.toList_append,
    List.getElem?_append_right (by rw [String.length_toList]; omega), String.length_toList]
  congr 1
  omega

/-- An index that denotes a character of both strings finds it in both. -/
theorem getChar_eq_getChar {text text' : String} {index index' : Int64}
    (within : 0 ≤ index.toInt ∧ index.toInt < text.length)
    (same : character? text' index'.toInt = character? text index.toInt) :
    getChar (.string text') (.int index') = getChar (.string text) (.int index) := by
  obtain ⟨c, denoted⟩ := Option.isSome_iff_exists.mp (isSome_character?_iff.mpr within)
  rw [getChar_of_character? denoted, getChar_of_character? (same.trans denoted)]

/-- Putting texts together joins them. -/
theorem joins_append (a b : String) : Joins a b (a ++ b) where
  length short := by
    have bound := short
    rw [String.length_append] at bound
    have left := isLength_of_lt a (by omega)
    have right := isLength_of_lt b (by omega)
    have whole := left.add right short
    refine ⟨_, _, left, right, whole, ?_⟩
    rw [whole.exact, left.exact, right.exact, String.length_append, Int.natCast_add]
  first j nonneg less := getChar_eq_getChar ⟨nonneg, less⟩ (character?_append_left ⟨nonneg, less⟩)
  second j m computed behind less := by
    have top := j.toInt_lt
    have left := isLength_of_lt a (by omega)
    have length : m.toInt = a.length := by
      cases left.computed.symm.trans computed
      exact left.exact
    have moved : (j - m).toInt = j.toInt - a.length := by
      rw [Int64.toInt_sub, length, Int.bmod_eq_of_le]
      · omega
      · omega
    apply getChar_eq_getChar
    · omega
    · rw [moved]
      exact character?_append_right behind

/-- The laws of single characters. A character is replaced if there is one to put in its place and
the index denotes one; otherwise the failure is about strings. The result differs from the target at
the index only, where it has the first character of the source. Joined strings have the characters
of the first string and then those of the second. -/
theorem character_laws (t s a b : String) (i : Int64) :
    ((∃ value, setChar (.string t) (.int i) (.string s) = .ok value) ↔
        s ≠ "" ∧ 0 ≤ i.toInt ∧ i.toInt < t.length) ∧
      (∀ fault, setChar (.string t) (.int i) (.string s) = .error fault →
        ∃ reason, fault = .badString reason) ∧
      (∀ value, setChar (.string t) (.int i) (.string s) = .ok value →
        ∃ u c, value = .string u ∧ s.toList.head? = some c ∧ Replaces t i c u) ∧
      (t.length < 2 ^ 63 → ∃ n, IsLength t n) ∧
      ∃ joined, concat (.string a) (.string b) = .ok (.string joined) ∧ Joins a b joined := by
  have ensured := setChar_ensures t s i
  refine ⟨exists_setChar_eq_ok_iff, ?_, ?_, fun short => ⟨_, isLength_of_lt t short⟩,
    _, rfl, joins_append a b⟩
  · intro fault failed
    exact (ensured.error failed).1
  · intro value set
    obtain ⟨u, c, eq, first, -, replaces⟩ := ensured.ok set
    exact ⟨u, c, eq, first, replaces⟩

/-- A character of two bytes is replaced by one of three, and the one behind it stays; an index
behind the end of the first of two joined strings finds a character of the second. -/
theorem accent_replaced :
    (∃ u, setChar (.string "aé😀") (.int 1) (.string "€x") = .ok (.string u) ∧
        getChar (.string u) (.int 1) = .ok (.string "€") ∧
        getChar (.string u) (.int 2) = .ok (.string "😀")) ∧
      (∃ n, IsLength "aé😀" n) ∧
      getChar (.string ("aé" ++ "€x")) (.int 2) = getChar (.string "€x") (.int 0) := by
  obtain ⟨-, -, succeeds, short, joined, eq, joins⟩ := character_laws "aé😀" "€x" "aé" "€x" 1
  obtain ⟨u, c, set, first, replaces⟩ := succeeds (.string "a€😀") rfl
  cases set
  cases first
  cases eq
  exact ⟨⟨_, rfl, replaces.replaced, (replaces.others 2 (by decide)).trans rfl⟩,
    short (by decide), joins.second 2 2 rfl (by decide) (by decide)⟩

/-! ### Code points -/

theorem toNat_ofNat {code : Nat} (valid : code.isValidChar) : (Char.ofNat code).toNat = code := by
  rw [Char.ofNat, dif_pos valid]
  rfl

/-- The codes of characters leave out the surrogates. -/
theorem isValidChar_iff {code : Nat} :
    code.isValidChar ↔ code ≤ 0xD7FF ∨ (0xE000 ≤ code ∧ code ≤ 0x10FFFF) := by
  unfold Nat.isValidChar
  omega

/-- The character with a code, if the code has one. -/
theorem int2char_eq_ok_iff {code : Int64} {value : Value} :
    int2char (.int code) = .ok value ↔
      ∃ c : Char, code.toInt = c.toNat ∧ value = .string (String.singleton c) := by
  rw [int2char]
  constructor
  · intro made
    split at made
    · next valid =>
      cases made
      refine ⟨_, ?_, rfl⟩
      rw [toNat_ofNat valid.2]
      exact (Int.toNat_of_nonneg valid.1).symm
    · cases made
  · rintro ⟨c, eq, rfl⟩
    rw [eq, Int.toNat_natCast, Char.ofNat_toNat]
    exact if_pos ⟨Int.natCast_nonneg _, c.valid⟩

/-- An integer is converted if it is the code of a character. -/
theorem exists_int2char_eq_ok_iff {code : Int64} :
    (∃ value, int2char (.int code) = .ok value) ↔
      (0 ≤ code.toInt ∧ code.toInt ≤ 0xD7FF) ∨ (0xE000 ≤ code.toInt ∧ code.toInt ≤ 0x10FFFF) := by
  simp only [int2char_eq_ok_iff]
  constructor
  · rintro ⟨_, c, eq, -⟩
    have valid := isValidChar_iff.mp c.valid
    change c.toNat ≤ _ ∨ (_ ≤ c.toNat ∧ c.toNat ≤ _) at valid
    omega
  · intro range
    have valid : code.toInt.toNat.isValidChar := isValidChar_iff.mpr (by omega)
    refine ⟨_, Char.ofNat code.toInt.toNat, ?_, rfl⟩
    rw [toNat_ofNat valid]
    omega

theorem toInt_codePoint (c : Char) : (Int64.ofNat c.toNat).toInt = c.toNat :=
  Int64.toInt_ofNat_of_lt (Nat.lt_of_le_of_lt (Text.toNat_le c) (by decide))

/-- Characters and code points are inverse. The integers that are made into characters are the code
points without the surrogates, and such an integer is found again in the string of one character
that it is made into. The code of a character in a string is made into this character again. Where
there is no character in a string, there is no code, and for the same reason. -/
theorem code_points_inverse (n i : Int64) (s : String) :
    ((∃ value, int2char (.int n) = .ok value) ↔
        (0 ≤ n.toInt ∧ n.toInt ≤ 0xD7FF) ∨ (0xE000 ≤ n.toInt ∧ n.toInt ≤ 0x10FFFF)) ∧
      (∀ value, int2char (.int n) = .ok value →
        strlen value = .ok (.int 1) ∧ stri2int value (.int 0) = .ok (.int n)) ∧
      (0 ≤ i.toInt → i.toInt < s.length →
        ∃ code value, stri2int (.string s) (.int i) = .ok code ∧ int2char code = .ok value ∧
          getChar (.string s) (.int i) = .ok value) ∧
      ∀ fault, stri2int (.string s) (.int i) = .error fault ↔
        getChar (.string s) (.int i) = .error fault := by
  refine ⟨exists_int2char_eq_ok_iff, ?_, ?_, ?_⟩
  · intro value made
    obtain ⟨c, eq, rfl⟩ := int2char_eq_ok_iff.mp made
    have denoted : character? (String.singleton c) (0 : Int64).toInt = some c := by
      simp [character?]
    have same : Int64.ofNat c.toNat = n := Int64.toInt_inj.mp ((toInt_codePoint c).trans eq.symm)
    constructor
    · simp [strlen]
    · rw [stri2int_of_character? denoted, same]
  · intro nonneg less
    obtain ⟨c, denoted⟩ :=
      Option.isSome_iff_exists.mp (isSome_character?_iff.mpr ⟨nonneg, less⟩)
    exact ⟨_, _, stri2int_of_character? denoted,
      int2char_eq_ok_iff.mpr ⟨c, toInt_codePoint c, rfl⟩, getChar_of_character? denoted⟩
  · intro fault
    rw [stri2int, getChar]
    cases characterAt s i with
    | ok c => simp [Except.map]
    | error fault' => exact Iff.rfl

/-- The greatest code point, and a character of two bytes behind one of one byte. -/
theorem greatest_code_point :
    stri2int (.string (String.singleton (Char.ofNat 0x10FFFF))) (.int 0) =
        .ok (.int 0x10FFFF) ∧
      ∃ code value, stri2int (.string "aé") (.int 1) = .ok code ∧ int2char code = .ok value ∧
        getChar (.string "aé") (.int 1) = .ok value := by
  obtain ⟨-, made, found, -⟩ := code_points_inverse 0x10FFFF 1 "aé"
  exact ⟨(made _ rfl).2, found (by decide) (by decide)⟩

end FrameCode.Value
