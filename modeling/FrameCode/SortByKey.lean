/-!
Stable sorting by a numeric key: the result is a permutation in which the keys never decrease, and
items with equal keys keep their order.
-/

namespace FrameCode

variable {α : Type}

/-- Puts an item in front of the first one whose key is not smaller. -/
def insertByKey (key : α → Nat) (item : α) : List α → List α
  | [] => [item]
  | head :: rest =>
      if key item ≤ key head then item :: head :: rest
      else head :: insertByKey key item rest

def sortByKey (key : α → Nat) (items : List α) : List α :=
  items.foldr (insertByKey key) []

theorem insertByKey_perm (key : α → Nat) (item : α) (items : List α) :
    (insertByKey key item items).Perm (item :: items) := by
  induction items with
  | nil => exact .refl _
  | cons head rest ih =>
    rw [insertByKey]
    split
    · exact .refl _
    · exact (ih.cons head).trans (.swap item head rest)

theorem sortByKey_perm (key : α → Nat) (items : List α) : (sortByKey key items).Perm items := by
  induction items with
  | nil => exact .refl _
  | cons item rest ih => exact (insertByKey_perm key item _).trans (ih.cons item)

theorem pairwise_insertByKey {key : α → Nat} (item : α) {items : List α}
    (sorted : items.Pairwise fun a b => key a ≤ key b) :
    (insertByKey key item items).Pairwise fun a b => key a ≤ key b := by
  induction items with
  | nil => simp [insertByKey]
  | cons head rest ih =>
    have ⟨low, tail⟩ := List.pairwise_cons.1 sorted
    rw [insertByKey]
    split
    · next first =>
      refine List.pairwise_cons.2 ⟨fun other mem => ?_, sorted⟩
      rcases List.mem_cons.1 mem with rfl | mem
      · exact first
      · exact Nat.le_trans first (low other mem)
    · next later =>
      refine List.pairwise_cons.2 ⟨fun other mem => ?_, ih tail⟩
      rcases List.mem_cons.1 ((insertByKey_perm key item rest).mem_iff.1 mem) with rfl | mem
      · exact Nat.le_of_not_le later
      · exact low other mem

theorem pairwise_sortByKey (key : α → Nat) (items : List α) :
    (sortByKey key items).Pairwise fun a b => key a ≤ key b := by
  induction items with
  | nil => exact .nil
  | cons item rest ih => exact pairwise_insertByKey item ih

end FrameCode
