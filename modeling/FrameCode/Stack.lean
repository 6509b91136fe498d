/-!
Last-in-first-out stacks. Taking from an empty stack fails with whatever error the caller gives.
-/

namespace FrameCode

structure Stack (α : Type) where
  /-- The items, the top one first. -/
  items : List α := []
deriving DecidableEq

namespace Stack

variable {α ε : Type}

def push (stack : Stack α) (item : α) : Stack α :=
  ⟨item :: stack.items⟩

def pop (stack : Stack α) (onEmpty : ε) : Except ε (α × Stack α) :=
  match stack.items with
  | [] => .error onEmpty
  | item :: rest => .ok (item, ⟨rest⟩)

def top? (stack : Stack α) : Option α :=
  stack.items.head?

def top (stack : Stack α) (onEmpty : ε) : Except ε α :=
  match stack.items with
  | [] => .error onEmpty
  | item :: _ => .ok item

def modifyTop (stack : Stack α) (change : α → α) (onEmpty : ε) : Except ε (Stack α) :=
  match stack.items with
  | [] => .error onEmpty
  | item :: rest => .ok ⟨change item :: rest⟩

def size (stack : Stack α) : Nat :=
  stack.items.length

def isEmpty (stack : Stack α) : Bool :=
  stack.items.isEmpty

/-- The items from bottom to top. -/
def toList (stack : Stack α) : List α :=
  stack.items.reverse

@[simp] theorem toList_push (stack : Stack α) (item : α) :
    (stack.push item).toList = stack.toList ++ [item] := by
  simp [push, toList]

@[simp] theorem pop_push (stack : Stack α) (item : α) (onEmpty : ε) :
    (stack.push item).pop onEmpty = .ok (item, stack) := rfl

end Stack

end FrameCode
