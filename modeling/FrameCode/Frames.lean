import FrameCode.Fault
import FrameCode.Stack
import Std.Data.TreeMap

/-!
Variables live in frames. The global frame is always there. The temporary frame is there from its
creation until it is pushed; the pushed frames form a stack whose top is the local frame.
-/

namespace FrameCode

/-- Declared variables by name. A variable without a value is declared but not initialized. -/
structure Frame where
  slots : Std.TreeMap String (Option Value) := ∅

namespace Frame

def get? (frame : Frame) (name : String) : Option (Option Value) :=
  frame.slots[name]?

/-- Puts a value, or its absence, under a name. -/
def set (frame : Frame) (name : String) (slot : Option Value) : Frame :=
  ⟨frame.slots.insert name slot⟩

/-- Adds a name without a value, and says whether the name was free. -/
def declare (frame : Frame) (name : String) : Bool × Frame :=
  match frame.get? name with
  | some _ => (false, frame)
  | none => (true, frame.set name none)

def size (frame : Frame) : Nat :=
  frame.slots.size

def isEmpty (frame : Frame) : Bool :=
  frame.slots.isEmpty

def slotText : Option Value → String
  | some value => s!"{value.type.name}@{value.text}"
  | none => "<uninit>"

/-- The variables in the order of their names, in braces. -/
def text (frame : Frame) : String :=
  "\x7b" ++ ", ".intercalate (frame.slots.toList.map fun (name, slot) => s!"{name}={slotText slot}")
    ++ "\x7d"

end Frame

structure Frames where
  global : Frame := {}
  temporary : Option Frame := none
  locals : Stack Frame := {}

namespace Frames

/-- The frame that a tag stands for at present. -/
def frame? (frames : Frames) : FrameTag → Option Frame
  | .global => some frames.global
  | .local => frames.locals.top?
  | .temporary => frames.temporary

def frame (frames : Frames) (tag : FrameTag) : Except Fault Frame :=
  match frames.frame? tag with
  | some frame => .ok frame
  | none => .error (.noFrame tag)

/-- Replaces the frame that a tag stands for; a frame that is not there stays away. -/
def setFrame (frames : Frames) (tag : FrameTag) (frame : Frame) : Frames :=
  match tag with
  | .global => { frames with global := frame }
  | .local => { frames with locals := ⟨frame :: frames.locals.items.tail⟩ }
  | .temporary => { frames with temporary := some frame }

/-- The slot of a variable: undeclared, declared, or initialized. -/
def slot? (frames : Frames) (var : Variable) : Option (Option Value) :=
  (frames.frame? var.frame).bind (·.get? var.name)

/-- The value of a declared variable, if it has been initialized. -/
def lookup (frames : Frames) (var : Variable) : Except Fault (Option Value) := do
  match (← frames.frame var.frame).get? var.name with
  | some slot => .ok slot
  | none => .error (.noVariable var)

/-- The value of an initialized variable. -/
def read (frames : Frames) (var : Variable) : Except Fault Value := do
  match ← frames.lookup var with
  | some value => .ok value
  | none => .error (.missingValue (.uninitialized var))

/-! An operation that changes the frames returns how it ended and the frames that it leaves. -/

/-- Declares a variable without a value. -/
def declare (frames : Frames) (var : Variable) : Except Fault Unit × Frames :=
  match frames.frame var.frame with
  | .error fault => (.error fault, frames)
  | .ok frame =>
      let (added, frame) := frame.declare var.name
      let result := if added then .ok () else .error (.variableRedefinition var)
      (result, frames.setFrame var.frame frame)

/-- Gives a declared variable a value. -/
def write (frames : Frames) (var : Variable) (value : Value) : Except Fault Unit × Frames :=
  match frames.frame var.frame with
  | .error fault => (.error fault, frames)
  | .ok frame =>
      match frame.get? var.name with
      | some _ => (.ok (), frames.setFrame var.frame (frame.set var.name (some value)))
      | none => (.error (.noVariable var), frames)

/-- Replaces the temporary frame by an empty one. -/
def createTemporary (frames : Frames) : Frames :=
  { frames with temporary := some {} }

/-- Moves the temporary frame onto the stack, where it becomes the local frame. -/
def pushTemporary (frames : Frames) : Except Fault Unit × Frames :=
  let without := { frames with temporary := none }
  match frames.temporary with
  | some frame => (.ok (), { without with locals := without.locals.push frame })
  | none => (.error (.noFrame .temporary), without)

/-- Moves the local frame back, where it replaces the temporary frame. -/
def popTemporary (frames : Frames) : Except Fault Unit × Frames :=
  match frames.locals.pop (Fault.noFrame .local) with
  | .ok (frame, locals) => (.ok (), { frames with temporary := some frame, locals })
  | .error fault => (.error fault, frames)

/-- The number of pushed frames. -/
def depth (frames : Frames) : Nat :=
  frames.locals.size

end Frames

end FrameCode
