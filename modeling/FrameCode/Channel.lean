import FrameCode.Text.Bytes

/-!
The byte channels of a run. Input is a finite row of bytes that ends or breaks off with an error;
it is read line by line. A sink takes bytes in chunks and may refuse one, after keeping a part of
it.
-/

namespace FrameCode

open Text (Bytes)

structure Input where
  /-- The bytes that have not been read yet. -/
  pending : Bytes
  /-- The error that asking for more than these bytes meets, if it is not simply the end. -/
  failure : Option String := none
deriving DecidableEq

namespace Input

def lineFeed : UInt8 := 10

def carriageReturn : UInt8 := 13

def dropReturn (line : Bytes) : Bytes :=
  if line.getLast? = some carriageReturn then line.dropLast else line

/-- Reads through the next line feed, which is not part of the line, nor is one carriage return
directly before it. What follows the last line feed is a line as it stands. No line is left once all
bytes are read. -/
def readLine (input : Input) : Except String (Option Bytes) × Input :=
  match input.pending.dropWhile (· != lineFeed) with
  | _ :: rest =>
      (.ok (some (dropReturn (input.pending.takeWhile (· != lineFeed)))),
        { input with pending := rest })
  | [] =>
      let drained := { input with pending := [] }
      match input.failure with
      | some message => (.error message, drained)
      | none => (.ok (if input.pending.isEmpty then none else some input.pending), drained)

end Input

/-- The chunks that a sink has taken, the latest first, and how many bytes they are. -/
structure Transcript where
  chunks : List Bytes
  size : Nat
  size_eq : size = chunks.flatten.length

namespace Transcript

def empty : Transcript :=
  ⟨[], 0, rfl⟩

/-- All bytes taken, from the first to the last. -/
def bytes (transcript : Transcript) : Bytes :=
  transcript.chunks.reverse.flatten

def append (transcript : Transcript) (chunk : Bytes) : Transcript where
  chunks := chunk :: transcript.chunks
  size := transcript.size + chunk.length
  size_eq := by
    rw [transcript.size_eq, List.flatten_cons, List.length_append, Nat.add_comm]

@[simp] theorem bytes_append (transcript : Transcript) (chunk : Bytes) :
    (transcript.append chunk).bytes = transcript.bytes ++ chunk := by
  simp [append, bytes]

theorem length_bytes (transcript : Transcript) : transcript.bytes.length = transcript.size := by
  rw [transcript.size_eq, bytes, List.length_flatten, List.length_flatten, List.map_reverse,
    List.sum_reverse]

end Transcript

/-- A chunk that is not taken whole: how much of its front is kept, and the error. -/
structure Refusal where
  kept : Nat
  message : String
deriving DecidableEq, Repr

structure Sink where
  /-- What was taken so far; a refused chunk counts with the part of it that was kept. -/
  transcript : Transcript := .empty
  /-- Whether the next chunk is refused, given what was taken before it. -/
  refusal? : Transcript → Bytes → Option Refusal := fun _ _ => none

namespace Sink

/-- All bytes taken so far. -/
def written (sink : Sink) : Bytes :=
  sink.transcript.bytes

/-- A sink that takes so many bytes in all. -/
def bounded (limit : Nat) (message : String) : Sink :=
  { refusal? := fun taken chunk =>
      let room := limit - taken.size
      if chunk.length ≤ room then none else some ⟨room, message⟩ }

/-- Offers a chunk. Nothing is offered to write no bytes. -/
def write (sink : Sink) (chunk : Bytes) : Except String Unit × Sink :=
  if chunk.isEmpty then (.ok (), sink)
  else
    match sink.refusal? sink.transcript chunk with
    | none => (.ok (), { sink with transcript := sink.transcript.append chunk })
    | some refusal =>
        (.error refusal.message,
          { sink with transcript := sink.transcript.append (chunk.take refusal.kept) })

end Sink

end FrameCode
