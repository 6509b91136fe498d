import FrameCode.Check.Scan
import FrameCode.Machine.Run
import FrameCode.Source.Load

/-!
What a command does with the files and the standard streams it is given. Checking loads a program
and reports every finding. Running does the same first, and then runs the program; how it ends
decides the exit code, unless its output cannot be flushed. A command that cannot write a line of
its own is aborted; what is then reported about it is not part of the response.
-/

namespace FrameCode.CommandLine

open Text (Bytes)

/-- What stands under a path. -/
inductive Entry where
  | missing
  /-- It cannot be opened, for the reason given. -/
  | locked (reason : String)
  | directory
  /-- Reading it may break off behind the contents. -/
  | file (contents : Bytes) (failure : Option String := none)
deriving DecidableEq

/-- What there is to read once the entry is opened, or why it cannot be opened. A directory can be
opened but not read. -/
def Entry.opened : Entry → Except String Input
  | .missing => .error "No such file or directory (os error 2)"
  | .locked reason => .error reason
  | .directory => .ok { pending := [], failure := some "Is a directory (os error 21)" }
  | .file contents failure => .ok { pending := contents, failure }

/-- How a standard stream takes what is written to it. -/
structure Stream where
  /-- Whether the next chunk is refused, given what was taken before it. -/
  refusal? : Transcript → Bytes → Option Refusal := fun _ _ => none
  /-- The error that passing on all that was taken meets, if it meets one. -/
  flushError? : Transcript → Option String := fun _ => none

def Stream.sink (stream : Stream) : Sink :=
  { refusal? := stream.refusal? }

structure Environment where
  entry : String → Entry
  stdin : Input
  stdout : Stream := {}
  stderr : Stream := {}

/-- What a command leaves behind: its exit code and what the two streams have taken. -/
structure Response where
  exitCode : Nat := 0
  stdout : Bytes := []
  stderr : Bytes := []
deriving DecidableEq

/-- The exit code of a command that cannot write a line of its own. -/
def abortCode : Nat := 101

/-- Why a command gives up, and the exit code that goes with it. -/
structure Complaint where
  exitCode : Nat
  messages : List String
deriving DecidableEq

/-- Writes one line for each message, up to the first that is refused. -/
def complain (stderr : Sink) : List String → Except String Unit × Sink
  | [] => (.ok (), stderr)
  | message :: rest =>
      match stderr.write (Text.encode s!"error: {message}\n") with
      | (.ok (), stderr) => complain stderr rest
      | refused => refused

/-- Gives up after what the two streams have taken so far. -/
def Complaint.respond (complaint : Complaint) (stdout stderr : Sink) : Response :=
  match complain stderr complaint.messages with
  | (.ok (), stderr) =>
      { exitCode := complaint.exitCode, stdout := stdout.written, stderr := stderr.written }
  | (.error _, stderr) =>
      { exitCode := abortCode, stdout := stdout.written, stderr := stderr.written }

/-- All of an input as text. -/
def wholeText (input : Input) : Except String String :=
  match input.failure with
  | some reason => .error reason
  | none =>
      match Text.decode? input.pending with
      | some text => .ok text
      | none => .error "stream did not contain valid UTF-8"

namespace Environment

/-- The source text, from a file or else from standard input. -/
def sourceText (env : Environment) : Option String → Except Complaint String
  | some path =>
      ((env.entry path).opened >>= wholeText).mapError fun reason =>
        ⟨11, [s!"cannot read '{path}': {reason}"]⟩
  | none => (wholeText env.stdin).mapError fun reason => ⟨11, [s!"cannot read stdin: {reason}"]⟩

/-- A program without findings. The first finding decides the exit code. -/
def program (env : Environment) (source : Option String) : Except Complaint Program := do
  let text ← env.sourceText source
  let program ← (Source.load text).mapError fun e => ⟨e.exitCode, [e.message]⟩
  match Check.findings program with
  | [] => return program
  | first :: rest => .error ⟨first.exitCode, (first :: rest).map (·.message)⟩

/-- The input of a run. Of standard input nothing is left once the source was read from it. -/
def input (env : Environment) (source : Option String) : Option String → Except Complaint Input
  | none => .ok (if source.isNone then { env.stdin with pending := [] } else env.stdin)
  | some path =>
      (env.entry path).opened.mapError fun reason => ⟨11, [s!"cannot open '{path}': {reason}"]⟩

end Environment

/-- The line that approves of a program. -/
def approval (program : Program) : Bytes :=
  Text.encode s!"OK ({program.size} instructions)\n"

def check (env : Environment) (source : Option String) : Response :=
  match env.program source with
  | .error complaint => complaint.respond env.stdout.sink env.stderr.sink
  | .ok program =>
      match env.stdout.sink.write (approval program) with
      | (.ok (), stdout) => { stdout := stdout.written }
      | (.error _, stdout) => { exitCode := abortCode, stdout := stdout.written }

/-- The machine that is to run a program. -/
def prepare (env : Environment) (source input : Option String) : Except Complaint Machine := do
  let program ← env.program source
  let input ← env.input source input
  return { program, input, output := env.stdout.sink, diagnostics := env.stderr.sink }

/-- What a run that has ended leaves behind. Its output is flushed before anything else, so where
that fails nothing is said about how the run has ended. -/
def conclude (env : Environment) (outcome : Outcome RuntimeError) : Response :=
  let stdout := outcome.machine.output
  let stderr := outcome.machine.diagnostics
  match env.stdout.flushError? stdout.transcript with
  | some reason =>
      Complaint.respond ⟨12, [s!"cannot write output: {reason}"]⟩ stdout stderr
  | none =>
      match outcome.result with
      | .ok () =>
          { exitCode := outcome.machine.exitCode.getD 0
            stdout := stdout.written, stderr := stderr.written }
      | .error e => Complaint.respond ⟨e.exitCode, [e.message]⟩ stdout stderr

/-- Runs a program for as many steps as the fuel allows; none if it has not ended by then. -/
def run (fuel : Nat) (env : Environment) (source input : Option String) : Option Response :=
  match prepare env source input with
  | .error complaint => some (complaint.respond env.stdout.sink env.stderr.sink)
  | .ok machine =>
      match machine.execute fuel with
      | .ended outcome => some (conclude env outcome)
      | .running _ => none

/-- What the command line asks to be done. -/
inductive Request where
  | run (source input : Option String)
  | check (source : Option String)
deriving DecidableEq, Repr

def Request.respond (fuel : Nat) (env : Environment) : Request → Option Response
  | .check source => some (CommandLine.check env source)
  | .run source input => CommandLine.run fuel env source input

end FrameCode.CommandLine
