import FrameCode.Main.Arguments

/-!
The command line program: it gathers the files that the arguments name, runs the command, and passes
on what the command leaves behind. Output of a running program is passed on while it runs.
-/

namespace FrameCode.CommandLine

def helpText : String :=
  "Interpreter for the IPPcode22 instruction language

Usage:
  ippcode run (--source FILE | --input FILE | --source FILE --input FILE)
  ippcode check [--source FILE]
  ippcode help [COMMAND]

A program is read from standard input unless --source is given, and its input
from standard input unless --input is given.

Options:
  -h, --help     Print help
  -V, --version  Print version
"

def misuseText : String :=
  "error: the arguments are not understood

For more information, try '--help'.
"

def readEntry (path : String) : IO Entry := do
  try
    return .file (← IO.FS.readBinFile path).toList
  catch
    | .noFileOrDirectory .. => return .missing
    | .inappropriateType .. => return .directory
    | e => return .locked (toString e)

/-- The contents of the given paths, and of standard input if one of them is not given. -/
def gather (paths : List (Option String)) : IO Environment := do
  let entries ← (paths.filterMap id).mapM fun path => return (path, ← readEntry path)
  let stdin ← if paths.any Option.isNone then (← IO.getStdin).readBinToEnd else pure ByteArray.empty
  return { entry := fun path => (entries.lookup path).getD .missing
           stdin := { pending := stdin.toList } }

def send (stream : IO.FS.Stream) (bytes : Text.Bytes) : IO Unit := do
  stream.write ⟨bytes.toArray⟩
  stream.flush

/-- Sends what the two streams are to take beyond what has been sent before. -/
def sendNew (sent : Nat × Nat) (stdout stderr : Text.Bytes) : IO (Nat × Nat) := do
  send (← IO.getStdout) (stdout.drop sent.1)
  send (← IO.getStderr) (stderr.drop sent.2)
  return (stdout.length, stderr.length)

def finish (sent : Nat × Nat) (response : Response) : IO UInt32 := do
  discard (sendNew sent response.stdout response.stderr)
  return response.exitCode.toUInt32

/-- Runs a machine in slices and sends its output after each. -/
partial def drive (env : Environment) (sent : Nat × Nat) : Machine.Progress → IO UInt32
  | .ended outcome => finish sent (conclude env outcome)
  | .running machine => do
      let sent ← sendNew sent machine.output.written machine.diagnostics.written
      drive env sent (machine.resume 100000)

/-- Does what the arguments ask for and returns the exit code. -/
def start (args : List String) : IO UInt32 := do
  match parse args with
  | .error stop => do
      match stop with
      | .help => IO.print helpText
      | .version => IO.print versionText
      | .misuse => IO.eprint misuseText
      return stop.exitCode.toUInt32
  | .ok (.check source) =>
      let response := check (← gather [source]) source
      try finish (0, 0) response catch _ => return abortCode.toUInt32
  | .ok (.run source input) =>
      let env ← gather [source, input]
      match prepare env source input with
      | .error complaint =>
          finish (0, 0) (complaint.respond env.stdout.sink env.stderr.sink)
      | .ok machine => drive env (0, 0) (machine.execute 100000)

end FrameCode.CommandLine

def main (args : List String) : IO UInt32 := do
  try
    FrameCode.CommandLine.start args
  catch e =>
    IO.eprintln s!"error: cannot write output: {e}"
    return 12
