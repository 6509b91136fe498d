import FrameCode.CommandLine.Session

/-!
Arguments of the command line. They are taken from left to right, and the first that asks for help
or the version, or that is wrong, decides.
-/

namespace FrameCode.CommandLine

/-- Why no work is to be done. -/
inductive Stop where
  | help | version | misuse
deriving DecidableEq, Repr

/-- The exit code when no work is to be done. -/
def Stop.exitCode : Stop → Nat
  | .help | .version => 0
  | .misuse => 10

def versionText : String := "ippcode 0.1.0\n"

inductive FileOption where
  | source | input
deriving DecidableEq, Repr

def FileOption.name : FileOption → List Char
  | .source => "--source".toList
  | .input => "--input".toList

/-- The file options given so far. -/
structure Files where
  source : Option String := none
  input : Option String := none
deriving DecidableEq, Repr

namespace Files

def get? (files : Files) : FileOption → Option String
  | .source => files.source
  | .input => files.input

def set (files : Files) (option : FileOption) (path : String) : Files :=
  match option with
  | .source => { files with source := some path }
  | .input => { files with input := some path }

/-- Adds an option, which may be given once and not with an empty value. -/
def add (files : Files) (option : FileOption) (path : String) : Except Stop Files :=
  if path.isEmpty || (files.get? option).isSome then .error .misuse
  else .ok (files.set option path)

end Files

def isHelp (argument : String) : Bool :=
  argument = "--help" || argument.toList.take 2 == ['-', 'h']

def isVersion (argument : String) : Bool :=
  argument = "--version" || argument.toList.take 2 == ['-', 'V']

/-- A value in an argument of its own must not look like an option. -/
def isSeparateValue (argument : String) : Bool :=
  argument = "-" || argument.toList.head? != some '-'

/-- The option that an argument names, and the value that is attached to it. -/
def option? (allowed : List FileOption) (argument : String) :
    Option (FileOption × Option String) :=
  let chars := argument.toList
  let name := chars.takeWhile (· != '=')
  let value := match chars.dropWhile (· != '=') with
    | [] => none
    | _ :: value => some (String.ofList value)
  (allowed.find? (·.name == name)).map (·, value)

/-- Takes the arguments after a command that allows the given options. -/
def files (allowed : List FileOption) (given : Files) : List String → Except Stop Files
  | [] => .ok given
  | argument :: rest =>
      if argument = "--" then if rest.isEmpty then .ok given else .error .misuse
      else if isHelp argument then .error .help
      else
        match option? allowed argument with
        | none => .error .misuse
        | some (option, some value) =>
            match given.add option value with
            | .ok given => files allowed given rest
            | .error stop => .error stop
        | some (option, none) =>
            match rest with
            | [] => .error .misuse
            | value :: rest =>
                if isSeparateValue value then
                  match given.add option value with
                  | .ok given => files allowed given rest
                  | .error stop => .error stop
                else .error .misuse

/-- The command that help is asked on, if any, must exist. -/
def helpOn : List String → Stop
  | [] | ["run"] | ["check"] | ["help"] => .help
  | _ => .misuse

/-- A run needs its source or its input from a file, because both cannot come from one stream. -/
def parse : List String → Except Stop Request
  | "run" :: rest => do
      let given ← files [.source, .input] {} rest
      if given.source.isNone && given.input.isNone then .error .misuse
      else .ok (.run given.source given.input)
  | "check" :: rest => do
      let given ← files [.source] {} rest
      return .check given.source
  | "help" :: rest => .error (helpOn rest)
  | first :: _ =>
      if isHelp first then .error .help
      else if isVersion first then .error .version
      else .error .misuse
  | [] => .error .misuse

end FrameCode.CommandLine
