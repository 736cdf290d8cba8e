/-
The command as a function of its arguments, its files, its standard input and its standard output.

A program is loaded from a file, or from standard input when its path is a single dash; it then reads what
its text has left of the input. Nothing is run unless it loads. Standard output is either writable or a full
device; on a full device the first flush of a run fails, no call follows a failed flush, and a tree that cannot
be shown ends the command with an exit code of its own.

- `Command.load`: the program of a path, and what is left of the input
- `Command.execute`: the whole command; `none` when so many steps between two timers do not bring it to its end
-/
import RingTape.CommandLine.Files
import RingTape.CommandLine.Usage
import RingTape.Session

namespace RingTape

/-- what the command finds around it -/
structure Surroundings where
  files : Directory := []
  input : Entry := .file []
  /-- whether standard output is a full device -/
  full : Bool := false
  deriving Repr

/-- what the command leaves behind -/
structure Report where
  exitCode : Nat
  output : Array UInt8
  errors : String
  deriving DecidableEq, Repr

/-- why a program cannot be loaded -/
inductive LoadError where
  | unopened (path : String) (f : Failure)
  | unparsed (e : ParseError)
  deriving DecidableEq, Repr

/-- what is said about a program that cannot be loaded -/
def LoadError.message : LoadError → String
  | unopened path f => withCause s!"Could not open file {path}" (some f.text)
  | unparsed e => withCause "Could not parse program" (some (withCause e.message e.cause?))

namespace Command

/-- the bytes of a text -/
def bytesOf (s : String) : Array UInt8 :=
  s.toUTF8.data

/-- the program at a path, with what standard input answers afterwards -/
def load (around : Surroundings) (path : String) : Except LoadError (Code × Script) :=
  if path = "-" then
    (Code.parsePart around.input.script).mapError .unparsed
  else
    match around.files.openPath path with
    | .error f => .error (.unopened path f)
    | .ok e =>
      match Code.parse e.script with
      | .ok code => .ok (code, around.input.script)
      | .error e => .error (.unparsed e)

/-- the command has failed, with a text for standard error -/
def failed (output : Array UInt8) (errors : String) : Report :=
  ⟨1, output, errors⟩

/-- the report of a program that cannot be loaded -/
def loadFailed (e : LoadError) : Report :=
  failed #[] s!"Error occurred while loading program: {e.message}\n"

/-- the report of a run -/
def ofRun (result : Except RunError Unit) (output : Array UInt8) : Report :=
  match result with
  | .ok () => ⟨0, output, ""⟩
  | .error e => failed output s!"Error occurred while running program: {withCause e.message e.cause?}\n"

/-- the report of a tree that has been shown, or could not be -/
def ofTree (around : Surroundings) (code : Code) : Report :=
  if around.full then ⟨101, #[], s!"failed printing to stdout: {Failure.storageFull.text}\n"⟩
  else ⟨0, bytesOf (code.dump.text .pretty ++ "\n"), ""⟩

/-- what arrives on standard output of the bytes sent there -/
def arriving (around : Surroundings) (sent : Array UInt8) : Array UInt8 :=
  if around.full then #[] else sent

/-- the streams of a run of the command -/
def streams (around : Surroundings) (input : Script) : Streams :=
  { script := input
    flushes := { faults := if around.full then [(0, .storageFull)] else [] } }

/-- runs a loaded program -/
def runProgram (steps : Nat) (around : Surroundings) (timeout : Option Nat) (code : Code) (input : Script) :
    Option Report :=
  let (token, signals) := Signals.add {}
  let clock : Clock := match timeout with
    | none => {}
    | some ms => Clock.set {} token (1000 * ms)
  let i := Interpreter.new .blank (streams around input)
  (clock.run steps i code token signals).map fun (_, f) =>
    ofRun f.result (arriving around f.interpreter.streams.out)

/-- the whole command -/
def execute (steps : Nat) (around : Surroundings) (args : List String) : Option Report :=
  match Invocation.ofArguments args with
  | .error e => some (failed #[] e.report)
  | .ok .help => some ⟨0, arriving around (bytesOf (Usage.help ++ "\n")), ""⟩
  | .ok (.tree path) =>
    match load around path with
    | .error e => some (loadFailed e)
    | .ok (code, _) => some (ofTree around code)
  | .ok (.run timeout path) =>
    match load around path with
    | .error e => some (loadFailed e)
    | .ok (code, input) => runProgram steps around timeout code input

end Command

end RingTape
