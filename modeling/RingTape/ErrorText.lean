/-
The words of errors: a name, a message, the cause behind it where a stream failed, and a dump.
-/
import RingTape.Code.Parser
import RingTape.Store
import RingTape.Text.Dump
import RingTape.Text.Quoted

namespace RingTape

namespace Status

/-- the name of a status -/
def name : Status → String
  | ready => "Ready"
  | running => "Running"
  | completed => "Completed"
  | cancelled => "Cancelled"
  | failed => "Failed"

/-- the status of a given name -/
def ofName? (s : String) : Option Status :=
  [ready, running, completed, cancelled, failed].find? (·.name == s)

end Status

namespace ParseError

/-- the name of an error -/
def name : ParseError → String
  | unclosed _ => "UnexpectedEndOfInput"
  | unopened _ => "UnexpectedLoopClose"
  | tooDeep .. => "NestingTooDeep"
  | unreadable _ => "Io"

/-- what an error says -/
def message : ParseError → String
  | unclosed offset => s!"unexpected end of input: [ at byte {offset} is never closed"
  | unopened offset => s!"unexpected ] at byte {offset}: no matching ["
  | tooDeep offset limit => s!"[ at byte {offset} nests loops deeper than {limit} levels"
  | unreadable _ => "failed to read program source"

/-- the text of the failure behind an error -/
def cause? : ParseError → Option String
  | unreadable f => some f.text
  | _ => none

/-- the dump of an error that has no failure behind it -/
def dump? (e : ParseError) : Option Dump :=
  match e with
  | unclosed offset | unopened offset => some (.record e.name [("offset", .atom (toString offset))])
  | tooDeep offset limit =>
    some (.record e.name [("offset", .atom (toString offset)), ("limit", .atom (toString limit))])
  | unreadable _ => none

end ParseError

namespace RunError

/-- the name of an error -/
def name : RunError → String
  | endOfInput => "EndOfInput"
  | failure _ => "Io"
  | cancelled _ => "Cancelled"
  | notReady _ => "NotReady"

/-- what an error says -/
def message : RunError → String
  | endOfInput => "end of input"
  | failure _ => "I/O failure"
  | cancelled reason => s!"cancelled: {reason}"
  | notReady status => s!"interpreter cannot run from the {status.name} state"

/-- the text of the failure behind an error -/
def cause? : RunError → Option String
  | failure f => some f.text
  | _ => none

/-- the dump of an error that has no failure behind it -/
def dump? (e : RunError) : Option Dump :=
  match e with
  | endOfInput => some (.atom e.name)
  | failure _ => none
  | cancelled reason => some (.record e.name [("reason", .atom (Quoted.quote reason))])
  | notReady status => some (.tuple e.name (.atom status.name))

end RunError

/-- a message with the cause behind it, if there is one -/
def withCause (message : String) (cause : Option String) : String :=
  match cause with
  | none => message
  | some c => message ++ ": " ++ c

end RingTape
