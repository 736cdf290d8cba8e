/-
Sessions: named programs, tokens and interpreters, and the steps that make and use them. A name given again is
bound anew. All tokens of a session share its signals, and its clock runs while an interpreter is held up by a
timer or a step waits for a signal.

- `Session.step`: one step and its answer
- `Session.run`: a list of steps and their answers
- `runOnce`: one program on a fresh tape, under one token
-/
import RingTape.Bindings
import RingTape.Clock
import RingTape.Code.Dump
import RingTape.Inspect

namespace RingTape

/-! ## Steps and answers -/

/-- what is to be shown -/
inductive Exhibit where
  | program (name : String)
  | token (name : String)
  | tape (interpreter : String)
  | interpreter (name : String)
  deriving DecidableEq, Repr

/-- one step of a session -/
inductive Step where
  | parse (program : String) (source : Script)
  | emptyProgram (program : String)
  | copyProgram (source program : String)
  | compare (left right : String)
  | node (program : String) (path : List Nat)
  | exhibit (what : Exhibit) (layout : Layout)
  | newToken (token : String)
  | copyToken (source token : String)
  | cancel (token reason : String)
  | tokenState (token : String)
  | cancelAfter (token : String) (micros : Nat) (wait : Bool)
  | newInterpreter (interpreter : String) (streams : Streams) (token : Option String)
  | run (interpreter program token : String)
  | state (interpreter : String)
  | handOver (source interpreter : String)
  | unknown (word : String)

/-- the answer to a step -/
inductive Answer where
  /-- a program with so many nodes at its top level -/
  | program (length : Nat)
  | rejected (e : ParseError)
  | equal (same : Bool)
  | text (text : Option String)
  /-- a token, by the reason its signal was raised for -/
  | token (reason : Option String)
  | interpreter (i : Interpreter)
  | finished (result : Except RunError Unit) (i : Interpreter)
  /-- a run that has not come to its end -/
  | unfinished
  /-- a request that cannot be met -/
  | refused (message : String)

namespace Answer

/-- no value is bound to a name; `role` says what the step wanted it for -/
def missing (role name : String) : Answer :=
  .refused s!"no {role} {name}"

end Answer

/-! ## Sessions -/

/-- the state of a session -/
structure Session where
  programs : Bindings Code := []
  tokens : Bindings Token := []
  interpreters : Bindings Interpreter := []
  signals : Signals := {}
  clock : Clock := {}

namespace Session

/-- binds a program and answers its length -/
def addProgram (s : Session) (name : String) (code : Code) : Session × Answer :=
  ({ s with programs := s.programs.bind name code }, .program code.length)

/-- what a token answers about its signal -/
def tokenAnswer (s : Session) (t : Token) : Answer :=
  .token (s.signals.reason? t)

/-- the text of what is to be shown -/
def showing (s : Session) (layout : Layout) : Exhibit → Answer
  | .program name =>
    match s.programs.find? name with
    | none => .missing "ast" name
    | some code => .text (some (code.dump.text layout))
  | .token name =>
    match s.tokens.find? name with
    | none => .missing "token" name
    | some t => .text (some ((s.signals.dump t).text layout))
  | .tape name =>
    match s.interpreters.find? name with
    | none => .missing "tape" name
    | some i => .text (some (i.tape.dump.text layout))
  | .interpreter name =>
    match s.interpreters.find? name with
    | none => .missing "interp" name
    | some i => .text (some (i.dump.text layout))

/-- runs a program on an interpreter while the clock runs, for at most `steps` steps between two timers -/
def runOn (steps : Nat) (s : Session) (name : String) (i : Interpreter) (code : Code) (token : Token) :
    Session × Answer :=
  match s.clock.run steps i code token s.signals with
  | none => (s, .unfinished)
  | some (clock, f) =>
    ({ s with
        interpreters := s.interpreters.bind name f.interpreter, signals := f.signals, clock := clock },
      .finished f.result f.interpreter)

/-- one step; a run is given up after `steps` steps between two timers -/
def step (steps : Nat) (s : Session) : Step → Session × Answer
  | .parse name source =>
    match Code.parse source with
    | .error e => (s, .rejected e)
    | .ok code => s.addProgram name code
  | .emptyProgram name => s.addProgram name .nil
  | .copyProgram source name =>
    match s.programs.find? source with
    | none => (s, .missing "from" source)
    | some code => s.addProgram name code
  | .compare left right =>
    match s.programs.find? left, s.programs.find? right with
    | none, _ => (s, .missing "a" left)
    | some _, none => (s, .missing "b" right)
    | some c, some d => (s, .equal (c == d))
  | .node name path =>
    match s.programs.find? name with
    | none => (s, .missing "ast" name)
    | some code => (s, .text ((code.nodeAt? path).map fun n => n.dump.text .compact))
  | .exhibit what layout => (s, s.showing layout what)
  | .newToken name =>
    let (t, signals) := s.signals.add
    let s := { s with tokens := s.tokens.bind name t, signals := signals }
    (s, s.tokenAnswer t)
  | .copyToken source name =>
    match s.tokens.find? source with
    | none => (s, .missing "from" source)
    | some t => ({ s with tokens := s.tokens.bind name t }, s.tokenAnswer t)
  | .cancel name reason =>
    match s.tokens.find? name with
    | none => (s, .missing "token" name)
    | some t =>
      let s := { s with signals := s.signals.raise t reason }
      (s, s.tokenAnswer t)
  | .tokenState name =>
    match s.tokens.find? name with
    | none => (s, .missing "token" name)
    | some t => (s, s.tokenAnswer t)
  | .cancelAfter name micros wait =>
    match s.tokens.find? name with
    | none => (s, .missing "token" name)
    | some t =>
      let s := { s with clock := s.clock.set t micros }
      if wait then
        let (clock, signals) := s.clock.wait t s.signals
        let s := { s with clock := clock, signals := signals }
        (s, s.tokenAnswer t)
      else (s, s.tokenAnswer t)
  | .newInterpreter name streams none =>
    let i := Interpreter.new .blank streams
    ({ s with interpreters := s.interpreters.bind name i }, .interpreter i)
  | .newInterpreter name streams (some token) =>
    match s.tokens.find? token with
    | none => (s, .missing "token" token)
    | some t =>
      let i := Interpreter.new .blank { streams with alarmed := some t }
      ({ s with interpreters := s.interpreters.bind name i }, .interpreter i)
  | .run name program token =>
    match s.programs.find? program, s.tokens.find? token, s.interpreters.find? name with
    | none, _, _ => (s, .missing "ast" program)
    | some _, none, _ => (s, .missing "token" token)
    | some _, some _, none => (s, .missing "interp" name)
    | some code, some t, some i => s.runOn steps name i code t
  | .state name =>
    match s.interpreters.find? name with
    | none => (s, .missing "interp" name)
    | some i => (s, .interpreter i)
  | .handOver source name =>
    match s.interpreters.find? source with
    | none => (s, .missing "from" source)
    | some i =>
      let i := i.handOver
      ({ s with interpreters := (s.interpreters.unbind source).bind name i }, .interpreter i)
  | .unknown word => (s, .refused s!"unknown step {word}")

/-- a list of steps, with their answers in order -/
def run (steps : Nat) (s : Session) : List Step → Session × List Answer
  | [] => (s, [])
  | p :: rest =>
    let (s, a) := s.step steps p
    let (s, answers) := run steps s rest
    (s, a :: answers)

end Session

/-! ## A single run -/

/-- how a single run is set up -/
structure Setup where
  source : Script
  streams : Streams := {}
  /-- the reason for which the token is cancelled before the run -/
  cancelled : Option String := none
  /-- the microseconds of a timer set before the run -/
  timeout : Option Nat := none

/-- the answer to a single run of a program on a fresh tape, its streams alarming its own token -/
def runOnce (steps : Nat) (p : Setup) : Answer :=
  match Code.parse p.source with
  | .error e => .rejected e
  | .ok code =>
    let (token, signals) := Signals.add {}
    let signals := match p.cancelled with
      | none => signals
      | some reason => signals.raise token reason
    let clock : Clock := match p.timeout with
      | none => {}
      | some micros => Clock.set {} token micros
    let i := Interpreter.new .blank { p.streams with alarmed := some token }
    (Session.runOn steps { signals := signals, clock := clock } "" i code token).2

end RingTape
