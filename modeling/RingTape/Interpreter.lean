/-
The life of an interpreter. It owns a tape and a pair of streams for exactly one run: `begin` hands out the
walk of that run or refuses, `settle` takes an ended walk back and files its result as a status. A run on an
interpreter that is not ready changes nothing.

- `Interpreter.new`, `Interpreter.handOver`: an interpreter that is ready, on a tape or on the tape of another
- `Interpreter.run`: a run of a program under a token
-/
import RingTape.Walk

namespace RingTape

/-- a tape with its streams, for one run -/
structure Interpreter where
  tape : Tape
  streams : Streams
  status : Status
  deriving Repr

/-- the status that a finished run leaves -/
def Status.ofResult : Except RunError Unit → Status
  | .ok () => .completed
  | .error (.cancelled _) => .cancelled
  | .error _ => .failed

namespace Interpreter

/-- an interpreter over a tape and its streams, ready to run -/
def new (tape : Tape) (streams : Streams) : Interpreter :=
  ⟨tape, streams, .ready⟩

/-- a ready interpreter over the tape and the streams of another -/
def handOver (i : Interpreter) : Interpreter :=
  new i.tape i.streams

/-- the walk of a run, for an interpreter that is ready -/
def begin (i : Interpreter) (code : Code) (signals : Signals) : Except RunError Walk :=
  if i.status = .ready then .ok (.start code ⟨i.tape, i.streams, signals⟩)
  else .error (.notReady i.status)

/-- what a call to run gives back -/
structure Finished where
  result : Except RunError Unit
  interpreter : Interpreter
  signals : Signals

/-- the interpreter in the middle of a walk, or at its end -/
def ofWalk (w : Walk) : Interpreter :=
  ⟨w.store.tape, w.store.streams, (w.result?.map Status.ofResult).getD .running⟩

/-- what an ended walk gives back; `none` while it is going -/
def settle (w : Walk) : Option Finished :=
  w.result?.map fun r => ⟨r, ofWalk w, w.store.signals⟩

/-- a call to run that refuses -/
def refuse (i : Interpreter) (signals : Signals) (e : RunError) : Finished :=
  ⟨.error e, i, signals⟩

/-- runs a program; `none` when so many steps do not bring it to its end -/
def run (steps : Nat) (i : Interpreter) (code : Code) (token : Token) (signals : Signals) : Option Finished :=
  match i.begin code signals with
  | .error e => some (i.refuse signals e)
  | .ok w => settle (w.advance token steps)

end Interpreter

end RingTape
