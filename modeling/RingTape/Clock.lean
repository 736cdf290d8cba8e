/-
Timers that raise a signal from outside a run. Time is counted in microseconds and passes in two ways: by
waiting for a signal, and while a run is still going. A run is allowed a fixed number of steps for each
microsecond, more than a machine makes in that time, and some for the time a timer needs to be set up; when it
has used them up and has not ended, the next timer fires and the run goes on from where it is. So a run that
ends early is not disturbed, and one that idles is stopped by the first timer of its signal.

- `Clock.set`, `Clock.wait`: sets a timer, and waits for a signal
- `Clock.run`: a run of an interpreter while the clock runs; `run_of_no_timers` says that without timers it is
  the run of the interpreter itself
-/
import RingTape.Interpreter

namespace RingTape

/-- the reason given by a timer, in whole milliseconds -/
def timedOut (micros : Nat) : String :=
  s!"timed out after {micros / 1000}ms"

/-- a signal to be raised at a point of time -/
structure Timer where
  due : Nat
  token : Token
  reason : String
  deriving DecidableEq, Repr

/-- the time, and the timers still to fire, the next one first -/
structure Clock where
  now : Nat := 0
  timers : List Timer := []
  deriving DecidableEq, Repr

namespace Timer

/-- a timer among others in the order of their points of time, behind those that fall due together with it -/
def insert (t : Timer) : List Timer → List Timer
  | [] => [t]
  | u :: rest => if u.due ≤ t.due then u :: insert t rest else t :: u :: rest

/-- raises the signal of a timer -/
def fire (t : Timer) (s : Signals) : Signals :=
  s.raise t.token t.reason

end Timer

namespace Clock

/-- sets a timer that raises a signal after so many microseconds -/
def set (c : Clock) (token : Token) (micros : Nat) : Clock :=
  { c with timers := Timer.insert ⟨c.now + micros, token, timedOut micros⟩ c.timers }

/-- fires timers in their order until a signal is raised -/
def waitFor (token : Token) (signals : Signals) (now : Nat) : List Timer → Clock × Signals
  | [] => (⟨now, []⟩, signals)
  | t :: rest =>
    if (signals.reason? token).isSome then (⟨now, t :: rest⟩, signals)
    else waitFor token (t.fire signals) t.due rest

/-- waits until a signal is raised -/
def wait (c : Clock) (token : Token) (signals : Signals) : Clock × Signals :=
  waitFor token signals c.now c.timers

/-- the steps a run may make before a timer that is due in so many microseconds: those for the timer to be set up,
and two hundred for each microsecond -/
def allowance (micros : Nat) : Nat :=
  10000 + 200 * micros

/-- goes on with a walk, for at most so many steps between two timers; each timer fires when the walk has used
up what it is allowed until then -/
def driveFrom (steps : Nat) (token : Token) (now : Nat) : List Timer → Walk → Clock × Walk
  | [], w => (⟨now, []⟩, w.advance token steps)
  | t :: rest, w =>
    if allowance (t.due - now) ≤ steps then
      match w.advance token (allowance (t.due - now)) with
      | .ended r s => (⟨now, t :: rest⟩, .ended r s)
      | .going code frames s =>
        driveFrom steps token t.due rest ((Walk.going code frames s).mapSignals t.fire)
    else (⟨now, t :: rest⟩, w.advance token steps)

/-- goes on with a walk while the clock runs -/
def drive (c : Clock) (steps : Nat) (token : Token) (w : Walk) : Clock × Walk :=
  driveFrom steps token c.now c.timers w

/-- runs a program while the clock runs; `none` when so many steps between two timers do not bring it to its
end -/
def run (c : Clock) (steps : Nat) (i : Interpreter) (code : Code) (token : Token) (signals : Signals) :
    Option (Clock × Interpreter.Finished) :=
  match i.begin code signals with
  | .error e => some (c, i.refuse signals e)
  | .ok w =>
    let r := c.drive steps token w
    (Interpreter.settle r.2).map fun f => (r.1, f)

theorem run_of_no_timers (now steps : Nat) (i : Interpreter) (code : Code) (token : Token) (signals : Signals) :
    Clock.run ⟨now, []⟩ steps i code token signals =
      (i.run steps code token signals).map fun f => (⟨now, []⟩, f) := by
  unfold Clock.run Interpreter.run
  cases i.begin code signals <;> rfl

end Clock

end RingTape
