/-
What the instructions of a run act on: the tape, the pair of streams and the cancellation signals.

A stream call raises the signals that its channel's alarms name for it, before anything else of the call.
`Store.readByte` and `Store.writeByte` are the two stream instructions: they make a call again as long as it
is interrupted, which ends because an interruption uses up an entry of the script or a fault of the channel.
A byte is flushed as soon as it is accepted. `Op.act` is the effect of an instruction on the store; the end
of the input is no failure of a run, it leaves the cell as it is.
-/
import RingTape.Code
import RingTape.RunError
import RingTape.Streams
import RingTape.Tape

namespace RingTape

/-- what the instructions act on -/
structure Store where
  tape : Tape
  streams : Streams
  signals : Signals
  deriving Repr

namespace Store

/-- the value of the cell under the pointer -/
def current (s : Store) : UInt8 :=
  s.tape.current

/-- raises the alarmed signal for each reason in turn -/
def alarm (s : Store) (reasons : List String) : Store :=
  match s.streams.alarmed with
  | none => s
  | some t => { s with signals := s.signals.raiseAll t reasons }

/-- one call for a byte -/
def read (s : Store) : ReadAnswer × Store :=
  let s := s.alarm s.streams.reads.reasons
  let r := s.streams.read
  (r.1, { s with streams := r.2 })

/-- one call to write a byte -/
def write (b : UInt8) (s : Store) : WriteAnswer × Store :=
  let s := s.alarm s.streams.writes.reasons
  let r := s.streams.write b
  (r.1, { s with streams := r.2 })

/-- one call to flush -/
def flush (s : Store) : FlushAnswer × Store :=
  let s := s.alarm s.streams.flushes.reasons
  let r := s.streams.flush
  (r.1, { s with streams := r.2 })

@[simp] theorem alarm_streams (s : Store) (reasons : List String) : (s.alarm reasons).streams = s.streams := by
  unfold alarm; split <;> rfl

@[simp] theorem alarm_tape (s : Store) (reasons : List String) : (s.alarm reasons).tape = s.tape := by
  unfold alarm; split <;> rfl

theorem read_streams {s t : Store} {a : ReadAnswer} (h : s.read = (a, t)) :
    s.streams.read = (a, t.streams) := by
  simp only [read, alarm_streams, Prod.mk.injEq] at h
  obtain ⟨rfl, rfl⟩ := h
  rfl

theorem write_streams {s t : Store} {b : UInt8} {a : WriteAnswer} (h : s.write b = (a, t)) :
    s.streams.write b = (a, t.streams) := by
  simp only [write, alarm_streams, Prod.mk.injEq] at h
  obtain ⟨rfl, rfl⟩ := h
  rfl

/-- the next byte of the input; interrupted calls are made again, and both flavours of an exhausted
input are `endOfInput` -/
def readByte (s : Store) : Except RunError UInt8 × Store :=
  match _h : s.read with
  | (.byte b, t) => (.ok b, t)
  | (.ended, t) => (.error .endOfInput, t)
  | (.failed f, t) =>
    if f.kind = .interrupted then t.readByte
    else if f.kind = .unexpectedEof then (.error .endOfInput, t)
    else (.error (.failure f), t)
termination_by s.streams.readBudget
decreasing_by exact Streams.readBudget_lt (read_streams _h)

/-- hands one byte to the output; interrupted calls are made again, and a sink that takes nothing has failed -/
def pushByte (b : UInt8) (s : Store) : Except RunError Unit × Store :=
  match _h : s.write b with
  | (.accepted, t) => (.ok (), t)
  | (.refused, t) => (.error (.failure .nothingWritten), t)
  | (.failed f, t) =>
    if f.kind = .interrupted then t.pushByte b
    else (.error (.failure f), t)
termination_by s.streams.writeBudget
decreasing_by exact Streams.writeBudget_lt (write_streams _h)

/-- writes one byte and flushes it straight away; a flush is never made again -/
def writeByte (b : UInt8) (s : Store) : Except RunError Unit × Store :=
  match s.pushByte b with
  | (.error e, t) => (.error e, t)
  | (.ok (), t) =>
    match t.flush with
    | (.done, u) => (.ok (), u)
    | (.failed f, u) => (.error (.failure f), u)

end Store

/-- the effect of an instruction -/
@[inline] def Op.act (o : Op) (s : Store) : Except RunError Unit × Store :=
  match o with
  | .incr => (.ok (), { s with tape := s.tape.put (s.tape.current + 1) })
  | .decr => (.ok (), { s with tape := s.tape.put (s.tape.current - 1) })
  | .next => (.ok (), { s with tape := s.tape.right })
  | .prev => (.ok (), { s with tape := s.tape.left })
  | .print => s.writeByte s.current
  | .read =>
    match s.readByte with
    | (.ok b, t) => (.ok (), { t with tape := t.tape.put b })
    | (.error .endOfInput, t) => (.ok (), t)
    | (.error e, t) => (.error e, t)

end RingTape
