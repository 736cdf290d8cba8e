/-
Dumps of what a run works with: signals, tapes and interpreters.
-/
import RingTape.ErrorText
import RingTape.Interpreter

namespace RingTape

/-- the dump of a handle: the reason its signal was raised for, or that there is none -/
def Signals.dump (s : Signals) (t : Token) : Dump :=
  .record "CancelToken"
    [("reason", .tuple "OnceLock" (.atom (((s.reason? t).map Quoted.quote).getD "<uninit>")))]

/-- the dump of a tape: its cells and its pointer, the streams left out -/
def Tape.dump (t : Tape) : Dump :=
  .openRecord "Tape"
    [("memory", .list (t.cells.toList.map fun c => .atom (toString c))),
      ("pointer", .atom (toString t.pointer))]

/-- the dump of an interpreter -/
def Interpreter.dump (i : Interpreter) : Dump :=
  .record "Interpreter" [("tape", i.tape.dump), ("status", .atom i.status.name)]

end RingTape
