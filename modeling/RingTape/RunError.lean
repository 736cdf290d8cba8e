/-
How runs end early. A run stops because a stream failed or because its signal was raised; an interpreter that is
not ready does not begin one. The end of the input stops nothing, it is an error of the read instruction alone.
-/
import RingTape.Failure

namespace RingTape

/-- the stages in the life of an interpreter; none leads back to `ready` -/
inductive Status where
  | ready
  | running
  | completed
  | cancelled
  | failed
  deriving DecidableEq, Repr

/-- why a run ends early, or does not begin -/
inductive RunError where
  /-- no byte left to read; known to the read instruction only -/
  | endOfInput
  | failure (f : Failure)
  | cancelled (reason : String)
  | notReady (status : Status)
  deriving DecidableEq, Repr

end RingTape
