/-
Brackets of a source, by counting. The verdict of the parser on a byte string can be read off the number of
loops open at each offset, comments counting as bytes.

- `Brackets.loopsOpen`: opening brackets less closing ones before an offset
- `Brackets.Misplaced`: a bracket at an offset that closes no loop or opens one loop too many
- `Brackets.LeftOpen`: an opening bracket whose loop is never closed
-/
import RingTape.Code.Parser

namespace RingTape.Brackets

/-- the number of loops open before an offset -/
def loopsOpen (bytes : List UInt8) (offset : Nat) : Int :=
  (bytes.take offset).count Symbol.opens.byte - (bytes.take offset).count Symbol.closes.byte

/-- a bracket that closes no loop stands at the offset -/
def Stray (bytes : List UInt8) (offset : Nat) : Prop :=
  bytes[offset]? = some Symbol.closes.byte ∧ loopsOpen bytes offset = 0

/-- a bracket that opens a loop inside as many as there may be stands at the offset -/
def Excessive (bytes : List UInt8) (offset : Nat) : Prop :=
  bytes[offset]? = some Symbol.opens.byte ∧ loopsOpen bytes offset = maxNesting

/-- no program goes on with the bracket at the offset -/
def Misplaced (bytes : List UInt8) (offset : Nat) : Prop :=
  Stray bytes offset ∨ Excessive bytes offset

/-- the loop opened at the offset is still open at the end -/
def LeftOpen (bytes : List UInt8) (offset : Nat) : Prop :=
  bytes[offset]? = some Symbol.opens.byte ∧
    ∀ r, offset < r → r ≤ bytes.length → loopsOpen bytes offset < loopsOpen bytes r

end RingTape.Brackets
