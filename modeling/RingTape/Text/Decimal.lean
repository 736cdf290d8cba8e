/-
Numbers in decimal digits. A number may carry a plus sign; it has at least one digit, only the ten digits of
ASCII, any number of leading zeros, and it stays below a bound.
-/

namespace RingTape.Decimal

/-- the value of a digit -/
def digit? (c : Char) : Option Nat :=
  if '0' ≤ c ∧ c ≤ '9' then some (c.toNat - 48) else none

/-- the value of digits that follow a number `n` -/
def digitsFrom (n : Nat) : List Char → Option Nat
  | [] => some n
  | c :: rest =>
    match digit? c with
    | some d => digitsFrom (10 * n + d) rest
    | none => none

/-- the value of a text of digits, at least one -/
def digits? : List Char → Option Nat
  | [] => none
  | c :: rest => digitsFrom 0 (c :: rest)

/-- the number below `bound` that a text writes -/
def read? (bound : Nat) (s : String) : Option Nat :=
  let cs := s.toList
  let n := match cs with
    | '+' :: rest => digits? rest
    | _ => digits? cs
  n.filter (· < bound)

end RingTape.Decimal
