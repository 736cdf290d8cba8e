/-
Bytes as pairs of hexadecimal digits, in lower case.

- `Hex.encode`, `Hex.decode?`: the text of a byte string, and the byte string of a text
- `Hex.ofNat`: a number without leading zeros
-/

namespace RingTape.Hex

/-- the digit of a value below sixteen -/
def digit (n : Nat) : Char :=
  if n < 10 then Char.ofNat (48 + n) else Char.ofNat (87 + n)

/-- the value of a digit -/
def value? (c : Char) : Option Nat :=
  if '0' ≤ c ∧ c ≤ '9' then some (c.toNat - 48)
  else if 'a' ≤ c ∧ c ≤ 'f' then some (c.toNat - 87)
  else none

/-- the two digits of a byte, the high one first -/
def ofByte (b : UInt8) : String :=
  ("".push (digit (b.toNat / 16))).push (digit (b.toNat % 16))

/-- the digits of a byte string -/
def encode (bytes : Array UInt8) : String :=
  bytes.foldl (fun s b => (s.push (digit (b.toNat / 16))).push (digit (b.toNat % 16))) ""

/-- the bytes of a list of digits, before those of `done` in opposite order -/
def decodeOnto (done : List UInt8) : List Char → Option (List UInt8)
  | [] => some done.reverse
  | [_] => none
  | h :: l :: rest =>
    match value? h, value? l with
    | some a, some b => decodeOnto (UInt8.ofNat (16 * a + b) :: done) rest
    | _, _ => none

/-- the byte string of a text, if it is one -/
def decode? (s : String) : Option (List UInt8) :=
  decodeOnto [] s.toList

/-- a number in as few digits as it needs -/
def ofNat (n : Nat) : String :=
  String.ofList (Nat.toDigits 16 n)

end RingTape.Hex
