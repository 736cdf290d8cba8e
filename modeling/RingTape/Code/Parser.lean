/-
Reading a program from a byte source.

`sequence` reads one sequence of instructions: up to the bracket that closes the loop it belongs to, or up to
the end of the source at the top level. It is told the offset of the bracket that opened its loop and the number
of loops around it, and leaves behind what it has not looked at. A failed call on the source ends the reading,
except that an interrupted one is made again. Nothing is returned unless every bracket is matched.

- `ParseError`: why a source holds no program
- `Code.parse`: the program of a source
- `Code.parsePart`: the same, with what is left of the source
-/
import RingTape.Code
import RingTape.Streams

namespace RingTape

/-- the largest number of loops around any point that a program may have -/
def maxNesting : Nat := 1024

/-- why a source holds no program -/
inductive ParseError where
  /-- the source ends inside the loop opened at the offset -/
  | unclosed (offset : Nat)
  /-- a bracket at the offset closes no loop -/
  | unopened (offset : Nat)
  /-- a bracket at the offset opens a loop inside `limit` others -/
  | tooDeep (offset limit : Nat)
  /-- the source could not be read -/
  | unreadable (f : Failure)
  deriving DecidableEq, Repr

namespace Code

/-- a sequence that has been read from a source, the offset behind it, and what was not looked at -/
structure Block (source : Script) where
  code : Code
  offset : Nat
  rest : Script
  rest_suffix : rest <:+ source

/-- the sequence that goes on at `offset`, with `done` the part already read, in opposite order; `opened` is
the offset of the bracket that opened its loop, `depth` the number of loops around it -/
def sequence (whole : Script) (opened : Option Nat) (depth offset : Nat) (done : Code) (source : Script)
    (hs : source <:+ whole) : Except ParseError (Block whole) :=
  match source with
  | [] =>
    match opened with
    | some bracket => .error (.unclosed bracket)
    | none => .ok ⟨done.reverse, offset, [], List.nil_suffix⟩
  | .ended :: rest =>
    match opened with
    | some bracket => .error (.unclosed bracket)
    | none => .ok ⟨done.reverse, offset, rest, (List.suffix_cons _ _).trans hs⟩
  | .failed f :: rest =>
    if f.kind = .interrupted then
      sequence whole opened depth offset done rest ((List.suffix_cons _ _).trans hs)
    else .error (.unreadable f)
  | .byte b :: rest =>
    have hr : rest <:+ whole := (List.suffix_cons _ _).trans hs
    match Symbol.ofByte? b with
    | none => sequence whole opened depth (offset + 1) done rest hr
    | some (.op o) => sequence whole opened depth (offset + 1) (.op o done) rest hr
    | some .opens =>
      if depth = maxNesting then .error (.tooDeep offset maxNesting)
      else
        match sequence rest (some offset) (depth + 1) (offset + 1) .nil rest (List.suffix_refl _) with
        | .error e => .error e
        | .ok body =>
          sequence whole opened depth body.offset (.loop body.code done) body.rest
            (body.rest_suffix.trans hr)
    | some .closes =>
      match opened with
      | some _ => .ok ⟨done.reverse, offset + 1, rest, hr⟩
      | none => .error (.unopened offset)
termination_by source.length
decreasing_by
  all_goals simp_wf
  have := body.rest_suffix.length_le
  omega

/-- the program of a source, and what was not looked at -/
def parsePart (source : Script) : Except ParseError (Code × Script) :=
  (sequence source none 0 0 .nil source (List.suffix_refl _)).map fun b => (b.code, b.rest)

/-- the program of a source -/
def parse (source : Script) : Except ParseError Code :=
  (parsePart source).map (·.1)

end Code

end RingTape
