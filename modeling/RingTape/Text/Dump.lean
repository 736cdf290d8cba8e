/-
Dumps of structured values in two layouts. The compact layout is one line; the pretty layout gives every entry
of a group a line of its own, four blanks deeper than the group, with a comma behind it. A `Dump` is the text of
a value in either layout at a depth; the combinators below build the dump of a value from those of its parts.

- `Dump.atom`: a text that is the same in both layouts
- `Dump.list`: values in square brackets, `[]` if there are none
- `Dump.tuple`: a name and a value in round brackets
- `Dump.record`: a name and labelled values in braces; an open record ends in two dots
-/

namespace RingTape

/-- the two layouts of a dump -/
inductive Layout where
  | compact
  | pretty
  deriving DecidableEq, Repr

/-- the text of a value in a layout, for a value that stands on a line of the given depth -/
def Dump := Layout → Nat → String

namespace Dump

/-- the blanks at the start of a line -/
def indent (depth : Nat) : String :=
  "".pushn ' ' (4 * depth)

/-- a text as it is -/
def atom (text : String) : Dump :=
  fun _ _ => text

/-- a value with a label before it -/
def labelled (label : String) (d : Dump) : Dump :=
  fun layout depth => label ++ ": " ++ d layout depth

/-- entries between two brackets, with `pad` inside the brackets of the compact layout and `more`, if there is
one, as a last entry without a comma -/
def group (opening pad closing : String) (entries : List Dump) (more : Option String) : Dump
  | .compact, depth =>
    opening ++ pad ++ ", ".intercalate (entries.map (· .compact depth) ++ more.toList) ++ pad ++ closing
  | .pretty, depth =>
    opening ++ "\n"
      ++ entries.foldl (fun s d => s ++ indent (depth + 1) ++ d .pretty (depth + 1) ++ ",\n") ""
      ++ (match more with
        | none => ""
        | some m => indent (depth + 1) ++ m ++ "\n")
      ++ indent depth ++ closing

/-- values in square brackets -/
def list : List Dump → Dump
  | [] => atom "[]"
  | d :: rest => group "[" "" "]" (d :: rest) none

/-- a name and a value in round brackets -/
def tuple (name : String) (d : Dump) : Dump :=
  group (name ++ "(") "" ")" [d] none

/-- a name and labelled values in braces -/
def record (name : String) (fields : List (String × Dump)) : Dump :=
  group (name ++ " \x7b") " " "\x7d" (fields.map fun f => labelled f.1 f.2) none

/-- a record that does not show all it has -/
def openRecord (name : String) (fields : List (String × Dump)) : Dump :=
  group (name ++ " \x7b") " " "\x7d" (fields.map fun f => labelled f.1 f.2) (some "..")

/-- the text of a value that stands on its own -/
def text (layout : Layout) (d : Dump) : String :=
  d layout 0

end Dump

end RingTape
