/-
The arguments of the command. They are first split, from left to right, into flags with their values and
positional arguments; everything behind the first `--` is positional. The split must then fit one of three
forms: a program to run, perhaps with a time limit; a program to show; or the help flag alone.

- `Argument.classify`: what an argument looks like
- `Arguments.split`: flags and positional arguments
- `Arguments.fit`: the form they fit
- `Invocation.ofArguments`: the two together, and the reading of the time limit
-/
import RingTape.Text.Blank
import RingTape.Text.Decimal
import RingTape.Text.EditDistance

namespace RingTape

/-- the flags of the command -/
inductive Flag where
  | help
  | ast
  | timeout
  deriving DecidableEq, Repr

/-- what the command is asked to do -/
inductive Invocation where
  | help
  /-- show a program as a tree -/
  | tree (program : String)
  /-- run a program, with a limit in milliseconds if there is one -/
  | run (timeout : Option Nat) (program : String)
  deriving DecidableEq, Repr

/-- why arguments are refused -/
inductive ArgumentError where
  | unknownFlag (flag : String) (suggestion : Option String)
  | unwantedValue (flag value : String)
  | missingValue (flag : String)
  /-- the flags and positional arguments fit no form -/
  | misfit
  /-- the value of the time limit is no number -/
  | notANumber (value : String)
  deriving DecidableEq, Repr

namespace Flag

/-- all flags -/
def all : List Flag := [help, ast, timeout]

/-- the long spelling of a flag -/
def long : Flag → String
  | help => "--help"
  | ast => "--ast"
  | timeout => "--timeout"

/-- whether a flag has a value -/
def takesValue : Flag → Bool
  | timeout => true
  | _ => false

/-- the flag of a long spelling -/
def ofLong? (s : String) : Option Flag :=
  all.find? (·.long == s)

/-- the flag of a letter -/
def ofLetter? (c : Char) : Option Flag :=
  if c = 'h' then some help else none

theorem ofLong?_long (f : Flag) : ofLong? f.long = some f := by
  cases f <;> decide

end Flag

/-! ## The look of an argument -/

/-- what an argument looks like -/
inductive Argument where
  /-- a dash and one letter for each of several flags -/
  | letters (cs : List Char)
  /-- a flag spelled out, with the value behind its equals sign -/
  | long (name : String) (value : Option String)
  | separator
  | positional (text : String)
  deriving DecidableEq, Repr

namespace Argument

/-- the parts of a text before and behind its first equals sign -/
def splitEquals (cs : List Char) : List Char × Option (List Char) :=
  match cs.dropWhile (· != '=') with
  | [] => (cs, none)
  | _ :: value => (cs.takeWhile (· != '='), some value)

/-- whether what stands behind the two dashes spells a flag: it has no blank, or its blanks stand in a value
on one line, behind an equals sign that is not the first character -/
def spellsFlag (cs : List Char) : Bool :=
  match cs with
  | [] => false
  | c :: rest =>
    if cs.any Blank.isBlank then
      match splitEquals rest with
      | (_, none) => false
      | (name, some value) => !(c :: name).any Blank.isBlank && !value.isEmpty && !value.any (· == '\n')
    else true

/-- what an argument looks like -/
def classify (s : String) : Argument :=
  match s.toList with
  | ['-', '-'] => .separator
  | '-' :: '-' :: rest =>
    if spellsFlag rest then
      let (name, value) := splitEquals rest
      .long ("--" ++ String.ofList name) (value.map String.ofList)
    else .positional s
  | '-' :: c :: rest => if rest.any Blank.isBlank then .positional s else .letters (c :: rest)
  | _ => .positional s

end Argument

/-! ## Splitting -/

/-- flags in the order they were given, with their values, and positional arguments -/
structure Arguments where
  flags : List (Flag × Option String) := []
  positionals : List String := []
  deriving DecidableEq, Repr

namespace Arguments

/-- the known flag closest to an unknown one, if it is less than three edits away -/
def suggestion? (flag : String) : Option String :=
  EditDistance.closest? 3 flag (Flag.all.map Flag.long)

/-- the flags of some letters -/
def ofLetters : List Char → Except ArgumentError (List (Flag × Option String))
  | [] => .ok []
  | c :: rest =>
    match Flag.ofLetter? c with
    | none => .error (.unknownFlag ("-".push c) none)
    | some f => (ofLetters rest).map ((f, none) :: ·)

/-- the arguments with some flags before them -/
def addFlags (fs : List (Flag × Option String)) (a : Arguments) : Arguments :=
  { a with flags := fs ++ a.flags }

/-- the arguments with a positional one before them -/
def addPositional (p : String) (a : Arguments) : Arguments :=
  { a with positionals := p :: a.positionals }

/-- flags and positional arguments, from left to right; the first mistake counts -/
def split : List String → Except ArgumentError Arguments
  | [] => .ok {}
  | s :: rest =>
    match Argument.classify s with
    | .separator => .ok ⟨[], rest⟩
    | .positional p => (split rest).map (addPositional p)
    | .letters cs =>
      match ofLetters cs with
      | .error e => .error e
      | .ok fs => (split rest).map (addFlags fs)
    | .long name value =>
      match Flag.ofLong? name with
      | none => .error (.unknownFlag name (suggestion? name))
      | some f =>
        if f.takesValue then
          match value, rest with
          | some v, rest => (split rest).map (addFlags [(f, some v)])
          | none, v :: rest => (split rest).map (addFlags [(f, some v)])
          | none, [] => .error (.missingValue f.long)
        else
          match value with
          | some v => .error (.unwantedValue f.long v)
          | none => (split rest).map (addFlags [(f, none)])

/-! ## Forms -/

/-- the first number too large for a time limit, two to the power of 64 -/
def timeoutBound : Nat := 18446744073709551616

/-- the value of a time limit; one that holds nothing but blanks is zero -/
def readTimeout (value : String) : Except ArgumentError Nat :=
  if value.toList.all Blank.isBlank then .ok 0
  else
    match Decimal.read? timeoutBound value with
    | some n => .ok n
    | none => .error (.notANumber value)

/-- the form that flags and positional arguments fit -/
def fit (a : Arguments) : Except ArgumentError Invocation :=
  match a.flags, a.positionals with
  | [(.help, _)], [] => .ok .help
  | [(.ast, _)], [p] => .ok (.tree p)
  | [], [p] => .ok (.run none p)
  | [(.timeout, value)], [p] => (readTimeout (value.getD "")).map fun n => .run (some n) p
  | _, _ => .error .misfit

end Arguments

/-- what the arguments ask for -/
def Invocation.ofArguments (args : List String) : Except ArgumentError Invocation :=
  match Arguments.split args with
  | .error e => .error e
  | .ok a => a.fit

end RingTape
