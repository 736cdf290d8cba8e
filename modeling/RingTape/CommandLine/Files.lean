/-
The files that the command can open: entries that were placed, one after the other, at paths of a working
directory. The directories that the working directory lies in hold nothing else. A path is followed name by name,
from the working directory or, if it begins with a slash, from the root. A path has a greatest length, and so has
a name; a name that is too long is noticed when it is looked for, and so only behind names that led to a directory.

- `Place.ofPath`: the place that a path names
- `Directory.ofPaths`: the directory that given entries were placed in
- `Directory.entryAt?`: what is at a place
- `Directory.openPath`: the entry at the end of a path
-/
import RingTape.Streams

namespace RingTape

/-- a file with its bytes, or a directory -/
inductive Entry where
  | file (bytes : List UInt8)
  | directory
  deriving DecidableEq, Repr

/-- what reading an entry answers: its bytes, or the failure that reading a directory is -/
def Entry.script : Entry → Script
  | .file bytes => .ofBytes bytes
  | .directory => [.failed .isADirectory]

/-- the directories that places are counted from -/
inductive Base where
  /-- the directory so many levels above the working directory -/
  | above (levels : Nat)
  /-- the directory that all others lie in -/
  | root
  deriving DecidableEq, Repr

/-- a place for an entry: the names that lead to it from a base, the last one first -/
structure Place where
  base : Base
  names : List String
  deriving DecidableEq, Repr

namespace Place

/-- the place where a path begins -/
def start (path : String) : Place :=
  ⟨if path.startsWith "/" then .root else .above 0, []⟩

/-- the directory that a place lies in; the root lies in itself -/
def parent : Place → Place
  | ⟨b, _ :: names⟩ => ⟨b, names⟩
  | ⟨.above levels, []⟩ => ⟨.above (levels + 1), []⟩
  | ⟨.root, []⟩ => ⟨.root, []⟩

/-- the place that a name leads to; an empty name, as between two slashes or behind the last one, and a single dot
lead nowhere else, two dots lead to the directory around -/
def enter (p : Place) (name : String) : Place :=
  if name = "" ∨ name = "." then p
  else if name = ".." then p.parent
  else { p with names := name :: p.names }

/-- the place that a path names -/
def ofPath (path : String) : Place :=
  (path.splitOn "/").foldl enter (start path)

/-- whether a place is another one or lies within it -/
def isWithin (p q : Place) : Bool :=
  p.base = q.base && q.names.isSuffixOf p.names

end Place

/-- the entries that were placed, the last one first; around each of them are the directories on the way to it,
whether or not they were placed themselves -/
abbrev Directory := List (Place × Entry)

namespace Directory

/-- the directory that given entries were placed in, one after the other, each at its path -/
def ofPaths (entries : List (String × Entry)) : Directory :=
  entries.foldl (fun d e => (Place.ofPath e.1, e.2) :: d) []

/-- what is at a place: the entry placed there last, or a directory around others -/
def entryAt? (d : Directory) (p : Place) : Option Entry :=
  if p.names.isEmpty then some .directory
  else
    match d.lookup p with
    | some e => some e
    | none => if d.any fun e => e.1.isWithin p then some .directory else none

/-- the greatest number of bytes in a name -/
def longestName : Nat := 255

/-- the greatest number of bytes in a path -/
def longestPath : Nat := 4095

/-- follows one name of a path, from a place where there has to be a directory -/
def follow (d : Directory) (p : Place) (name : String) : Except Failure Place :=
  match d.entryAt? p with
  | none => .error .notFound
  | some (.file _) => .error .notADirectory
  | some .directory => if longestName < name.utf8ByteSize then .error .nameTooLong else .ok (p.enter name)

/-- opens the entry at the end of a path -/
def openPath (d : Directory) (path : String) : Except Failure Entry :=
  if longestPath < path.utf8ByteSize then .error .nameTooLong
  else if path = "" then .error .notFound
  else
    match (path.splitOn "/").foldlM d.follow (Place.start path) with
    | .error f => .error f
    | .ok p =>
      match d.entryAt? p with
      | some e => .ok e
      | none => .error .notFound

end Directory

end RingTape
