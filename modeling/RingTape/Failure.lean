/-
Failures of a stream: a kind, which decides what is done about it, and a text, which is only shown.
A failure made without a text of its own shows the text of its kind.
-/

namespace RingTape

/-- the kinds of failure that a stream call can end in -/
inductive FailureKind where
  | brokenPipe
  | connectionReset
  | interrupted
  | invalidData
  | invalidName
  | isADirectory
  | notADirectory
  | notFound
  | other
  | permissionDenied
  | storageFull
  | timedOut
  | unexpectedEof
  | wouldBlock
  | writeZero
  deriving DecidableEq, Repr

namespace FailureKind

/-- every kind, in the order of the declaration -/
def all : List FailureKind :=
  [brokenPipe, connectionReset, interrupted, invalidData, invalidName, isADirectory, notADirectory,
    notFound, other, permissionDenied, storageFull, timedOut, unexpectedEof, wouldBlock, writeZero]

/-- the one-word name of a kind -/
def name : FailureKind → String
  | brokenPipe => "BrokenPipe"
  | connectionReset => "ConnectionReset"
  | interrupted => "Interrupted"
  | invalidData => "InvalidData"
  | invalidName => "InvalidFilename"
  | isADirectory => "IsADirectory"
  | notADirectory => "NotADirectory"
  | notFound => "NotFound"
  | other => "Other"
  | permissionDenied => "PermissionDenied"
  | storageFull => "StorageFull"
  | timedOut => "TimedOut"
  | unexpectedEof => "UnexpectedEof"
  | wouldBlock => "WouldBlock"
  | writeZero => "WriteZero"

/-- the text shown for a failure that says nothing more than its kind -/
def describe : FailureKind → String
  | brokenPipe => "broken pipe"
  | connectionReset => "connection reset"
  | interrupted => "operation interrupted"
  | invalidData => "invalid data"
  | invalidName => "invalid filename"
  | isADirectory => "is a directory"
  | notADirectory => "not a directory"
  | notFound => "entity not found"
  | other => "other error"
  | permissionDenied => "permission denied"
  | storageFull => "no storage space"
  | timedOut => "timed out"
  | unexpectedEof => "unexpected end of file"
  | wouldBlock => "operation would block"
  | writeZero => "write zero"

/-- the kind of a given name -/
def ofName? (s : String) : Option FailureKind :=
  all.find? (·.name == s)

end FailureKind

/-- a failed stream call -/
structure Failure where
  kind : FailureKind
  text : String := kind.describe
  deriving DecidableEq, Repr

namespace Failure

/-- the operating system's answer for a path that leads nowhere -/
def notFound : Failure := ⟨.notFound, "No such file or directory (os error 2)"⟩

/-- the operating system's answer for a path that goes through something that is no directory -/
def notADirectory : Failure := ⟨.notADirectory, "Not a directory (os error 20)"⟩

/-- the operating system's answer for a path that is too long, or that has a name in it that is too long -/
def nameTooLong : Failure := ⟨.invalidName, "File name too long (os error 36)"⟩

/-- the operating system's answer when a directory is read as a file -/
def isADirectory : Failure := ⟨.isADirectory, "Is a directory (os error 21)"⟩

/-- the operating system's answer when a device has no room left -/
def storageFull : Failure := ⟨.storageFull, "No space left on device (os error 28)"⟩

/-- a sink that takes nothing of what it is given -/
def nothingWritten : Failure := ⟨.writeZero, "failed to write whole buffer"⟩

end Failure

end RingTape
