/-
The command on real files and streams. The program is loaded first; its run then goes on in stretches. Between
two stretches the bytes written are handed to standard output, a byte that the run waits for is taken from
standard input, and the signal is raised once the time limit has passed.
-/
import RingTape.CommandLine.Command

namespace RingTape.Main

/-- the failure that an operation of the system ended in -/
def failureOf : IO.Error → Failure
  | .noFileOrDirectory _ code words => ⟨.notFound, s!"{words} (os error {code})"⟩
  | .invalidArgument _ code words => ⟨.invalidName, s!"{words} (os error {code})"⟩
  | .inappropriateType _ code words =>
    ⟨if code = 20 then .notADirectory else .isADirectory, s!"{words} (os error {code})"⟩
  | .permissionDenied _ code words => ⟨.permissionDenied, s!"{words} (os error {code})"⟩
  | .resourceExhausted _ code words => ⟨.storageFull, s!"{words} (os error {code})"⟩
  | .resourceVanished code words => ⟨.brokenPipe, s!"{words} (os error {code})"⟩
  | e => ⟨.other, toString e⟩

/-- whether the next step asks for a byte that the script does not hold -/
def starved : Walk → Bool
  | .going (.op .read _) _ s => s.streams.script.isEmpty
  | _ => false

/-- the walk with one more answer for its reads -/
def feed (a : ReadAnswer) : Walk → Walk
  | .going code frames s =>
    .going code frames { s with streams := { s.streams with script := s.streams.script ++ [a] } }
  | w => w

/-- steps until the end or until a byte is missing, at most so many -/
def stretch (token : Token) : Nat → Walk → Walk
  | 0, w => w
  | n + 1, w => if starved w || w.result?.isSome then w else stretch token n (w.step token)

/-- what a stream holds, up to its end or to the call that fails -/
partial def drain (stream : IO.FS.Stream) (bytes : ByteArray) : IO Script := do
  try
    let more ← stream.read 65536
    if more.isEmpty then return Script.ofBytes bytes.data.toList
    drain stream (bytes ++ more)
  catch e => return Script.ofBytes bytes.data.toList ++ [.failed (failureOf e)]

/-- one byte of standard input -/
def nextByte (input : IO.FS.Stream) : IO ReadAnswer := do
  try
    let bytes ← input.read 1
    return match bytes.data[0]? with
      | some b => .byte b
      | none => .ended
  catch e => return .failed (failureOf e)

/-- the program at a path -/
def load (path : String) : IO (Except LoadError Code) := do
  if path = "-" then
    return (Code.parse (← drain (← IO.getStdin) .empty)).mapError .unparsed
  try
    let file ← IO.FS.Handle.mk path .read
    return (Code.parse (← drain (IO.FS.Stream.ofHandle file) .empty)).mapError .unparsed
  catch e => return .error (.unopened path (failureOf e))

/-- carries a walk to its end; `shown` bytes of its output have been handed on -/
partial def carry (token : Token) (limit : Option (Nat × String)) (shown : Nat) (w : Walk) :
    IO (Except RunError Unit) := do
  let w := stretch token 4096 w
  let out := w.store.streams.out
  if shown < out.size then
    try
      let output ← IO.getStdout
      output.write ⟨out.extract shown out.size⟩
      output.flush
    catch e => return .error (.failure (failureOf e))
  match w.result? with
  | some r => return r
  | none =>
    let now ← IO.monoMsNow
    let (limit, w) := match limit with
      | some (due, reason) =>
        if due ≤ now then (none, w.mapSignals fun s => s.raise token reason) else (limit, w)
      | none => (none, w)
    let w ← if starved w then do pure (feed (← nextByte (← IO.getStdin)) w) else pure w
    carry token limit out.size w

/-- leaves a report behind -/
def leave (r : Report) : IO UInt32 := do
  (← IO.getStdout).write ⟨r.output⟩
  IO.eprint r.errors
  return r.exitCode.toUInt32

/-- does what the arguments ask for -/
def perform : Invocation → IO UInt32
  | .help => leave ⟨0, Command.bytesOf (Usage.help ++ "\n"), ""⟩
  | .tree path => do
    match (← load path) with
    | .error e => leave (Command.loadFailed e)
    | .ok code => leave (Command.ofTree {} code)
  | .run timeout path => do
    match (← load path) with
    | .error e => leave (Command.loadFailed e)
    | .ok code =>
      let (token, signals) := Signals.add {}
      let now ← IO.monoMsNow
      let limit := timeout.map fun ms => (now + ms, timedOut (1000 * ms))
      let r ← carry token limit 0 (Walk.start code ⟨.blank, {}, signals⟩)
      leave (Command.ofRun r #[])

end RingTape.Main

def main (args : List String) : IO UInt32 :=
  match RingTape.Invocation.ofArguments args with
  | .error e => RingTape.Main.leave (RingTape.Command.failed #[] e.report)
  | .ok asked => RingTape.Main.perform asked
