/-
The streams of a run, as the calls on them and the answers they give.

A `Script` lists what a byte source answers, one entry for each call that asks for one byte; a script that has
run out goes on answering with the end of the input. A `Channel` counts the calls of one kind and knows at
which of them it fails (`faults`) and at which of them a signal is raised (`alarms`). `Streams` is the pair of
input and output that a run works with: the script of its input, its three channels, the signal that its alarms
raise, and what has happened on it so far.

- `Streams.read`, `Streams.write`, `Streams.flush`: one call and its answer
- `readBudget_lt`, `writeBudget_lt`: after a failed call fewer calls can fail, so calling again comes to an end
-/
import RingTape.Failure
import RingTape.Signals

namespace RingTape

/-! ## Sources -/

/-- what a call for one byte answers -/
inductive ReadAnswer where
  | byte (b : UInt8)
  /-- no byte: the end of the input, for now -/
  | ended
  | failed (f : Failure)
  deriving DecidableEq, Repr

/-- the answers of a byte source, in order -/
abbrev Script := List ReadAnswer

/-- a stretch of a source: some bytes delivered together, an end, or a failed call -/
inductive Piece where
  | data (bytes : List UInt8)
  | ended
  | failed (f : Failure)
  deriving DecidableEq, Repr

namespace Script

/-- the source that delivers the given bytes -/
def ofBytes (bytes : List UInt8) : Script :=
  bytes.map .byte

/-- the answers of one piece -/
def ofPiece : Piece → Script
  | .data bytes => ofBytes bytes
  | .ended => [.ended]
  | .failed f => [.failed f]

/-- the source made of pieces; where one ends and the next begins is not seen by calls for one byte -/
def ofPieces (pieces : List Piece) : Script :=
  pieces.flatMap ofPiece

end Script

/-! ## Calls -/

/-- what a call to write one byte answers -/
inductive WriteAnswer where
  | accepted
  /-- the sink took nothing -/
  | refused
  | failed (f : Failure)
  deriving DecidableEq, Repr

/-- what a call to flush answers -/
inductive FlushAnswer where
  | done
  | failed (f : Failure)
  deriving DecidableEq, Repr

/-- a call on a pair of streams, with its answer -/
inductive Call where
  | read (answer : ReadAnswer)
  | write (byte : UInt8) (answer : WriteAnswer)
  | flush (answer : FlushAnswer)
  deriving DecidableEq, Repr

/-- the calls of one kind: which of them fail, at which of them a signal is raised, how many were made -/
structure Channel (Fault : Type) where
  faults : List (Nat × Fault) := []
  alarms : List (Nat × String) := []
  calls : Nat := 0
  deriving DecidableEq, Repr

namespace Channel

variable {Fault : Type}

/-- the fault of the next call, the first one that names it -/
def fault? (c : Channel Fault) : Option Fault :=
  c.faults.lookup c.calls

/-- the reasons for which the next call raises the signal -/
def reasons (c : Channel Fault) : List String :=
  (c.alarms.filter (·.1 == c.calls)).map (·.2)

/-- one more call has been made -/
def count (c : Channel Fault) : Channel Fault :=
  { c with calls := c.calls + 1 }

/-- the number of faults named for a call from the `n`-th on -/
def faultsFrom (n : Nat) (faults : List (Nat × Fault)) : Nat :=
  (faults.filter fun f => n ≤ f.1).length

/-- the number of faults that a later call may still meet -/
def pending (c : Channel Fault) : Nat :=
  faultsFrom c.calls c.faults

theorem faultsFrom_succ_le (n : Nat) (faults : List (Nat × Fault)) :
    faultsFrom (n + 1) faults ≤ faultsFrom n faults := by
  induction faults with
  | nil => exact Nat.le_refl _
  | cons f rest ih =>
    simp only [faultsFrom, List.filter_cons, decide_eq_true_eq] at ih ⊢
    split <;> split <;> (try rw [List.length_cons]) <;> (try rw [List.length_cons]) <;> omega

theorem faultsFrom_succ_lt {n : Nat} {faults : List (Nat × Fault)} {f : Fault}
    (h : faults.lookup n = some f) : faultsFrom (n + 1) faults < faultsFrom n faults := by
  induction faults with
  | nil => simp at h
  | cons g rest ih =>
    have hle := faultsFrom_succ_le n rest
    simp only [faultsFrom, List.filter_cons, decide_eq_true_eq] at ih hle ⊢
    by_cases hn : n = g.1
    · rw [if_neg (by omega), if_pos (by omega), List.length_cons]
      omega
    · rw [List.lookup_cons, beq_false_of_ne hn] at h
      have := ih h
      split <;> split <;> (try rw [List.length_cons]) <;> (try rw [List.length_cons]) <;> omega

theorem pending_count_le (c : Channel Fault) : c.count.pending ≤ c.pending :=
  faultsFrom_succ_le c.calls c.faults

/-- a call that met a fault leaves one fault less to meet -/
theorem pending_count_lt (c : Channel Fault) {f : Fault} (h : c.fault? = some f) :
    c.count.pending < c.pending :=
  faultsFrom_succ_lt h

end Channel

/-! ## The pair of streams -/

/-- the input and the output of a run, with what has happened on them -/
structure Streams where
  /-- what the input still answers -/
  script : Script := []
  reads : Channel Failure := {}
  /-- a write may also fail by taking nothing, which is the fault `none` -/
  writes : Channel (Option Failure) := {}
  flushes : Channel Failure := {}
  /-- the signal that the alarms raise -/
  alarmed : Option Token := none
  /-- the bytes accepted by writes -/
  out : Array UInt8 := #[]
  /-- the number of bytes delivered by reads -/
  consumed : Nat := 0
  /-- the calls made -/
  trace : Array Call := #[]
  deriving Repr

namespace Streams

/-- one call for a byte; a fault leaves the script as it is -/
def read (s : Streams) : ReadAnswer × Streams :=
  match s.reads.fault? with
  | some f =>
    (.failed f, { s with reads := s.reads.count, trace := s.trace.push (.read (.failed f)) })
  | none =>
    match s.script with
    | [] => (.ended, { s with reads := s.reads.count, trace := s.trace.push (.read .ended) })
    | .byte b :: rest =>
      (.byte b, { s with
        script := rest, reads := s.reads.count, consumed := s.consumed + 1,
        trace := s.trace.push (.read (.byte b)) })
    | answer :: rest =>
      (answer, { s with
        script := rest, reads := s.reads.count, trace := s.trace.push (.read answer) })

/-- one call to write a byte -/
def write (b : UInt8) (s : Streams) : WriteAnswer × Streams :=
  match s.writes.fault? with
  | none =>
    (.accepted, { s with
      writes := s.writes.count, out := s.out.push b, trace := s.trace.push (.write b .accepted) })
  | some none =>
    (.refused, { s with writes := s.writes.count, trace := s.trace.push (.write b .refused) })
  | some (some f) =>
    (.failed f, { s with writes := s.writes.count, trace := s.trace.push (.write b (.failed f)) })

/-- one call to flush -/
def flush (s : Streams) : FlushAnswer × Streams :=
  match s.flushes.fault? with
  | none => (.done, { s with flushes := s.flushes.count, trace := s.trace.push (.flush .done) })
  | some f =>
    (.failed f, { s with flushes := s.flushes.count, trace := s.trace.push (.flush (.failed f)) })

/-- how often a read can still fail -/
def readBudget (s : Streams) : Nat :=
  s.script.length + s.reads.pending

/-- how often a write can still fail -/
def writeBudget (s : Streams) : Nat :=
  s.writes.pending

/-- a failed read leaves fewer reads that can fail -/
theorem readBudget_lt {s t : Streams} {f : Failure} (h : s.read = (.failed f, t)) :
    t.readBudget < s.readBudget := by
  unfold read at h
  split at h
  · next g hg =>
    cases h
    have := Channel.pending_count_lt s.reads hg
    simp only [readBudget]; omega
  · have hle := Channel.pending_count_le s.reads
    split at h
    · simp at h
    · simp at h
    · next heq =>
      simp only [Prod.mk.injEq] at h
      obtain ⟨_, rfl⟩ := h
      simp only [readBudget, heq, List.length_cons]; omega

/-- a failed write leaves fewer writes that can fail -/
theorem writeBudget_lt {s t : Streams} {b : UInt8} {f : Failure} (h : s.write b = (.failed f, t)) :
    t.writeBudget < s.writeBudget := by
  unfold write at h
  split at h
  · simp at h
  · simp at h
  · next g hg =>
    cases h
    exact Channel.pending_count_lt s.writes hg

end Streams

end RingTape
