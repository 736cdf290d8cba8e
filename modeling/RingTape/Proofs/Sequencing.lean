/-
One program after another. The run of two programs written one behind the other is the run of the first and, if it is
completed, the run of the second on the tape and the streams that the first one leaves.

- `Code.extended`, `Walk.followedBy`: what is left of a walk, with a second program behind the whole of the first
- `Walk.Spent`: nothing of the program is left
- `step_followedBy`: a step is the same step, whatever stands behind the program
- `after_followedBy`: so the walks go side by side, until the first program is spent and the second one is started
- `ends_append_iff`, `trace_append_iff`: how a walk over both programs ends, and the calls it makes
- `run_append_iff`: the same for texts and interpreters, at the moment between the two runs as well
-/
import RingTape.Proofs.Rendering
import RingTape.Proofs.Runs

namespace RingTape

namespace Code

/-- what is left of a program, with another program behind it: `rest` stands inside the loops of `frames` -/
def extended (later : Code) : Code → List Frame → Code × List Frame
  | rest, [] => (rest ++ later, [])
  | rest, f :: frames =>
    (rest, ⟨f.body, (extended later f.rest frames).1⟩ :: (extended later f.rest frames).2)

/-- two texts one behind the other hold the two programs one behind the other -/
theorem parse_append {a b : List UInt8} {first second : Code} (ha : parse (.ofBytes a) = .ok first)
    (hb : parse (.ofBytes b) = .ok second) : parse (.ofBytes (a ++ b)) = .ok (first ++ second) := by
  rw [parse_eq_ok_iff_symbols, Script.data_ofBytes] at ha hb ⊢
  obtain ⟨-, hna, hsa⟩ := ha
  obtain ⟨-, hnb, hsb⟩ := hb
  refine ⟨Script.failure?_ofBytes _, ?_, ?_⟩
  · rw [nesting_append]
    exact Nat.max_le.2 ⟨hna, hnb⟩
  · rw [symbols_append, hsa, hsb, instructions, instructions, instructions, List.filterMap_append]

end Code

namespace Walk

variable {token : Token} {later : Code}

/-- the walk with another program behind its own; where the walk is completed, it goes on with that program -/
def followedBy (later : Code) : Walk → Walk
  | .going code frames s => .going (later.extended code frames).1 (later.extended code frames).2 s
  | .ended (.ok ()) s => start later s
  | .ended (.error e) s => .ended (.error e) s

/-- nothing of the program is left to carry out -/
def Spent : Walk → Prop
  | .going .nil [] _ => True
  | .ended (.ok ()) _ => True
  | _ => False

theorem start_append (first second : Code) (s : Store) :
    start (first ++ second) s = (start first s).followedBy second := rfl

theorem store_followedBy (w : Walk) : (w.followedBy later).store = w.store := by
  rcases w with ⟨code, frames, s⟩ | ⟨_ | _, s⟩ <;> rfl

theorem followedBy_of_spent {w : Walk} (h : w.Spent) : w.followedBy later = start later w.store := by
  rcases w with ⟨_ | _ | _, _ | _, s⟩ | ⟨_ | _, s⟩
  case going.nil.nil => rfl
  case ended.ok => rfl
  all_goals exact h.elim

theorem Spent.ends {w : Walk} (h : w.Spent) : w.Ends token (.ok ()) w.store := by
  rcases w with ⟨_ | _ | _, _ | _, s⟩ | ⟨_ | _, s⟩
  case going.nil.nil => exact ⟨1, rfl⟩
  case ended.ok => exact ⟨0, rfl⟩
  all_goals exact h.elim

/-! ## Steps -/

theorem test_followedBy (body rest : Code) (frames : List Frame) (s : Store) :
    test token body (later.extended rest frames).1 (later.extended rest frames).2 s =
      (test token body rest frames s).followedBy later := by
  unfold test
  split
  · rfl
  · cases s.signals.reason? token <;> rfl

theorem perform_followedBy (o : Op) (rest : Code) (frames : List Frame) (s : Store) :
    perform o (later.extended rest frames).1 (later.extended rest frames).2 s =
      (perform o rest frames s).followedBy later := by
  unfold perform
  rcases o.act s with ⟨_ | _, t⟩ <;> rfl

/-- **One step.** As long as something of the program is left, the step is the one that is made with nothing behind the
program. -/
theorem step_followedBy {w : Walk} (h : ¬ w.Spent) : (w.followedBy later).step token = (w.step token).followedBy later := by
  rcases w with ⟨_ | ⟨o, rest⟩ | ⟨body, rest⟩, _ | ⟨f, frames⟩, s⟩ | ⟨_ | _, s⟩
  · exact absurd trivial h
  · exact test_followedBy f.body f.rest frames s
  · simp only [followedBy, Code.extended, Code.op_append, step]
    cases s.signals.reason? token with
    | none => exact perform_followedBy o rest [] s
    | some why => rfl
  · exact perform_followedBy o rest (f :: frames) s
  · simp only [followedBy, Code.extended, Code.loop_append, step]
    cases s.signals.reason? token with
    | none => exact test_followedBy body rest [] s
    | some why => rfl
  · exact test_followedBy body rest (f :: frames) s
  · rfl
  · exact absurd trivial h

/-- **Any number of steps.** The walks go side by side, unless the first program was spent at some moment; there the
second one was started. -/
theorem after_followedBy (later : Code) (w : Walk) (n : Nat) :
    (w.followedBy later).after token n = (w.after token n).followedBy later ∨
      ∃ m u, w.Ends token (.ok ()) u ∧ (w.followedBy later).after token m = start later u := by
  induction n with
  | zero => exact Or.inl rfl
  | succ n ih =>
    rcases ih with hsame | hspent
    · by_cases h : (w.after token n).Spent
      · refine Or.inr ⟨n, (w.after token n).store, (ends_after_iff n).1 h.ends, ?_⟩
        rw [hsame, followedBy_of_spent h]
      · left
        rw [after_step, after_step, hsame, step_followedBy h]
    · exact Or.inr hspent

/-- a walk that is completed hands its store over to the program behind it -/
theorem Ends.handsOver {w : Walk} {u : Store} (h : w.Ends token (.ok ()) u) (later : Code) :
    ∃ n, (w.followedBy later).after token n = start later u := by
  obtain ⟨n, hn⟩ := h
  rcases w.after_followedBy later n with hsame | ⟨m, v, hv, hm⟩
  · refine ⟨n, ?_⟩
    rw [hsame, hn]
    rfl
  · obtain ⟨-, rfl⟩ := hv.unique ⟨n, hn⟩
    exact ⟨m, hm⟩

/-! ## Two programs -/

/-- **How a walk over two programs ends.** As the walk over the first one, if that is not completed; else as the walk
over the second one from there. -/
theorem ends_append_iff (first second : Code) (s t : Store) (r : Except RunError Unit) :
    (start (first ++ second) s).Ends token r t ↔
      (start first s).Ends token r t ∧ r ≠ .ok () ∨
        ∃ u, (start first s).Ends token (.ok ()) u ∧ (start second u).Ends token r t := by
  rw [start_append]
  constructor
  · intro h
    obtain ⟨n, hn⟩ := h
    rcases (start first s).after_followedBy second n with hsame | ⟨m, u, hu, hm⟩
    · left
      rw [hn] at hsame
      rcases hw : (start first s).after token n with ⟨code, frames, v⟩ | ⟨e | _, v⟩
      · rw [hw] at hsame
        cases hsame
      · rw [hw] at hsame
        cases hsame
        exact ⟨⟨n, hw⟩, by simp⟩
      · rw [hw] at hsame
        cases hsame
    · right
      refine ⟨u, hu, ?_⟩
      rw [← hm]
      exact (ends_after_iff m).2 ⟨n, hn⟩
  · rintro (⟨hfirst, hr⟩ | ⟨u, hu, hsecond⟩)
    · obtain ⟨n, hn⟩ := hfirst
      rcases (start first s).after_followedBy second n with hsame | ⟨m, u, hu, -⟩
      · refine ⟨n, ?_⟩
        rw [hsame, hn]
        rcases r with e | _
        · rfl
        · exact absurd rfl hr
      · obtain ⟨rfl, -⟩ := hu.unique ⟨n, hn⟩
        exact absurd rfl hr
    · obtain ⟨m, hm⟩ := hu.handsOver second
      rw [← hm] at hsecond
      exact (ends_after_iff m).1 hsecond

/-- **The calls of a walk over two programs**, also if it never ends: those over the first one, and those over the
second one from where the first was completed. -/
theorem trace_append_iff (first second : Code) (s : Store) (calls : List Call) :
    (start (first ++ second) s).Trace token calls ↔
      (start first s).Trace token calls ∨
        ∃ u, (start first s).Ends token (.ok ()) u ∧ (start second u).Trace token calls := by
  rw [start_append]
  constructor
  · rintro ⟨n, hn⟩
    rcases (start first s).after_followedBy second n with hsame | ⟨m, u, hu, hm⟩
    · left
      rw [hsame, store_followedBy] at hn
      exact ⟨n, hn⟩
    · right
      refine ⟨u, hu, n, ?_⟩
      rw [← hm, ← after_add]
      exact hn.trans (after_trace token _ (Nat.le_add_left n m))
  · rintro (⟨n, hn⟩ | ⟨u, hu, n, hn⟩)
    · rcases (start first s).after_followedBy second n with hsame | ⟨m, u, hu, hm⟩
      · refine ⟨n, ?_⟩
        rw [hsame, store_followedBy]
        exact hn
      · -- the first program was completed in `u`, which has all its calls
        refine ⟨m, ?_⟩
        rw [hm]
        exact hu.trace ⟨n, hn⟩
    · obtain ⟨m, hm⟩ := hu.handsOver second
      refine ⟨m + n, ?_⟩
      rw [after_add, hm]
      exact hn

end Walk

/-! ## Two runs -/

namespace Interpreter

/-- what comes back from a run of one program and, if it is completed, a run of another under the same token, by an
interpreter that the tape is handed over to -/
def ReturnsInTurn (i : Interpreter) (first second : Code) (token : Token) (signals : Signals) (f : Finished) : Prop :=
  ∃ g, i.Returns first token signals g ∧
    (g.interpreter.status ≠ .completed ∧ f = g ∨
      g.interpreter.status = .completed ∧ g.interpreter.handOver.Returns second token g.signals f)

theorem status_eq_completed_iff (r : Except RunError Unit) (t : Store) :
    (Finished.ofEnd r t).interpreter.status = .completed ↔ r = .ok () := by
  rcases r with (_ | _ | _ | _) | _ <;> simp [Finished.ofEnd, Status.ofResult]

/-- **Running two texts one behind the other is running one after the other.** On every tape and every pair of streams
and under all signals, the run of the one text comes back with what comes back from the run of the first part and, if
that is completed, a run of the second part by an interpreter that has taken the tape over. Both make the same calls,
also if they never come back. And the one run passes through the moment between the two: what is done to the signals
there, the second run finds. -/
theorem run_append_iff {a b : List UInt8} {first second : Code} (ha : Code.parse (.ofBytes a) = .ok first)
    (hb : Code.parse (.ofBytes b) = .ok second) :
    ∃ code, Code.parse (.ofBytes (a ++ b)) = .ok code ∧
      ∀ (tape : Tape) (streams : Streams) (signals : Signals) (token : Token),
        (∀ f, (new tape streams).Returns code token signals f ↔
          (new tape streams).ReturnsInTurn first second token signals f) ∧
        (∀ calls, (Walk.start code ⟨tape, streams, signals⟩).Trace token calls ↔
          (Walk.start first ⟨tape, streams, signals⟩).Trace token calls ∨
            ∃ g, (new tape streams).Returns first token signals g ∧ g.interpreter.status = .completed ∧
              (Walk.start second ⟨g.interpreter.tape, g.interpreter.streams, g.signals⟩).Trace token calls) ∧
        (∀ g, (new tape streams).Returns first token signals g → g.interpreter.status = .completed →
          ∃ n, ∀ (change : Signals → Signals) (f : Finished),
            g.interpreter.handOver.Returns second token (change g.signals) f ↔
              ∃ r t, (((Walk.start code ⟨tape, streams, signals⟩).after token n).mapSignals change).Ends token r t ∧
                f = .ofEnd r t) := by
  refine ⟨first ++ second, Code.parse_append ha hb, fun tape streams signals token => ⟨?_, ?_, ?_⟩⟩
  · intro f
    rw [returns_new_iff]
    constructor
    · rintro ⟨r, t, hend, rfl⟩
      rcases (Walk.ends_append_iff first second _ t r).1 hend with ⟨hfirst, hr⟩ | ⟨u, hu, hsecond⟩
      · refine ⟨.ofEnd r t, returns_new_iff.2 ⟨r, t, hfirst, rfl⟩, Or.inl ⟨?_, rfl⟩⟩
        rwa [Ne, status_eq_completed_iff]
      · exact ⟨.ofEnd (.ok ()) u, returns_new_iff.2 ⟨_, u, hu, rfl⟩,
          Or.inr ⟨rfl, returns_new_iff.2 ⟨r, t, hsecond, rfl⟩⟩⟩
    · rintro ⟨g, hg, hrest⟩
      obtain ⟨q, u, hfirst, rfl⟩ := returns_new_iff.1 hg
      rw [Ne, status_eq_completed_iff] at hrest
      rcases hrest with ⟨hq, rfl⟩ | ⟨rfl, hsecond⟩
      · exact ⟨q, u, (Walk.ends_append_iff first second _ u q).2 (Or.inl ⟨hfirst, hq⟩), rfl⟩
      · obtain ⟨r, t, hend, rfl⟩ := returns_new_iff.1 hsecond
        exact ⟨r, t, (Walk.ends_append_iff first second _ t r).2 (Or.inr ⟨u, hfirst, hend⟩), rfl⟩
  · intro calls
    rw [Walk.trace_append_iff]
    constructor
    · rintro (hfirst | ⟨u, hu, hsecond⟩)
      · exact Or.inl hfirst
      · exact Or.inr ⟨.ofEnd (.ok ()) u, returns_new_iff.2 ⟨_, u, hu, rfl⟩, rfl, hsecond⟩
    · rintro (hfirst | ⟨g, hg, hdone, hsecond⟩)
      · exact Or.inl hfirst
      · obtain ⟨q, u, hu, rfl⟩ := returns_new_iff.1 hg
        rw [status_eq_completed_iff] at hdone
        subst hdone
        exact Or.inr ⟨u, hu, hsecond⟩
  · intro g hg hdone
    obtain ⟨q, u, hu, rfl⟩ := returns_new_iff.1 hg
    rw [status_eq_completed_iff] at hdone
    subst hdone
    obtain ⟨n, hn⟩ := hu.handsOver second
    refine ⟨n, fun change f => ?_⟩
    rw [Walk.start_append, hn]
    exact returns_new_iff

/-- the last flush of the first text raises the signal: that run is completed, and the second one is stopped before its
first instruction, as the run of both is -/
theorem run_append_iff_stopped_between :
    let a : List UInt8 := [0x2c, 0x21, 0x2e]
    let b : List UInt8 := [0x5b, 0x2d, 0x5d]
    let first : Code := .op .read (.op .print .nil)
    let second : Code := .loop (.op .decr .nil) .nil
    let streams : Streams := { script := [.byte 5], flushes := { alarms := [(0, "stop")] }, alarmed := some ⟨0⟩ }
    Code.parse (.ofBytes a) = .ok first ∧ Code.parse (.ofBytes b) = .ok second ∧
      ∃ code g f, Code.parse (.ofBytes (a ++ b)) = .ok code ∧
        (new .blank streams).Returns first ⟨0⟩ ⟨#[none]⟩ g ∧ g.interpreter.status = .completed ∧
        (new .blank streams).Returns code ⟨0⟩ ⟨#[none]⟩ f ∧ f.result = .error (.cancelled "stop") ∧
        f.interpreter.tape = g.interpreter.tape ∧ f.interpreter.streams.trace = g.interpreter.streams.trace := by
  intro a b first second streams
  have ha : Code.parse (.ofBytes a) = .ok first :=
    (Code.parse_eq_ok_iff_symbols _ _).2 ⟨by decide, by decide, by decide⟩
  have hb : Code.parse (.ofBytes b) = .ok second :=
    (Code.parse_eq_ok_iff_symbols _ _).2 ⟨by decide, by decide, by decide⟩
  have hraised : (match (new .blank streams).run 3 first ⟨0⟩ ⟨#[none]⟩ with
      | some g => decide (g.interpreter.status = .completed) && decide (g.signals.reason? ⟨0⟩ = some "stop")
      | none => false) = true := by
    decide +kernel
  obtain ⟨code, hparse, hruns⟩ := run_append_iff ha hb
  split at hraised
  · next g hg =>
    rw [Bool.and_eq_true, decide_eq_true_eq, decide_eq_true_eq] at hraised
    obtain ⟨hdone, hwhy⟩ := hraised
    have hstep : (Walk.start second ⟨g.interpreter.tape, g.interpreter.streams, g.signals⟩).after ⟨0⟩ 1 =
        .ended (.error (.cancelled "stop")) ⟨g.interpreter.tape, g.interpreter.streams, g.signals⟩ := by
      rw [Walk.after_succ, Walk.start]
      simp only [second, Walk.step, hwhy]
      rfl
    have hsecond : g.interpreter.handOver.Returns second ⟨0⟩ g.signals _ := returns_new_iff.2 ⟨_, _, ⟨1, hstep⟩, rfl⟩
    have hboth := ((hruns .blank streams ⟨#[none]⟩ ⟨0⟩).1 _).2 ⟨g, ⟨3, hg⟩, Or.inr ⟨hdone, hsecond⟩⟩
    exact ⟨ha, hb, code, g, _, hparse, ⟨3, hg⟩, hdone, hboth, rfl, rfl, rfl⟩
  · cases hraised

end Interpreter

end RingTape
