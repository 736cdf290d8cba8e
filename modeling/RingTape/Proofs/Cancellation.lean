/-
Cancelled runs. A signal reaches a run only where the run looks at it, so a run that is cancelled has done what it
would have done without the signal, up to the point at which it looked.

- `Streams.quiet`, `Store.calm`: the same streams and stores without alarms, under signals that nothing raises
- `Op.act_calm`: an instruction does to a store without alarms what it does to the store
- `Walk.AtCheck`: the points at which a walk looks at the signal before it goes on
- `step_calm`: one step either is the step of the calm walk, or ends at a check
- `after_calm`: a walk goes along with the calm walk until it is cancelled, if it ever is
- `cancelled_run_follows`: the same for runs: their calls, their results, and where a cancelled run stops
-/
import RingTape.Proofs.Runs

namespace RingTape

/-! ## Without alarms -/

/-- the same calls, faults included, with no signal raised at any of them -/
def Channel.quiet {Fault : Type} (c : Channel Fault) : Channel Fault :=
  { c with alarms := [] }

/-- the same streams with no signal raised at any call -/
def Streams.quiet (s : Streams) : Streams :=
  { s with reads := s.reads.quiet, writes := s.writes.quiet, flushes := s.flushes.quiet }

/-- the same store without alarms, under other signals -/
def Store.calm (signals : Signals) (s : Store) : Store :=
  ⟨s.tape, s.streams.quiet, signals⟩

/-- the same walk without alarms, under other signals -/
def Walk.calm (signals : Signals) : Walk → Walk
  | .going code frames s => .going code frames (s.calm signals)
  | .ended r s => .ended r (s.calm signals)

namespace Streams

theorem read_quiet (s : Streams) : s.quiet.read = (s.read.1, s.read.2.quiet) := by
  have hfault : s.quiet.reads.fault? = s.reads.fault? := rfl
  have hscript : s.quiet.script = s.script := rfl
  rw [read, read, hfault, hscript]
  cases s.reads.fault? with
  | some f => rfl
  | none => rcases s.script with _ | ⟨_ | _ | _, rest⟩ <;> rfl

theorem write_quiet (b : UInt8) (s : Streams) : s.quiet.write b = ((s.write b).1, (s.write b).2.quiet) := by
  have hfault : s.quiet.writes.fault? = s.writes.fault? := rfl
  rw [write, write, hfault]
  rcases s.writes.fault? with _ | _ | f <;> rfl

theorem flush_quiet (s : Streams) : s.quiet.flush = (s.flush.1, s.flush.2.quiet) := by
  have hfault : s.quiet.flushes.fault? = s.flushes.fault? := rfl
  rw [flush, flush, hfault]
  cases s.flushes.fault? <;> rfl

end Streams

namespace Store

variable (signals : Signals)

@[simp] theorem current_calm (s : Store) : (s.calm signals).current = s.current := rfl

theorem read_calm (s : Store) : (s.calm signals).read = (s.read.1, s.read.2.calm signals) := by
  have hcalls : (s.calm signals).streams.reads.reasons = [] := rfl
  have hread : (s.calm signals).streams.read = (s.streams.read.1, s.streams.read.2.quiet) := s.streams.read_quiet
  rw [read_eq, read_eq s, hcalls, alarm_nil, hread]
  rfl

theorem write_calm (b : UInt8) (s : Store) :
    (s.calm signals).write b = ((s.write b).1, (s.write b).2.calm signals) := by
  have hcalls : (s.calm signals).streams.writes.reasons = [] := rfl
  have hwrite : (s.calm signals).streams.write b = ((s.streams.write b).1, (s.streams.write b).2.quiet) :=
    s.streams.write_quiet b
  rw [write_eq, write_eq b s, hcalls, alarm_nil, hwrite]
  rfl

theorem flush_calm (s : Store) : (s.calm signals).flush = (s.flush.1, s.flush.2.calm signals) := by
  have hcalls : (s.calm signals).streams.flushes.reasons = [] := rfl
  have hflush : (s.calm signals).streams.flush = (s.streams.flush.1, s.streams.flush.2.quiet) :=
    s.streams.flush_quiet
  rw [flush_eq, flush_eq s, hcalls, alarm_nil, hflush]
  rfl

theorem readByte_calm (s : Store) :
    (s.calm signals).readByte = (s.readByte.1, s.readByte.2.calm signals) :=
  readByte_map (read_calm signals) s

theorem writeByte_calm (b : UInt8) (s : Store) :
    (s.calm signals).writeByte b = ((s.writeByte b).1, (s.writeByte b).2.calm signals) :=
  writeByte_map (write_calm signals b) (flush_calm signals) s

end Store

/-- an instruction acts alike with and without alarms -/
theorem Op.act_calm (o : Op) (signals : Signals) (s : Store) :
    o.act (s.calm signals) = ((o.act s).1, (o.act s).2.calm signals) := by
  cases o with
  | incr => rfl
  | decr => rfl
  | next => rfl
  | prev => rfl
  | print => exact s.writeByte_calm signals s.current
  | read =>
    simp only [act, Store.readByte_calm]
    rcases s.readByte with ⟨e | b, t⟩
    · cases e <;> rfl
    · rfl

namespace Walk

/-! ## Where a walk looks at the signal -/

/-- the walk is just before an instruction of the top level, or just before an iteration of a loop whose cell is
nonzero -/
def AtCheck : Walk → Prop
  | .going (.op ..) [] _ => True
  | .going (.loop ..) [] _ => True
  | .going (.loop ..) (_ :: _) s => s.current ≠ 0
  | .going .nil (_ :: _) s => s.current ≠ 0
  | _ => False

/-- the walk was ended by its signal -/
def Cancelled (w : Walk) : Prop :=
  ∃ why, w.result? = some (.error (.cancelled why))

/-- the walk has been ended by the signal of the token, in this store -/
def StoppedIn (token : Token) (s : Store) (w : Walk) : Prop :=
  ∃ why, s.signals.reason? token = some why ∧ w = .ended (.error (.cancelled why)) s

variable {token : Token} {signals : Signals}

theorem going_not_cancelled (code : Code) (frames : List Frame) (s : Store) : ¬ (going code frames s).Cancelled := by
  rintro ⟨why, h⟩
  cases h

theorem done_not_cancelled (s : Store) : ¬ (ended (.ok ()) s).Cancelled := by
  rintro ⟨why, h⟩
  cases h

theorem perform_calm (o : Op) (rest : Code) (frames : List Frame) (s : Store) :
    (perform o rest frames s).calm signals = perform o rest frames (s.calm signals) := by
  rw [perform, perform, Op.act_calm]
  rcases o.act s with ⟨_ | _, t⟩ <;> rfl

theorem perform_not_cancelled (o : Op) (rest : Code) (frames : List Frame) (s : Store) :
    ¬ (perform o rest frames s).Cancelled := by
  rintro ⟨why, h⟩
  rw [perform] at h
  split at h
  · cases h
  · next e t hact =>
    obtain ⟨f, rfl⟩ := Op.act_error hact
    cases h

/-- the test of a loop goes as it does without the signal, or the signal stops it before an iteration -/
theorem test_calm (hq : signals.reason? token = none) (body rest : Code) (frames : List Frame) (s : Store) :
    ((test token body rest frames s).calm signals = test token body rest frames (s.calm signals) ∧
        ¬ (test token body rest frames s).Cancelled) ∨
      (s.current ≠ 0 ∧ StoppedIn token s (test token body rest frames s)) := by
  have hquiet : (s.calm signals).signals.reason? token = none := hq
  rw [test, test, Store.current_calm, hquiet]
  split
  · exact Or.inl ⟨rfl, going_not_cancelled rest frames s⟩
  · next hc =>
    cases hr : s.signals.reason? token with
    | none => exact Or.inl ⟨rfl, going_not_cancelled body (⟨body, rest⟩ :: frames) s⟩
    | some why => exact Or.inr ⟨hc, why, hr, rfl⟩

/-- **One step.** It is the step that the walk makes without the signal, or the signal ends the walk at a check. -/
theorem step_calm (hq : signals.reason? token = none) (w : Walk) (hw : ¬ w.Cancelled) :
    ((w.step token).calm signals = (w.calm signals).step token ∧ ¬ (w.step token).Cancelled) ∨
      (w.AtCheck ∧ StoppedIn token w.store (w.step token)) := by
  cases w with
  | ended r s => exact Or.inl ⟨rfl, hw⟩
  | going code frames s =>
    have hquiet : (s.calm signals).signals.reason? token = none := hq
    cases frames with
    | nil =>
      cases code with
      | nil => exact Or.inl ⟨rfl, done_not_cancelled s⟩
      | op o rest =>
        simp only [step, calm, hquiet]
        cases hr : s.signals.reason? token with
        | none => exact Or.inl ⟨perform_calm o rest [] s, perform_not_cancelled o rest [] s⟩
        | some why => exact Or.inr ⟨trivial, why, hr, rfl⟩
      | loop body rest =>
        simp only [step, calm, hquiet]
        cases hr : s.signals.reason? token with
        | none =>
          rcases test_calm hq body rest [] s with h | ⟨-, hstop⟩
          · exact Or.inl h
          · exact Or.inr ⟨trivial, hstop⟩
        | some why => exact Or.inr ⟨trivial, why, hr, rfl⟩
    | cons f frames =>
      cases code with
      | nil =>
        rcases test_calm hq f.body f.rest frames s with h | ⟨hc, hstop⟩
        · exact Or.inl h
        · exact Or.inr ⟨hc, hstop⟩
      | op o rest => exact Or.inl ⟨perform_calm o rest (f :: frames) s, perform_not_cancelled o rest (f :: frames) s⟩
      | loop body rest =>
        rcases test_calm hq body rest (f :: frames) s with h | ⟨hc, hstop⟩
        · exact Or.inl h
        · exact Or.inr ⟨hc, hstop⟩

theorem store_calm (w : Walk) : (w.calm signals).store = w.store.calm signals := by
  cases w <;> rfl

theorem ended_of_calm {w : Walk} {r : Except RunError Unit} {t : Store} (h : w.calm signals = .ended r t) :
    ∃ u, w = .ended r u ∧ u.calm signals = t := by
  cases w with
  | going code frames s => cases h
  | ended r' u =>
    cases h
    exact ⟨u, rfl, rfl⟩

theorem atCheck_calm (w : Walk) : (w.calm signals).AtCheck ↔ w.AtCheck := by
  rcases w with ⟨_ | _ | _, _ | _, s⟩ | ⟨r, s⟩ <;> rfl

/-- **Any number of steps.** The walk is where the calm walk is, or it was ended by its signal where the calm walk was
at a check. -/
theorem after_calm (hq : signals.reason? token = none) (w : Walk) (hw : ¬ w.Cancelled) (n : Nat) :
    ((w.after token n).calm signals = (w.calm signals).after token n ∧ ¬ (w.after token n).Cancelled) ∨
      ∃ m why, ((w.calm signals).after token m).AtCheck ∧
        ∃ s, ((w.calm signals).after token m).store = s.calm signals ∧
          w.after token n = .ended (.error (.cancelled why)) s := by
  induction n with
  | zero => exact Or.inl ⟨rfl, hw⟩
  | succ n ih =>
    have hnext : ∀ v : Walk, v.after token (n + 1) = (v.after token n).step token := fun _ => rfl
    rw [hnext, hnext]
    rcases ih with ⟨hsame, hgoing⟩ | ⟨m, why, hcheck, s, hs, hend⟩
    · rcases step_calm hq (w.after token n) hgoing with ⟨hstep, hnot⟩ | ⟨hcheck, why, -, hstop⟩
      · exact Or.inl ⟨by rw [hstep, hsame], hnot⟩
      · refine Or.inr ⟨n, why, ?_, (w.after token n).store, ?_, hstop⟩
        · rwa [← hsame, atCheck_calm]
        · rw [← hsame, store_calm]
    · exact Or.inr ⟨m, why, hcheck, s, hs, by rw [hend]; rfl⟩

end Walk

/-! ## Runs -/

namespace Interpreter

/-- two runs that ended in the same way, whatever has become of their signals -/
structure Finished.SameEnd (f g : Finished) : Prop where
  result : f.result = g.result
  status : f.interpreter.status = g.interpreter.status
  tape : f.interpreter.tape = g.interpreter.tape
  out : f.interpreter.streams.out = g.interpreter.streams.out
  consumed : f.interpreter.streams.consumed = g.interpreter.streams.consumed
  trace : f.interpreter.streams.trace = g.interpreter.streams.trace

theorem Finished.sameEnd_calm (r : Except RunError Unit) (t : Store) (signals : Signals) :
    SameEnd (.ofEnd r t) (.ofEnd r (t.calm signals)) :=
  ⟨rfl, rfl, rfl, rfl, rfl, rfl⟩

theorem status_eq_cancelled_iff (r : Except RunError Unit) (t : Store) :
    (Finished.ofEnd r t).interpreter.status = .cancelled ↔ ∃ why, r = .error (.cancelled why) := by
  constructor
  · intro h
    rcases r with e | _
    · cases e with
      | cancelled why => exact ⟨why, rfl⟩
      | endOfInput => cases h
      | failure f => cases h
      | notReady st => cases h
    · cases h
  · rintro ⟨why, rfl⟩
    rfl

/-- **A cancelled run is a prefix of the run that is not cancelled.** Take a run on any tape and streams, with any
signals raised before it or at any of its stream calls, and beside it the run without alarms under signals that leave
the token alone. Every call of the first run is made by the second one too, in the same order. If the first run comes
back and is not cancelled, or the second one comes back and the first is not cancelled, both end in the same way. If
the first run is cancelled, its tape and its calls are those of the second run at a check. -/
theorem cancelled_run_follows (code : Code) (tape : Tape) (streams : Streams) (signals calm : Signals) (token : Token)
    (hcalm : calm.reason? token = none) :
    (∀ calls, (Walk.start code ⟨tape, streams, signals⟩).Trace token calls →
      (Walk.start code ⟨tape, streams.quiet, calm⟩).Trace token calls) ∧
    (∀ f, (new tape streams).Returns code token signals f → f.interpreter.status ≠ .cancelled →
      ∃ g, (new tape streams.quiet).Returns code token calm g ∧ f.SameEnd g) ∧
    (∀ g, (new tape streams.quiet).Returns code token calm g →
      ∃ f, (new tape streams).Returns code token signals f ∧
        (f.interpreter.status = .cancelled ∨ f.SameEnd g)) ∧
    (∀ f, (new tape streams).Returns code token signals f → f.interpreter.status = .cancelled →
      ∃ n, ((Walk.start code ⟨tape, streams.quiet, calm⟩).after token n).AtCheck ∧
        let s := ((Walk.start code ⟨tape, streams.quiet, calm⟩).after token n).store
        s.tape = f.interpreter.tape ∧ s.streams.trace = f.interpreter.streams.trace ∧
          s.streams.out = f.interpreter.streams.out ∧ s.streams.consumed = f.interpreter.streams.consumed) := by
  have hquiet : Walk.start code ⟨tape, streams.quiet, calm⟩ =
      (Walk.start code ⟨tape, streams, signals⟩).calm calm := rfl
  have along := Walk.after_calm hcalm (Walk.start code ⟨tape, streams, signals⟩) (Walk.going_not_cancelled _ _ _)
  rw [hquiet]
  refine ⟨?_, ?_, ?_, ?_⟩
  · intro calls hcalls
    obtain ⟨n, hn⟩ := hcalls
    rcases along n with ⟨hsame, -⟩ | ⟨m, why, -, s, hs, hend⟩
    · refine ⟨n, ?_⟩
      rw [← hsame, Walk.store_calm]
      exact hn
    · refine ⟨m, ?_⟩
      rw [hend] at hn
      rw [hs]
      exact hn
  · intro f hf hnot
    obtain ⟨r, t, ⟨n, hn⟩, rfl⟩ := returns_new_iff.1 hf
    rw [Ne, status_eq_cancelled_iff] at hnot
    rcases along n with ⟨hsame, -⟩ | ⟨m, why, -, s, hs, hend⟩
    · rw [hn] at hsame
      exact ⟨.ofEnd r (t.calm calm), returns_new_iff.2 ⟨r, _, ⟨n, hsame.symm⟩, rfl⟩,
        Finished.sameEnd_calm r t calm⟩
    · rw [hn] at hend
      cases hend
      exact absurd ⟨why, rfl⟩ hnot
  · intro g hg
    obtain ⟨r, t, ⟨n, hn⟩, rfl⟩ := returns_new_iff.1 hg
    rcases along n with ⟨hsame, -⟩ | ⟨m, why, -, s, hs, hend⟩
    · obtain ⟨u, hu, rfl⟩ := Walk.ended_of_calm (hsame.trans hn)
      exact ⟨.ofEnd r u, returns_new_iff.2 ⟨r, u, ⟨n, hu⟩, rfl⟩,
        Or.inr (Finished.sameEnd_calm r u calm)⟩
    · exact ⟨.ofEnd _ s, returns_new_iff.2 ⟨_, s, ⟨n, hend⟩, rfl⟩, Or.inl rfl⟩
  · intro f hf hcancelled
    obtain ⟨r, t, ⟨n, hn⟩, rfl⟩ := returns_new_iff.1 hf
    obtain ⟨why, rfl⟩ := (status_eq_cancelled_iff r t).1 hcancelled
    rcases along n with ⟨-, hgoing⟩ | ⟨m, why', hcheck, s, hs, hend⟩
    · exact absurd ⟨why, by rw [hn]; rfl⟩ hgoing
    · rw [hn] at hend
      cases hend
      refine ⟨m, hcheck, ?_⟩
      rw [hs]
      exact ⟨rfl, rfl, rfl, rfl⟩

/-- the signal is raised by the second read, inside a loop: the rest of the iteration is carried out, and the run stops
before the next one -/
theorem cancelled_run_follows_second_read :
    let code : Code := .op .read (.loop (.op .read (.op .print .nil)) .nil)
    let streams : Streams :=
      { script := [.byte 1, .byte 2], reads := { alarms := [(1, "stop")] }, alarmed := some ⟨0⟩ }
    let signals : Signals := ⟨#[none]⟩
    let calls : Array Call := #[.read (.byte 1), .read (.byte 2), .write 2 .accepted, .flush .done]
    signals.reason? ⟨0⟩ = none ∧
      ∃ f, (new .blank streams).Returns code ⟨0⟩ signals f ∧ f.interpreter.status = .cancelled ∧
        f.interpreter.streams.trace = calls ∧
        ∃ n, ((Walk.start code ⟨.blank, streams.quiet, signals⟩).after ⟨0⟩ n).AtCheck ∧
          ((Walk.start code ⟨.blank, streams.quiet, signals⟩).after ⟨0⟩ n).store.tape = f.interpreter.tape ∧
          ((Walk.start code ⟨.blank, streams.quiet, signals⟩).after ⟨0⟩ n).store.streams.trace = calls := by
  intro code streams signals calls
  have hrun : (match (new .blank streams).run 5 code ⟨0⟩ signals with
      | some f => f.interpreter.status == .cancelled && f.interpreter.streams.trace == calls
      | none => false) = true := by
    decide +kernel
  split at hrun
  · next f hf =>
    rw [Bool.and_eq_true] at hrun
    have hstatus : f.interpreter.status = .cancelled := eq_of_beq hrun.1
    have htrace : f.interpreter.streams.trace = calls := eq_of_beq hrun.2
    have hcalm : signals.reason? ⟨0⟩ = none := by decide
    obtain ⟨n, hcheck, htape, hcalls, -, -⟩ :=
      (cancelled_run_follows code .blank streams signals signals ⟨0⟩ hcalm).2.2.2 f ⟨5, hf⟩ hstatus
    exact ⟨hcalm, f, ⟨5, hf⟩, hstatus, htrace, n, hcheck, htape, hcalls.trans htrace⟩
  · cases hrun

end Interpreter

end RingTape
