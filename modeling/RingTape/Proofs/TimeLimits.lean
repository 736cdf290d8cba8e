/-
Runs under a time limit. The limit is a timer on the signal of the run. A walk that ends within the steps that it is
allowed until then is not disturbed; one that is still going when it has made them goes on with its signal raised, and
does not go on for long.

- `Walk.EndsUnder`: how a walk ends under a limit, or without one
- `Clock.drive_limiting_iff`: so it ends while a clock with that one timer runs
- `Walk.ends_under_limit`: under a limit each walk ends, and after how many steps
-/
import RingTape.Clock
import RingTape.Proofs.Aftermath

namespace RingTape

namespace Walk

/-- the steps that a walk is allowed under a limit of so many milliseconds -/
def allowed (ms : Nat) : Nat :=
  Clock.allowance (1000 * ms)

/-- the walk that has made the steps it is allowed, its signal raised -/
def timeOut (token : Token) (ms : Nat) (w : Walk) : Walk :=
  (w.after token (allowed ms)).mapSignals fun s => s.raise token s!"timed out after {ms}ms"

/-- a walk ends with a result in a store under a limit in milliseconds, if there is one, in at most so many steps before
the limit and as many behind it -/
inductive EndsUnder (token : Token) (w : Walk) (steps : Nat) : Option Nat → Except RunError Unit → Store → Prop where
  /-- no limit is set -/
  | unlimited {k : Nat} {r : Except RunError Unit} {t : Store} (hk : k ≤ steps) (hend : w.after token k = .ended r t) :
      EndsUnder token w steps none r t
  /-- it ends within the steps that it is allowed -/
  | early {k ms : Nat} {r : Except RunError Unit} {t : Store} (hk : k ≤ steps) (hallowed : k ≤ allowed ms)
      (hend : w.after token k = .ended r t) : EndsUnder token w steps (some ms) r t
  /-- it is still going when it has made them, and ends with its signal raised -/
  | late {k ms : Nat} {r : Except RunError Unit} {t : Store} (hsteps : allowed ms ≤ steps)
      (hgoing : (w.after token (allowed ms)).result? = none) (hk : k ≤ steps)
      (hend : (w.timeOut token ms).after token k = .ended r t) : EndsUnder token w steps (some ms) r t

end Walk

namespace Clock

/-- a clock with a timer for a limit in milliseconds, if there is one -/
def limiting (token : Token) : Option Nat → Clock
  | none => {}
  | some ms => Clock.set {} token (1000 * ms)

/-- one timer fires, unless the walk ends before or the steps do not reach so far -/
theorem driveFrom_one (steps : Nat) (token : Token) (now : Nat) (timer : Timer) (w : Walk) :
    (driveFrom steps token now [timer] w).2 =
      if allowance (timer.due - now) ≤ steps ∧ (w.after token (allowance (timer.due - now))).result? = none then
        ((w.after token (allowance (timer.due - now))).mapSignals timer.fire).after token steps
      else w.after token (min (allowance (timer.due - now)) steps) := by
  rw [driveFrom, Walk.advance_eq_after, Walk.advance_eq_after]
  by_cases hsteps : allowance (timer.due - now) ≤ steps
  · rw [if_pos hsteps, Nat.min_eq_left hsteps]
    cases w.after token (allowance (timer.due - now)) with
    | going code frames s =>
      rw [if_pos ⟨hsteps, rfl⟩]
      exact Walk.advance_eq_after token steps _
    | ended r s => exact (if_neg fun h => by cases h.2).symm
  · rw [if_neg hsteps, if_neg fun h => hsteps h.1, Nat.min_eq_right (Nat.le_of_not_le hsteps)]

theorem drive_limiting_some (token : Token) (ms steps : Nat) (w : Walk) :
    ((limiting token (some ms)).drive steps token w).2 =
      if Walk.allowed ms ≤ steps ∧ (w.after token (Walk.allowed ms)).result? = none then
        (w.timeOut token ms).after token steps
      else w.after token (min (Walk.allowed ms) steps) := by
  have hreason : timedOut (1000 * ms) = s!"timed out after {ms}ms" :=
    congrArg (fun n : Nat => s!"timed out after {n}ms") (Nat.mul_div_cancel_left ms (by decide))
  have htimer : limiting token (some ms) = ⟨0, [⟨0 + 1000 * ms, token, timedOut (1000 * ms)⟩]⟩ := rfl
  rw [htimer, hreason, Nat.zero_add, drive, driveFrom_one]
  rfl

/-- **A walk while the clock runs.** -/
theorem drive_limiting_iff (token : Token) (limit : Option Nat) (steps : Nat) (w : Walk) (r : Except RunError Unit)
    (t : Store) : ((limiting token limit).drive steps token w).2 = .ended r t ↔ w.EndsUnder token steps limit r t := by
  cases limit with
  | none =>
    have hdrive : ((limiting token none).drive steps token w).2 = w.after token steps := w.advance_eq_after token steps
    rw [hdrive]
    constructor
    · exact fun hend => .unlimited (Nat.le_refl _) hend
    · rintro (⟨hk, hend⟩ | _ | _)
      exact Walk.after_of_ended hend hk
  | some ms =>
    rw [drive_limiting_some]
    by_cases hlate : Walk.allowed ms ≤ steps ∧ (w.after token (Walk.allowed ms)).result? = none
    · rw [if_pos hlate]
      constructor
      · exact fun hend => .late hlate.1 hlate.2 (Nat.le_refl _) hend
      · rintro (_ | ⟨-, hallowed, hend⟩ | ⟨-, -, hk, hend⟩)
        · -- the walk would have ended before
          have hgoing := hlate.2
          rw [Walk.after_of_ended hend hallowed] at hgoing
          cases hgoing
        · exact Walk.after_of_ended hend hk
    · rw [if_neg hlate]
      constructor
      · exact fun hend => .early (Nat.min_le_right _ _) (Nat.min_le_left _ _) hend
      · rintro (_ | ⟨hk, hallowed, hend⟩ | ⟨hsteps, hgoing, -, -⟩)
        · exact Walk.after_of_ended hend (Nat.le_min.2 ⟨hallowed, hk⟩)
        · exact absurd ⟨hsteps, hgoing⟩ hlate

end Clock

namespace Walk

variable {token : Token} {w : Walk} {code : Code}

/-- steps of a walk whose streams raise no signal leave the signals as they are -/
theorem signals_after (h : w.store.streams.alarmed = none) (n : Nat) :
    (w.after token n).store.signals = w.store.signals := by
  obtain ⟨calls, hmade⟩ := w.after_made token n
  rw [hmade.signals, Store.alarm, h]

theorem store_mapSignals (f : Signals → Signals) : (w.mapSignals f).store.signals = f w.store.signals := by
  cases w <;> rfl

theorem Within.mapSignals (h : w.Within code) (f : Signals → Signals) : (w.mapSignals f).Within code := by
  cases w with
  | going code frames s => exact h
  | ended r s => trivial

/-- **A walk under a limit ends.** It takes no more steps than it is allowed and, behind the limit, than the program has
nodes, and one. -/
theorem ends_under_limit (hw : w.Within code) (halarmed : w.store.streams.alarmed = none)
    (htoken : token.index < w.store.signals.reasons.size) {ms steps : Nat}
    (hsteps : max (allowed ms) (code.size + 1) ≤ steps) : ∃ r t, w.EndsUnder token steps (some ms) r t := by
  obtain ⟨hallowed, hsize⟩ := Nat.max_le.1 hsteps
  cases hreached : w.after token (allowed ms) with
  | ended r t => exact ⟨r, t, .early hallowed (Nat.le_refl _) hreached⟩
  | going more frames s =>
    have hraised : ((w.timeOut token ms).store.signals.reason? token).isSome = true := by
      rw [timeOut, store_mapSignals, signals_after halarmed, Signals.reason?_raise, if_pos ⟨rfl, htoken⟩]
      cases w.store.signals.reason? token <;> rfl
    obtain ⟨why, hwhy⟩ := Option.isSome_iff_exists.1 hraised
    have hleft : (w.timeOut token ms).stepsLeft ≤ code.size + 1 := stepsLeft_le ((after_within hw _).mapSignals _)
    obtain ⟨r, t, hend⟩ := ended_after_stepsLeft hwhy (Nat.le_trans hleft hsize)
    exact ⟨r, t, .late hallowed (by rw [hreached]; rfl) (Nat.le_refl _) hend⟩

/-- a walk inside a loop that does nothing to a cell that is not zero stays where it is -/
theorem after_idle {rest : Code} {frames : List Frame} {s : Store} (hcell : s.current ≠ 0)
    (hquiet : s.signals.reason? token = none) (n : Nat) :
    (Walk.going .nil (⟨.nil, rest⟩ :: frames) s).after token n = .going .nil (⟨.nil, rest⟩ :: frames) s := by
  induction n with
  | zero => rfl
  | succ n ih => rw [after_step, ih, step, test_unraised hcell hquiet]

/-- a walk in front of such a loop is stopped by the limit -/
theorem idle_ends_under_limit {rest : Code} {s : Store} {k ms steps : Nat}
    (hloop : w.after token k = start (.loop .nil rest) s) (hcell : s.current ≠ 0)
    (hquiet : s.signals.reason? token = none) (htoken : token.index < s.signals.reasons.size)
    (hk : k + 1 ≤ allowed ms) (hsteps : allowed ms ≤ steps) :
    w.EndsUnder token steps (some ms) (.error (.cancelled s!"timed out after {ms}ms"))
      { s with signals := s.signals.raise token s!"timed out after {ms}ms" } := by
  have hidle : w.after token (k + 1) = .going .nil [⟨.nil, rest⟩] s := by
    rw [after_step, hloop, start, step, hquiet]
    exact test_unraised hcell hquiet
  have hgoing : w.after token (allowed ms) = .going .nil [⟨.nil, rest⟩] s := by
    rw [← Nat.add_sub_cancel' hk, after_add, hidle, after_idle hcell hquiet]
  have hraised : (s.signals.raise token s!"timed out after {ms}ms").reason? token =
      some s!"timed out after {ms}ms" := by
    rw [Signals.reason?_raise, if_pos ⟨rfl, htoken⟩, hquiet]
    rfl
  have hone : 1 ≤ steps := by omega
  refine .late hsteps (by rw [hgoing]; rfl) hone ?_
  rw [timeOut, hgoing]
  exact test_raised hcell hraised

end Walk

end RingTape
