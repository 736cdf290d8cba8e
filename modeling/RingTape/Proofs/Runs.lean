/-
Runs that come back, and runs side by side.

- `repeat_related`: two systems whose steps keep a relation keep it for any number of steps
- `Walk.Trace`: the calls of a walk, also of one that never ends; `Trace.comparable`: they come in one order
- `Finished.ofEnd`: what an ended walk gives back
- `Interpreter.Returns`: a call to run comes back, however long it takes
- `returns_new_iff`: a run on an interpreter that is ready comes back with the end of its walk
-/
import RingTape.Interpreter
import RingTape.Proofs.Instructions

namespace RingTape

/-- two systems in a relation that their steps keep are in that relation after equally many steps -/
theorem repeat_related {α β : Type} {f : α → α} {g : β → β} {R : α → β → Prop}
    (hstep : ∀ a b, R a b → R (f a) (g b)) {a : α} {b : β} (h : R a b) (n : Nat) :
    R (Nat.repeat f n a) (Nat.repeat g n b) := by
  induction n with
  | zero => exact h
  | succ n ih => exact hstep _ _ ih

/-! ## The calls of a walk -/

namespace Walk

theorem after_step (token : Token) (n : Nat) (w : Walk) :
    w.after token (n + 1) = (w.after token n).step token := rfl

theorem after_add (token : Token) (w : Walk) (m n : Nat) :
    w.after token (m + n) = (w.after token m).after token n := by
  induction n with
  | zero => rfl
  | succ n ih =>
    rw [← Nat.add_assoc, after_step, after_step, ih]

/-- a walk that is over stays as it is -/
theorem after_of_ended {token : Token} {w : Walk} {m n : Nat} {r : Except RunError Unit} {s : Store}
    (h : w.after token m = .ended r s) (hmn : m ≤ n) : w.after token n = .ended r s := by
  obtain ⟨k, rfl⟩ := Nat.exists_eq_add_of_le hmn
  rw [after_add, h, after_ended]

/-- a walk comes to its end from each of its moments -/
theorem ends_after_iff {token : Token} {w : Walk} (m : Nat) {r : Except RunError Unit} {s : Store} :
    (w.after token m).Ends token r s ↔ w.Ends token r s := by
  constructor
  · rintro ⟨n, h⟩
    exact ⟨m + n, by rw [after_add, h]⟩
  · rintro ⟨n, h⟩
    refine ⟨n, ?_⟩
    rw [← after_add]
    exact after_of_ended h (Nat.le_add_left n m)

/-- a walk comes to one end -/
theorem Ends.unique {token : Token} {w : Walk} {q r : Except RunError Unit} {s t : Store} (h : w.Ends token q s)
    (k : w.Ends token r t) : q = r ∧ s = t := by
  obtain ⟨m, hm⟩ := h
  obtain ⟨n, hn⟩ := k
  have hboth := (after_of_ended hm (Nat.le_max_left m n)).symm.trans (after_of_ended hn (Nat.le_max_right m n))
  cases hboth
  exact ⟨rfl, rfl⟩

theorem perform_trace (o : Op) (rest : Code) (frames : List Frame) (s : Store) :
    s.trace <+: (perform o rest frames s).store.trace := by
  have hact := o.act_trace s
  rw [perform]
  split
  · next t ha => rwa [ha] at hact
  · next e t ha => rwa [ha] at hact

theorem test_store (token : Token) (body rest : Code) (frames : List Frame) (s : Store) :
    (test token body rest frames s).store = s := by
  rw [test]
  split
  · rfl
  · cases s.signals.reason? token <;> rfl

/-- an instruction that does not fail leads to what follows it -/
theorem step_of_act (token : Token) {o : Op} {rest : Code} {s t : Store} (hquiet : s.signals.reason? token = none)
    (hact : o.act s = (.ok (), t)) : (start (.op o rest) s).step token = start rest t := by
  simp only [start, step, hquiet, perform, hact]

theorem test_unraised {token : Token} {body rest : Code} {frames : List Frame} {s : Store}
    (hcell : s.current ≠ 0) (hquiet : s.signals.reason? token = none) :
    test token body rest frames s = .going body (⟨body, rest⟩ :: frames) s := by
  rw [test, if_neg hcell, hquiet]

theorem test_raised {token : Token} {body rest : Code} {frames : List Frame} {s : Store} {why : String}
    (hcell : s.current ≠ 0) (hwhy : s.signals.reason? token = some why) :
    test token body rest frames s = .ended (.error (.cancelled why)) s := by
  rw [test, if_neg hcell, hwhy]

/-- a step takes no call back -/
theorem step_trace (token : Token) (w : Walk) : w.store.trace <+: (w.step token).store.trace := by
  rcases w with ⟨_ | ⟨o, rest⟩ | ⟨body, rest⟩, _ | ⟨f, frames⟩, s⟩ | ⟨r, s⟩
  · exact List.prefix_refl _
  · simp only [step, test_store]
    exact List.prefix_refl _
  · simp only [step]
    cases s.signals.reason? token with
    | none => exact perform_trace o rest [] s
    | some why => exact List.prefix_refl _
  · exact perform_trace o rest (f :: frames) s
  · simp only [step]
    cases s.signals.reason? token with
    | none =>
      simp only [test_store]
      exact List.prefix_refl _
    | some why => exact List.prefix_refl _
  · simp only [step, test_store]
    exact List.prefix_refl _
  · exact List.prefix_refl _

/-- later calls come behind earlier ones -/
theorem after_trace (token : Token) (w : Walk) {m n : Nat} (h : m ≤ n) :
    (w.after token m).store.trace <+: (w.after token n).store.trace := by
  induction h with
  | refl => exact List.prefix_refl _
  | step _ ih => exact ih.trans (step_trace token _)

/-- the calls that a walk has made up to some moment; all of them together are the trace of the walk, which is infinite
if the walk never stops making calls -/
def Trace (token : Token) (w : Walk) (calls : List Call) : Prop :=
  ∃ n, calls <+: (w.after token n).store.trace

/-- the calls of a walk are those that it makes from any of its moments on, with the earlier ones before them -/
theorem trace_after_iff {token : Token} {w : Walk} (m : Nat) {calls : List Call} :
    (w.after token m).Trace token calls ↔ w.Trace token calls := by
  constructor
  · rintro ⟨n, hn⟩
    rw [← after_add] at hn
    exact ⟨m + n, hn⟩
  · rintro ⟨n, hn⟩
    refine ⟨n, ?_⟩
    rw [← after_add]
    exact hn.trans (after_trace token w (Nat.le_add_left n m))

/-- a walk that has come to its end has made all its calls -/
theorem Ends.trace {token : Token} {w : Walk} {r : Except RunError Unit} {t : Store} {calls : List Call}
    (h : w.Ends token r t) (hcalls : w.Trace token calls) : calls <+: t.trace := by
  obtain ⟨n, hn⟩ := hcalls
  obtain ⟨k, hk⟩ := h
  have hlast := hn.trans (after_trace token w (Nat.le_add_right n k))
  rwa [after_of_ended hk (Nat.le_add_left k n)] at hlast

/-- of two stretches of the trace, one goes on where the other ends -/
theorem Trace.comparable {token : Token} {w : Walk} {a b : List Call} (ha : w.Trace token a) (hb : w.Trace token b) :
    a <+: b ∨ b <+: a := by
  obtain ⟨m, hm⟩ := ha
  obtain ⟨n, hn⟩ := hb
  rcases Nat.le_total m n with h | h
  · exact List.prefix_or_prefix_of_prefix (hm.trans (after_trace token w h)) hn
  · exact List.prefix_or_prefix_of_prefix hm (hn.trans (after_trace token w h))

end Walk

/-! ## Runs that come back -/

namespace Interpreter

/-- what a run gives back whose walk ended with this result in this store -/
def Finished.ofEnd (result : Except RunError Unit) (s : Store) : Finished :=
  ⟨result, ⟨s.tape, s.streams, .ofResult result⟩, s.signals⟩

/-- the call to run comes back with this -/
def Returns (i : Interpreter) (code : Code) (token : Token) (signals : Signals) (f : Finished) : Prop :=
  ∃ steps, i.run steps code token signals = some f

theorem settle_eq_some_iff (w : Walk) (f : Finished) :
    settle w = some f ↔ ∃ r s, w = .ended r s ∧ f = .ofEnd r s := by
  cases w with
  | going code frames s =>
    constructor
    · intro h
      cases h
    · rintro ⟨r, s, h, -⟩
      cases h
  | ended r s =>
    constructor
    · intro h
      cases h
      exact ⟨r, s, rfl, rfl⟩
    · rintro ⟨r', s', h, rfl⟩
      cases h
      rfl

theorem run_new (steps : Nat) (tape : Tape) (streams : Streams) (code : Code) (token : Token) (signals : Signals) :
    (new tape streams).run steps code token signals =
      settle ((Walk.start code ⟨tape, streams, signals⟩).after token steps) := by
  rw [← Walk.advance_eq_after]
  rfl

/-- **A run comes back with the end of its walk.** -/
theorem returns_new_iff {tape : Tape} {streams : Streams} {code : Code} {token : Token} {signals : Signals}
    {f : Finished} :
    (new tape streams).Returns code token signals f ↔
      ∃ r t, (Walk.start code ⟨tape, streams, signals⟩).Ends token r t ∧ f = .ofEnd r t := by
  constructor
  · rintro ⟨steps, h⟩
    rw [run_new, settle_eq_some_iff] at h
    obtain ⟨r, t, hend, rfl⟩ := h
    exact ⟨r, t, ⟨steps, hend⟩, rfl⟩
  · rintro ⟨r, t, ⟨steps, hend⟩, rfl⟩
    exact ⟨steps, by rw [run_new, settle_eq_some_iff]; exact ⟨r, t, hend, rfl⟩⟩

end Interpreter

end RingTape
