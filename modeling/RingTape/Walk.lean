/-
The walk of a run over its program, one step at a time.

A walk that is going stands in front of a sequence, inside the loops of its `frames`, innermost first. A step
carries out the instruction it stands at, enters or passes the loop it stands at, or, at the end of a loop
body, tests the loop again. The signal is looked at before each instruction of the top level and before each
iteration of a loop, after its cell was found to be nonzero, and nowhere else. A walk that has ended stays as
it is, so `advance` may stop there.

- `Walk.step`, `Walk.advance`: one step, and up to a number of steps
- `Walk.after`: the walk after exactly so many steps
- `Walk.Ends`: the walk comes to an end
- `Walk.activations`: how many sequences are being walked at once
-/
import RingTape.Store

namespace RingTape

/-- a loop that is being walked: its body and what comes after it -/
structure Frame where
  body : Code
  rest : Code
  deriving DecidableEq, Repr

/-- a run on its way through a program, or at its end -/
inductive Walk where
  | going (code : Code) (frames : List Frame) (store : Store)
  | ended (result : Except RunError Unit) (store : Store)

namespace Walk

/-- the start of a walk over a program -/
def start (code : Code) (store : Store) : Walk :=
  .going code [] store

/-- the store at the point reached -/
def store : Walk → Store
  | .going _ _ s => s
  | .ended _ s => s

/-- the result, once there is one -/
def result? : Walk → Option (Except RunError Unit)
  | .going .. => none
  | .ended r _ => some r

/-- the test of a loop: past it on a zero cell, into its body on any other, unless the signal is raised -/
@[inline] def test (token : Token) (body rest : Code) (frames : List Frame) (s : Store) : Walk :=
  if s.current = 0 then .going rest frames s
  else
    match s.signals.reason? token with
    | some why => .ended (.error (.cancelled why)) s
    | none => .going body (⟨body, rest⟩ :: frames) s

/-- an instruction, and on to what follows it -/
@[inline] def perform (o : Op) (rest : Code) (frames : List Frame) (s : Store) : Walk :=
  match o.act s with
  | (.ok (), t) => .going rest frames t
  | (.error e, t) => .ended (.error e) t

/-- one step -/
def step (token : Token) : Walk → Walk
  | .ended r s => .ended r s
  | .going .nil [] s => .ended (.ok ()) s
  | .going .nil (f :: frames) s => test token f.body f.rest frames s
  | .going (.op o rest) [] s =>
    match s.signals.reason? token with
    | some why => .ended (.error (.cancelled why)) s
    | none => perform o rest [] s
  | .going (.op o rest) (f :: frames) s => perform o rest (f :: frames) s
  | .going (.loop body rest) [] s =>
    match s.signals.reason? token with
    | some why => .ended (.error (.cancelled why)) s
    | none => test token body rest [] s
  | .going (.loop body rest) (f :: frames) s => test token body rest (f :: frames) s

/-- steps until the end, at most so many -/
def advance (token : Token) : Nat → Walk → Walk
  | 0, w => w
  | _ + 1, .ended r s => .ended r s
  | n + 1, .going code frames s => advance token n (step token (.going code frames s))

/-- the walk after exactly so many steps -/
def after (token : Token) (n : Nat) (w : Walk) : Walk :=
  Nat.repeat (step token) n w

/-- the walk comes to an end with this result, in this store -/
def Ends (token : Token) (w : Walk) (result : Except RunError Unit) (s : Store) : Prop :=
  ∃ n, w.after token n = .ended result s

/-- the number of sequences that are being walked at once: the top level and one for each loop around
the point reached -/
def activations : Walk → Nat
  | .going _ frames _ => frames.length + 1
  | .ended .. => 0

/-- the same walk with its signals changed from outside -/
def mapSignals (f : Signals → Signals) : Walk → Walk
  | .going code frames s => .going code frames { s with signals := f s.signals }
  | .ended r s => .ended r { s with signals := f s.signals }

@[simp] theorem step_ended (token : Token) (r : Except RunError Unit) (s : Store) :
    step token (.ended r s) = .ended r s := rfl

@[simp] theorem after_ended (token : Token) (n : Nat) (r : Except RunError Unit) (s : Store) :
    (Walk.ended r s).after token n = .ended r s := by
  induction n with
  | zero => rfl
  | succ n ih => rw [after, Nat.repeat, ← after, ih, step_ended]

theorem after_succ (token : Token) (n : Nat) (w : Walk) :
    w.after token (n + 1) = (w.step token).after token n := by
  induction n with
  | zero => rfl
  | succ n ih => rw [after, Nat.repeat, ← after, ih]; rfl

/-- stopping at the end changes nothing -/
theorem advance_eq_after (token : Token) (n : Nat) (w : Walk) : advance token n w = w.after token n := by
  induction n generalizing w with
  | zero => rfl
  | succ n ih =>
    cases w with
    | ended r s => rw [after_ended]; rfl
    | going code frames s => rw [after_succ, advance, ih]

end Walk

end RingTape
