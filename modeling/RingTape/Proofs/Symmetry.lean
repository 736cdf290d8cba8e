/-
The ring looks the same from every cell and from both sides. No program can tell where on the ring it is: when the tape
is rotated before a run, all that changes is that it is rotated after it. And when the tape is mirrored, a program that
goes left where the first one goes right does on it what the first one does.

- `Symmetry`: a new place for each cell, neighbours staying neighbours; `Symmetry.rotation`, `Symmetry.reflection`
- `Tape.moved`, `Code.rename`: the tape with its cells at their new places, a program with its instructions renamed
- `Op.act_moved`: an instruction on the moved tape does what it does on the tape, and then the tape is moved
- `Walk.step_moved`, `Walk.after_moved`: so does a step, and any number of steps
- `runs_alike_on_ring`: runs on a rotated tape, and runs of the mirrored program on a mirrored tape
-/
import Mathlib.Logic.Equiv.Defs
import RingTape.Proofs.Runs

namespace RingTape

/-- a new place for each cell of the ring, with neighbours staying neighbours; right and left stay what they are, or
change sides -/
structure Symmetry where
  place : UInt8 ≃ UInt8
  turns : Bool
  place_succ : ∀ i, place (i + 1) = if turns then place i - 1 else place i + 1

namespace Symmetry

/-- each cell `k` places further to the right -/
def rotation (k : UInt8) : Symmetry where
  place := ⟨(· + k), (· - k), fun i => UInt8.add_sub_cancel i k, fun i => UInt8.sub_add_cancel i k⟩
  turns := false
  place_succ i := by
    show i + 1 + k = i + k + 1
    rw [UInt8.add_assoc, UInt8.add_comm 1 k, UInt8.add_assoc]

/-- each cell as far to the left of cell 0 as it was to the right -/
def reflection : Symmetry where
  place := ⟨(- ·), (- ·), fun _ => UInt8.neg_neg, fun _ => UInt8.neg_neg⟩
  turns := true
  place_succ i := by
    show -(i + 1) = -i - 1
    rw [UInt8.neg_add]

theorem place_pred (m : Symmetry) (i : UInt8) : m.place (i - 1) = if m.turns then m.place i + 1 else m.place i - 1 := by
  have h := m.place_succ (i - 1)
  rw [UInt8.sub_add_cancel] at h
  rw [h]
  cases m.turns with
  | true => exact (UInt8.sub_add_cancel _ 1).symm
  | false => exact (UInt8.add_sub_cancel _ 1).symm

end Symmetry

/-! ## Tapes -/

namespace Tape

/-- the tape with each cell at its new place, and the pointer at the cell it was at -/
def moved (m : Symmetry) (t : Tape) : Tape :=
  ⟨Vector.ofFn fun i => t.cell (m.place.symm (UInt8.ofNat i)), m.place t.pointer⟩

variable (m : Symmetry) (t : Tape)

@[simp] theorem pointer_moved : (t.moved m).pointer = m.place t.pointer := rfl

theorem cell_moved_eq (j : UInt8) : (t.moved m).cell j = t.cell (m.place.symm j) := by
  rw [cell_eq_getElem _ _ j.toNat_lt]
  unfold moved
  rw [Vector.getElem_ofFn]
  simp only [UInt8.ofNat_toNat]

-- from here on a moved tape is what these two lemmas say; no proof should compare 256 cells by computation
attribute [irreducible] moved

@[simp] theorem cell_moved (i : UInt8) : (t.moved m).cell (m.place i) = t.cell i := by
  rw [cell_moved_eq, Equiv.symm_apply_apply]

@[simp] theorem current_moved : (t.moved m).current = t.current := by
  unfold current
  rw [pointer_moved, cell_moved]

theorem put_moved (v : UInt8) : (t.moved m).put v = (t.put v).moved m := by
  apply ext_cell
  · intro j
    obtain ⟨i, rfl⟩ := m.place.surjective j
    rw [cell_put, cell_moved, cell_moved, cell_put, pointer_moved]
    by_cases h : i = t.pointer
    · rw [if_pos h, if_pos (congrArg m.place h)]
    · rw [if_neg h, if_neg fun hp => h (m.place.injective hp)]
  · rw [pointer_put, pointer_moved, pointer_moved, pointer_put]

/-- a step of the pointer to the right, on the moved tape -/
theorem right_moved : t.right.moved m = if m.turns then (t.moved m).left else (t.moved m).right := by
  apply ext_cell
  · intro j
    cases m.turns <;> simp [cell_moved_eq]
  · rw [pointer_moved, pointer_right, m.place_succ]
    cases m.turns <;> simp

/-- a step of the pointer to the left, on the moved tape -/
theorem left_moved : t.left.moved m = if m.turns then (t.moved m).right else (t.moved m).left := by
  apply ext_cell
  · intro j
    cases m.turns <;> simp [cell_moved_eq]
  · rw [pointer_moved, pointer_left, m.place_pred]
    cases m.turns <;> simp

end Tape

/-! ## Programs -/

/-- the instruction that goes the other way; all others are their own opposites -/
def Op.opposite : Op → Op
  | .next => .prev
  | .prev => .next
  | o => o

namespace Code

/-- the program with its instructions renamed at every depth -/
def rename (names : Op → Op) : Code → Code
  | nil => nil
  | op o rest => op (names o) (rest.rename names)
  | loop body rest => loop (body.rename names) (rest.rename names)

@[simp] theorem rename_id (c : Code) : c.rename id = c := by
  induction c with
  | nil => rfl
  | op o rest ih => rw [rename, ih]; rfl
  | loop body rest ihb ihr => rw [rename, ihb, ihr]

/-- the mirror image of a program: right and left exchanged at every depth -/
def mirror (c : Code) : Code :=
  c.rename Op.opposite

end Code

/-- what becomes of an instruction when the tape is moved -/
def Symmetry.op (m : Symmetry) : Op → Op :=
  if m.turns then Op.opposite else id

/-! ## Stores -/

namespace Store

/-- the store with its tape moved -/
def moved (m : Symmetry) (s : Store) : Store :=
  { s with tape := s.tape.moved m }

variable (m : Symmetry)

@[simp] theorem current_moved (s : Store) : (s.moved m).current = s.current :=
  s.tape.current_moved m

theorem alarm_moved (s : Store) (reasons : List String) : (s.moved m).alarm reasons = (s.alarm reasons).moved m := by
  have halarmed : (s.moved m).streams.alarmed = s.streams.alarmed := rfl
  unfold alarm
  rw [halarmed]
  cases s.streams.alarmed <;> rfl

theorem read_moved (s : Store) : (s.moved m).read = (s.read.1, s.read.2.moved m) := by
  have hreasons : (s.moved m).streams.reads.reasons = s.streams.reads.reasons := rfl
  rw [read_eq, read_eq s, hreasons, alarm_moved]
  rfl

theorem write_moved (b : UInt8) (s : Store) : (s.moved m).write b = ((s.write b).1, (s.write b).2.moved m) := by
  have hreasons : (s.moved m).streams.writes.reasons = s.streams.writes.reasons := rfl
  rw [write_eq, write_eq b s, hreasons, alarm_moved]
  rfl

theorem flush_moved (s : Store) : (s.moved m).flush = (s.flush.1, s.flush.2.moved m) := by
  have hreasons : (s.moved m).streams.flushes.reasons = s.streams.flushes.reasons := rfl
  rw [flush_eq, flush_eq s, hreasons, alarm_moved]
  rfl

end Store

/-- **An instruction on the moved tape** does what it does on the tape, and then the tape is moved. -/
theorem Op.act_moved (m : Symmetry) (o : Op) (s : Store) :
    (m.op o).act (s.moved m) = ((o.act s).1, (o.act s).2.moved m) := by
  have hfixed : ∀ o : Op, o.opposite = o → m.op o = o := by
    intro o ho
    unfold Symmetry.op
    cases m.turns with
    | true => exact ho
    | false => rfl
  cases o with
  | incr =>
    rw [hfixed .incr rfl]
    have hput := s.tape.put_moved m (s.tape.current + 1)
    simp only [act, Store.moved, Tape.current_moved, hput]
  | decr =>
    rw [hfixed .decr rfl]
    have hput := s.tape.put_moved m (s.tape.current - 1)
    simp only [act, Store.moved, Tape.current_moved, hput]
  | next =>
    have hright := s.tape.right_moved m
    simp only [Symmetry.op]
    cases hm : m.turns with
    | true =>
      rw [hm] at hright
      simp only [if_true, opposite, act, Store.moved, hright]
    | false =>
      rw [hm] at hright
      simp only [Bool.false_eq_true, if_false, id, act, Store.moved, hright]
  | prev =>
    have hleft := s.tape.left_moved m
    simp only [Symmetry.op]
    cases hm : m.turns with
    | true =>
      rw [hm] at hleft
      simp only [if_true, opposite, act, Store.moved, hleft]
    | false =>
      rw [hm] at hleft
      simp only [Bool.false_eq_true, if_false, id, act, Store.moved, hleft]
  | print =>
    rw [hfixed .print rfl]
    simp only [act, Store.current_moved]
    exact Store.writeByte_map (Store.write_moved m s.current) (Store.flush_moved m) s
  | read =>
    rw [hfixed .read rfl]
    simp only [act, Store.readByte_map (Store.read_moved m)]
    rcases s.readByte with ⟨e | b, t⟩
    · cases e <;> rfl
    · simp only [Store.moved, Tape.put_moved]

/-! ## Walks -/

namespace Walk

/-- the walk with its tape moved and its instructions renamed accordingly -/
def moved (m : Symmetry) : Walk → Walk
  | .going code frames s =>
    .going (code.rename m.op) (frames.map fun f => ⟨f.body.rename m.op, f.rest.rename m.op⟩) (s.moved m)
  | .ended r s => .ended r (s.moved m)

variable (m : Symmetry) (token : Token)

theorem store_moved (w : Walk) : (w.moved m).store = w.store.moved m := by
  cases w <;> rfl

theorem test_moved (body rest : Code) (frames : List Frame) (s : Store) :
    test token (body.rename m.op) (rest.rename m.op)
        (frames.map fun f => ⟨f.body.rename m.op, f.rest.rename m.op⟩) (s.moved m) =
      (test token body rest frames s).moved m := by
  have hsignals : (s.moved m).signals = s.signals := rfl
  unfold test
  rw [Store.current_moved, hsignals]
  by_cases h : s.current = 0
  · rw [if_pos h, if_pos h]
    rfl
  · rw [if_neg h, if_neg h]
    cases s.signals.reason? token <;> rfl

theorem perform_moved (o : Op) (rest : Code) (frames : List Frame) (s : Store) :
    perform (m.op o) (rest.rename m.op)
        (frames.map fun f => ⟨f.body.rename m.op, f.rest.rename m.op⟩) (s.moved m) =
      (perform o rest frames s).moved m := by
  unfold perform
  rw [Op.act_moved]
  rcases o.act s with ⟨_ | _, t⟩ <;> rfl

/-- **One step.** A step of the moved walk is the step of the walk, moved. -/
theorem step_moved (w : Walk) : (w.moved m).step token = (w.step token).moved m := by
  have hsignals : ∀ s : Store, (s.moved m).signals = s.signals := fun _ => rfl
  rcases w with ⟨_ | ⟨o, rest⟩ | ⟨body, rest⟩, _ | ⟨f, frames⟩, s⟩ | ⟨r, s⟩
  · rfl
  · exact test_moved m token f.body f.rest frames s
  · simp only [moved, Code.rename, List.map_nil, step, hsignals]
    cases s.signals.reason? token with
    | none => exact perform_moved m o rest [] s
    | some why => rfl
  · exact perform_moved m o rest (f :: frames) s
  · simp only [moved, Code.rename, List.map_nil, step, hsignals]
    cases s.signals.reason? token with
    | none => exact test_moved m token body rest [] s
    | some why => rfl
  · exact test_moved m token body rest (f :: frames) s
  · rfl

/-- **Any number of steps.** -/
theorem after_moved (w : Walk) (n : Nat) : (w.moved m).after token n = (w.after token n).moved m := by
  induction n with
  | zero => rfl
  | succ n ih => rw [after_step, after_step, ih, step_moved]

end Walk

/-! ## Runs -/

namespace Interpreter

/-- what a run gives back, with its tape moved -/
def Finished.moved (m : Symmetry) (f : Finished) : Finished :=
  { f with interpreter := { f.interpreter with tape := f.interpreter.tape.moved m } }

theorem settle_moved (m : Symmetry) (w : Walk) : settle (w.moved m) = (settle w).map (·.moved m) := by
  cases w <;> rfl

/-- a run of `image` on the moved tape beside a run of `code` on the tape: one comes back if and only if the other does,
and apart from the tape, which is the moved one, with the same; and they are alike at every moment, also if neither
comes back -/
structure RunsAlike (m : Symmetry) (code image : Code) (tape : Tape) (streams : Streams) (signals : Signals)
    (token : Token) : Prop where
  returns : ∀ g, (new (tape.moved m) streams).Returns image token signals g ↔
    ∃ f, (new tape streams).Returns code token signals f ∧ g = f.moved m
  moments : ∀ n, ((Walk.start image ⟨tape.moved m, streams, signals⟩).after token n).store =
    ((Walk.start code ⟨tape, streams, signals⟩).after token n).store.moved m

/-- a run of the program that a symmetry of the ring makes of another -/
theorem runsAlike_rename (m : Symmetry) (code : Code) (tape : Tape) (streams : Streams) (signals : Signals)
    (token : Token) : RunsAlike m code (code.rename m.op) tape streams signals token where
  returns g := by
    have hrun : ∀ steps, (new (tape.moved m) streams).run steps (code.rename m.op) token signals =
        ((new tape streams).run steps code token signals).map (·.moved m) := by
      intro steps
      rw [run_new, run_new, ← settle_moved, ← Walk.after_moved]
      rfl
    constructor
    · rintro ⟨steps, h⟩
      rw [hrun, Option.map_eq_some_iff] at h
      obtain ⟨f, hf, rfl⟩ := h
      exact ⟨f, ⟨steps, hf⟩, rfl⟩
    · rintro ⟨f, ⟨steps, hf⟩, rfl⟩
      exact ⟨steps, by rw [hrun, hf]; rfl⟩
  moments n := by
    have hafter := Walk.after_moved m token (Walk.start code ⟨tape, streams, signals⟩) n
    rw [← Walk.store_moved, ← hafter]
    rfl

/-- **No program can tell where it is on the ring, or which way round.** A run on the tape rotated by `k` is the run on
the tape, with the same result and the same calls, and its tape is the rotated one. The run of the mirror image of a
program on the mirrored tape is the run of the program on the tape, and its tape is the mirrored one. This holds on
every tape and every pair of streams and under all signals, at every moment, and whether or not the runs come back. -/
theorem runs_alike_on_ring (code : Code) (tape : Tape) (streams : Streams) (signals : Signals) (token : Token) :
    (∀ k, RunsAlike (.rotation k) code code tape streams signals token) ∧
      RunsAlike .reflection code code.mirror tape streams signals token := by
  constructor
  · intro k
    have hnames : (Symmetry.rotation k).op = id := rfl
    have h := runsAlike_rename (.rotation k) code tape streams signals token
    rwa [hnames, Code.rename_id] at h
  · exact runsAlike_rename .reflection code tape streams signals token

end Interpreter

end RingTape
