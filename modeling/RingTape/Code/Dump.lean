/-
Dumps of programs: an operation is its name, a loop is a tuple around the list of its body, a program is a
record around the list of its top level.
-/
import RingTape.Code
import RingTape.Text.Dump

namespace RingTape

/-- the name of an operation -/
def Op.name : Op → String
  | .incr => "Incr"
  | .decr => "Decr"
  | .next => "Next"
  | .prev => "Prev"
  | .print => "Print"
  | .read => "Read"

namespace Code

/-- the dumps of the nodes of a sequence, in opposite order, before a given list -/
def dumpsOnto : Code → List Dump → List Dump
  | nil, acc => acc
  | op o rest, acc => rest.dumpsOnto (.atom o.name :: acc)
  | loop body rest, acc => rest.dumpsOnto (.tuple "Loop" (.list (body.dumpsOnto []).reverse) :: acc)

/-- the dumps of the nodes of a sequence -/
def dumps (c : Code) : List Dump :=
  (c.dumpsOnto []).reverse

/-- the dump of a program -/
def dump (c : Code) : Dump :=
  .record "Ast" [("data", .list c.dumps)]

/-! ## Small facts -/

theorem dumpsOnto_eq (c : Code) (acc : List Dump) : c.dumpsOnto acc = c.dumps.reverse ++ acc := by
  induction c generalizing acc with
  | nil => rfl
  | op o rest ih =>
    simp only [dumps, dumpsOnto, List.reverse_reverse]
    rw [ih, ih [_]]
    simp
  | loop body rest _ ih =>
    simp only [dumps, dumpsOnto, List.reverse_reverse]
    rw [ih, ih [_]]
    simp

@[simp] theorem dumps_op (o : Op) (c : Code) : (op o c).dumps = .atom o.name :: c.dumps := by
  rw [dumps, dumpsOnto, dumpsOnto_eq]
  simp

@[simp] theorem dumps_loop (b c : Code) : (loop b c).dumps = .tuple "Loop" (.list b.dumps) :: c.dumps := by
  rw [dumps, dumpsOnto, dumpsOnto_eq]
  simp [dumps]

end Code

/-- the dump of one node -/
def Node.dump : Node → Dump
  | .op o => .atom o.name
  | .loop body => .tuple "Loop" (.list body.dumps)

end RingTape
