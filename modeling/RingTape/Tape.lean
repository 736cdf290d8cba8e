/-
The memory of a run: a ring of 256 byte cells and a pointer to one of them. Pointer and cells wrap round, so
every pointer is a cell and every cell has a successor and a predecessor.

- `Tape.cell`: the value of a cell, the view in which the operations are described
- `Tape.current`, `Tape.put`: the cell under the pointer
- `Tape.right`, `Tape.left`: the moves of the pointer
- `Tape.nonzero`: the cells that hold something, in order
-/

namespace RingTape

/-- the number of cells, one for each value of the pointer -/
def tapeSize : Nat := 256

/-- a ring of cells and the pointer into it -/
structure Tape where
  cells : Vector UInt8 256
  pointer : UInt8
  deriving DecidableEq, Repr

namespace Tape

/-- all cells zero, the pointer at cell 0 -/
def blank : Tape :=
  ⟨Vector.replicate 256 0, 0⟩

/-- the value of a cell -/
def cell (t : Tape) (i : UInt8) : UInt8 :=
  t.cells.get ⟨i.toNat, i.toNat_lt⟩

/-- the value under the pointer -/
def current (t : Tape) : UInt8 :=
  t.cell t.pointer

/-- a new value under the pointer -/
def put (t : Tape) (v : UInt8) : Tape :=
  { t with cells := t.cells.set t.pointer.toNat v t.pointer.toNat_lt }

/-- the pointer one cell to the right -/
def right (t : Tape) : Tape :=
  { t with pointer := t.pointer + 1 }

/-- the pointer one cell to the left -/
def left (t : Tape) : Tape :=
  { t with pointer := t.pointer - 1 }

/-- the cells that are not zero, with their numbers, in order -/
def nonzero (t : Tape) : List (Nat × UInt8) :=
  (t.cells.toList.zipIdx.filter fun p => p.1 != 0).map fun p => (p.2, p.1)

/-! ## The operations seen cell by cell -/

theorem cell_eq_getElem (t : Tape) (i : UInt8) (h : i.toNat < 256) : t.cell i = t.cells[i.toNat] := rfl

@[simp] theorem cell_blank (i : UInt8) : blank.cell i = 0 := by
  rw [cell_eq_getElem _ _ i.toNat_lt]; simp [blank]

theorem cell_put (t : Tape) (v : UInt8) (i : UInt8) :
    (t.put v).cell i = if i = t.pointer then v else t.cell i := by
  rw [cell_eq_getElem _ _ i.toNat_lt, cell_eq_getElem _ _ i.toNat_lt]
  simp only [put, Vector.getElem_set]
  by_cases h : i = t.pointer
  · simp [h]
  · have hn : t.pointer.toNat ≠ i.toNat := fun e => h (UInt8.toNat_inj.1 e.symm)
    simp [h, hn]

@[simp] theorem pointer_put (t : Tape) (v : UInt8) : (t.put v).pointer = t.pointer := rfl

@[simp] theorem current_put (t : Tape) (v : UInt8) : (t.put v).current = v := by
  simp [current, cell_put]

@[simp] theorem cell_right (t : Tape) (i : UInt8) : t.right.cell i = t.cell i := rfl

@[simp] theorem cell_left (t : Tape) (i : UInt8) : t.left.cell i = t.cell i := rfl

@[simp] theorem pointer_right (t : Tape) : t.right.pointer = t.pointer + 1 := rfl

@[simp] theorem pointer_left (t : Tape) : t.left.pointer = t.pointer - 1 := rfl

/-- a tape is its cells and its pointer -/
theorem ext_cell {s t : Tape} (h : ∀ i, s.cell i = t.cell i) (hp : s.pointer = t.pointer) : s = t := by
  obtain ⟨cs, p⟩ := s
  obtain ⟨ct, q⟩ := t
  simp only at hp
  subst hp
  have hc : cs = ct := Vector.ext fun i hi => by
    have := h (UInt8.ofNatLT i hi)
    simpa [cell_eq_getElem _ _ (UInt8.toNat_lt _)] using this
  rw [hc]

end Tape

end RingTape
