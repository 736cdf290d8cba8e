/-
Places in a program. A walk stands in front of a sequence inside some loops; the same place is the end of a path of
indices, one into the top level and one into each loop body on the way. Paths in the order of lists are nodes in the
order of the text: a loop comes before the nodes of its body, and these come before what follows the loop.

- `Code.size`: the number of nodes, those in loop bodies included
- `Code.pathTo`, `nodeAt?_pathTo`: the path to the node in front of a walk
- `pathTo_lt_rest`, `pathTo_lt_behind`: going on past a node and leaving a loop lead to later paths
- `Code.unstarted`, `head?_pathTo`: the instructions of the top level behind the one that is being walked
- `Position.size_le`: the nodes that are still ahead are not more than the nodes of the program
-/
import Mathlib.Algebra.GroupWithZero.Nat
import RingTape.Proofs.Jumps

namespace RingTape

namespace Code

/-! ## Lengths and sizes -/

@[simp] theorem length_op (o : Op) (c : Code) : (op o c).length = c.length + 1 := by
  rw [← length_nodes, nodes_op, List.length_cons, length_nodes]

@[simp] theorem length_loop (b c : Code) : (loop b c).length = c.length + 1 := by
  rw [← length_nodes, nodes_loop, List.length_cons, length_nodes]

@[simp] theorem nodes_append (c d : Code) : (c ++ d).nodes = c.nodes ++ d.nodes := by
  induction c with
  | nil => rfl
  | op o rest ih => simp [ih]
  | loop body rest _ ih => simp [ih]

@[simp] theorem length_append (c d : Code) : (c ++ d).length = c.length + d.length := by
  rw [← length_nodes, nodes_append, List.length_append, length_nodes, length_nodes]

/-- the number of nodes, those in loop bodies included -/
def size : Code → Nat
  | nil => 0
  | op _ rest => rest.size + 1
  | loop body rest => body.size + rest.size + 1

@[simp] theorem size_append (c d : Code) : (c ++ d).size = c.size + d.size := by
  induction c with
  | nil => simp [size]
  | op o rest ih =>
    simp only [op_append, size, ih]
    omega
  | loop body rest _ ih =>
    simp only [loop_append, size, ih]
    omega

/-! ## Paths -/

/-- the sequence that a place is in: the program, or the body of the innermost loop -/
def enclosing (whole : Code) : List Frame → Code
  | [] => whole
  | f :: _ => f.body

/-- the path to the innermost loop -/
def loopPath (whole : Code) : List Frame → List Nat
  | [] => []
  | f :: frames => whole.loopPath frames ++ [(whole.enclosing frames).length - (f.rest.length + 1)]

/-- the path to the node in front of a sequence, inside the loops of the frames -/
def pathTo (whole code : Code) (frames : List Frame) : List Nat :=
  whole.loopPath frames ++ [(whole.enclosing frames).length - code.length]

theorem nodeAt?_single (c : Code) (i : Nat) : c.nodeAt? [i] = c.nodes[i]? := by
  cases h : c.nodes[i]? with
  | none => simp [nodeAt?, h]
  | some node => simp [nodeAt?, h]

theorem nodeAt?_cons {c body : Code} {i : Nat} (h : c.nodes[i]? = some (.loop body)) (j : Nat) (more : List Nat) :
    c.nodeAt? (i :: j :: more) = body.nodeAt? (j :: more) := by
  simp [nodeAt?, h]

/-- behind the path of a loop come the indices of its body -/
theorem nodeAt?_append {c body : Code} {path : List Nat} (h : c.nodeAt? path = some (.loop body)) (j : Nat) :
    c.nodeAt? (path ++ [j]) = body.nodes[j]? := by
  fun_induction nodeAt? c path with
  | case1 c => cases h
  | case2 c i path hi => cases h
  | case3 c i node hi =>
    cases h
    exact (nodeAt?_cons hi j []).trans (nodeAt?_single body j)
  | case4 c i o k more hi => cases h
  | case5 c i inner k more hi ih =>
    exact (nodeAt?_cons hi k (more ++ [j])).trans (ih h)

end Code

/-! ## The place of a walk -/

namespace Position

variable {whole code body rest : Code} {frames : List Frame} {i : Nat}

/-- a place is in front of the last part of the sequence that it is in -/
theorem enclosing_eq (h : Position whole code frames i) : ∃ done, whole.enclosing frames = done ++ code := by
  cases h with
  | outside done _ h => exact ⟨done, h⟩
  | inside done _ hk h => exact ⟨done, h⟩

theorem length_le (h : Position whole code frames i) : code.length ≤ (whole.enclosing frames).length := by
  obtain ⟨done, hdone⟩ := h.enclosing_eq
  rw [hdone, Code.length_append]
  omega

/-- the index at the end of a path is the number of nodes passed in the sequence -/
theorem nodes_enclosing (h : Position whole code frames i) :
    (whole.enclosing frames).nodes[(whole.enclosing frames).length - code.length]? = code.nodes[0]? := by
  obtain ⟨done, hdone⟩ := h.enclosing_eq
  rw [hdone, Code.length_append, Code.nodes_append, Nat.add_sub_cancel, List.getElem?_append_right (by simp)]
  simp

/-- **Paths lead to nodes.** At the end of the path to a place is the first node of the sequence there. -/
theorem nodeAt?_pathTo (h : Position whole code frames i) :
    whole.nodeAt? (whole.pathTo code frames) = code.nodes[0]? := by
  have hnode := h.nodes_enclosing
  induction h with
  | outside done code h => rwa [Code.pathTo, Code.loopPath, List.nil_append, Code.nodeAt?_single]
  | @inside f frames k done code hk h ih =>
    have hloop : whole.nodeAt? (whole.loopPath (f :: frames)) = some (.loop f.body) := by
      have := ih hk.nodes_enclosing
      rwa [Code.pathTo, Code.length_loop, Code.nodes_loop] at this
    rw [Code.pathTo, Code.nodeAt?_append hloop]
    exact hnode

theorem nodeAt?_op {o : Op} (h : Position whole (.op o rest) frames i) :
    whole.nodeAt? (whole.pathTo (.op o rest) frames) = some (.op o) := by
  rw [h.nodeAt?_pathTo, Code.nodes_op]
  rfl

theorem nodeAt?_loop (h : Position whole (.loop body rest) frames i) :
    whole.nodeAt? (whole.pathTo (.loop body rest) frames) = some (.loop body) := by
  rw [h.nodeAt?_pathTo, Code.nodes_loop]
  rfl

/-! ## Going on -/

/-- past the node in front -/
theorem pathTo_lt_rest (h : Position whole code frames i) (hlen : code.length = rest.length + 1) :
    whole.pathTo code frames < whole.pathTo rest frames := by
  have hle := h.length_le
  rw [Code.pathTo, Code.pathTo]
  refine List.append_left_lt ?_
  rw [List.cons_lt_cons_iff]
  left
  omega

/-- from the end of a loop's body to what follows the loop -/
theorem pathTo_lt_behind {f : Frame} (h : Position whole .nil (f :: frames) i) :
    whole.pathTo .nil (f :: frames) < whole.pathTo f.rest frames := by
  obtain ⟨k, hk, -⟩ := h.leave
  have hle := hk.length_le
  rw [Code.length_loop] at hle
  rw [Code.pathTo, Code.pathTo, Code.loopPath, List.append_assoc]
  refine List.append_left_lt ?_
  rw [List.singleton_append, List.cons_lt_cons_iff]
  left
  omega

/-- the nodes that are ahead, in the loops around a place too, and the ends of these loops are not more than the nodes
of the program -/
theorem size_le (h : Position whole code frames i) :
    code.size + (frames.map fun f => f.rest.size + 1).sum ≤ whole.size := by
  induction h with
  | outside done code h =>
    rw [h, Code.size_append]
    simp
  | @inside f frames k done code hk h ih =>
    have hbody := congrArg Code.size h
    rw [Code.size_append] at hbody
    rw [Code.size] at ih
    rw [List.map_cons, List.sum_cons]
    omega

end Position

namespace Code

/-! ## The top level -/

/-- the instructions of the top level behind the one that is being walked, or all those ahead if none is -/
def unstarted (code : Code) : List Frame → Code
  | [] => code
  | f :: frames => unstarted f.rest frames

/-- the first index of a path inside a loop is that of an instruction of the top level -/
theorem head?_loopPath (whole : Code) (f : Frame) (frames : List Frame) :
    (whole.loopPath (f :: frames)).head? = some (whole.length - ((unstarted f.rest frames).length + 1)) := by
  induction frames generalizing f with
  | nil => rfl
  | cons g frames ih =>
    rw [loopPath, List.head?_append, ih]
    rfl

theorem head?_pathTo (whole code : Code) (f : Frame) (frames : List Frame) :
    (whole.pathTo code (f :: frames)).head? =
      some (whole.length - ((unstarted code (f :: frames)).length + 1)) := by
  rw [pathTo, List.head?_append, head?_loopPath]
  rfl

/-- the first index of the path to an instruction, by what is unstarted once it has been carried out -/
theorem head?_pathTo_op (whole : Code) (o : Op) (rest : Code) (frames : List Frame) :
    (whole.pathTo (.op o rest) frames).head? =
      some (whole.length - ((unstarted rest frames).length + 1)) := by
  cases frames with
  | nil => simp [pathTo, loopPath, enclosing, unstarted]
  | cons f frames => exact whole.head?_pathTo (.op o rest) f frames

end Code

end RingTape
