/-
Programs of the eight-instruction language. A `Code` is a sequence of nodes: a node is one of the six
plain operations or a loop around another sequence. Beside it stand the eight symbols that a program is
written in.

- `Code.symbols`, `Code.render`: the symbols of a program and their bytes, brackets around each loop
- `Code.nesting`: the largest number of loops around any point
- `Code.nodes`, `Code.nodeAt?`: the top level as a list, and the node at the end of a path
- `instructions`: the symbols in a byte string, all other bytes being comments
-/

namespace RingTape

/-- the six instructions that are not brackets -/
inductive Op where
  /-- add one to the current cell -/
  | incr
  /-- take one from the current cell -/
  | decr
  /-- move one cell to the right -/
  | next
  /-- move one cell to the left -/
  | prev
  /-- write the current cell -/
  | print
  /-- read one byte into the current cell -/
  | read
  deriving DecidableEq, Repr

/-- a sequence of instructions, loops holding sequences of their own -/
inductive Code where
  | nil
  | op (o : Op) (rest : Code)
  | loop (body rest : Code)
  deriving BEq, ReflBEq, LawfulBEq, Repr

instance : DecidableEq Code := fun a b =>
  if h : (a == b) = true then isTrue (eq_of_beq h) else isFalse fun e => h (by simp [e])

/-- one element of a sequence -/
inductive Node where
  | op (o : Op)
  | loop (body : Code)
  deriving DecidableEq, Repr

/-- what a byte of a program says -/
inductive Symbol where
  | op (o : Op)
  | opens
  | closes
  deriving DecidableEq, Repr

/-! ## Symbols and bytes -/

/-- the byte an operation is written as -/
def Op.byte : Op → UInt8
  | .incr => 0x2b
  | .decr => 0x2d
  | .next => 0x3e
  | .prev => 0x3c
  | .print => 0x2e
  | .read => 0x2c

/-- the byte a symbol is written as -/
def Symbol.byte : Symbol → UInt8
  | .op o => o.byte
  | .opens => 0x5b
  | .closes => 0x5d

/-- the symbol a byte stands for; any other byte is a comment -/
def Symbol.ofByte? (b : UInt8) : Option Symbol :=
  if b = 0x2b then some (.op .incr)
  else if b = 0x2d then some (.op .decr)
  else if b = 0x3e then some (.op .next)
  else if b = 0x3c then some (.op .prev)
  else if b = 0x2e then some (.op .print)
  else if b = 0x2c then some (.op .read)
  else if b = 0x5b then some .opens
  else if b = 0x5d then some .closes
  else none

@[simp] theorem Symbol.ofByte?_byte (s : Symbol) : Symbol.ofByte? s.byte = some s := by
  cases s with
  | op o => cases o <;> decide
  | opens => decide
  | closes => decide

theorem Symbol.byte_of_ofByte? {b : UInt8} {s : Symbol} (h : Symbol.ofByte? b = some s) : s.byte = b := by
  unfold Symbol.ofByte? at h
  repeat' split at h
  all_goals
    cases h
    try simp_all [Symbol.byte, Op.byte]

/-- the symbols of a byte string, in order -/
def instructions (bytes : List UInt8) : List Symbol :=
  bytes.filterMap Symbol.ofByte?

namespace Code

/-! ## Sequences -/

/-- one sequence after another -/
def append : Code → Code → Code
  | nil, d => d
  | op o rest, d => op o (append rest d)
  | loop body rest, d => loop body (append rest d)

instance : Append Code := ⟨append⟩

/-- the nodes of the first sequence in opposite order, before the second -/
def reverseOnto : Code → Code → Code
  | nil, acc => acc
  | op o rest, acc => reverseOnto rest (op o acc)
  | loop body rest, acc => reverseOnto rest (loop body acc)

/-- the nodes in opposite order, loop bodies as they are -/
def reverse (c : Code) : Code :=
  c.reverseOnto nil

/-- the nodes of the top level in opposite order, before a given list -/
def nodesOnto : Code → List Node → List Node
  | nil, acc => acc
  | op o rest, acc => nodesOnto rest (.op o :: acc)
  | loop body rest, acc => nodesOnto rest (.loop body :: acc)

/-- the nodes of the top level -/
def nodes (c : Code) : List Node :=
  (c.nodesOnto []).reverse

/-- the number of nodes at the top level -/
def length (c : Code) : Nat :=
  (c.nodesOnto []).length

/-- the node at the end of a path: the first index is into the top level, each further one into the
body of the loop reached so far -/
def nodeAt? (c : Code) : List Nat → Option Node
  | [] => none
  | i :: path =>
    match c.nodes[i]?, path with
    | none, _ => none
    | some node, [] => some node
    | some (.op _), _ :: _ => none
    | some (.loop body), j :: more => nodeAt? body (j :: more)

/-! ## The written form -/

/-- the symbols of a program, brackets around each loop body -/
def symbols : Code → List Symbol
  | nil => []
  | op o rest => .op o :: rest.symbols
  | loop body rest => .opens :: (body.symbols ++ .closes :: rest.symbols)

/-- the bytes of a program, comments left out -/
def render (c : Code) : List UInt8 :=
  c.symbols.map Symbol.byte

/-- the largest number of loops around any point -/
def nesting : Code → Nat
  | nil => 0
  | op _ rest => rest.nesting
  | loop body rest => max (body.nesting + 1) rest.nesting

/-! ## Small facts -/

@[simp] theorem nil_append (c : Code) : nil ++ c = c := rfl

@[simp] theorem op_append (o : Op) (c d : Code) : op o c ++ d = op o (c ++ d) := rfl

@[simp] theorem loop_append (b c d : Code) : loop b c ++ d = loop b (c ++ d) := rfl

@[simp] theorem append_nil (c : Code) : c ++ nil = c := by
  induction c with
  | nil => rfl
  | op o rest ih => simp [ih]
  | loop body rest _ ih => simp [ih]

theorem append_assoc (a b c : Code) : a ++ b ++ c = a ++ (b ++ c) := by
  induction a with
  | nil => rfl
  | op o rest ih => simp [ih]
  | loop body rest _ ih => simp [ih]

theorem reverseOnto_eq (c acc : Code) : c.reverseOnto acc = c.reverse ++ acc := by
  induction c generalizing acc with
  | nil => rfl
  | op o rest ih => rw [reverse, reverseOnto, reverseOnto, ih, ih (op o nil), append_assoc]; rfl
  | loop body rest _ ih =>
    rw [reverse, reverseOnto, reverseOnto, ih, ih (loop body nil), append_assoc]; rfl

@[simp] theorem reverse_nil : nil.reverse = nil := rfl

@[simp] theorem reverse_op (o : Op) (c : Code) : (op o c).reverse = c.reverse ++ op o nil :=
  reverseOnto_eq c _

@[simp] theorem reverse_loop (b c : Code) : (loop b c).reverse = c.reverse ++ loop b nil :=
  reverseOnto_eq c _

theorem reverse_append (c d : Code) : (c ++ d).reverse = d.reverse ++ c.reverse := by
  induction c with
  | nil => simp
  | op o rest ih => simp [ih, append_assoc]
  | loop body rest _ ih => simp [ih, append_assoc]

/-- a sequence turned round twice is the sequence -/
@[simp] theorem reverse_reverse (c : Code) : c.reverse.reverse = c := by
  induction c with
  | nil => rfl
  | op o rest ih => simp [reverse_append, ih]
  | loop body rest _ ih => simp [reverse_append, ih]

theorem nodesOnto_eq (c : Code) (acc : List Node) : c.nodesOnto acc = c.nodes.reverse ++ acc := by
  induction c generalizing acc with
  | nil => rfl
  | op o rest ih => simp only [nodes, nodesOnto, List.reverse_reverse]; rw [ih, ih [.op o]]; simp
  | loop body rest _ ih =>
    simp only [nodes, nodesOnto, List.reverse_reverse]; rw [ih, ih [.loop body]]; simp

@[simp] theorem nodes_nil : nil.nodes = [] := rfl

@[simp] theorem nodes_op (o : Op) (c : Code) : (op o c).nodes = .op o :: c.nodes := by
  rw [nodes, nodesOnto, nodesOnto_eq]; simp

@[simp] theorem nodes_loop (b c : Code) : (loop b c).nodes = .loop b :: c.nodes := by
  rw [nodes, nodesOnto, nodesOnto_eq]; simp

@[simp] theorem length_nodes (c : Code) : c.nodes.length = c.length := by
  simp [nodes, length]

@[simp] theorem symbols_append (c d : Code) : (c ++ d).symbols = c.symbols ++ d.symbols := by
  induction c with
  | nil => rfl
  | op o rest ih => simp [symbols, ih]
  | loop body rest _ ih => simp [symbols, ih]

@[simp] theorem nesting_append (c d : Code) : (c ++ d).nesting = max c.nesting d.nesting := by
  induction c with
  | nil => simp [nesting]
  | op o rest ih => simp [nesting, ih]
  | loop body rest _ ih => simp [nesting, ih, Nat.max_assoc]

end Code

end RingTape
