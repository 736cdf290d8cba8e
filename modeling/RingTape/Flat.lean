/-
The flat machine: a program counter on the symbols of a program, which never looks at the tree.

A bracket is a jump. An opening one on a zero cell goes just past the bracket that matches it, a closing one on
a nonzero cell goes back to the first symbol of the loop's body; either one, before it enters the body, looks at
the signal. Outside all loops the signal is looked at before each symbol.

- `Flat.depth`: the number of loops around a position
- `Flat.past`, `Flat.back`: the two jumps
- `Flat.step`, `Flat.Ends`: one step, and where the machine comes to an end
-/
import RingTape.Walk

namespace RingTape

/-- the flat machine on its way, in front of a position, or at its end -/
inductive Flat where
  | going (position : Nat) (store : Store)
  | ended (result : Except RunError Unit) (store : Store)

namespace Flat

/-- the number of loops around a position -/
def depth (p : List Symbol) (i : Nat) : Nat :=
  (p.take i).count .opens - (p.take i).count .closes

/-- the position just past the bracket that matches the opening one at `i`: the first one behind it that has
no more loops around it -/
def past (p : List Symbol) (i : Nat) : Nat :=
  ((List.range' (i + 1) (p.length - i)).find? fun j => depth p j ≤ depth p i).getD p.length

/-- the first position of the body that the closing bracket at `j` ends: behind the last position before it
that has fewer loops around it -/
def back (p : List Symbol) (j : Nat) : Nat :=
  (((List.range j).reverse.find? fun i => depth p i < depth p j).map (· + 1)).getD 0

/-- the machine in front of the first symbol -/
def start (s : Store) : Flat :=
  .going 0 s

/-- goes on at a position unless the signal is raised -/
def unlessRaised (token : Token) (s : Store) (next : Flat) : Flat :=
  match s.signals.reason? token with
  | some why => .ended (.error (.cancelled why)) s
  | none => next

/-- what the symbol at a position does -/
def perform (p : List Symbol) (token : Token) (i : Nat) (s : Store) : Symbol → Flat
  | .op o =>
    match o.act s with
    | (.ok (), t) => .going (i + 1) t
    | (.error e, t) => .ended (.error e) t
  | .opens =>
    if s.current = 0 then .going (past p i) s else unlessRaised token s (.going (i + 1) s)
  | .closes =>
    if s.current = 0 then .going (i + 1) s else unlessRaised token s (.going (back p i) s)

/-- one step -/
def step (p : List Symbol) (token : Token) : Flat → Flat
  | .ended r s => .ended r s
  | .going i s =>
    match p[i]? with
    | none => .ended (.ok ()) s
    | some symbol =>
      if depth p i = 0 then unlessRaised token s (perform p token i s symbol)
      else perform p token i s symbol

/-- the machine after exactly so many steps -/
def after (p : List Symbol) (token : Token) (n : Nat) (m : Flat) : Flat :=
  Nat.repeat (step p token) n m

/-- the machine comes to an end with this result, in this store -/
def Ends (p : List Symbol) (token : Token) (m : Flat) (result : Except RunError Unit) (s : Store) : Prop :=
  ∃ n, m.after p token n = .ended result s

end Flat

end RingTape
