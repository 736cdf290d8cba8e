/-
The edit distance of two texts: the smallest number of characters to insert, delete or exchange that turns one
into the other. It is computed row by row: after a beginning of the first text, a row holds its distances from
all beginnings of the second, the empty one first.
-/

namespace RingTape.EditDistance

/-- the rest of a row, from the character `c` of the first text, the distances above (`diag` and `above`),
and the distance to the left -/
def rowFrom (c : Char) (left diag : Nat) : List Nat → List Char → List Nat
  | above :: row, d :: text =>
    let here := min (min (left + 1) (above + 1)) (if c = d then diag else diag + 1)
    here :: rowFrom c here above row text
  | _, _ => []

/-- the row after one more character of the first text -/
def nextRow (text : List Char) (row : List Nat) (c : Char) : List Nat :=
  match row with
  | [] => []
  | diag :: above => (diag + 1) :: rowFrom c (diag + 1) diag above text

/-- the row of the empty beginning -/
def firstRow (text : List Char) : List Nat :=
  List.range (text.length + 1)

/-- the edit distance of two texts -/
def distance (s t : String) : Nat :=
  (s.toList.foldl (nextRow t.toList) (firstRow t.toList)).getLastD 0

/-- among the texts closer than `limit` to a given one, the first of the closest -/
def closest? (limit : Nat) (s : String) (texts : List String) : Option String :=
  (texts.foldl (fun (best : Option (Nat × String)) t =>
    let d := distance s t
    if d < (best.map (·.1)).getD limit then some (d, t) else best) none).map (·.2)

end RingTape.EditDistance
