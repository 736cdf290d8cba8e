/-
How a source is delivered. A source comes in pieces: stretches of bytes of any length, ends, failed calls. The parser
sees of them the bytes up to the first end or failure, an interrupted call being none, and how they stop there. Where
one stretch of bytes ends and the next begins, how much of it a buffer takes at once, and what stands behind the point
where the source stops or behind a bracket that no program goes on with: none of this is seen.

- `Pieces.data`, `Pieces.failure?`: the bytes that pieces deliver, and the failure that stops them
- `Pieces.fetch`, `Pieces.buffered`: one call for several bytes, and the bytes handed on one by one from a buffer
- `parse_congr`: the parser sees the bytes and the failure, and nothing else
- `data_buffered`, `failure?_buffered`: a buffer of any size hands on the same bytes and the same failure
- `data_behind_stop`, `parse_of_same_start`: what stands behind a stop, and behind a misplaced bracket
- `parse_by_delivery`: what the parser makes of a source in pieces
-/
import Mathlib.Data.Nat.Find
import RingTape.Proofs.Verdict

namespace RingTape

/-! ## What is delivered -/

namespace Pieces

/-- the bytes of the pieces before the first end or failure; an interrupted call is made again -/
def data : List Piece → List UInt8
  | [] => []
  | .data bytes :: rest => bytes ++ data rest
  | .ended :: _ => []
  | .failed f :: rest => if f.kind = .interrupted then data rest else []

/-- the failure that stops the pieces, unless they end before it -/
def failure? : List Piece → Option Failure
  | [] => none
  | .data _ :: rest => failure? rest
  | .ended :: _ => none
  | .failed f :: rest => if f.kind = .interrupted then failure? rest else some f

end Pieces

/-- the source goes no further than this piece -/
def Piece.Stops : Piece → Prop
  | .data _ => False
  | .ended => True
  | .failed f => f.kind ≠ .interrupted

namespace Script

@[simp] theorem data_ofBytes_append (bytes : List UInt8) (s : Script) : (ofBytes bytes ++ s).data = bytes ++ s.data := by
  induction bytes with
  | nil => rfl
  | cons b rest ih => exact congrArg (b :: ·) ih

@[simp] theorem failure?_ofBytes_append (bytes : List UInt8) (s : Script) :
    (ofBytes bytes ++ s).failure? = s.failure? := by
  induction bytes with
  | nil => rfl
  | cons b rest ih => exact ih

theorem ofPieces_cons (p : Piece) (rest : List Piece) : ofPieces (p :: rest) = ofPiece p ++ ofPieces rest :=
  List.flatMap_cons

@[simp] theorem data_ofPieces (pieces : List Piece) : (ofPieces pieces).data = Pieces.data pieces := by
  induction pieces with
  | nil => rfl
  | cons p rest ih =>
    rw [ofPieces_cons]
    cases p with
    | data bytes => rw [ofPiece, data_ofBytes_append, ih, Pieces.data]
    | ended => rfl
    | failed f => simp only [ofPiece, List.cons_append, List.nil_append, data, ih, Pieces.data]

@[simp] theorem failure?_ofPieces (pieces : List Piece) : (ofPieces pieces).failure? = Pieces.failure? pieces := by
  induction pieces with
  | nil => rfl
  | cons p rest ih =>
    rw [ofPieces_cons]
    cases p with
    | data bytes => rw [ofPiece, failure?_ofBytes_append, ih, Pieces.failure?]
    | ended => rfl
    | failed f => simp only [ofPiece, List.cons_append, List.nil_append, failure?, ih, Pieces.failure?]

end Script

/-- the parser sees the bytes that a source delivers and the failure that stops it, and nothing else -/
theorem Code.parse_congr {a b : Script} (hdata : a.data = b.data) (hfailure : a.failure? = b.failure?) :
    Code.parse a = Code.parse b := by
  rw [Code.parse_eq_scan, Code.parse_eq_scan, hdata, hfailure]

namespace Pieces

/-! ## Behind a stop -/

theorem data_behind_stop {stop : Piece} (h : stop.Stops) (before more : List Piece) :
    data (before ++ stop :: more) = data (before ++ [stop]) := by
  induction before with
  | nil =>
    cases stop with
    | data bytes => exact h.elim
    | ended => rfl
    | failed f => simp only [List.nil_append, data, if_neg (show f.kind ≠ .interrupted from h)]
  | cons p rest ih => cases p <;> simp only [List.cons_append, data, ih]

theorem failure?_behind_stop {stop : Piece} (h : stop.Stops) (before more : List Piece) :
    failure? (before ++ stop :: more) = failure? (before ++ [stop]) := by
  induction before with
  | nil =>
    cases stop with
    | data bytes => exact h.elim
    | ended => rfl
    | failed f => simp only [List.nil_append, failure?, if_neg (show f.kind ≠ .interrupted from h)]
  | cons p rest ih => cases p <;> simp only [List.cons_append, failure?, ih]

/-! ## Through a buffer -/

/-- one call on a source for as many bytes as there is room for, and what the source has left then. A call stays inside
one piece, and a piece without bytes is passed; `none` when nothing is left, which is answered as an end -/
def fetch (room : Nat) : List Piece → Option (Piece × List Piece)
  | [] => none
  | .data [] :: rest => fetch room rest
  | .data (b :: more) :: rest =>
    some (.data ((b :: more).take room), .data ((b :: more).drop room) :: rest)
  | .ended :: rest => some (.ended, rest)
  | .failed f :: rest => some (.failed f, rest)

/-- a bound on the calls that pieces can answer, and on the bytes that are handed on from them -/
def weight : List Piece → Nat
  | [] => 0
  | .data bytes :: rest => 2 * bytes.length + 1 + weight rest
  | _ :: rest => 1 + weight rest

/-- the bytes of a call -/
def fetched : Piece → List UInt8
  | .data bytes => bytes
  | _ => []

/-- a call leaves less to answer -/
theorem fetch_weight {room : Nat} (hroom : 0 < room) {left rest : List Piece} {p : Piece}
    (h : fetch room left = some (p, rest)) : (fetched p).length + weight rest < weight left := by
  fun_induction fetch room left with
  | case1 => cases h
  | case2 left ih =>
    have := ih h
    simp only [weight, List.length_nil]
    omega
  | case3 b more left =>
    cases h
    simp only [weight, fetched, List.length_take, List.length_drop, List.length_cons]
    omega
  | case4 left =>
    cases h
    simp only [weight, fetched, List.length_nil]
    omega
  | case5 f left =>
    cases h
    simp only [weight, fetched, List.length_nil]
    omega

/-- a call delivers the next of what the pieces deliver -/
theorem fetch_delivers {room : Nat} {left rest : List Piece} {p : Piece} (h : fetch room left = some (p, rest)) :
    data left = data (p :: rest) ∧ failure? left = failure? (p :: rest) := by
  fun_induction fetch room left with
  | case1 => cases h
  | case2 left ih => exact ih h
  | case3 b more left =>
    cases h
    refine ⟨?_, rfl⟩
    rw [data, data, data, ← List.append_assoc, List.take_append_drop]
  | case4 left | case5 f left =>
    cases h
    exact ⟨rfl, rfl⟩

theorem fetch_none {room : Nat} {left : List Piece} (h : fetch room left = none) :
    data left = [] ∧ failure? left = none := by
  fun_induction fetch room left with
  | case1 => exact ⟨rfl, rfl⟩
  | case2 left ih => exact ih h
  | case3 b more left => cases h
  | case4 left => cases h
  | case5 f left => cases h

/-- the answers to calls for one byte, when a source is read through a buffer: the bytes in the buffer are handed on one
by one, and when there are none the source is called for as many as there is room for -/
def buffered {room : Nat} (hroom : 0 < room) (buffer : List UInt8) (left : List Piece) : Script :=
  match buffer with
  | b :: more => .byte b :: buffered hroom more left
  | [] =>
    match _h : fetch room left with
    | none => []
    | some (.data bytes, rest) => buffered hroom bytes rest
    | some (.ended, rest) => .ended :: buffered hroom [] rest
    | some (.failed f, rest) => .failed f :: buffered hroom [] rest
termination_by buffer.length + weight left
decreasing_by
  · simp only [List.length_cons]
    omega
  all_goals
    have := fetch_weight hroom _h
    simp only [fetched, List.length_nil] at this ⊢
    omega

/-- a buffer hands on the bytes that it holds and the pieces deliver -/
theorem data_buffered {room : Nat} (hroom : 0 < room) (buffer : List UInt8) (left : List Piece) :
    (buffered hroom buffer left).data = buffer ++ data left := by
  fun_induction buffered hroom buffer left with
  | case1 left b more ih => exact congrArg (b :: ·) ih
  | case2 left h => exact (fetch_none h).1.symm
  | case3 left bytes rest h ih => rw [ih, (fetch_delivers h).1, data, List.nil_append]
  | case4 left rest h ih => rw [(fetch_delivers h).1]; rfl
  | case5 left f rest h ih =>
    rw [(fetch_delivers h).1, Script.data, data, ih]
    rfl

/-- a buffer hands on the failure that stops the pieces -/
theorem failure?_buffered {room : Nat} (hroom : 0 < room) (buffer : List UInt8) (left : List Piece) :
    (buffered hroom buffer left).failure? = failure? left := by
  fun_induction buffered hroom buffer left with
  | case1 left b more ih => exact ih
  | case2 left h => exact (fetch_none h).2.symm
  | case3 left bytes rest h ih => rw [ih, (fetch_delivers h).2, failure?]
  | case4 left rest h ih => rw [(fetch_delivers h).2]; rfl
  | case5 left f rest h ih => rw [(fetch_delivers h).2, Script.failure?, failure?, ih]

end Pieces

/-! ## Behind a misplaced bracket -/

namespace Brackets

variable {a b : List UInt8} {p q : Nat}

theorem loopsOpen_of_same_start (h : a.take (p + 1) = b.take (p + 1)) (hq : q ≤ p) :
    loopsOpen a q = loopsOpen b q := by
  have htake : a.take q = b.take q := by
    have := congrArg (List.take q) h
    rwa [List.take_take, List.take_take, Nat.min_eq_left (by omega)] at this
  rw [loopsOpen, loopsOpen, htake]

theorem getElem?_of_same_start (h : a.take (p + 1) = b.take (p + 1)) (hq : q ≤ p) : a[q]? = b[q]? := by
  rw [← List.getElem?_take_of_lt (Nat.lt_succ_of_le hq), h, List.getElem?_take_of_lt (Nat.lt_succ_of_le hq)]

theorem stray_of_same_start (h : a.take (p + 1) = b.take (p + 1)) (hq : q ≤ p) : Stray a q ↔ Stray b q := by
  rw [Stray, Stray, loopsOpen_of_same_start h hq, getElem?_of_same_start h hq]

theorem excessive_of_same_start (h : a.take (p + 1) = b.take (p + 1)) (hq : q ≤ p) :
    Excessive a q ↔ Excessive b q := by
  rw [Excessive, Excessive, loopsOpen_of_same_start h hq, getElem?_of_same_start h hq]

theorem misplaced_of_same_start (h : a.take (p + 1) = b.take (p + 1)) (hq : q ≤ p) :
    Misplaced a q ↔ Misplaced b q := by
  rw [Misplaced, Misplaced, stray_of_same_start h hq, excessive_of_same_start h hq]

/-- among misplaced brackets there is a first one -/
theorem exists_first_misplaced (h : Misplaced a p) : ∃ q ≤ p, Misplaced a q ∧ ∀ r < q, ¬ Misplaced a r := by
  have hex : ∃ q, Misplaced a q := ⟨p, h⟩
  exact ⟨Nat.find hex, Nat.find_min' hex h, Nat.find_spec hex, fun r hr => Nat.find_min hex hr⟩

/-- **Behind a misplaced bracket** nothing matters: two sources that are the same up to one are rejected alike. -/
theorem parse_of_same_start {s t : Script} (hp : Misplaced s.data p) (h : s.data.take (p + 1) = t.data.take (p + 1)) :
    Code.parse t = Code.parse s := by
  -- the first misplaced bracket decides, and it is the same in both
  obtain ⟨q, hqp, hq, hfirst⟩ := exists_first_misplaced hp
  have hfirst' : ∀ r < q, ¬ Misplaced t.data r :=
    fun r hr => (misplaced_of_same_start h (by omega)).not.1 (hfirst r hr)
  rcases hq with hstray | hexcessive
  · rw [parse_of_stray hstray hfirst, parse_of_stray ((stray_of_same_start h hqp).1 hstray) hfirst']
  · rw [parse_of_excessive hexcessive hfirst, parse_of_excessive ((excessive_of_same_start h hqp).1 hexcessive) hfirst']

/-- a source without a misplaced bracket that is stopped by a failure is unreadable, also inside open loops -/
theorem parse_of_failure {source : Script} {f : Failure} (hm : ∀ p, ¬ Misplaced source.data p)
    (hf : source.failure? = some f) : Code.parse source = .error (.unreadable f) := by
  obtain ⟨s, -, hparse⟩ := parse_of_not_misplaced hm
  rw [hparse, hf]
  rfl

/-- **What the parser makes of a source in pieces.** The first misplaced bracket among the bytes delivered is reported,
whatever follows it and however the source stops. Without one, a failure that stops the source is reported, whatever
its kind and whatever loops are open; and a source that comes to its end is parsed as its bytes in one piece. So
sources that deliver the same and stop in the same way are parsed alike, also through a buffer, and what stands behind
the stop or behind a misplaced bracket is not seen. -/
theorem parse_by_delivery (pieces : List Piece) :
    let data := Pieces.data pieces
    (∀ p, Stray data p → (∀ q < p, ¬ Misplaced data q) →
      Code.parse (.ofPieces pieces) = .error (.unopened p)) ∧
    (∀ p, Excessive data p → (∀ q < p, ¬ Misplaced data q) →
      Code.parse (.ofPieces pieces) = .error (.tooDeep p 1024)) ∧
    (∀ f, (∀ p, ¬ Misplaced data p) → Pieces.failure? pieces = some f →
      Code.parse (.ofPieces pieces) = .error (.unreadable f)) ∧
    (Pieces.failure? pieces = none → Code.parse (.ofPieces pieces) = Code.parse (.ofPieces [.data data])) ∧
    (∀ other, Pieces.data other = data → Pieces.failure? other = Pieces.failure? pieces →
      Code.parse (.ofPieces other) = Code.parse (.ofPieces pieces)) ∧
    (∀ before stop more, pieces = before ++ stop :: more → stop.Stops → ∀ other,
      Code.parse (.ofPieces (before ++ stop :: other)) = Code.parse (.ofPieces pieces)) ∧
    (∀ p, Misplaced data p → ∀ other, (Pieces.data other).take (p + 1) = data.take (p + 1) →
      Code.parse (.ofPieces other) = Code.parse (.ofPieces pieces)) ∧
    (∀ room, ∀ hroom : 0 < room,
      Code.parse (Pieces.buffered hroom [] pieces) = Code.parse (.ofPieces pieces)) := by
  intro data
  have hdata : (Script.ofPieces pieces).data = data := Script.data_ofPieces pieces
  refine ⟨?_, ?_, ?_, ?_, ?_, ?_, ?_, ?_⟩
  · intro p hp hm
    rw [← hdata] at hp hm
    exact parse_of_stray hp hm
  · intro p hp hm
    rw [← hdata] at hp hm
    exact parse_of_excessive hp hm
  · intro f hm hf
    rw [← hdata] at hm
    exact parse_of_failure hm (by rw [Script.failure?_ofPieces, hf])
  · intro hf
    apply Code.parse_congr
    · rw [hdata, Script.data_ofPieces, Pieces.data, Pieces.data, List.append_nil]
    · rw [Script.failure?_ofPieces, Script.failure?_ofPieces, hf]
      rfl
  · intro other hsame hf
    apply Code.parse_congr
    · rw [hdata, Script.data_ofPieces, hsame]
    · rw [Script.failure?_ofPieces, Script.failure?_ofPieces, hf]
  · rintro before stop more rfl hstop other
    apply Code.parse_congr
    · rw [Script.data_ofPieces, Script.data_ofPieces, Pieces.data_behind_stop hstop before other,
        Pieces.data_behind_stop hstop before more]
    · rw [Script.failure?_ofPieces, Script.failure?_ofPieces, Pieces.failure?_behind_stop hstop before other,
        Pieces.failure?_behind_stop hstop before more]
  · intro p hp other hstart
    rw [← hdata] at hp
    exact parse_of_same_start hp (by rw [hdata, Script.data_ofPieces, hstart])
  · intro room hroom
    apply Code.parse_congr
    · rw [Pieces.data_buffered, hdata, List.nil_append]
    · rw [Pieces.failure?_buffered, Script.failure?_ofPieces]

/-- two loops are open when the source fails, and what would close them stands behind the failure; read through a buffer
of one byte it is the same source, and a stray bracket before the failure would have been reported instead -/
theorem parse_by_delivery_open_loops :
    let lost : Failure := { kind := .unexpectedEof }
    let pieces : List Piece := [.data [0x2b, 0x5b], .failed { kind := .interrupted }, .data [], .data [0x5b, 0x2d],
      .failed lost, .data [0x5d, 0x5d]]
    let stray : List Piece := [.data [0x5b, 0x5d], .data [0x5d], .failed lost]
    (∀ p, ¬ Misplaced (Pieces.data pieces) p) ∧ Pieces.failure? pieces = some lost ∧
      Code.parse (.ofPieces pieces) = .error (.unreadable lost) ∧
      Code.parse (Pieces.buffered Nat.one_pos [] pieces) = .error (.unreadable lost) ∧
      Stray (Pieces.data stray) 2 ∧ Code.parse (.ofPieces stray) = .error (.unopened 2) := by
  intro lost pieces stray
  have hm : ∀ p, ¬ Misplaced (Pieces.data pieces) p := by
    intro p hp
    have hall : ∀ p < 4, ¬ Misplaced (Pieces.data pieces) p := by decide
    exact hall p (lt_length_of_misplaced hp) hp
  have hf : Pieces.failure? pieces = some lost := by decide
  have hstray : Stray (Pieces.data stray) 2 := by decide
  obtain ⟨-, -, hfailed, -, -, -, -, hbuffer⟩ := parse_by_delivery pieces
  have hparse := hfailed lost hm hf
  exact ⟨hm, hf, hparse, (hbuffer 1 Nat.one_pos).trans hparse, hstray,
    (parse_by_delivery stray).1 2 hstray (by decide)⟩

end Brackets

end RingTape
