/-
Reading the body of a loop. Told that it is inside a loop, the parser reads up to the bracket that matches the one it
has behind it, wherever in the source it begins, and leaves what stands behind that bracket as it is. So brackets are
matched by the calls themselves, one inside the other, and no call takes a bracket that belongs to another one.

- `Script.Flows`, `Script.Holds`: answers that stop no reader, and the program that stands in them
- `Brackets.Balanced`: a text whose brackets match, and that is nested no deeper than some number
- `Code.sequence_ok`: what has been read when a body has been read
- `Brackets.Innermost`, `Brackets.Refused`: the innermost open bracket, and the ways in which no body is read
- `Code.sequence_error`: one of these ways it is
- `Brackets.split_unique`: a balanced text with a closing bracket behind it is found in one way
- `Code.body_ends_at_match`: which bodies are read, what is left behind, and the errors
-/
import RingTape.Proofs.Parts

namespace RingTape

/-! ## Answers that go on -/

namespace Script

/-- no reader is stopped in these answers: they are bytes and interrupted calls -/
def Flows : Script → Prop
  | [] => True
  | .byte _ :: rest => Flows rest
  | .ended :: _ => False
  | .failed f :: rest => f.kind = .interrupted ∧ Flows rest

theorem Flows.append {a b : Script} (ha : a.Flows) (hb : b.Flows) : (a ++ b).Flows := by
  induction a with
  | nil => exact hb
  | cons answer rest ih =>
    cases answer with
    | byte b => exact ih ha
    | ended => exact ha.elim
    | failed f => exact ⟨ha.1, ih ha.2⟩

theorem Flows.data_append {a : Script} (ha : a.Flows) (b : Script) : (a ++ b).data = a.data ++ b.data := by
  induction a with
  | nil => rfl
  | cons answer rest ih =>
    cases answer with
    | byte b => simp only [List.cons_append, data, ih ha]
    | ended => exact ha.elim
    | failed f => simp only [List.cons_append, data, if_pos ha.1, ih ha.2]

theorem Flows.failure?_append {a : Script} (ha : a.Flows) (b : Script) : (a ++ b).failure? = b.failure? := by
  induction a with
  | nil => rfl
  | cons answer rest ih =>
    cases answer with
    | byte b => simp only [List.cons_append, failure?, ih ha]
    | ended => exact ha.elim
    | failed f => simp only [List.cons_append, failure?, if_pos ha.1, ih ha.2]

/-- the program stands in these answers, among comments and interrupted calls -/
structure Holds (s : Script) (c : Code) : Prop where
  flows : s.Flows
  symbols : c.symbols = instructions s.data

namespace Holds

variable {s inner : Script} {c body : Code} {b : UInt8} {f : Failure}

theorem nil : Holds [] .nil :=
  ⟨trivial, rfl⟩

theorem interrupted (hf : f.kind = .interrupted) (h : Holds s c) : Holds (.failed f :: s) c :=
  ⟨⟨hf, h.flows⟩, by rw [data, if_pos hf, h.symbols]⟩

theorem comment (hb : Symbol.ofByte? b = none) (h : Holds s c) : Holds (.byte b :: s) c :=
  ⟨h.flows, by rw [data, instructions, List.filterMap_cons_none hb, h.symbols, instructions]⟩

theorem op {o : Op} (hb : Symbol.ofByte? b = some (.op o)) (h : Holds s c) : Holds (.byte b :: s) (.op o c) :=
  ⟨h.flows, by rw [data, instructions, List.filterMap_cons_some hb, Code.symbols, h.symbols, instructions]⟩

theorem append {d : Code} {t : Script} (h : Holds s c) (k : Holds t d) : Holds (s ++ t) (c ++ d) := by
  refine ⟨h.flows.append k.flows, ?_⟩
  rw [Code.symbols_append, h.flows.data_append, h.symbols, k.symbols, instructions, instructions, instructions,
    List.filterMap_append]

/-- a loop around what stands in some answers -/
theorem enclosed (h : Holds inner body) :
    Holds (.byte Symbol.opens.byte :: (inner ++ [.byte Symbol.closes.byte])) (.loop body .nil) := by
  refine ⟨h.flows.append trivial, ?_⟩
  rw [data, h.flows.data_append, Code.symbols, h.symbols]
  simp [instructions, data, Code.symbols]

end Holds

end Script

/-! ## Balanced texts -/

namespace Brackets

variable {w r : List UInt8} {room : Nat}

/-- each bracket of the text has its match in the text, and no point of the text has more than `room` loops around it -/
structure Balanced (room : Nat) (w : List UInt8) : Prop where
  nonneg : ∀ i, 0 ≤ loopsOpen w i
  within : ∀ i, loopsOpen w i ≤ room
  total : loopsOpen w w.length = 0

/-- the loops open at an offset are those open among some of the symbols -/
theorem exists_take_symbols (w : List UInt8) (i : Nat) : ∃ n,
    loopsOpen w i = ((instructions w).take n).count .opens - ((instructions w).take n).count .closes := by
  have hprefix : instructions (w.take i) <+: instructions w := (List.take_prefix i w).filterMap _
  refine ⟨(instructions (w.take i)).length, ?_⟩
  rw [← List.prefix_iff_eq_take.1 hprefix, count_instructions, count_instructions]
  rfl

/-- the brackets of a text that a program is written in match -/
theorem balanced_of_symbols {c : Code} (h : c.symbols = instructions w) : Balanced c.nesting w where
  nonneg i := by
    obtain ⟨n, hn⟩ := exists_take_symbols w i
    have := c.closes_take_le n
    rw [h] at this
    omega
  within i := by
    obtain ⟨n, hn⟩ := exists_take_symbols w i
    have := c.opens_take_le n
    rw [h] at this
    omega
  total := by
    have := c.opens_symbols
    rw [h, count_instructions, count_instructions] at this
    rw [loopsOpen, List.take_length]
    omega

theorem Balanced.mono {more : Nat} (h : Balanced room w) (hle : room ≤ more) : Balanced more w :=
  ⟨h.nonneg, fun i => (h.within i).trans (by omega), h.total⟩

/-- at an offset behind a balanced text as many loops are open as without that text -/
theorem Balanced.loopsOpen_behind (h : Balanced room w) (r : List UInt8) (i : Nat) :
    loopsOpen (w ++ r) (w.length + i) = loopsOpen r i := by
  rw [loopsOpen_append, h.total, Int.zero_add]

/-- behind the end of a text as many loops are open as at its end -/
theorem forall_loopsOpen_iff {P : Int → Prop} :
    (∀ i, P (loopsOpen w i)) ↔ ∀ i < w.length + 1, P (loopsOpen w i) := by
  constructor
  · intro h i _
    exact h i
  · intro h i
    by_cases hi : i < w.length + 1
    · exact h i hi
    · have hend := h w.length (Nat.lt_succ_self _)
      rw [loopsOpen, List.take_length] at hend
      rwa [loopsOpen, List.take_of_length_le (by omega)]

instance (room : Nat) (w : List UInt8) : Decidable (Balanced room w) :=
  decidable_of_iff
    ((∀ i < w.length + 1, 0 ≤ loopsOpen w i) ∧ (∀ i < w.length + 1, loopsOpen w i ≤ room) ∧ loopsOpen w w.length = 0)
    ⟨fun h => ⟨forall_loopsOpen_iff.2 h.1, forall_loopsOpen_iff (P := (· ≤ (room : Int))) |>.2 h.2.1, h.2.2⟩,
      fun h => ⟨fun i _ => h.nonneg i, fun i _ => h.within i, h.total⟩⟩

theorem loopsOpen_before {i : Nat} (hi : i ≤ w.length) (r : List UInt8) : loopsOpen (w ++ r) i = loopsOpen w i := by
  rw [loopsOpen, loopsOpen, List.take_append_of_le_length hi]

/-- a closing bracket behind a balanced text closes a loop that the text did not open -/
theorem loopsOpen_shut (h : Balanced room w) (r : List UInt8) :
    loopsOpen (w ++ Symbol.closes.byte :: r) (w.length + 1) = -1 := by
  have hone : loopsOpen (Symbol.closes.byte :: r) 1 = -1 := by
    rw [loopsOpen_succ (i := 0) (y := .closes) rfl, loopsOpen_zero]
    rfl
  rw [h.loopsOpen_behind, hone]

/-- a text that goes on behind the bracket is not balanced any more -/
theorem not_balanced_shut {front more : Script} (hflows : front.Flows) (hw : Balanced room front.data) :
    ¬ Balanced room (front ++ .byte Symbol.closes.byte :: more).data := by
  intro hboth
  have hnonneg := hboth.nonneg (front.data.length + 1)
  rw [hflows.data_append, Script.data, loopsOpen_shut hw] at hnonneg
  omega

/-- a balanced text with a closing bracket behind it is found in one way -/
theorem split_unique {a b p q : Script} (ha : a.Flows) (hb : b.Flows) (hwa : Balanced room a.data)
    (hwb : Balanced room b.data)
    (h : a ++ .byte Symbol.closes.byte :: p = b ++ .byte Symbol.closes.byte :: q) : a = b ∧ p = q := by
  -- if one text were longer, the bracket behind the other one would stand in it
  rcases List.append_eq_append_iff.1 h with ⟨more, rfl, hmore⟩ | ⟨more, rfl, hmore⟩
  · cases more with
    | nil => exact ⟨(List.append_nil a).symm, (List.cons.inj hmore).2⟩
    | cons answer more =>
      obtain ⟨rfl, -⟩ := List.cons.inj hmore
      exact absurd hwb (not_balanced_shut ha hwa)
  · cases more with
    | nil => exact ⟨List.append_nil b, (List.cons.inj hmore).2.symm⟩
    | cons answer more =>
      obtain ⟨rfl, -⟩ := List.cons.inj hmore
      exact absurd hwa (not_balanced_shut hb hwb)

/-! ## Bodies that are not read -/

theorem leftOpen_behind (h : Balanced room w) {p : Nat} : LeftOpen (w ++ r) (w.length + p) ↔ LeftOpen r p := by
  rw [LeftOpen, LeftOpen, List.getElem?_append_right (Nat.le_add_right _ _), Nat.add_sub_cancel_left,
    h.loopsOpen_behind]
  refine and_congr_right fun _ => ?_
  constructor
  · intro hlater i hi hlen
    have := hlater (w.length + i) (by omega) (by rw [List.length_append]; omega)
    rwa [h.loopsOpen_behind] at this
  · intro hlater i hi hlen
    obtain ⟨j, rfl⟩ := Nat.exists_eq_add_of_le (show w.length ≤ i by omega)
    rw [List.length_append] at hlen
    rw [h.loopsOpen_behind]
    exact hlater j (by omega) (by omega)

/-- no bracket of a balanced text is left open -/
theorem not_leftOpen_of_balanced (h : Balanced room w) {p : Nat} (hp : p < w.length) : ¬ LeftOpen (w ++ r) p := by
  rintro ⟨-, hlater⟩
  have hend := hlater w.length hp (by simp)
  rw [loopsOpen_before (Nat.le_of_lt hp), loopsOpen_before (Nat.le_refl _), h.total] at hend
  have := h.nonneg p
  omega

/-- the bracket is the innermost one that is open at the end of a text, which begins at an offset, behind a bracket: the
last one that the text leaves open, or, if it closes all of its own, the bracket before it -/
def Innermost (bracket offset : Nat) (w : List UInt8) (q : Nat) : Prop :=
  (q = bracket ∧ ∀ p, ¬ LeftOpen w p) ∨ ∃ p, q = offset + p ∧ LeftOpen w p ∧ ∀ r, LeftOpen w r → r ≤ p

theorem Innermost.unique {bracket offset q q' : Nat} (h : Innermost bracket offset w q)
    (h' : Innermost bracket offset w q') : q = q' := by
  rcases h with ⟨rfl, hnone⟩ | ⟨p, rfl, hp, hlast⟩
  · rcases h' with ⟨rfl, -⟩ | ⟨p', -, hp', -⟩
    · rfl
    · exact absurd hp' (hnone p')
  · rcases h' with ⟨-, hnone⟩ | ⟨p', rfl, hp', hlast'⟩
    · exact absurd hp (hnone p)
    · have := hlast p' hp'
      have := hlast' p hp
      omega

theorem Innermost.behind {bracket offset q : Nat} (hw : Balanced room w)
    (h : Innermost bracket (offset + w.length) r q) : Innermost bracket offset (w ++ r) q := by
  have hleft : ∀ {p}, LeftOpen (w ++ r) p → ∃ i, p = w.length + i ∧ LeftOpen r i := by
    intro p hp
    obtain ⟨i, rfl⟩ := Nat.exists_eq_add_of_le (Nat.not_lt.1 fun hlt => not_leftOpen_of_balanced hw hlt hp)
    exact ⟨i, rfl, (leftOpen_behind hw).1 hp⟩
  rcases h with ⟨rfl, hnone⟩ | ⟨p, rfl, hp, hlast⟩
  · left
    refine ⟨rfl, fun p hp => ?_⟩
    obtain ⟨i, -, hi⟩ := hleft hp
    exact hnone i hi
  · right
    refine ⟨w.length + p, Nat.add_assoc _ _ _, (leftOpen_behind hw).2 hp, fun p' hp' => ?_⟩
    obtain ⟨i, rfl, hi⟩ := hleft hp'
    exact Nat.add_le_add_left (hlast i hi) _

theorem loopsOpen_cons_opens (r : List UInt8) (i : Nat) :
    loopsOpen (Symbol.opens.byte :: r) (i + 1) = 1 + loopsOpen r i := by
  have hone : loopsOpen [Symbol.opens.byte] 1 = 1 := by decide
  have happend := loopsOpen_append [Symbol.opens.byte] r i
  rwa [List.length_singleton, hone, List.singleton_append, Nat.add_comm] at happend

theorem leftOpen_cons_opens {p : Nat} : LeftOpen (Symbol.opens.byte :: r) (p + 1) ↔ LeftOpen r p := by
  rw [LeftOpen, LeftOpen, List.getElem?_cons_succ, loopsOpen_cons_opens]
  refine and_congr_right fun _ => ?_
  constructor
  · intro hlater i hi hlen
    have := hlater (i + 1) (by omega) (by rw [List.length_cons]; omega)
    rw [loopsOpen_cons_opens] at this
    omega
  · intro hlater i hi hlen
    obtain ⟨j, rfl⟩ := Nat.exists_eq_succ_of_ne_zero (show i ≠ 0 by omega)
    rw [List.length_cons] at hlen
    have := hlater j (by omega) (by omega)
    rw [Nat.succ_eq_add_one, loopsOpen_cons_opens]
    omega

/-- behind an opening bracket the innermost one is that bracket if the text behind it closes all of its own -/
theorem Innermost.inside {bracket offset q : Nat} (hr : ∀ i, 0 ≤ loopsOpen r i)
    (h : Innermost offset (offset + 1) r q) : Innermost bracket offset (Symbol.opens.byte :: r) q := by
  right
  rcases h with ⟨rfl, hnone⟩ | ⟨p, rfl, hp, hlast⟩
  · refine ⟨0, rfl, ⟨rfl, fun i hi _ => ?_⟩, fun p hp => ?_⟩
    · obtain ⟨j, rfl⟩ := Nat.exists_eq_succ_of_ne_zero (show i ≠ 0 by omega)
      have := hr j
      rw [loopsOpen_zero, Nat.succ_eq_add_one, loopsOpen_cons_opens]
      omega
    · cases p with
      | zero => exact Nat.le_refl 0
      | succ p => exact absurd (leftOpen_cons_opens.1 hp) (hnone p)
  · refine ⟨p + 1, by omega, leftOpen_cons_opens.2 hp, fun p' hp' => ?_⟩
    cases p' with
    | zero => exact Nat.zero_le _
    | succ p' => exact Nat.succ_le_succ (hlast p' (leftOpen_cons_opens.1 hp'))

/-- how no body is read from a source that begins at an offset, behind a bracket with `depth` loops around its body -/
inductive Refused (bracket depth offset : Nat) (source : Script) : ParseError → Prop where
  /-- the source ends before the loop is closed -/
  | unclosed {q : Nat} (hend : source.failure? = none) (hnonneg : ∀ i, 0 ≤ loopsOpen source.data i)
      (hwithin : ∀ i, depth + loopsOpen source.data i ≤ maxNesting) (hq : Innermost bracket offset source.data q) :
      Refused bracket depth offset source (.unclosed q)
  /-- before the loop is closed another one is opened in it that is nested too deep -/
  | tooDeep {p : Nat} (hnonneg : ∀ i ≤ p, 0 ≤ loopsOpen source.data i)
      (hp : Opens source.data (maxNesting - depth) p) :
      Refused bracket depth offset source (.tooDeep (offset + p) maxNesting)
  /-- the source fails before the loop is closed -/
  | unreadable {f : Failure} (hend : source.failure? = some f) (hnonneg : ∀ i, 0 ≤ loopsOpen source.data i) :
      Refused bracket depth offset source (.unreadable f)

/-- what holds of the number of open loops everywhere in a balanced text and in a text behind it holds in both -/
theorem forall_loopsOpen_behind {P : Int → Prop} {n : Nat} (hw : Balanced room w) (hbefore : ∀ i, P (loopsOpen w i))
    (hr : ∀ i ≤ n, P (loopsOpen r i)) : ∀ i ≤ w.length + n, P (loopsOpen (w ++ r) i) := by
  intro i hi
  by_cases hlt : i ≤ w.length
  · rw [loopsOpen_before hlt]
    exact hbefore i
  · obtain ⟨j, rfl⟩ := Nat.exists_eq_add_of_le (Nat.le_of_not_le hlt)
    rw [hw.loopsOpen_behind]
    exact hr j (by omega)

theorem forall_loopsOpen_cons_opens {P : Int → Prop} {n : Nat} (hzero : P 0) (hr : ∀ i ≤ n, P (1 + loopsOpen r i)) :
    ∀ i ≤ n + 1, P (loopsOpen (Symbol.opens.byte :: r) i) := by
  intro i hi
  cases i with
  | zero => rwa [loopsOpen_zero]
  | succ i =>
    rw [loopsOpen_cons_opens]
    exact hr i (by omega)

theorem nonneg_behind (hw : Balanced room w) (hr : ∀ i, 0 ≤ loopsOpen r i) (i : Nat) : 0 ≤ loopsOpen (w ++ r) i :=
  forall_loopsOpen_behind hw hw.nonneg (fun j _ => hr j) i (Nat.le_add_left _ _)

theorem nonneg_cons_opens (hr : ∀ i, 0 ≤ loopsOpen r i) (i : Nat) : 0 ≤ loopsOpen (Symbol.opens.byte :: r) i := by
  refine forall_loopsOpen_cons_opens (P := (0 ≤ ·)) (Int.le_refl 0) (fun j _ => ?_) i (Nat.le_succ i)
  have := hr j
  omega

namespace Refused

variable {bracket depth offset : Nat} {front source : Script} {c : Code} {e : ParseError}

/-- the same behind a program that fits into the loop -/
theorem behind (hheld : front.Holds c) (hn : depth + c.nesting ≤ maxNesting)
    (h : Refused bracket depth (offset + front.data.length) source e) :
    Refused bracket depth offset (front ++ source) e := by
  have hw : Balanced c.nesting front.data := balanced_of_symbols hheld.symbols
  have hdata := hheld.flows.data_append source
  have hfailure := hheld.flows.failure?_append source
  cases h with
  | unclosed hend hnonneg hwithin hq =>
    refine .unclosed (hfailure.trans hend) ?_ ?_ (hdata ▸ hq.behind hw)
    · rw [hdata]
      exact nonneg_behind hw hnonneg
    · intro i
      rw [hdata]
      refine forall_loopsOpen_behind (P := fun k => depth + k ≤ maxNesting) hw (fun j => ?_) (fun j _ => hwithin j) i
        (Nat.le_add_left _ _)
      have := hw.within j
      omega
  | @tooDeep p hnonneg hp =>
    rw [Nat.add_assoc]
    refine .tooDeep ?_ ⟨?_, ?_⟩
    · rw [hdata]
      exact forall_loopsOpen_behind hw hw.nonneg hnonneg
    · rw [hdata, List.getElem?_append_right (Nat.le_add_right _ _), Nat.add_sub_cancel_left]
      exact hp.1
    · rw [hdata, hw.loopsOpen_behind]
      exact hp.2
  | unreadable hend hnonneg =>
    refine .unreadable (hfailure.trans hend) ?_
    rw [hdata]
    exact nonneg_behind hw hnonneg

/-- the same around a loop whose body is not read -/
theorem around (hd : depth < maxNesting) (h : Refused offset (depth + 1) (offset + 1) source e) :
    Refused bracket depth offset (.byte Symbol.opens.byte :: source) e := by
  cases h with
  | unclosed hend hnonneg hwithin hq =>
    refine .unclosed hend (nonneg_cons_opens hnonneg) (fun i => ?_) (hq.inside hnonneg)
    refine forall_loopsOpen_cons_opens (P := fun k => depth + k ≤ maxNesting) (by omega) (fun j _ => ?_) i
      (Nat.le_succ i)
    have := hwithin j
    omega
  | @tooDeep p hnonneg hp =>
    rw [Nat.add_assoc, Nat.add_comm 1]
    refine .tooDeep ?_ ⟨hp.1, ?_⟩
    · refine forall_loopsOpen_cons_opens (P := (0 ≤ ·)) (Int.le_refl 0) (fun j hj => ?_)
      have := hnonneg j hj
      omega
    · rw [Script.data, loopsOpen_cons_opens, hp.2]
      omega
  | unreadable hend hnonneg => exact .unreadable hend (nonneg_cons_opens hnonneg)

/-- a body that is balanced, with the bracket that closes its loop behind it, is read -/
theorem not_shut {rest : Script} (hflows : front.Flows) (hw : Balanced (maxNesting - depth) front.data) :
    ¬ Refused bracket depth offset (front ++ .byte Symbol.closes.byte :: rest) e := by
  have hdata : (front ++ .byte Symbol.closes.byte :: rest).data = front.data ++ Symbol.closes.byte :: rest.data := by
    rw [hflows.data_append, Script.data]
  have hshut := loopsOpen_shut hw rest.data
  intro h
  cases h with
  | unclosed _ hnonneg _ _ | unreadable _ hnonneg =>
    have := hnonneg (front.data.length + 1)
    rw [hdata] at this
    omega
  | @tooDeep p hnonneg hp =>
    rw [hdata] at hnonneg hp
    obtain ⟨hbyte, hcount⟩ := hp
    rcases Nat.lt_trichotomy p front.data.length with hlt | rfl | hgt
    · -- the bracket would stand in the text, which is not nested that deep
      rw [List.getElem?_append_left hlt] at hbyte
      rw [loopsOpen_before (Nat.le_of_lt hlt)] at hcount
      have hsucc := loopsOpen_succ (y := .opens) hbyte
      have hwithin := hw.within (p + 1)
      simp only [weight] at hsucc
      omega
    · rw [List.getElem?_append_right (Nat.le_refl _), Nat.sub_self, List.getElem?_cons_zero] at hbyte
      exact absurd hbyte (by decide)
    · have := hnonneg (front.data.length + 1) hgt
      omega

end Refused

end Brackets

/-! ## Bodies that are read -/

namespace Code

open Script Brackets

/-- a body has been read from a source that begins at an offset: a program stands in it up to a closing bracket, it has
been added to what was read before, and what stands behind the bracket is left -/
def Closed {whole : Script} (depth offset : Nat) (done : Code) (source : Script) (b : Block whole) : Prop :=
  ∃ front c, source = front ++ .byte Symbol.closes.byte :: b.rest ∧ front.Holds c ∧ depth + c.nesting ≤ maxNesting ∧
    b.code = done.reverse ++ c ∧ b.offset = offset + front.data.length + 1

namespace Closed

variable {whole rest front : Script} {depth offset : Nat} {done : Code} {x : UInt8}

/-- with the bracket before it, a body that has been read is a loop -/
theorem loop {body : Block rest} (hx : Symbol.ofByte? x = some .opens)
    (h : Closed (depth + 1) (offset + 1) .nil rest body) :
    ∃ front : Script, .byte x :: rest = front ++ body.rest ∧ front.Holds (.loop body.code .nil) ∧
      depth + (Code.loop body.code .nil).nesting ≤ maxNesting ∧ body.offset = offset + front.data.length := by
  obtain ⟨inner, c, hrest, hheld, hn, hcode, hoffset⟩ := h
  obtain rfl : body.code = c := hcode
  refine ⟨.byte Symbol.opens.byte :: (inner ++ [.byte Symbol.closes.byte]), ?_, hheld.enclosed, ?_, ?_⟩
  · calc ReadAnswer.byte x :: rest
        = .byte Symbol.opens.byte :: (inner ++ .byte Symbol.closes.byte :: body.rest) := by
          rw [← hrest, Symbol.byte_of_ofByte? hx]
      _ = .byte Symbol.opens.byte :: (inner ++ [.byte Symbol.closes.byte]) ++ body.rest := by simp
  · rw [nesting, nesting]
    omega
  · rw [hoffset, data, hheld.flows.data_append]
    simp only [data, List.length_cons, List.length_append, List.length_nil]
    omega

/-- a program that stands before what has been read belongs to it -/
theorem behind {b : Block whole} {c : Code} (hheld : front.Holds c) (hn : depth + c.nesting ≤ maxNesting)
    (h : Closed depth (offset + front.data.length) (c.reverse ++ done) rest b) :
    Closed depth offset done (front ++ rest) b := by
  obtain ⟨more, d, rfl, hmore, hn', hcode, hoffset⟩ := h
  refine ⟨front ++ more, c ++ d, (List.append_assoc _ _ _).symm, hheld.append hmore, ?_, ?_, ?_⟩
  · rw [nesting_append]
    omega
  · rw [hcode, reverse_append, reverse_reverse, append_assoc]
  · rw [hoffset, hheld.flows.data_append, List.length_append]
    omega

end Closed

/-- **How a body is read.** Inside a loop a sequence is read up to a closing bracket. -/
theorem sequence_ok {whole : Script} {inside : Option Nat} {bracket depth offset : Nat} {done : Code} {source : Script}
    {hs : source <:+ whole} {b : Block whole} (hinside : inside = some bracket) (hd : depth ≤ maxNesting)
    (hb : sequence whole inside depth offset done source hs = .ok b) : Closed depth offset done source b := by
  fun_induction sequence whole inside depth offset done source hs generalizing bracket with
  | case1 | case3 | case6 | case9 | case10 | case13 => cases hb
  | case2 | case4 => cases hinside
  | case5 whole inside depth offset done f rest hs hf _ ih =>
    have hheld : Holds [.failed f] .nil := Holds.nil.interrupted hf
    exact Closed.behind hheld hd (by simpa [data, hf] using ih hinside hd hb)
  | case7 whole inside depth offset done x rest hs hr hx _ ih =>
    have hheld : Holds [.byte x] .nil := Holds.nil.comment hx
    exact Closed.behind hheld hd (ih hinside hd hb)
  | case8 whole inside depth offset done x rest hs hr o hx _ ih =>
    have hheld : Holds [.byte x] (.op o .nil) := Holds.nil.op hx
    exact Closed.behind hheld hd (ih hinside hd hb)
  | case11 whole inside depth offset done x rest hs hr hx hdeep body he _ ih ih' =>
    obtain ⟨front, hfront, hheld, hn, hoffset⟩ := (ih rfl (by omega) he).loop hx
    rw [hfront]
    exact Closed.behind hheld hn (hoffset ▸ ih' hinside hd hb)
  | case12 whole depth offset done x rest hs hr hx o =>
    cases hb
    exact ⟨[], .nil, by rw [Symbol.byte_of_ofByte? hx]; rfl, .nil, hd, (append_nil _).symm, rfl⟩

/-! ## Which bodies are read -/

/-- **How a body is not read.** -/
theorem sequence_error {whole : Script} {inside : Option Nat} {bracket depth offset : Nat} {done : Code}
    {source : Script} {hs : source <:+ whole} {e : ParseError} (hinside : inside = some bracket)
    (hd : depth ≤ maxNesting) (he : sequence whole inside depth offset done source hs = .error e) :
    Refused bracket depth offset source e := by
  fun_induction sequence whole inside depth offset done source hs generalizing bracket with
  | case2 | case4 | case12 => cases he
  | case13 => cases hinside
  | case1 | case3 =>
    cases hinside
    cases he
    exact .unclosed rfl (by simp [data, loopsOpen]) (by simpa [data, loopsOpen] using hd)
      (.inl ⟨rfl, fun p hp => by cases hp.1⟩)
  | case5 whole inside depth offset done f rest hs hf _ ih =>
    have hheld : Holds [.failed f] .nil := Holds.nil.interrupted hf
    exact Refused.behind hheld hd (by simpa [data, hf] using ih hinside hd he)
  | case6 whole inside depth offset done f rest hs hf =>
    cases he
    exact .unreadable (by rw [failure?, if_neg hf]) (by simp [data, hf, loopsOpen])
  | case7 whole inside depth offset done x rest hs hr hx _ ih =>
    have hheld : Holds [.byte x] .nil := Holds.nil.comment hx
    exact Refused.behind hheld hd (ih hinside hd he)
  | case8 whole inside depth offset done x rest hs hr o hx _ ih =>
    have hheld : Holds [.byte x] (.op o .nil) := Holds.nil.op hx
    exact Refused.behind hheld hd (ih hinside hd he)
  | case9 whole inside offset done x rest hs hr hx =>
    cases he
    have hbyte : data (.byte x :: rest) = Symbol.opens.byte :: data rest := by rw [data, Symbol.byte_of_ofByte? hx]
    refine @Refused.tooDeep _ _ _ _ 0 ?_ ⟨by rw [hbyte]; rfl, by simp⟩
    intro i hi
    obtain rfl := Nat.le_zero.1 hi
    rw [loopsOpen_zero]
  | case10 whole inside depth offset done x rest hs hr hx hdeep e' he' _ ih =>
    cases he
    rw [← Symbol.byte_of_ofByte? hx]
    exact Refused.around (by omega) (ih rfl (by omega) he')
  | case11 whole inside depth offset done x rest hs hr hx hdeep body hbody _ ih ih' =>
    obtain ⟨front, hfront, hheld, hn, hoffset⟩ := (sequence_ok rfl (by omega) hbody).loop hx
    rw [hfront]
    exact Refused.behind hheld hn (hoffset ▸ ih' hinside hd he)

/-- inside a loop no bracket is found to close no loop, at whatever depth -/
theorem sequence_ne_unopened {whole : Script} {inside : Option Nat} {bracket depth offset : Nat} {done : Code}
    {source : Script} {hs : source <:+ whole} (hinside : inside = some bracket) (q : Nat) :
    sequence whole inside depth offset done source hs ≠ .error (.unopened q) := by
  fun_induction sequence whole inside depth offset done source hs generalizing bracket with
  | case1 | case2 | case3 | case4 | case6 | case9 | case12 => simp
  | case5 whole inside depth offset done f rest hs hf _ ih => exact ih hinside
  | case7 whole inside depth offset done x rest hs hr hx _ ih => exact ih hinside
  | case8 whole inside depth offset done x rest hs hr o hx _ ih => exact ih hinside
  | case10 whole inside depth offset done x rest hs hr hx hdeep e he _ ih =>
    have hne : e ≠ .unopened q := fun h => ih rfl (h ▸ he)
    simpa using hne
  | case11 whole inside depth offset done x rest hs hr hx hdeep body he _ ih ih' => exact ih' hinside
  | case13 => cases hinside

variable {whole source front : Script} {bracket depth offset : Nat}

/-- a body that has been read is the program of the balanced text before the bracket -/
theorem Closed.balanced {b : Block whole} (h : Closed depth offset .nil source b) :
    ∃ front : Script, source = front ++ .byte Symbol.closes.byte :: b.rest ∧ front.Flows ∧
      Balanced (maxNesting - depth) front.data ∧ parse (.ofBytes front.data) = .ok b.code ∧
      b.offset = offset + front.data.length + 1 := by
  obtain ⟨front, c, hsource, hheld, hn, hcode, hoffset⟩ := h
  obtain rfl : b.code = c := hcode
  refine ⟨front, hsource, hheld.flows, (balanced_of_symbols hheld.symbols).mono (by omega), ?_, hoffset⟩
  exact (parse_eq_ok_iff_symbols _ _).2
    ⟨failure?_ofBytes _, by omega, by rw [data_ofBytes, hheld.symbols]⟩

/-- a balanced text with a closing bracket behind it is read as the body that it is, whatever stands behind that -/
theorem sequence_of_balanced (bracket offset : Nat) (hd : depth ≤ maxNesting) (hflows : front.Flows)
    (hw : Balanced (maxNesting - depth) front.data) (rest : Script)
    (hs : front ++ .byte Symbol.closes.byte :: rest <:+ whole) :
    ∃ b, sequence whole (some bracket) depth offset .nil (front ++ .byte Symbol.closes.byte :: rest) hs = .ok b ∧
      parse (.ofBytes front.data) = .ok b.code ∧ b.offset = offset + front.data.length + 1 ∧ b.rest = rest := by
  cases hb : sequence whole (some bracket) depth offset .nil (front ++ .byte Symbol.closes.byte :: rest) hs with
  | error e => exact absurd (sequence_error rfl hd hb) (Refused.not_shut hflows hw)
  | ok b =>
    obtain ⟨front', hsource, hflows', hw', hparse, hoffset⟩ := (sequence_ok rfl hd hb).balanced
    obtain ⟨rfl, hrest⟩ := split_unique hflows hflows' hw hw' hsource
    exact ⟨b, rfl, hparse, hoffset, hrest.symm⟩

/-- a source that closes all its loops but the one it is in ends there -/
theorem sequence_of_innermost (hd : depth ≤ maxNesting) (hend : source.failure? = none)
    (hnonneg : ∀ i, 0 ≤ loopsOpen source.data i) (hwithin : ∀ i, depth + loopsOpen source.data i ≤ maxNesting) {q : Nat}
    (hq : Innermost bracket offset source.data q) (hs : source <:+ whole) :
    sequence whole (some bracket) depth offset .nil source hs = .error (.unclosed q) := by
  cases hb : sequence whole (some bracket) depth offset .nil source hs with
  | ok b =>
    obtain ⟨front, hsource, hflows, hw, -, -⟩ := (sequence_ok rfl hd hb).balanced
    have hshut := hnonneg (front.data.length + 1)
    rw [hsource, hflows.data_append, data, loopsOpen_shut hw] at hshut
    omega
  | error e =>
    cases sequence_error rfl hd hb with
    | unclosed _ _ _ hq' => rw [hq.unique hq']
    | @tooDeep p _ hp =>
      have hsucc := loopsOpen_succ (y := .opens) hp.1
      have := hwithin (p + 1)
      simp only [weight, hp.2] at hsucc
      omega
    | unreadable hend' _ =>
      rw [hend] at hend'
      cases hend'

/-- **A body ends at the bracket that matches.** Inside a loop, with no more loops around the body than there may be, a
sequence is read if and only if its source is a balanced text, nested no deeper than is left, with a closing bracket
behind it. What has been read renders as that text without its comments, the source is left at what stands behind the
bracket, with the offset moved on to there, and whatever stands there does not matter. A loop is found to be unclosed if
and only if the source comes to its end in it, and the bracket reported is the innermost one open there: the bracket of
the loop itself, if all brackets behind it are closed. No closing bracket is found to close no loop, at any depth. -/
theorem body_ends_at_match (bracket depth offset : Nat) :
    (depth ≤ 1024 →
      (∀ (whole source : Script) (hs : source <:+ whole),
        (∃ b, sequence whole (some bracket) depth offset .nil source hs = .ok b) ↔
          ∃ front rest : Script, source = front ++ .byte Symbol.closes.byte :: rest ∧ front.Flows ∧
            Balanced (1024 - depth) front.data) ∧
      (∀ front : Script, front.Flows → Balanced (1024 - depth) front.data →
        ∃ code : Code, code.render = front.data.filter (· ∈ Symbol.characters) ∧
          ∀ (whole rest : Script) (hs : front ++ .byte Symbol.closes.byte :: rest <:+ whole), ∃ b,
            sequence whole (some bracket) depth offset .nil (front ++ .byte Symbol.closes.byte :: rest) hs = .ok b ∧
              b.code = code ∧ b.offset = offset + front.data.length + 1 ∧ b.rest = rest) ∧
      (∀ (whole source : Script) (hs : source <:+ whole) (q : Nat),
        sequence whole (some bracket) depth offset .nil source hs = .error (.unclosed q) ↔
          source.failure? = none ∧ (∀ i, 0 ≤ loopsOpen source.data i) ∧
            (∀ i, depth + loopsOpen source.data i ≤ 1024) ∧ Innermost bracket offset source.data q)) ∧
    (∀ (whole source : Script) (hs : source <:+ whole) (q : Nat),
      sequence whole (some bracket) depth offset .nil source hs ≠ .error (.unopened q)) := by
  refine ⟨fun hd => ⟨?_, ?_, ?_⟩, fun whole source hs q => sequence_ne_unopened rfl q⟩
  · intro whole source hs
    constructor
    · rintro ⟨b, hb⟩
      obtain ⟨front, hsource, hflows, hw, -, -⟩ := (sequence_ok rfl hd hb).balanced
      exact ⟨front, b.rest, hsource, hflows, hw⟩
    · rintro ⟨front, rest, rfl, hflows, hw⟩
      obtain ⟨b, hb, -⟩ := sequence_of_balanced bracket offset hd hflows hw rest hs
      exact ⟨b, hb⟩
  · intro front hflows hw
    obtain ⟨first, -, hfirst, -, -⟩ := sequence_of_balanced bracket offset hd hflows hw [] (List.suffix_refl _)
    refine ⟨first.code, ?_, fun whole rest hs => ?_⟩
    · have hsymbols := ((parse_eq_ok_iff_symbols _ _).1 hfirst).2.2
      rwa [data_ofBytes, ← render_eq_iff_symbols] at hsymbols
    · obtain ⟨b, hb, hparse, hoffset, hrest⟩ := sequence_of_balanced bracket offset hd hflows hw rest hs
      exact ⟨b, hb, Except.ok.inj (hparse.symm.trans hfirst), hoffset, hrest⟩
  · intro whole source hs q
    constructor
    · intro hb
      cases sequence_error rfl hd hb with
      | unclosed hend hnonneg hwithin hq => exact ⟨hend, hnonneg, hwithin, hq⟩
    · rintro ⟨hend, hnonneg, hwithin, hq⟩
      exact sequence_of_innermost hd hend hnonneg hwithin hq hs

/-- inside 1023 loops one more fits into the body, and a failure behind the bracket is not met; without the bracket the
loop inside it, or else the loop itself, is unclosed, and two more loops do not fit -/
theorem body_ends_at_match_last_level :
    let again : ReadAnswer := .failed { kind := .interrupted }
    let lost : ReadAnswer := .failed { kind := .brokenPipe }
    let plus : ReadAnswer := .byte 0x2b
    let opening : ReadAnswer := .byte Symbol.opens.byte
    let closing : ReadAnswer := .byte Symbol.closes.byte
    let front : Script := [plus, again, opening, closing, .byte 0x61]
    let read (source : Script) := sequence source (some 7) 1023 8 .nil source (List.suffix_refl _)
    1023 ≤ 1024 ∧ front.Flows ∧ Balanced (1024 - 1023) front.data ∧
      (∃ b, read (front ++ closing :: [lost, closing]) = .ok b ∧ b.code.render = [0x2b, 0x5b, 0x5d] ∧
        b.offset = 13 ∧ b.rest = [lost, closing]) ∧
      read [plus, opening, plus] = .error (.unclosed 9) ∧ read [opening, closing] = .error (.unclosed 7) ∧
      ¬ ∃ b, read [opening, opening, closing, closing, closing] = .ok b := by
  intro again lost plus opening closing front read
  obtain ⟨hread, hfront, hunclosed⟩ := (body_ends_at_match 7 1023 8).1 (by decide)
  have hflows : front.Flows := ⟨rfl, trivial⟩
  have hw : Balanced (1024 - 1023) front.data := by decide
  obtain ⟨code, hcode, hbody⟩ := hfront front hflows hw
  obtain ⟨b, hb, rfl, hoffset, hrest⟩ := hbody _ [lost, closing] (List.suffix_refl _)
  have hinner : read [plus, opening, plus] = .error (.unclosed 9) := by
    refine (hunclosed _ _ _ 9).2 ⟨rfl, forall_loopsOpen_iff.2 (by decide), ?_, .inr ⟨1, rfl, by decide, ?_⟩⟩
    · exact forall_loopsOpen_iff (P := fun k => ((1023 : Nat) : Int) + k ≤ 1024) |>.2 (by decide)
    · intro r hr
      have hall : ∀ r < 3, LeftOpen [0x2b, 0x5b, 0x2b] r → r ≤ 1 := by decide
      exact hall r (lt_length_of_getElem? hr.1) hr
  have houter : read [opening, closing] = .error (.unclosed 7) := by
    refine (hunclosed _ _ _ 7).2 ⟨rfl, forall_loopsOpen_iff.2 (by decide), ?_, .inl ⟨rfl, ?_⟩⟩
    · exact forall_loopsOpen_iff (P := fun k => ((1023 : Nat) : Int) + k ≤ 1024) |>.2 (by decide)
    · intro r hr
      have hall : ∀ r < 2, ¬ LeftOpen [0x5b, 0x5d] r := by decide
      exact hall r (lt_length_of_getElem? hr.1) hr
  refine ⟨by decide, hflows, hw, ⟨b, hb, hcode.trans (by decide), hoffset, hrest⟩, hinner, houter, fun hok => ?_⟩
  -- before no closing bracket of this source is the text balanced and nested only once
  obtain ⟨deep, rest, hsource, -, hdeep⟩ := (hread _ _ _).1 hok
  have hall : ∀ n < 5, [opening, opening, closing, closing, closing][n]? = some closing →
      ¬ Balanced (1024 - 1023) (data ([opening, opening, closing, closing, closing].take n)) := by decide
  have hlen := congrArg List.length hsource
  simp only [List.length_append, List.length_cons, List.length_nil] at hlen
  refine hall deep.length (by omega) ?_ ?_
  · rw [hsource, List.getElem?_append_right (Nat.le_refl _), Nat.sub_self, List.getElem?_cons_zero]
  · rwa [hsource, List.take_left]

end Code

end RingTape
