/-
Texts put together from parts. Behind an accepted text every text is answered as on its own, at offsets that begin where
the first one ends; brackets around an accepted text put a loop around its program, as long as this one is not nested as
deep as a program may be.

- `located_behind`: the symbols of a text that stands behind another one
- `parse_append_of_error`: an error behind an accepted text
- `exists_opens`: a program has brackets at every depth up to its nesting
- `Opens`, `exists_opens_at`: and so has a text that holds it
- `enclosed`, `not_misplaced_enclosed`: a text in brackets
- `parse_of_parts`: what the parser makes of two texts, and of a text in brackets
-/
import Mathlib.Data.List.Count
import Mathlib.Order.MinMax
import RingTape.Proofs.Extensions
import RingTape.Proofs.Jumps
import RingTape.Proofs.Offsets
import RingTape.Proofs.Sequencing

namespace RingTape

/-! ## Behind a text -/

/-- the symbols of a text are the same behind another one, at offsets larger by the length of that -/
theorem located_behind (n offset : Nat) (b : List UInt8) :
    List.Forall₂ (MovedSymbol fun j i => i = n + j) (located offset b) (located (n + offset) b) := by
  induction b generalizing offset with
  | nil => exact .nil
  | cons c rest ih =>
    rw [located, located]
    cases Symbol.ofByte? c with
    | none => exact ih (offset + 1)
    | some y => exact .cons ⟨rfl, rfl⟩ (ih (offset + 1))

namespace Code

/-- **Errors behind an accepted text** are the same as without it, at offsets larger by its length. -/
theorem parse_append_of_error {a b : List UInt8} {first : Code} {e : ParseError} (ha : parse (.ofBytes a) = .ok first)
    (hb : parse (.ofBytes b) = .error e) :
    ∃ e', parse (.ofBytes (a ++ b)) = .error e' ∧ e.Moved (fun j i => i = a.length + j) e' := by
  obtain ⟨-, done, hrun, -⟩ := parse_eq_ok ha
  rw [Script.data_ofBytes] at hrun
  have hboth : parse (.ofBytes (a ++ b)) =
      (Scan.run ⟨done, []⟩ (located a.length b)).bind fun s => s.stop none := by
    rw [parse_eq_scan, Script.data_ofBytes, Script.failure?_ofBytes, located_append, Nat.zero_add,
      Scan.run_append_of_ok hrun]
  have hstart : Scan.Moved (fun j i => i = a.length + j) Scan.start ⟨done, []⟩ := .nil
  have hsame := (Scan.run_moved hstart (located_behind a.length 0 b)).bind fun _ _ => Scan.stop_moved
  rw [parse_eq_scan, Script.data_ofBytes, Script.failure?_ofBytes] at hb
  rw [hb, Nat.add_zero, ← hboth] at hsame
  exact hsame.exists_error

/-! ## Depths -/

/-- a program opens loops at every depth up to its nesting -/
theorem exists_opens {c : Code} {n : Nat} (h : n < c.nesting) :
    ∃ front back, c.symbols = front ++ .opens :: back ∧ front.count .opens = front.count .closes + n := by
  induction c generalizing n with
  | nil => exact absurd h (Nat.not_lt_zero n)
  | op o rest ih =>
    obtain ⟨front, back, hsplit, hcount⟩ := ih h
    exact ⟨.op o :: front, back, by simp [symbols, hsplit], by simpa using hcount⟩
  | loop body rest ihb ihr =>
    rw [nesting, lt_max_iff] at h
    rcases h with hbody | hrest
    · cases n with
      | zero => exact ⟨[], _, rfl, rfl⟩
      | succ n =>
        obtain ⟨front, back, hsplit, hcount⟩ := ihb (Nat.lt_of_succ_lt_succ hbody)
        refine ⟨.opens :: front, back ++ .closes :: rest.symbols, by simp [symbols, hsplit], ?_⟩
        simp
        omega
    · obtain ⟨front, back, hsplit, hcount⟩ := ihr hrest
      have htotal := body.opens_symbols
      refine ⟨.opens :: (body.symbols ++ .closes :: front), back, by simp [symbols, hsplit], ?_⟩
      simp
      omega

end Code

/-- where a symbol stands in a text, and what stands before it -/
theorem exists_offset {bytes : List UInt8} {front back : List Symbol} {y : Symbol}
    (h : instructions bytes = front ++ y :: back) :
    ∃ q, bytes[q]? = some y.byte ∧ instructions (bytes.take q) = front := by
  unfold instructions at h ⊢
  obtain ⟨l, m, rfl, hl, hm⟩ := List.filterMap_eq_append_iff.1 h
  obtain ⟨comments, b, rest, rfl, hcomments, hb, -⟩ := List.filterMap_eq_cons_iff.1 hm
  refine ⟨(l ++ comments).length, ?_, ?_⟩
  · rw [← List.append_assoc, Symbol.byte_of_ofByte? hb]
    simp
  · rw [← List.append_assoc, List.take_left, List.filterMap_append, hl, List.filterMap_eq_nil_iff.2 hcomments,
      List.append_nil]

/-- a symbol is counted in the text as it is among the symbols -/
theorem count_instructions (y : Symbol) (bytes : List UInt8) : (instructions bytes).count y = bytes.count y.byte := by
  have hinj : Function.Injective Symbol.byte := fun _ _ => Symbol.byte_injective
  rw [← List.count_map_of_injective _ _ hinj, map_byte_instructions, List.count_filter]
  simpa using y.byte_mem_characters

namespace Brackets

/-- a bracket at the offset opens a loop that has `n` loops around it -/
def Opens (bytes : List UInt8) (n offset : Nat) : Prop :=
  bytes[offset]? = some Symbol.opens.byte ∧ loopsOpen bytes offset = n

instance (bytes : List UInt8) (n offset : Nat) : Decidable (Opens bytes n offset) :=
  inferInstanceAs (Decidable (_ ∧ _))

/-- a text opens loops at every depth up to the nesting of its program -/
theorem exists_opens_at {b : List UInt8} {body : Code} (hb : Code.parse (.ofBytes b) = .ok body) {n : Nat}
    (h : n < body.nesting) : ∃ q, Opens b n q := by
  obtain ⟨-, -, hsymbols⟩ := (Code.parse_eq_ok_iff_symbols _ _).1 hb
  rw [Script.data_ofBytes] at hsymbols
  obtain ⟨front, back, hsplit, hcount⟩ := Code.exists_opens h
  obtain ⟨q, hq, hfront⟩ := exists_offset (hsymbols.symm.trans hsplit)
  refine ⟨q, hq, ?_⟩
  rw [loopsOpen, ← count_instructions, ← count_instructions, hfront, hcount]
  omega

/-! ## In brackets -/

/-- a text with brackets around it -/
def enclosed (b : List UInt8) : List UInt8 :=
  Symbol.opens.byte :: (b ++ [Symbol.closes.byte])

variable {b : List UInt8} {i : Nat}

theorem getElem?_enclosed (hi : i < b.length) : (enclosed b)[1 + i]? = b[i]? := by
  rw [enclosed, Nat.add_comm, List.getElem?_cons_succ, List.getElem?_append_left hi]

/-- there is one loop more around each byte -/
theorem loopsOpen_enclosed (hi : i ≤ b.length) : loopsOpen (enclosed b) (1 + i) = 1 + loopsOpen b i := by
  have hone : loopsOpen [Symbol.opens.byte] [Symbol.opens.byte].length = 1 := by decide
  have hinside : loopsOpen (b ++ [Symbol.closes.byte]) i = loopsOpen b i := by
    unfold loopsOpen
    rw [List.take_append_of_le_length hi]
  calc loopsOpen (enclosed b) (1 + i)
      = loopsOpen [Symbol.opens.byte] [Symbol.opens.byte].length + loopsOpen (b ++ [Symbol.closes.byte]) i :=
        loopsOpen_append [Symbol.opens.byte] (b ++ [Symbol.closes.byte]) i
    _ = 1 + loopsOpen b i := by rw [hone, hinside]

/-- no fewer loops are closed than opened anywhere in a text without a misplaced bracket -/
theorem loopsOpen_nonneg (hm : ∀ p, ¬ Misplaced b p) (hi : i ≤ b.length) : 0 ≤ loopsOpen b i := by
  obtain ⟨s, -, hs⟩ := run_counted b i hi fun q _ => hm q
  rw [hs.count]
  omega

/-- in brackets only a loop that has as many loops around it as there may be comes to be misplaced -/
theorem not_misplaced_enclosed (hm : ∀ p, ¬ Misplaced b p) (hi : i < b.length) (hopens : ¬ Opens b 1023 i) :
    ¬ Misplaced (enclosed b) (1 + i) := by
  have hcount := loopsOpen_enclosed (Nat.le_of_lt hi)
  have hnonneg := loopsOpen_nonneg hm (Nat.le_of_lt hi)
  rintro (⟨-, hzero⟩ | ⟨hbyte, hfull⟩)
  · omega
  · rw [getElem?_enclosed hi] at hbyte
    have hlimit : maxNesting = 1024 := rfl
    exact hopens ⟨hbyte, by omega⟩

theorem not_misplaced_enclosed_zero : ¬ Misplaced (enclosed b) 0 := by
  rintro (⟨hbyte, -⟩ | ⟨-, hfull⟩)
  · rw [enclosed, List.getElem?_cons_zero] at hbyte
    exact absurd hbyte (by decide)
  · rw [loopsOpen_zero] at hfull
    exact absurd hfull (by decide)

/-- the first bracket that opens a loop inside 1023 others opens one too many in brackets -/
theorem parse_enclosed_of_opens (hm : ∀ p, ¬ Misplaced b p) {q : Nat} (hq : Opens b 1023 q)
    (hfirst : ∀ r < q, ¬ Opens b 1023 r) :
    Code.parse (.ofBytes (enclosed b)) = .error (.tooDeep (1 + q) maxNesting) := by
  have hlt := lt_length_of_getElem? hq.1
  apply parse_of_excessive
  · rw [Script.data_ofBytes]
    refine ⟨(getElem?_enclosed hlt).trans hq.1, ?_⟩
    rw [loopsOpen_enclosed (Nat.le_of_lt hlt), hq.2]
    decide
  · rw [Script.data_ofBytes]
    intro r hr
    cases r with
    | zero => exact not_misplaced_enclosed_zero
    | succ r =>
      rw [Nat.add_comm r 1]
      exact not_misplaced_enclosed hm (by omega) (hfirst r (by omega))

/-- a text in brackets holds the loop around its program, if that is not nested too deep -/
theorem parse_enclosed_of_nesting {body : Code} (hb : Code.parse (.ofBytes b) = .ok body)
    (hn : body.nesting < maxNesting) : Code.parse (.ofBytes (enclosed b)) = .ok (.loop body .nil) := by
  obtain ⟨-, -, hsymbols⟩ := (Code.parse_eq_ok_iff_symbols _ _).1 hb
  rw [Script.data_ofBytes] at hsymbols
  refine (Code.parse_eq_ok_iff_symbols _ _).2 ⟨Script.failure?_ofBytes _, ?_, ?_⟩
  · rw [Code.nesting, Code.nesting]
    omega
  · rw [Script.data_ofBytes, enclosed, Code.symbols, hsymbols]
    simp [instructions, Code.symbols]

/-- **Parsing goes by parts.** Behind an accepted text, an accepted one adds its program, and any other one its error,
at an offset larger by the length of the text before it. An accepted text in brackets holds the loop around its program
if that is nested no deeper than 1023; if it is, it is nested 1024 deep, and the error is the first bracket that opens a
loop inside 1023 others, one byte further on. -/
theorem parse_of_parts :
    (∀ (a : List UInt8) (first : Code), Code.parse (.ofBytes a) = .ok first → ∀ b : List UInt8,
      (∀ second, Code.parse (.ofBytes b) = .ok second → Code.parse (.ofBytes (a ++ b)) = .ok (first ++ second)) ∧
      (∀ e, Code.parse (.ofBytes b) = .error e →
        ∃ e', Code.parse (.ofBytes (a ++ b)) = .error e' ∧ e.Moved (fun j i => i = a.length + j) e')) ∧
    (∀ (b : List UInt8) (body : Code), Code.parse (.ofBytes b) = .ok body →
      (body.nesting ≤ 1023 → Code.parse (.ofBytes (enclosed b)) = .ok (.loop body .nil)) ∧
      (¬ body.nesting ≤ 1023 → body.nesting = 1024 ∧ ∃ q, Opens b 1023 q ∧ (∀ r < q, ¬ Opens b 1023 r) ∧
        Code.parse (.ofBytes (enclosed b)) = .error (.tooDeep (1 + q) 1024))) := by
  refine ⟨?_, ?_⟩
  · intro a first ha b
    refine ⟨?_, ?_⟩
    · intro second hb
      exact Code.parse_append ha hb
    · intro e hb
      exact Code.parse_append_of_error ha hb
  · intro b body hb
    refine ⟨?_, ?_⟩
    · intro hn
      exact parse_enclosed_of_nesting hb (Nat.lt_succ_of_le hn)
    · intro hn
      have hle := ((Code.parse_eq_ok_iff_symbols _ _).1 hb).2.1
      have hlimit : maxNesting = 1024 := rfl
      have hex : ∃ q, Opens b 1023 q := exists_opens_at hb (by omega)
      have hfirst : ∀ r < Nat.find hex, ¬ Opens b 1023 r := fun r hr => Nat.find_min hex hr
      have hm := ((accepted_iff b).1 ⟨body, hb⟩).1
      exact ⟨by omega, Nat.find hex, Nat.find_spec hex, hfirst, parse_enclosed_of_opens hm (Nat.find_spec hex) hfirst⟩

/-- so many loops, each of them all there is in the next one -/
def tower : Nat → Code
  | 0 => .nil
  | n + 1 => .loop (tower n) .nil

theorem nesting_tower (n : Nat) : (tower n).nesting = n := by
  induction n with
  | zero => rfl
  | succ n ih => simp [tower, Code.nesting, ih]

/-- a clearing loop, with a stray bracket behind it and with brackets around it, and brackets around 1024 loops -/
theorem parse_of_parts_tower :
    let clear : List UInt8 := [0x5b, 0x2d, 0x5d]
    let stray : List UInt8 := [0x2b, 0x5d]
    let deep : List UInt8 := (tower 1024).render
    Code.parse (.ofBytes clear) = .ok (.loop (.op .decr .nil) .nil) ∧
      Code.parse (.ofBytes stray) = .error (.unopened 1) ∧
      Code.parse (.ofBytes (clear ++ stray)) = .error (.unopened 4) ∧
      Code.parse (.ofBytes (enclosed clear)) = .ok (.loop (.loop (.op .decr .nil) .nil) .nil) ∧
      Code.parse (.ofBytes deep) = .ok (tower 1024) ∧
      ∃ q, Opens deep 1023 q ∧ Code.parse (.ofBytes (enclosed deep)) = .error (.tooDeep (1 + q) 1024) := by
  intro clear stray deep
  have hclear : Code.parse (.ofBytes clear) = .ok (.loop (.op .decr .nil) .nil) := by
    rw [Code.parse_eq_scan]
    rfl
  have hstray : Code.parse (.ofBytes stray) = .error (.unopened 1) := by
    rw [Code.parse_eq_scan]
    rfl
  have hdeep : Code.parse (.ofBytes deep) = .ok (tower 1024) := by
    rw [Code.parse_eq_ok_iff_symbols, Script.data_ofBytes, Code.instructions_render, nesting_tower]
    exact ⟨Script.failure?_ofBytes _, Nat.le_refl _, rfl⟩
  obtain ⟨hbehind, haround⟩ := parse_of_parts
  obtain ⟨e', he', hmoved⟩ := (hbehind clear _ hclear stray).2 _ hstray
  obtain ⟨-, q, hq, -, htooDeep⟩ := (haround deep _ hdeep).2 (by rw [nesting_tower]; omega)
  cases hmoved with
  | unopened hi =>
    subst hi
    exact ⟨hclear, hstray, he', (haround clear _ hclear).1 (by decide), hdeep, q, hq, htooDeep⟩

end Brackets

end RingTape
