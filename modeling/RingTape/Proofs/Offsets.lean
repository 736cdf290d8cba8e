/-
Offsets are only reported. The parser never decides by where a symbol stands, so the same symbols at other offsets get
the same answer, with an error moved to where its bracket stands then. Comments do nothing but move the symbols behind
them.

- `ParseError.Moved`: the same error at another offset
- `SameAnswers`: two answers, errors being the same at moved offsets
- `Scan.Moved`, `next_moved`: brackets opened at moved offsets, and what one symbol makes of that
- `run_moved`, `parse_moved`: the same for all symbols of a text
- `NthInstruction`: where the instructions of a text stand
- `comments_move_offsets`: a text and the same text without its comments
-/
import Mathlib.Data.List.Forall2
import RingTape.Proofs.Rendering

namespace RingTape

/-- the same error, with its offset moved -/
inductive ParseError.Moved (R : Nat → Nat → Prop) : ParseError → ParseError → Prop where
  | unclosed {j i : Nat} (h : R j i) : Moved R (.unclosed j) (.unclosed i)
  | unopened {j i : Nat} (h : R j i) : Moved R (.unopened j) (.unopened i)
  | tooDeep {j i : Nat} (h : R j i) (limit : Nat) : Moved R (.tooDeep j limit) (.tooDeep i limit)

/-- both answers are programs or what a program is made of, or both are the same error with its offset moved -/
inductive SameAnswers (R : Nat → Nat → Prop) {α β : Type} (Q : α → β → Prop) :
    Except ParseError α → Except ParseError β → Prop where
  | ok {a : α} {b : β} (h : Q a b) : SameAnswers R Q (.ok a) (.ok b)
  | error {e e' : ParseError} (h : e.Moved R e') : SameAnswers R Q (.error e) (.error e')

namespace SameAnswers

variable {R : Nat → Nat → Prop} {α β γ δ : Type} {Q : α → β → Prop}

theorem bind {P : γ → δ → Prop} {x : Except ParseError α} {y : Except ParseError β} (h : SameAnswers R Q x y)
    {f : α → Except ParseError γ} {g : β → Except ParseError δ} (hfg : ∀ a b, Q a b → SameAnswers R P (f a) (g b)) :
    SameAnswers R P (x.bind f) (y.bind g) := by
  cases h with
  | ok h => exact hfg _ _ h
  | error h => exact .error h

theorem exists_error {y : Except ParseError β} {e : ParseError} (h : SameAnswers R Q (.error e) y) :
    ∃ e', y = .error e' ∧ e.Moved R e' := by
  cases h with
  | error h => exact ⟨_, rfl, h⟩

end SameAnswers

/-! ## The same symbols at other offsets -/

/-- the same symbol, with its offset moved -/
def MovedSymbol (R : Nat → Nat → Prop) (p q : Nat × Symbol) : Prop :=
  R p.1 q.1 ∧ p.2 = q.2

namespace Scan

variable {R : Nat → Nat → Prop} {s t : Scan} {j i : Nat}

/-- the brackets that are open in one scan have been opened at the moved offsets in the other -/
def Moved (R : Nat → Nat → Prop) (s t : Scan) : Prop :=
  List.Forall₂ R (s.opened.map Prod.fst) (t.opened.map Prod.fst)

theorem Moved.length_eq (h : Moved R s t) : s.opened.length = t.opened.length := by
  have := List.Forall₂.length_eq h
  rwa [List.length_map, List.length_map] at this

/-- **One symbol.** -/
theorem next_moved (h : Moved R s t) (hR : R j i) (y : Symbol) :
    SameAnswers R (Moved R) (s.next j y) (t.next i y) := by
  cases y with
  | op o => exact .ok h
  | opens =>
    have hlen := h.length_eq
    unfold next
    by_cases hfull : s.opened.length = maxNesting
    · rw [if_pos hfull, if_pos (hlen ▸ hfull)]
      exact .error (.tooDeep hR maxNesting)
    · rw [if_neg hfull, if_neg (hlen ▸ hfull)]
      exact .ok (.cons hR h)
  | closes =>
    obtain ⟨done, opened⟩ := s
    obtain ⟨done', opened'⟩ := t
    cases opened with
    | nil =>
      obtain rfl : opened' = [] := List.length_eq_zero_iff.1 h.length_eq.symm
      exact .error (.unopened hR)
    | cons p rest =>
      cases opened' with
      | nil => exact absurd h.length_eq (Nat.succ_ne_zero _)
      | cons p' rest' => exact .ok (List.forall₂_cons.1 h).2

/-- **Any number of symbols.** -/
theorem run_moved (h : Moved R s t) {l m : List (Nat × Symbol)} (hlm : List.Forall₂ (MovedSymbol R) l m) :
    SameAnswers R (Moved R) (s.run l) (t.run m) := by
  induction hlm generalizing s t with
  | nil => exact .ok h
  | @cons p q l m hpq _ ih =>
    obtain ⟨j, y⟩ := p
    obtain ⟨i, z⟩ := q
    obtain ⟨hR, rfl⟩ := hpq
    rw [run_cons, run_cons]
    exact (next_moved h hR y).bind fun _ _ h' => ih h'

/-- **The end of a source.** -/
theorem stop_moved (h : Moved R s t) : SameAnswers R (fun _ _ => True) (s.stop none) (t.stop none) := by
  obtain ⟨done, opened⟩ := s
  obtain ⟨done', opened'⟩ := t
  cases opened with
  | nil =>
    obtain rfl : opened' = [] := List.length_eq_zero_iff.1 h.length_eq.symm
    exact .ok trivial
  | cons p rest =>
    cases opened' with
    | nil => exact absurd h.length_eq (Nat.succ_ne_zero _)
    | cons p' rest' => exact .error (.unclosed (List.forall₂_cons.1 h).1)

end Scan

/-- **Texts with the same symbols** are answered alike, wherever the symbols stand. -/
theorem Code.parse_moved {R : Nat → Nat → Prop} {s t : List UInt8}
    (h : List.Forall₂ (MovedSymbol R) (located 0 s) (located 0 t)) :
    SameAnswers R (fun _ _ => True) (parse (.ofBytes s)) (parse (.ofBytes t)) := by
  have hstart : Scan.Moved R Scan.start Scan.start := .nil
  simp only [parse_eq_scan, Script.data_ofBytes, Script.failure?_ofBytes]
  exact (Scan.run_moved hstart h).bind fun _ _ => Scan.stop_moved

/-! ## Comments -/

/-- at offset `i` of a text stands the instruction that has `j` instructions before it -/
structure NthInstruction (s : List UInt8) (j i : Nat) : Prop where
  instruction : ∃ b ∈ Symbol.characters, s[i]? = some b
  before : (s.take i).countP (· ∈ Symbol.characters) = j

/-- the symbols of a text without its comments are those of the text, each at the number of those before it -/
theorem located_without_comments (before rest : List UInt8) :
    List.Forall₂ (MovedSymbol (NthInstruction (before ++ rest)))
      (located (before.countP (· ∈ Symbol.characters)) (rest.filter (· ∈ Symbol.characters)))
      (located before.length rest) := by
  -- on the text from some offset on; what stands before it is only counted
  induction rest generalizing before with
  | nil => exact .nil
  | cons b rest ih =>
    have hrest := ih (before ++ [b])
    rw [List.append_assoc, List.singleton_append, List.countP_append, List.countP_singleton, List.length_append,
      List.length_singleton] at hrest
    cases hb : Symbol.ofByte? b with
    | none =>
      have hcomment := Symbol.not_mem_characters hb
      rw [if_neg (by simpa using hcomment)] at hrest
      rw [List.filter_cons_of_neg (by simpa using hcomment), located, hb]
      exact hrest
    | some y =>
      have hmem : b ∈ Symbol.characters := Symbol.byte_of_ofByte? hb ▸ y.byte_mem_characters
      rw [if_pos (by simpa using hmem)] at hrest
      rw [List.filter_cons_of_pos (by simpa using hmem), located, located, hb]
      refine .cons ⟨⟨⟨b, hmem, by simp⟩, ?_⟩, rfl⟩ hrest
      rw [List.take_left]

namespace Code

/-- **Comments only move offsets.** A text and the same text without its comments hold the same program, or neither of
them holds one. Then both get the same error, and if the bracket that is reported without comments is the `j`-th byte,
the one that is reported for the text is its `j`-th instruction. -/
theorem comments_move_offsets (s : List UInt8) :
    (∀ t, parse (.ofBytes s) = .ok t ↔ parse (.ofBytes (s.filter (· ∈ Symbol.characters))) = .ok t) ∧
      ∀ e, parse (.ofBytes (s.filter (· ∈ Symbol.characters))) = .error e →
        ∃ e', parse (.ofBytes s) = .error e' ∧ e.Moved (NthInstruction s) e' := by
  refine ⟨?_, ?_⟩
  · intro t
    have hbytes : (instructions (s.filter (· ∈ Symbol.characters))).map Symbol.byte =
        (instructions s).map Symbol.byte := by
      rw [map_byte_instructions, map_byte_instructions, List.filter_filter]
      simp
    have hsame := (List.map_inj_right fun _ _ => Symbol.byte_injective).1 hbytes
    rw [parse_eq_ok_iff_symbols, parse_eq_ok_iff_symbols]
    simp [hsame]
  · intro e he
    have hmoved := parse_moved (located_without_comments [] s)
    rw [List.nil_append, he] at hmoved
    exact hmoved.exists_error

/-- a loop that is closed inside one that is not, and an open one behind it, with bytes around them that are no
characters: the bracket left open is the fourth instruction, and the eighth byte -/
theorem comments_move_offsets_broken_text :
    let s : List UInt8 := [0xc3, 0x5b, 0x00, 0x5b, 0xff, 0x5d, 0x61, 0x5b, 0x80]
    let bare : List UInt8 := [0x5b, 0x5b, 0x5d, 0x5b]
    s.filter (· ∈ Symbol.characters) = bare ∧ parse (.ofBytes bare) = .error (.unclosed 3) ∧
      parse (.ofBytes s) = .error (.unclosed 7) := by
  intro s bare
  have hbare : s.filter (· ∈ Symbol.characters) = bare := by decide
  have herror : parse (.ofBytes bare) = .error (.unclosed 3) := by
    rw [parse_eq_scan]
    rfl
  obtain ⟨e', he', hmoved⟩ := (comments_move_offsets s).2 (.unclosed 3) (by rw [hbare, herror])
  have hplace : ∀ i < 9, (s.take i).countP (· ∈ Symbol.characters) = 3 →
      s[i]?.any (· ∈ Symbol.characters) → i = 7 := by decide
  cases hmoved with
  | @unclosed j i hi =>
    obtain ⟨⟨b, hb, hbyte⟩, hbefore⟩ := hi
    have hlt : i < 9 := (List.getElem?_eq_some_iff.1 hbyte).1
    obtain rfl := hplace i hlt hbefore (by rw [hbyte]; simpa using hb)
    exact ⟨hbare, herror, he'⟩

end Code

end RingTape
