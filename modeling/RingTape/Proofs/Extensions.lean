/-
What may still be written behind a text. A text that ends inside loops can be completed: closing these loops does it, and
no completion closes fewer. A text with a misplaced bracket cannot be completed, and what is written behind it is not
looked at.

- `Accepted`: the texts that hold a program
- `loopsOpen_append`: the count of loops goes on behind a text
- `answer_of_not_misplaced`, `accepted_iff`: the answer on a text without a misplaced bracket, by counting
- `parse_append_of_misplaced`: no extension changes the answer on a text with one
- `accepted_closed`, `loopsOpen_le_of_accepted`: closing the open loops completes a text, and nothing less does
- `parse_by_extension`: what each error of the parser says about the extensions of a text
-/
import RingTape.Proofs.Sources

namespace RingTape.Brackets

variable {s t : List UInt8} {p q : Nat}

/-- the text holds a program -/
def Accepted (s : List UInt8) : Prop :=
  ∃ code, Code.parse (.ofBytes s) = .ok code

/-! ## Counting behind a text -/

theorem loopsOpen_append (s t : List UInt8) (i : Nat) :
    loopsOpen (s ++ t) (s.length + i) = loopsOpen s s.length + loopsOpen t i := by
  unfold loopsOpen
  rw [List.take_length_add_append, List.take_length, List.count_append, List.count_append]
  omega

/-- no more loops are closed than there are closing brackets -/
theorem closes_le_loopsOpen (t : List UInt8) : -(t.count Symbol.closes.byte : Int) ≤ loopsOpen t t.length := by
  unfold loopsOpen
  rw [List.take_length]
  omega

theorem loopsOpen_closings {n i : Nat} (h : i ≤ n) :
    loopsOpen (List.replicate n Symbol.closes.byte) i = -i := by
  have hopens : Symbol.opens.byte ≠ Symbol.closes.byte := by decide
  unfold loopsOpen
  rw [List.take_replicate, Nat.min_eq_left h, List.count_replicate_self, List.count_replicate,
    if_neg (by simpa using hopens.symm)]
  simp

theorem take_append_of_lt (hp : p < s.length) (t : List UInt8) : s.take (p + 1) = (s ++ t).take (p + 1) := by
  rw [List.take_append_of_le_length hp]

theorem misplaced_append_iff (hp : p < s.length) (t : List UInt8) : Misplaced (s ++ t) p ↔ Misplaced s p :=
  (misplaced_of_same_start (take_append_of_lt hp t) (Nat.le_refl p)).symm

/-! ## Answers -/

/-- a misplaced bracket is reported, or one before it -/
theorem parse_of_misplaced {source : Script} (h : Misplaced source.data p) :
    (∃ q, Code.parse source = .error (.unopened q)) ∨ ∃ q, Code.parse source = .error (.tooDeep q maxNesting) := by
  obtain ⟨q, -, hq, hfirst⟩ := exists_first_misplaced h
  rcases hq with hstray | hexcessive
  · exact Or.inl ⟨_, parse_of_stray hstray hfirst⟩
  · exact Or.inr ⟨_, parse_of_excessive hexcessive hfirst⟩

/-- a text without a misplaced bracket is accepted, or it ends inside some loops -/
theorem answer_of_not_misplaced (hm : ∀ p, ¬ Misplaced s p) :
    (loopsOpen s s.length = 0 ∧ Accepted s) ∨
      ∃ n : Nat, loopsOpen s s.length = n ∧ 0 < n ∧ ∃ q, Code.parse (.ofBytes s) = .error (.unclosed q) := by
  rw [← Script.data_ofBytes s] at hm
  obtain ⟨⟨done, opened⟩, hs, hparse⟩ := parse_of_not_misplaced hm
  have hcount := hs.count
  rw [Script.data_ofBytes] at hcount
  rw [Script.failure?_ofBytes] at hparse
  cases opened with
  | nil => exact Or.inl ⟨hcount, _, hparse⟩
  | cons b rest => exact Or.inr ⟨_, hcount, Nat.succ_pos _, b.1, hparse⟩

theorem not_misplaced_of_parse (h : ∀ q, Code.parse (.ofBytes s) ≠ .error (.unopened q))
    (h' : ∀ q n, Code.parse (.ofBytes s) ≠ .error (.tooDeep q n)) (p : Nat) : ¬ Misplaced s p := by
  intro hp
  rw [← Script.data_ofBytes s] at hp
  rcases parse_of_misplaced hp with ⟨q, hq⟩ | ⟨q, hq⟩
  · exact h q hq
  · exact h' q _ hq

/-- **Acceptance by counting.** -/
theorem accepted_iff (s : List UInt8) : Accepted s ↔ (∀ p, ¬ Misplaced s p) ∧ loopsOpen s s.length = 0 := by
  constructor
  · rintro ⟨code, hcode⟩
    have hm : ∀ p, ¬ Misplaced s p := not_misplaced_of_parse (by simp [hcode]) (by simp [hcode])
    refine ⟨hm, ?_⟩
    rcases answer_of_not_misplaced hm with ⟨hzero, -⟩ | ⟨n, -, -, q, hq⟩
    · exact hzero
    · rw [hcode] at hq
      cases hq
  · rintro ⟨hm, hzero⟩
    rcases answer_of_not_misplaced hm with ⟨-, h⟩ | ⟨n, hn, hpos, -⟩
    · exact h
    · omega

/-! ## Extensions -/

/-- **Behind a misplaced bracket** no extension changes the answer. -/
theorem parse_append_of_misplaced (h : Misplaced s p) (t : List UInt8) :
    Code.parse (.ofBytes (s ++ t)) = Code.parse (.ofBytes s) := by
  have hp := lt_length_of_misplaced h
  have hsame : (Script.ofBytes s).data.take (p + 1) = (Script.ofBytes (s ++ t)).data.take (p + 1) := by
    rw [Script.data_ofBytes, Script.data_ofBytes]
    exact take_append_of_lt hp t
  rw [← Script.data_ofBytes s] at h
  exact parse_of_same_start h hsame

/-- a text with a misplaced bracket is not accepted, whatever is written behind it -/
theorem not_accepted_of_misplaced (h : Misplaced s p) (t : List UInt8) : ¬ Accepted (s ++ t) := by
  intro haccepted
  have hp := lt_length_of_misplaced h
  exact ((accepted_iff _).1 haccepted).1 p ((misplaced_append_iff hp t).2 h)

/-- **Closing the open loops** completes a text without a misplaced bracket. -/
theorem accepted_closed (hm : ∀ p, ¬ Misplaced s p) {n : Nat} (hn : loopsOpen s s.length = n) :
    Accepted (s ++ List.replicate n Symbol.closes.byte) := by
  refine (accepted_iff _).2 ⟨?_, ?_⟩
  · intro p hp
    by_cases hlt : p < s.length
    · exact hm p ((misplaced_append_iff hlt _).1 hp)
    · -- behind the text a loop is still open at each of the closing brackets
      obtain ⟨i, rfl⟩ := Nat.exists_eq_add_of_le (Nat.le_of_not_lt hlt)
      have hlen := lt_length_of_misplaced hp
      rw [List.length_append, List.length_replicate] at hlen
      have hopen : loopsOpen (s ++ List.replicate n Symbol.closes.byte) (s.length + i) = n - i := by
        calc loopsOpen (s ++ List.replicate n Symbol.closes.byte) (s.length + i)
            = loopsOpen s s.length + loopsOpen (List.replicate n Symbol.closes.byte) i := loopsOpen_append _ _ _
          _ = n + -i := by rw [hn, loopsOpen_closings (by omega)]
          _ = n - i := Int.add_neg_eq_sub
      have hbyte : (s ++ List.replicate n Symbol.closes.byte)[s.length + i]? = some Symbol.closes.byte := by
        rw [List.getElem?_append_right (by omega), List.getElem?_replicate, if_pos (by omega)]
      rcases hp with ⟨-, hzero⟩ | ⟨hopens, -⟩
      · omega
      · rw [hbyte] at hopens
        exact absurd hopens (by decide)
  · rw [List.length_append, loopsOpen_append, hn, loopsOpen_closings (by simp), List.length_replicate]
    omega

/-- **Nothing less will do.** Whatever completes a text closes all the loops that the text leaves open. -/
theorem loopsOpen_le_of_accepted (h : Accepted (s ++ t)) : loopsOpen s s.length ≤ t.count Symbol.closes.byte := by
  have hzero := ((accepted_iff _).1 h).2
  rw [List.length_append, loopsOpen_append] at hzero
  have := closes_le_loopsOpen t
  omega

/-- a text can be completed if and only if none of its brackets is misplaced -/
theorem extensible_iff (s : List UInt8) : (∃ t, Accepted (s ++ t)) ↔ ∀ p, ¬ Misplaced s p := by
  constructor
  · rintro ⟨t, ht⟩ p hp
    exact not_accepted_of_misplaced hp t ht
  · intro hm
    rcases answer_of_not_misplaced hm with ⟨hzero, -⟩ | ⟨n, hn, -, -⟩
    · exact ⟨_, accepted_closed (n := 0) hm hzero⟩
    · exact ⟨_, accepted_closed hm hn⟩

/-- a text that cannot be completed has a misplaced bracket -/
theorem exists_misplaced (h : ∀ t, ¬ Accepted (s ++ t)) : ∃ p, Misplaced s p := by
  by_contra hm
  obtain ⟨t, ht⟩ := (extensible_iff s).2 (not_exists.1 hm)
  exact h t ht

/-- **What the errors say about extensions.** A text is answered with an unclosed loop if and only if it is not accepted
but some extension of it is. Then as many closing brackets as it leaves loops open complete it, and no extension with
fewer closing brackets is accepted. It is answered with a bracket that closes no loop or opens one too many if and only
if no extension of it is accepted, and then each extension gets the very same answer. -/
theorem parse_by_extension (s : List UInt8) :
    ((∃ q, Code.parse (.ofBytes s) = .error (.unclosed q)) ↔ ¬ Accepted s ∧ ∃ t, Accepted (s ++ t)) ∧
    (∀ q, Code.parse (.ofBytes s) = .error (.unclosed q) →
      ∃ n : Nat, loopsOpen s s.length = n ∧ Accepted (s ++ List.replicate n Symbol.closes.byte) ∧
        ∀ t, t.count Symbol.closes.byte < n → ¬ Accepted (s ++ t)) ∧
    (((∃ p, Code.parse (.ofBytes s) = .error (.unopened p)) ∨
        ∃ p limit, Code.parse (.ofBytes s) = .error (.tooDeep p limit)) ↔ ∀ t, ¬ Accepted (s ++ t)) ∧
    ((∀ t, ¬ Accepted (s ++ t)) → ∀ t, Code.parse (.ofBytes (s ++ t)) = Code.parse (.ofBytes s)) := by
  have hextensible := extensible_iff s
  refine ⟨⟨?_, ?_⟩, ?_, ⟨?_, ?_⟩, ?_⟩
  · rintro ⟨q, hq⟩
    refine ⟨?_, hextensible.2 (not_misplaced_of_parse (by simp [hq]) (by simp [hq]))⟩
    rintro ⟨code, hcode⟩
    rw [hq] at hcode
    cases hcode
  · rintro ⟨hnot, hext⟩
    rcases answer_of_not_misplaced (hextensible.1 hext) with ⟨-, h⟩ | ⟨n, -, -, hq⟩
    · exact absurd h hnot
    · exact hq
  · intro q hq
    have hm : ∀ p, ¬ Misplaced s p := not_misplaced_of_parse (by simp [hq]) (by simp [hq])
    rcases answer_of_not_misplaced hm with ⟨-, code, hcode⟩ | ⟨n, hn, -, -⟩
    · rw [hq] at hcode
      cases hcode
    · refine ⟨n, hn, accepted_closed hm hn, ?_⟩
      intro t ht haccepted
      have := loopsOpen_le_of_accepted haccepted
      omega
  · intro herror t ht
    have hm := hextensible.1 ⟨t, ht⟩
    rcases answer_of_not_misplaced hm with ⟨-, code, hcode⟩ | ⟨n, -, -, q, hq⟩
    · simp [hcode] at herror
    · simp [hq] at herror
  · intro hnone
    obtain ⟨p, hp⟩ := exists_misplaced hnone
    rw [← Script.data_ofBytes s] at hp
    rcases parse_of_misplaced hp with h | ⟨q, hq⟩
    · exact Or.inl h
    · exact Or.inr ⟨q, _, hq⟩
  · intro hnone t
    obtain ⟨p, hp⟩ := exists_misplaced hnone
    exact parse_append_of_misplaced hp t

/-- two loops are open at the end of a text, and a closed one stands before it: two closing brackets complete it, one
does not; behind a stray bracket the same text is not looked at -/
theorem parse_by_extension_two_open :
    let s : List UInt8 := [0x2b, 0x5b, 0x5b, 0x5d, 0x2d, 0x5b]
    Code.parse (.ofBytes s) = .error (.unclosed 5) ∧ Accepted (s ++ [0x5d, 0x5d]) ∧ ¬ Accepted (s ++ [0x5d, 0x2b]) ∧
      (∀ t, ¬ Accepted ([0x5d] ++ t)) ∧ Code.parse (.ofBytes ([0x5d] ++ s)) = Code.parse (.ofBytes [0x5d]) := by
  intro s
  have hopen : Code.parse (.ofBytes s) = .error (.unclosed 5) := by
    rw [Code.parse_eq_scan]
    rfl
  have hstray : Code.parse (.ofBytes [0x5d]) = .error (.unopened 0) := by
    rw [Code.parse_eq_scan]
    rfl
  obtain ⟨n, hn, hclosed, hfewer⟩ := (parse_by_extension s).2.1 5 hopen
  have htwo : loopsOpen s s.length = 2 := by decide
  obtain rfl : n = 2 := by omega
  obtain ⟨-, -, hnone, hsame⟩ := parse_by_extension [0x5d]
  have hnever := hnone.1 (Or.inl ⟨0, hstray⟩)
  exact ⟨hopen, hclosed, hfewer [0x5d, 0x2b] (by decide), hnever, hsame hnever s⟩

end RingTape.Brackets
