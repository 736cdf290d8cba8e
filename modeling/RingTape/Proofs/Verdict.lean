/-
The parser's verdict is the one that counting brackets gives. The offsets on the stack of a scan are followed through
the source: each of them is a bracket that has not been closed yet, and the number of loops open at any later offset is
larger than at that bracket.

- `Unclosed`: offsets of brackets that are open before an offset, innermost first
- `Counted`: the stack of a scan agrees with the count of loops
- `next_counted`: one symbol keeps it, whatever the symbol
- `run_counted`: so a scan gets to every offset that has no misplaced bracket before it, and agrees there
- `parse_of_stray`, `parse_of_excessive`: the first misplaced bracket decides, whatever follows it
- `parse_of_not_misplaced`: without one, where the source stops decides
- `parse_verdict`: the verdict on a source that is read to its end
-/
import RingTape.Code.Brackets
import RingTape.Proofs.Scan

namespace RingTape.Brackets

/-! ## Counting -/

instance (bytes : List UInt8) (p : Nat) : Decidable (Stray bytes p) :=
  inferInstanceAs (Decidable (_ ∧ _))

instance (bytes : List UInt8) (p : Nat) : Decidable (Excessive bytes p) :=
  inferInstanceAs (Decidable (_ ∧ _))

instance (bytes : List UInt8) (p : Nat) : Decidable (Misplaced bytes p) :=
  inferInstanceAs (Decidable (_ ∨ _))

instance (bytes : List UInt8) (q : Nat) : Decidable (LeftOpen bytes q) :=
  decidable_of_iff
    (bytes[q]? = some Symbol.opens.byte ∧
      ∀ r, r < bytes.length + 1 → q < r → loopsOpen bytes q < loopsOpen bytes r)
    ⟨fun h => ⟨h.1, fun r hq hr => h.2 r (by omega) hq⟩, fun h => ⟨h.1, fun r hr hq => h.2 r hq (by omega)⟩⟩

theorem lt_length_of_getElem? {bytes : List UInt8} {p : Nat} {b : UInt8} (h : bytes[p]? = some b) :
    p < bytes.length :=
  (List.getElem?_eq_some_iff.1 h).1

theorem lt_length_of_misplaced {bytes : List UInt8} {p : Nat} (h : Misplaced bytes p) : p < bytes.length := by
  rcases h with h | h
  · exact lt_length_of_getElem? h.1
  · exact lt_length_of_getElem? h.1

/-- what a symbol adds to the number of open loops -/
def weight : Symbol → Int
  | .op _ => 0
  | .opens => 1
  | .closes => -1

@[simp] theorem loopsOpen_zero (bytes : List UInt8) : loopsOpen bytes 0 = 0 := by
  simp [loopsOpen]

theorem take_succ_of_getElem? {bytes : List UInt8} {i : Nat} {b : UInt8} (hb : bytes[i]? = some b) :
    bytes.take (i + 1) = bytes.take i ++ [b] := by
  rw [List.take_add_one, hb, Option.toList_some]

theorem loopsOpen_succ_of_comment {bytes : List UInt8} {i : Nat} {b : UInt8} (hb : bytes[i]? = some b)
    (hc : Symbol.ofByte? b = none) : loopsOpen bytes (i + 1) = loopsOpen bytes i := by
  have hopens : b ≠ Symbol.opens.byte := by rintro rfl; simp at hc
  have hcloses : b ≠ Symbol.closes.byte := by rintro rfl; simp at hc
  rw [loopsOpen, loopsOpen, take_succ_of_getElem? hb, List.count_append, List.count_append,
    List.count_singleton, List.count_singleton, if_neg (by simpa using hopens), if_neg (by simpa using hcloses)]
  simp

theorem loopsOpen_succ {bytes : List UInt8} {i : Nat} {y : Symbol} (hb : bytes[i]? = some y.byte) :
    loopsOpen bytes (i + 1) = loopsOpen bytes i + weight y := by
  rw [loopsOpen, loopsOpen, take_succ_of_getElem? hb, List.count_append, List.count_append]
  have hone : ∀ y : Symbol,
      (([y.byte].count Symbol.opens.byte : Nat) : Int) - ([y.byte].count Symbol.closes.byte : Nat) = weight y := by
    intro y
    cases y with
    | op o => cases o <;> decide
    | opens => decide
    | closes => decide
  have := hone y
  omega

/-! ## The stack of a scan -/

/-- brackets that are open before offset `i`, innermost first; every later offset up to `i` has more loops around it
than each of them -/
def Unclosed (bytes : List UInt8) (i : Nat) : List Nat → Prop
  | [] => True
  | q :: rest =>
    (q < i ∧ bytes[q]? = some Symbol.opens.byte ∧ loopsOpen bytes q = rest.length ∧
      ∀ r, q < r → r ≤ i → loopsOpen bytes q < loopsOpen bytes r) ∧
    Unclosed bytes i rest

/-- open brackets are open one byte later too, as long as no fewer loops are open there than there are brackets -/
theorem Unclosed.succ {bytes : List UInt8} {i : Nat} {qs : List Nat} (h : Unclosed bytes i qs)
    (hlen : (qs.length : Int) ≤ loopsOpen bytes (i + 1)) : Unclosed bytes (i + 1) qs := by
  induction qs with
  | nil => trivial
  | cons q rest ih =>
    obtain ⟨⟨hq, hb, hcount, hlater⟩, hrest⟩ := h
    simp only [List.length_cons, Int.natCast_add, Int.cast_ofNat_Int] at hlen
    refine ⟨⟨by omega, hb, hcount, fun r hqr hri => ?_⟩, ih hrest (by omega)⟩
    by_cases hr : r = i + 1
    · subst hr
      omega
    · exact hlater r hqr (by omega)

/-- the stack of a scan is the brackets open before an offset, and their number the number of open loops -/
structure Counted (bytes : List UInt8) (i : Nat) (s : Scan) : Prop where
  count : loopsOpen bytes i = s.opened.length
  unclosed : Unclosed bytes i (s.opened.map Prod.fst)

theorem counted_start (bytes : List UInt8) : Counted bytes 0 Scan.start :=
  ⟨loopsOpen_zero bytes, trivial⟩

theorem counted_comment {bytes : List UInt8} {i : Nat} {b : UInt8} {s : Scan} (h : Counted bytes i s)
    (hb : bytes[i]? = some b) (hc : Symbol.ofByte? b = none) : Counted bytes (i + 1) s := by
  have hsame := loopsOpen_succ_of_comment hb hc
  have hlen : ((s.opened.map Prod.fst).length : Int) = loopsOpen bytes (i + 1) := by
    rw [hsame, h.count, List.length_map]
  exact ⟨hsame.trans h.count, h.unclosed.succ (Int.le_of_eq hlen)⟩

theorem next_counted {bytes : List UInt8} {i : Nat} {y : Symbol} {s t : Scan} (h : Counted bytes i s)
    (hb : bytes[i]? = some y.byte) (hn : s.next i y = .ok t) : Counted bytes (i + 1) t := by
  have hsucc := loopsOpen_succ hb
  obtain ⟨hcount, hopen⟩ := h
  cases y with
  | op o =>
    cases hn
    simp only [weight] at hsucc
    exact ⟨by simp only; omega, hopen.succ (by rw [List.length_map]; omega)⟩
  | opens =>
    rw [Scan.next] at hn
    split at hn
    · cases hn
    · cases hn
      simp only [weight] at hsucc
      refine ⟨by simp only [List.length_cons]; omega,
        ⟨Nat.lt_succ_self i, hb, by simpa using hcount, fun r hir hri => ?_⟩,
        hopen.succ (by rw [List.length_map]; omega)⟩
      have : r = i + 1 := Nat.le_antisymm hri hir
      subst this
      show loopsOpen bytes i < loopsOpen bytes (i + 1)
      omega
  | closes =>
    obtain ⟨done, opened⟩ := s
    cases opened with
    | nil => cases hn
    | cons p rest =>
      cases hn
      simp only [weight] at hsucc
      simp only [List.length_cons] at hcount
      exact ⟨by simp only; omega, hopen.2.succ (by rw [List.length_map]; omega)⟩

/-- a symbol that is no misplaced bracket is gone over -/
theorem next_of_not_misplaced {bytes : List UInt8} {i : Nat} {y : Symbol} {s : Scan} (h : Counted bytes i s)
    (hb : bytes[i]? = some y.byte) (hm : ¬ Misplaced bytes i) : ∃ t, s.next i y = .ok t := by
  cases y with
  | op o => exact ⟨_, rfl⟩
  | opens =>
    have hroom : s.opened.length ≠ maxNesting := fun hfull => hm (Or.inr ⟨hb, by rw [h.count, hfull]⟩)
    exact ⟨_, if_neg hroom⟩
  | closes =>
    obtain ⟨done, opened⟩ := s
    cases opened with
    | nil => exact absurd (Or.inl ⟨hb, h.count⟩) hm
    | cons p rest => exact ⟨_, rfl⟩

/-- **How far a scan gets.** It goes over all bytes before an offset if none of them is a misplaced bracket, and then
its stack is the brackets open there. -/
theorem run_counted (bytes : List UInt8) (i : Nat) (hi : i ≤ bytes.length) (hm : ∀ q < i, ¬ Misplaced bytes q) :
    ∃ s, Scan.start.run (located 0 (bytes.take i)) = .ok s ∧ Counted bytes i s := by
  induction i with
  | zero => exact ⟨Scan.start, rfl, counted_start bytes⟩
  | succ i ih =>
    obtain ⟨s, hrun, hs⟩ := ih (by omega) fun q hq => hm q (by omega)
    obtain ⟨b, hb⟩ : ∃ b, bytes[i]? = some b := ⟨_, List.getElem?_eq_getElem (by omega)⟩
    have hlen : (bytes.take i).length = i := by simp; omega
    rw [take_succ_of_getElem? hb, located_append, hlen, Nat.zero_add, Scan.run_append_of_ok hrun, located]
    cases hy : Symbol.ofByte? b with
    | none => exact ⟨s, rfl, counted_comment hs hb hy⟩
    | some y =>
      rw [← Symbol.byte_of_ofByte? hy] at hb
      obtain ⟨t, ht⟩ := next_of_not_misplaced hs hb (hm i (by omega))
      exact ⟨t, Scan.run_cons_of_ok ht _, next_counted hs hb ht⟩

/-! ## The verdict -/

/-- a scan that cannot go over the symbol at an offset fails there, whatever follows -/
theorem run_of_next_error {bytes : List UInt8} {p : Nat} {y : Symbol} {e : ParseError} (hb : bytes[p]? = some y.byte)
    (hm : ∀ q < p, ¬ Misplaced bytes q) (hn : ∀ s, Counted bytes p s → s.next p y = .error e) :
    Scan.start.run (located 0 bytes) = .error e := by
  have hp := lt_length_of_getElem? hb
  obtain ⟨s, hrun, hs⟩ := run_counted bytes p (by omega) hm
  have hlen : (bytes.take p).length = p := by simp; omega
  have hsplit : bytes = bytes.take p ++ y.byte :: bytes.drop (p + 1) := by
    rw [← (List.getElem?_eq_some_iff.1 hb).2, ← List.drop_eq_getElem_cons hp, List.take_append_drop]
  rw [hsplit, located_append, hlen, Nat.zero_add, Scan.run_append_of_ok hrun, located, Symbol.ofByte?_byte]
  exact Scan.run_cons_of_error (hn s hs) _

/-- **A stray bracket** that is the first misplaced one is reported, whatever follows it and however the source ends. -/
theorem parse_of_stray {source : Script} {p : Nat} (hp : Stray source.data p)
    (hm : ∀ q < p, ¬ Misplaced source.data q) : Code.parse source = .error (.unopened p) := by
  have hnext : ∀ s, Counted source.data p s → s.next p .closes = .error (.unopened p) := by
    intro ⟨done, opened⟩ hs
    have hcount := hs.count
    rw [hp.2] at hcount
    have hnil : opened = [] := List.length_eq_zero_iff.1 (by simpa using hcount.symm)
    rw [hnil]
    rfl
  rw [Code.parse_eq_scan, run_of_next_error hp.1 hm hnext]
  rfl

/-- **A loop too deep** at the first misplaced bracket is reported, whatever follows and however the source ends. -/
theorem parse_of_excessive {source : Script} {p : Nat} (hp : Excessive source.data p)
    (hm : ∀ q < p, ¬ Misplaced source.data q) : Code.parse source = .error (.tooDeep p maxNesting) := by
  have hnext : ∀ s, Counted source.data p s → s.next p .opens = .error (.tooDeep p maxNesting) := by
    intro s hs
    have hcount := hs.count
    rw [hp.2] at hcount
    exact if_pos (by omega)
  rw [Code.parse_eq_scan, run_of_next_error hp.1 hm hnext]
  rfl

/-- without a misplaced bracket a scan comes to where the source stops, and that decides -/
theorem parse_of_not_misplaced {source : Script} (hm : ∀ p, ¬ Misplaced source.data p) :
    ∃ s, Counted source.data source.data.length s ∧ Code.parse source = s.stop source.failure? := by
  obtain ⟨s, hrun, hs⟩ := run_counted source.data source.data.length (Nat.le_refl _) fun q _ => hm q
  rw [List.take_length] at hrun
  refine ⟨s, hs, ?_⟩
  rw [Code.parse_eq_scan, hrun]
  rfl

/-- the innermost open bracket is the last one that is left open -/
theorem leftOpen_of_unclosed {bytes : List UInt8} {q : Nat} {rest : List Nat}
    (h : Unclosed bytes bytes.length (q :: rest)) (hcount : loopsOpen bytes bytes.length = rest.length + 1) :
    LeftOpen bytes q ∧ ∀ p, LeftOpen bytes p → p ≤ q := by
  obtain ⟨⟨hq, hb, hd, hlater⟩, -⟩ := h
  refine ⟨⟨hb, hlater⟩, fun p hp => Nat.not_lt.1 fun hlt => ?_⟩
  have hlen := lt_length_of_getElem? hp.1
  have habove := hlater p (by omega) (by omega)
  have hbelow := hp.2 bytes.length hlen (Nat.le_refl _)
  omega

/-- **The verdict.** On a source that is read to its end, the first misplaced bracket is reported if there is one.
Without one the source is accepted if as many loops are closed as opened, and if not, the bracket reported is the
innermost one still open. -/
theorem parse_verdict (source : Script) (hf : source.failure? = none) :
    (∀ p, Stray source.data p → (∀ q < p, ¬ Misplaced source.data q) →
      Code.parse source = .error (.unopened p)) ∧
    (∀ p, Excessive source.data p → (∀ q < p, ¬ Misplaced source.data q) →
      Code.parse source = .error (.tooDeep p 1024)) ∧
    ((∀ p, ¬ Misplaced source.data p) →
      (loopsOpen source.data source.data.length = 0 → ∃ t, Code.parse source = .ok t) ∧
      (loopsOpen source.data source.data.length ≠ 0 →
        ∃ q, LeftOpen source.data q ∧ (∀ p, LeftOpen source.data p → p ≤ q) ∧
          Code.parse source = .error (.unclosed q))) := by
  refine ⟨fun p hp hm => parse_of_stray hp hm, fun p hp hm => parse_of_excessive hp hm, ?_⟩
  intro hm
  obtain ⟨⟨done, opened⟩, hrun, hs⟩ := run_counted source.data source.data.length (Nat.le_refl _) fun q _ => hm q
  have hparse : Code.parse source = Scan.stop ⟨done, opened⟩ none := by
    rw [List.take_length] at hrun
    rw [Code.parse_eq_scan, hrun, hf]
    rfl
  obtain ⟨hcount, hopen⟩ := hs
  cases opened with
  | nil => exact ⟨fun _ => ⟨_, hparse⟩, fun hne => absurd hcount hne⟩
  | cons b rest =>
    simp only [List.length_cons] at hcount
    refine ⟨fun hz => by omega, fun _ => ⟨b.1, ?_⟩⟩
    obtain ⟨hleft, hlast⟩ := leftOpen_of_unclosed hopen (by rw [List.length_map]; exact hcount)
    exact ⟨hleft, hlast, hparse⟩

/-- a closed loop inside an open one, and behind it the innermost bracket that is left open -/
theorem parse_verdict_siblings :
    let source := Script.ofBytes [0x2b, 0x5b, 0x5b, 0x5d, 0x5b]
    source.failure? = none ∧ (∀ p, ¬ Misplaced source.data p) ∧ loopsOpen source.data source.data.length ≠ 0 ∧
      Code.parse source = .error (.unclosed 4) := by
  intro source
  have hm : ∀ p, ¬ Misplaced source.data p := by
    intro p hp
    have hall : ∀ p < 5, ¬ Misplaced source.data p := by decide
    exact hall p (lt_length_of_misplaced hp) hp
  obtain ⟨q, hq, hlast, hparse⟩ := ((parse_verdict source (by decide)).2.2 hm).2 (by decide)
  have hge := hlast 4 (by decide)
  have hlt : q < 5 := lt_length_of_getElem? hq.1
  have : q = 4 := by omega
  subst this
  exact ⟨by decide, hm, by decide, hparse⟩

end RingTape.Brackets
