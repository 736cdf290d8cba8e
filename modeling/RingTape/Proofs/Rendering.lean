/-
Programs and the texts they are written as. Reading a text and writing a program undo each other, up to comments.

- `Symbol.characters`: the eight bytes that are not comments
- `Scan.Past`: the symbols that a scan has gone over, and the nesting it has seen
- `run_past`: a scan only ever holds what it has gone over, and no loop nests deeper than allowed
- `run_of_symbols`: on the symbols of a program that is not nested too deep the scan adds that program
- `parse_eq_ok_iff_symbols`: which program the parser returns, said with symbols
- `parse_ok_iff_render`: the same said with bytes; rendered programs are recovered, and accepted sources hold the same
  program if and only if they have the same instruction bytes
-/
import RingTape.Proofs.Scan

namespace RingTape

/-! ## The bytes that are not comments -/

/-- the characters a program is written in -/
def Symbol.characters : List UInt8 :=
  ['+', '-', '<', '>', '.', ',', '[', ']'].map Char.toUInt8

theorem Symbol.byte_injective {x y : Symbol} (h : x.byte = y.byte) : x = y := by
  have := congrArg Symbol.ofByte? h
  simpa using this

theorem Symbol.byte_mem_characters (x : Symbol) : x.byte ∈ Symbol.characters := by
  cases x with
  | op o => cases o <;> decide
  | opens => decide
  | closes => decide

theorem Symbol.not_mem_characters {b : UInt8} (h : Symbol.ofByte? b = none) : b ∉ Symbol.characters := by
  intro hb
  have hall : (Symbol.characters.all fun c => (Symbol.ofByte? c).isSome) = true := by decide
  have hsome := List.all_eq_true.1 hall b hb
  rw [h] at hsome
  cases hsome

/-- writing the symbols of a byte string down leaves its comments out -/
theorem map_byte_instructions (bytes : List UInt8) :
    (instructions bytes).map Symbol.byte = bytes.filter (· ∈ Symbol.characters) := by
  induction bytes with
  | nil => rfl
  | cons b rest ih =>
    rw [instructions, List.filterMap_cons, List.filter_cons]
    cases hb : Symbol.ofByte? b with
    | none => simpa [Symbol.not_mem_characters hb, instructions] using ih
    | some y =>
      have hy := Symbol.byte_of_ofByte? hb
      have hmem : b ∈ Symbol.characters := hy ▸ Symbol.byte_mem_characters y
      rw [if_pos (by simpa using hmem), List.map_cons, hy]
      exact congrArg (b :: ·) ih

namespace Code

theorem render_eq_iff_symbols (t : Code) (bytes : List UInt8) :
    t.render = bytes.filter (· ∈ Symbol.characters) ↔ t.symbols = instructions bytes := by
  rw [render, ← map_byte_instructions]
  exact List.map_inj_right fun _ _ => Symbol.byte_injective

@[simp] theorem instructions_render (t : Code) : instructions t.render = t.symbols := by
  have hinv : Symbol.ofByte? ∘ Symbol.byte = some := funext Symbol.ofByte?_byte
  rw [render, instructions, List.filterMap_map, hinv, List.filterMap_some]

@[simp] theorem nesting_reverse (c : Code) : c.reverse.nesting = c.nesting := by
  induction c with
  | nil => rfl
  | op o rest ih => simp [nesting, ih]
  | loop body rest _ ih => simp [nesting, ih, Nat.max_comm]

end Code

/-! ## What a scan has gone over -/

namespace Scan

/-- the symbols before the innermost open loop's body -/
def before : List (Nat × Code) → List Symbol
  | [] => []
  | (_, outer) :: rest => before rest ++ (outer.reverse.symbols ++ [.opens])

/-- what stands before the open brackets is not nested too deep -/
def Around : List (Nat × Code) → Prop
  | [] => True
  | (_, outer) :: rest => outer.nesting + rest.length ≤ maxNesting ∧ Around rest

/-- the scan has gone over these symbols -/
structure Past (s : Scan) (past : List Symbol) : Prop where
  written : before s.opened ++ s.done.reverse.symbols = past
  inner : s.done.nesting + s.opened.length ≤ maxNesting
  outer : Around s.opened

theorem past_start : Past start [] :=
  ⟨rfl, Nat.zero_le _, trivial⟩

theorem next_past {s t : Scan} {past : List Symbol} {offset : Nat} {y : Symbol} (h : Past s past)
    (hn : s.next offset y = .ok t) : Past t (past ++ [y]) := by
  obtain ⟨hw, hi, ho⟩ := h
  cases y with
  | op o =>
    cases hn
    exact ⟨by simp [← hw, Code.symbols], by simpa [Code.nesting] using hi, ho⟩
  | opens =>
    rw [next] at hn
    split at hn
    · cases hn
    · cases hn
      refine ⟨by simp [← hw, before, Code.symbols], ?_, hi, ho⟩
      simp only [Code.nesting, List.length_cons]
      omega
  | closes =>
    obtain ⟨done, opened⟩ := s
    cases opened with
    | nil => cases hn
    | cons p opened =>
      cases hn
      simp only [List.length_cons] at hi
      refine ⟨by simp [← hw, before, Code.symbols], ?_, ho.2⟩
      have := ho.1
      simp only [Code.nesting, Code.nesting_reverse]
      omega

/-- a scan holds exactly what it has gone over -/
theorem run_past {l : List (Nat × Symbol)} {t : Scan} (h : start.run l = .ok t) : Past t (l.map Prod.snd) :=
  run_induction past_start next_past h

/-- **Completeness.** On the symbols of a program that fits inside the open brackets, whatever their offsets, the scan
adds that program to the sequence in hand and leaves the open brackets as they were. -/
theorem run_of_symbols (t : Code) (s : Scan) (l : List (Nat × Symbol)) (hl : l.map Prod.snd = t.symbols)
    (hn : s.opened.length + t.nesting ≤ maxNesting) : s.run l = .ok ⟨t.reverse ++ s.done, s.opened⟩ := by
  induction t generalizing s l with
  | nil =>
    rw [List.map_eq_nil_iff.1 hl]
    rfl
  | op o rest ih =>
    obtain ⟨⟨k, y⟩, l, rfl, rfl, hrest⟩ := List.map_eq_cons_iff.1 hl
    rw [run_cons_of_ok rfl, ih ⟨.op o s.done, s.opened⟩ l hrest hn]
    simp [Code.append_assoc]
  | loop body rest ihb ihr =>
    obtain ⟨⟨k, y⟩, l, rfl, rfl, hl'⟩ := List.map_eq_cons_iff.1 hl
    obtain ⟨lb, l, rfl, hbody, hclose⟩ := List.map_eq_append_iff.1 hl'
    obtain ⟨⟨k', y⟩, l, rfl, rfl, hrest⟩ := List.map_eq_cons_iff.1 hclose
    rw [Code.nesting] at hn
    have hopen : s.next k .opens = .ok ⟨.nil, (k, s.done) :: s.opened⟩ := if_neg (by omega)
    have hinside : run ⟨.nil, (k, s.done) :: s.opened⟩ lb = .ok ⟨body.reverse, (k, s.done) :: s.opened⟩ := by
      simpa using ihb ⟨.nil, (k, s.done) :: s.opened⟩ lb hbody (by simp only [List.length_cons]; omega)
    have hshut : next ⟨body.reverse, (k, s.done) :: s.opened⟩ k' .closes = .ok ⟨.loop body s.done, s.opened⟩ := by
      simp [next]
    rw [run_cons_of_ok hopen, run_append_of_ok hinside, run_cons_of_ok hshut,
      ihr ⟨.loop body s.done, s.opened⟩ l hrest (by simp only; omega)]
    simp [Code.append_assoc]

end Scan

/-! ## Accepted sources -/

namespace Code

open Scan

theorem parse_eq_ok {source : Script} {t : Code} (h : parse source = .ok t) :
    source.failure? = none ∧ ∃ done, start.run (located 0 source.data) = .ok ⟨done, []⟩ ∧ done.reverse = t := by
  rw [parse_eq_scan] at h
  cases hr : start.run (located 0 source.data) with
  | error e => rw [hr] at h; cases h
  | ok s =>
    rw [hr] at h
    obtain ⟨done, opened⟩ := s
    cases hf : source.failure? with
    | some f => rw [hf] at h; cases h
    | none =>
      rw [hf] at h
      cases opened with
      | cons p opened => cases h
      | nil =>
        cases h
        exact ⟨rfl, done, rfl, rfl⟩

/-- a source holds the program whose symbols are its instructions, if there is one that is not nested too deep -/
theorem parse_eq_ok_iff_symbols (source : Script) (t : Code) :
    parse source = .ok t ↔
      source.failure? = none ∧ t.nesting ≤ maxNesting ∧ t.symbols = instructions source.data := by
  constructor
  · intro h
    obtain ⟨hf, done, hr, rfl⟩ := parse_eq_ok h
    have hp := run_past hr
    rw [map_snd_located] at hp
    exact ⟨hf, by simpa using hp.inner, hp.written⟩
  · rintro ⟨hf, hn, hsym⟩
    have hmap : (located 0 source.data).map Prod.snd = t.symbols := by rw [map_snd_located, hsym]
    have hrun := run_of_symbols t start _ hmap (by simpa [start] using hn)
    rw [parse_eq_scan, hrun, hf]
    simp [Except.bind, stop, start]

/-- **Parsing inverts rendering.** A source that is read to its end holds the program `t` if and only if `t` is not
nested deeper than 1024 and its rendering is the source without comments. So every such program is recovered from its
rendering, and two accepted sources hold equal programs if and only if their instruction bytes are equal. -/
theorem parse_ok_iff_render :
    (∀ (source : Script) (t : Code), source.failure? = none →
      (parse source = .ok t ↔
        t.nesting ≤ 1024 ∧ t.render = source.data.filter (· ∈ Symbol.characters))) ∧
    (∀ t : Code, t.nesting ≤ 1024 → parse (.ofBytes t.render) = .ok t) ∧
    (∀ (a b : Script) (s t : Code), parse a = .ok s → parse b = .ok t →
      (s = t ↔ a.data.filter (· ∈ Symbol.characters) = b.data.filter (· ∈ Symbol.characters))) := by
  refine ⟨?_, ?_, ?_⟩
  · intro source t hf
    rw [parse_eq_ok_iff_symbols, render_eq_iff_symbols]
    exact ⟨fun h => h.2, fun h => ⟨hf, h⟩⟩
  · intro t hn
    exact (parse_eq_ok_iff_symbols _ t).2 ⟨by simp, hn, by simp⟩
  · intro a b s t ha hb
    obtain ⟨hfa, hna, hsa⟩ := (parse_eq_ok_iff_symbols a s).1 ha
    obtain ⟨hfb, hnb, hsb⟩ := (parse_eq_ok_iff_symbols b t).1 hb
    constructor
    · rintro rfl
      rw [← map_byte_instructions, ← map_byte_instructions, ← hsa, ← hsb]
    · intro h
      have hs : s.render = b.data.filter (· ∈ Symbol.characters) := by
        rw [← h, ← map_byte_instructions, ← hsa, render]
      have hb' : parse b = .ok s :=
        (parse_eq_ok_iff_symbols b s).2 ⟨hfb, hna, (render_eq_iff_symbols s b.data).1 hs⟩
      rw [hb] at hb'
      cases hb'
      rfl

/-- a clearing loop between comments, from a source that is interrupted once and goes on behind its end -/
theorem parse_ok_iff_render_clearing :
    let source : Script :=
      [.byte 0x61, .byte 0x5b, .failed ⟨.interrupted, "again"⟩, .byte 0x2d, .byte 0xff, .byte 0x5d, .ended, .byte 0x5d]
    let t := loop (.op .decr .nil) .nil
    source.failure? = none ∧ t.nesting ≤ 1024 ∧ parse source = .ok t ∧ parse (.ofBytes t.render) = .ok t ∧
      source.data.filter (· ∈ Symbol.characters) =
        (Script.ofBytes t.render).data.filter (· ∈ Symbol.characters) := by
  intro source t
  have h : parse source = .ok t := (parse_ok_iff_render.1 source t (by decide)).2 ⟨by decide, by decide⟩
  have h' : parse (.ofBytes t.render) = .ok t := parse_ok_iff_render.2.1 t (by decide)
  exact ⟨by decide, by decide, h, h', (parse_ok_iff_render.2.2 source _ t t h h').1 rfl⟩

end Code

end RingTape
