/-
Reading a program in one pass. A `Scan` goes through the symbols of a source one after another and keeps a stack of
the brackets that are still open, with what stands before each of them in its own sequence. It never calls itself, so
what it does with a source is a fold, and facts about it are proved by induction on the symbols.

- `Script.data`, `Script.failure?`: the bytes that a source delivers, and the failure that stops it
- `located`: the symbols of a byte string with their offsets
- `Scan.next`, `Scan.run`, `Scan.stop`: one symbol, a list of symbols, the end of the source
- `sequence_eq_scan`: what the parser makes of one sequence is what the scan makes of it, inside any brackets
- `parse_eq_scan`: the parser gives the answer of the scan on every source, also on one that fails
-/
import RingTape.Code.Parser

namespace RingTape

/-! ## Sources -/

namespace Script

/-- the bytes that a source delivers before its first end or its first failure; an interrupted call is made again -/
def data : Script → List UInt8
  | [] => []
  | .byte b :: rest => b :: data rest
  | .ended :: _ => []
  | .failed f :: rest => if f.kind = .interrupted then data rest else []

/-- the failure that stops a source; a source that comes to its end has none -/
def failure? : Script → Option Failure
  | [] => none
  | .byte _ :: rest => failure? rest
  | .ended :: _ => none
  | .failed f :: rest => if f.kind = .interrupted then failure? rest else some f

@[simp] theorem data_ofBytes (bytes : List UInt8) : (ofBytes bytes).data = bytes := by
  induction bytes with
  | nil => rfl
  | cons b rest ih => simpa [ofBytes, data] using ih

@[simp] theorem failure?_ofBytes (bytes : List UInt8) : (ofBytes bytes).failure? = none := by
  induction bytes with
  | nil => rfl
  | cons b rest ih => simpa [ofBytes, failure?] using ih

end Script

/-- the symbols of a byte string that begins at an offset, each with its own offset -/
def located (offset : Nat) : List UInt8 → List (Nat × Symbol)
  | [] => []
  | b :: rest =>
    match Symbol.ofByte? b with
    | none => located (offset + 1) rest
    | some y => (offset, y) :: located (offset + 1) rest

theorem located_append (offset : Nat) (a b : List UInt8) :
    located offset (a ++ b) = located offset a ++ located (offset + a.length) b := by
  induction a generalizing offset with
  | nil => rfl
  | cons c rest ih =>
    have hlen : offset + (c :: rest).length = offset + 1 + rest.length := by simp; omega
    rw [hlen, List.cons_append, located, located]
    cases Symbol.ofByte? c with
    | none => exact ih (offset + 1)
    | some y => rw [ih (offset + 1), List.cons_append]

@[simp] theorem map_snd_located (offset : Nat) (bytes : List UInt8) :
    (located offset bytes).map Prod.snd = instructions bytes := by
  induction bytes generalizing offset with
  | nil => rfl
  | cons b rest ih =>
    rw [located, instructions, List.filterMap_cons]
    cases Symbol.ofByte? b with
    | none => exact ih (offset + 1)
    | some y => rw [List.map_cons, ih (offset + 1)]; rfl

/-! ## The scan -/

/-- a program that has been read up to some point -/
structure Scan where
  /-- what has been read of the sequence in hand, in opposite order -/
  done : Code
  /-- the offsets of the brackets still open, innermost first, each with what stands before it in its own sequence,
  in opposite order -/
  opened : List (Nat × Code)

namespace Scan

/-- nothing read -/
def start : Scan :=
  ⟨.nil, []⟩

/-- goes over one symbol -/
def next (s : Scan) (offset : Nat) : Symbol → Except ParseError Scan
  | .op o => .ok ⟨.op o s.done, s.opened⟩
  | .opens =>
    if s.opened.length = maxNesting then .error (.tooDeep offset maxNesting)
    else .ok ⟨.nil, (offset, s.done) :: s.opened⟩
  | .closes =>
    match s.opened with
    | [] => .error (.unopened offset)
    | (_, outer) :: rest => .ok ⟨.loop s.done.reverse outer, rest⟩

/-- goes over symbols in their order -/
def run (s : Scan) (symbols : List (Nat × Symbol)) : Except ParseError Scan :=
  symbols.foldlM (fun t p => t.next p.1 p.2) s

/-- the answer when the source ends here, or fails here -/
def stop (s : Scan) : Option Failure → Except ParseError Code
  | some f => .error (.unreadable f)
  | none =>
    match s.opened with
    | [] => .ok s.done.reverse
    | (bracket, _) :: _ => .error (.unclosed bracket)

/-- the answer on what is left of a source -/
def answer (s : Scan) (offset : Nat) (source : Script) : Except ParseError Code :=
  (s.run (located offset source.data)).bind fun t => t.stop source.failure?

@[simp] theorem run_nil (s : Scan) : s.run [] = .ok s := rfl

theorem run_cons (s : Scan) (offset : Nat) (y : Symbol) (l : List (Nat × Symbol)) :
    s.run ((offset, y) :: l) = (s.next offset y).bind fun t => t.run l := rfl

theorem run_append (s : Scan) (l m : List (Nat × Symbol)) :
    s.run (l ++ m) = (s.run l).bind fun t => t.run m :=
  List.foldlM_append

theorem run_cons_of_ok {s t : Scan} {offset : Nat} {y : Symbol} (h : s.next offset y = .ok t)
    (l : List (Nat × Symbol)) : s.run ((offset, y) :: l) = t.run l := by
  rw [run_cons, h]; rfl

theorem run_cons_of_error {s : Scan} {offset : Nat} {y : Symbol} {e : ParseError}
    (h : s.next offset y = .error e) (l : List (Nat × Symbol)) : s.run ((offset, y) :: l) = .error e := by
  rw [run_cons, h]; rfl

theorem run_append_of_ok {s t : Scan} {l : List (Nat × Symbol)} (h : s.run l = .ok t) (m : List (Nat × Symbol)) :
    s.run (l ++ m) = t.run m := by
  rw [run_append, h]; rfl

/-- whatever holds at first and is kept by each symbol holds as far as a scan gets -/
theorem run_induction {P : Scan → List Symbol → Prop} {s : Scan} {past : List Symbol} (h0 : P s past)
    (hstep : ∀ {s t : Scan} {past : List Symbol} {offset : Nat} {y : Symbol},
      P s past → s.next offset y = .ok t → P t (past ++ [y]))
    {l : List (Nat × Symbol)} {t : Scan} (h : s.run l = .ok t) : P t (past ++ l.map Prod.snd) := by
  induction l generalizing s past with
  | nil =>
    cases h
    simpa using h0
  | cons p l ih =>
    obtain ⟨offset, y⟩ := p
    cases hn : s.next offset y with
    | error e => rw [run_cons_of_error hn] at h; cases h
    | ok u =>
      rw [run_cons_of_ok hn] at h
      have := ih (hstep h0 hn) h
      simpa using this

/-! ## The answer, one call on the source at a time -/

theorem answer_interrupted (s : Scan) (offset : Nat) {f : Failure} (hf : f.kind = .interrupted) (rest : Script) :
    s.answer offset (.failed f :: rest) = s.answer offset rest := by
  simp [answer, Script.data, Script.failure?, hf]

theorem answer_failed (s : Scan) (offset : Nat) {f : Failure} (hf : f.kind ≠ .interrupted) (rest : Script) :
    s.answer offset (.failed f :: rest) = .error (.unreadable f) := by
  simp [answer, Script.data, Script.failure?, hf, located, Except.bind, stop]

theorem answer_comment (s : Scan) (offset : Nat) {b : UInt8} (hb : Symbol.ofByte? b = none) (rest : Script) :
    s.answer offset (.byte b :: rest) = s.answer (offset + 1) rest := by
  simp [answer, Script.data, Script.failure?, located, hb]

theorem answer_symbol (s : Scan) (offset : Nat) {b : UInt8} {y : Symbol} (hb : Symbol.ofByte? b = some y)
    (rest : Script) :
    s.answer offset (.byte b :: rest) = (s.next offset y).bind fun t => t.answer (offset + 1) rest := by
  simp only [answer, Script.data, Script.failure?, located, hb, run_cons]
  cases s.next offset y <;> rfl

end Scan

/-! ## The parser and the scan -/

namespace Code

open Scan

/-- how a scan goes on from a sequence that the parser has read: with the loop added to the sequence around it, or, at
the top level, not at all -/
def resume {whole : Script} (opened : List (Nat × Code)) (b : Block whole) : Except ParseError Code :=
  match opened with
  | [] => .ok b.code
  | (_, outer) :: rest => answer ⟨.loop b.code outer, rest⟩ b.offset b.rest

/-- **One sequence.** The parser, told the innermost open bracket and the number of open brackets, fails where the scan
fails and with the same error, or the scan goes on from the sequence it has read. -/
theorem sequence_eq_scan {whole : Script} {opened : List (Nat × Code)} {inside : Option Nat} {depth : Nat}
    (hi : inside = opened.head?.map Prod.fst) (hd : depth = opened.length) (offset : Nat) (done : Code)
    (source : Script) (hs : source <:+ whole) :
    answer ⟨done, opened⟩ offset source =
      (sequence whole inside depth offset done source hs).bind (resume opened) := by
  -- the stack is general: the call below an opening bracket runs on one entry more
  fun_induction sequence whole inside depth offset done source hs generalizing opened with
  | case1 | case2 | case3 | case4 =>
    cases opened with
    | nil => cases hi <;> rfl
    | cons p rest => cases hi <;> rfl
  | case5 whole inside depth offset done f rest hs hf _ ih => rw [answer_interrupted _ _ hf, ih hi hd]
  | case6 whole inside depth offset done f rest hs hf => rw [answer_failed _ _ hf]; rfl
  | case7 whole inside depth offset done b rest hs hr hb _ ih => rw [answer_comment _ _ hb, ih hi hd]
  | case8 whole inside depth offset done b rest hs hr o hb _ ih =>
    rw [answer_symbol _ _ hb, ← ih hi hd]
    rfl
  | case9 whole inside offset done b rest hs hr hb =>
    rw [answer_symbol _ _ hb, next, if_pos hd.symm]
    rfl
  | case10 whole inside depth offset done b rest hs hr hb hdeep e he _ ih =>
    have hbody := @ih ((offset, done) :: opened) rfl (by simp [hd])
    rw [answer_symbol _ _ hb, next, if_neg (hd ▸ hdeep)]
    rw [he] at hbody
    exact hbody
  | case11 whole inside depth offset done b rest hs hr hb hdeep body he _ ih ih' =>
    have hbody := @ih ((offset, done) :: opened) rfl (by simp [hd])
    rw [answer_symbol _ _ hb, next, if_neg (hd ▸ hdeep), ← ih' hi hd]
    rw [he] at hbody
    exact hbody
  | case12 whole depth offset done b rest hs hr hb bracket =>
    cases opened with
    | nil => cases hi
    | cons p opened => rw [answer_symbol _ _ hb]; rfl
  | case13 whole depth offset done b rest hs hr hb =>
    cases opened with
    | nil => rw [answer_symbol _ _ hb]; rfl
    | cons p opened => cases hi

/-- **The scan is the parser.** On every source, whether it ends or fails, the parser gives the answer of the scan. -/
theorem parse_eq_scan (source : Script) :
    parse source = (start.run (located 0 source.data)).bind fun s => s.stop source.failure? := by
  have h : answer start 0 source =
      (sequence source none 0 0 .nil source (List.suffix_refl source)).bind (resume []) :=
    sequence_eq_scan rfl rfl 0 .nil source (List.suffix_refl source)
  rw [← answer, h, parse, parsePart]
  cases sequence source none 0 0 .nil source (List.suffix_refl source) <;> rfl

end Code

end RingTape
