/-
A program that copies its input. It reads a byte, and as long as the cell is not zero it writes the cell, clears it and
reads the next byte. At the end of the input a read leaves the cleared cell as it is, so the loop ends there; it also ends
at the first zero byte of the input, which has then been read but not written.

- `Streams.Plain`: streams without faults and alarms, with what they have left, have written and have delivered
- `Store.act_read_byte`, `Store.act_read_end`, `Store.act_print`: the stream instructions on such streams
- `Echo.body_ends`: one iteration writes the cell, clears it and reads the next byte, if there is one
- `Echo.iterates_body`: the loop writes the cell and what follows it in the input, up to the first zero byte
- `Echo.copies_input`: what the program makes of any input
-/
import RingTape.Proofs.Compositionality
import RingTape.Proofs.Reports

namespace RingTape

/-! ## Plain streams -/

theorem Channel.fault?_of_faultless {Fault : Type} {c : Channel Fault} (h : c.faults = []) : c.fault? = none := by
  rw [fault?, h]
  rfl

/-- streams without faults and alarms: the bytes they have left to deliver, the bytes that were written, and the number of
bytes that were delivered -/
structure Streams.Plain (s : Streams) (left written : List UInt8) (delivered : Nat) : Prop where
  serves : s.Serves false
  script : s.script = Script.ofBytes left
  out : s.out.toList = written
  consumed : s.consumed = delivered

namespace Streams.Plain

variable {s : Streams} {left written : List UInt8} {n : Nat}

theorem read_byte {b : UInt8} (h : s.Plain (b :: left) written n) :
    ∃ u, s.read = (.byte b, u) ∧ u.Plain left written (n + 1) := by
  have hfault := Channel.fault?_of_faultless h.serves.reads
  have hscript : s.script = .byte b :: Script.ofBytes left := h.script
  refine ⟨_, by rw [Streams.read, hfault, hscript], ?_⟩
  exact ⟨⟨h.serves.reads, h.serves.writes, h.serves.flushes, h.serves.alarmed⟩, rfl, h.out, congrArg (· + 1) h.consumed⟩

theorem read_end (h : s.Plain [] written n) : ∃ u, s.read = (.ended, u) ∧ u.Plain [] written n := by
  have hfault := Channel.fault?_of_faultless h.serves.reads
  have hscript : s.script = [] := h.script
  refine ⟨_, by rw [Streams.read, hfault, hscript], ?_⟩
  exact ⟨⟨h.serves.reads, h.serves.writes, h.serves.flushes, h.serves.alarmed⟩, rfl, h.out, h.consumed⟩

theorem write (h : s.Plain left written n) (b : UInt8) :
    ∃ u, s.write b = (.accepted, u) ∧ u.Plain left (written ++ [b]) n := by
  have hfault := Channel.fault?_of_faultless h.serves.writes
  refine ⟨_, by rw [Streams.write, hfault], ?_⟩
  refine ⟨⟨h.serves.reads, h.serves.writes, h.serves.flushes, h.serves.alarmed⟩, h.script, ?_, h.consumed⟩
  rw [Array.toList_push, h.out]

theorem flush (h : s.Plain left written n) : ∃ u, s.flush = (.done, u) ∧ u.Plain left written n := by
  have hfault := Channel.fault?_of_faultless (c := s.flushes) h.serves.flushes
  refine ⟨_, by rw [Streams.flush, hfault], ?_⟩
  exact ⟨⟨h.serves.reads, h.serves.writes, h.serves.flushes, h.serves.alarmed⟩, h.script, h.out, h.consumed⟩

end Streams.Plain

/-! ## Instructions on plain streams -/

namespace Store

variable {s : Store} {left written : List UInt8} {n : Nat}

theorem alarm_of_plain (h : s.streams.Plain left written n) (why : List String) : s.alarm why = s := by
  rw [alarm, h.serves.alarmed]

/-- a read takes the next byte -/
theorem act_read_byte {b : UInt8} (h : s.streams.Plain (b :: left) written n) :
    ∃ u, Op.read.act s = (.ok (), ⟨s.tape.put b, u, s.signals⟩) ∧ u.Plain left written (n + 1) := by
  obtain ⟨u, hread, hplain⟩ := h.read_byte
  have hcall : s.read = (.byte b, ⟨s.tape, u, s.signals⟩) := by rw [read_eq, alarm_of_plain h, hread]
  exact ⟨u, by rw [Op.act, readByte, hcall], hplain⟩

/-- a read at the end of the input makes one call and leaves the cell as it is -/
theorem act_read_end (h : s.streams.Plain [] written n) : ∃ u, Op.read.act s = (.ok (), ⟨s.tape, u, s.signals⟩) ∧
    u.Plain [] written n ∧ u.trace = s.streams.trace.push (.read .ended) := by
  obtain ⟨u, hread, hplain⟩ := h.read_end
  have hcall : s.read = (.ended, ⟨s.tape, u, s.signals⟩) := by rw [read_eq, alarm_of_plain h, hread]
  have htrace := s.streams.read_trace
  rw [hread] at htrace
  exact ⟨u, by rw [Op.act, readByte, hcall], hplain, htrace⟩

/-- a print writes the cell -/
theorem act_print (h : s.streams.Plain left written n) :
    ∃ u, Op.print.act s = (.ok (), ⟨s.tape, u, s.signals⟩) ∧ u.Plain left (written ++ [s.current]) n := by
  obtain ⟨u, hwrite, hplain⟩ := h.write s.current
  obtain ⟨v, hflush, hplain'⟩ := hplain.flush
  have hcall : s.write s.current = (.accepted, ⟨s.tape, u, s.signals⟩) := by rw [write_eq, alarm_of_plain h, hwrite]
  have hnext : flush ⟨s.tape, u, s.signals⟩ = (.done, ⟨s.tape, v, s.signals⟩) := by
    rw [flush_eq, alarm_of_plain hplain, hflush]
  exact ⟨v, by rw [Op.act, writeByte, pushByte, hcall]; simp only [hnext], hplain'⟩

end Store

namespace Walk

variable {token : Token}

/-- an instruction that does not fail is carried out, and the walk goes on from there -/
theorem ends_of_act {o : Op} {rest : Code} {s u t : Store} {r : Except RunError Unit} (hs : s.signals.reason? token = none)
    (hact : o.act s = (.ok (), u)) (h : (start rest u).Ends token r t) : (start (.op o rest) s).Ends token r t := by
  have hstep : (start (.op o rest) s).after token 1 = (start (.op o rest) s).step token := rfl
  refine (ends_after_iff 1).1 ?_
  rwa [hstep, step_of_act token hs hact]

end Walk

/-! ## The program -/

namespace Echo

/-- the iteration of the loop: the cell is written and cleared, and the next byte is read -/
def body : Code :=
  .op .print (.loop (.op .decr .nil) (.op .read .nil))

/-- the whole program -/
def program : Code :=
  .op .read (.loop body .nil)

/-- the program as it is written, with comments -/
def text : String :=
  "Copy stdin to stdout until the input runs dry\n"
    ++ "Reading past the end leaves the cell alone so a cleared cell ends the loop\n"
    ++ ",[.[-],]\n"

theorem parse_text : Code.parse (.ofBytes (Command.bytesOf text).toList) = .ok program := by
  refine (Code.parse_eq_ok_iff_symbols _ _).2 ⟨by simp, by decide, ?_⟩
  rw [Script.data_ofBytes]
  decide +kernel

/-- the number of bytes that are read of an input: those before its first zero byte, and this one if there is one -/
def bytesRead (given : List UInt8) : Nat :=
  (given.takeWhile (· ≠ 0)).length + (if 0 ∈ given then 1 else 0)

theorem bytesRead_zero (rest : List UInt8) : bytesRead (0 :: rest) = 1 := by
  simp [bytesRead]

theorem bytesRead_cons {b : UInt8} (hb : b ≠ 0) (rest : List UInt8) : bytesRead (b :: rest) = bytesRead rest + 1 := by
  have hmem : 0 ∈ b :: rest ↔ 0 ∈ rest := by
    rw [List.mem_cons]
    exact or_iff_right hb.symm
  simp only [bytesRead, List.takeWhile_cons, decide_eq_true hb, if_true, List.length_cons, hmem]
  omega

variable {token : Token} {s : Store} {left written : List UInt8} {n : Nat}

/-- **One iteration.** It writes the cell and leaves the next byte in it, or zero at the end of the input. -/
theorem body_ends (hs : s.signals.reason? token = none) (h : s.streams.Plain left written n) :
    ∃ u : Streams, (Walk.start body s).Ends token (.ok ()) ⟨s.tape.put (left.headD 0), u, s.signals⟩ ∧
      u.Plain left.tail (written ++ [s.current]) (n + (left.take 1).length) := by
  obtain ⟨u, hprint, hplain⟩ := Store.act_print h
  let cleared : Store := ⟨s.tape.put 0, u, s.signals⟩
  have hclear : (Walk.start (.loop (.op .decr .nil) .nil) ⟨s.tape, u, s.signals⟩).Ends token (.ok ()) cleared :=
    Code.ends_clear (Or.inr rfl) hs
  have hparts : Code.loop (.op .decr .nil) (.op .read .nil) = .loop (.op .decr .nil) .nil ++ .op .read .nil := rfl
  obtain ⟨v, hread, hplain'⟩ : ∃ v, Op.read.act cleared = (.ok (), ⟨s.tape.put (left.headD 0), v, s.signals⟩) ∧
      v.Plain left.tail (written ++ [s.current]) (n + (left.take 1).length) := by
    cases left with
    | nil =>
      obtain ⟨v, hread, hplain', -⟩ := Store.act_read_end (s := cleared) hplain
      exact ⟨v, hread, hplain'⟩
    | cons b rest =>
      obtain ⟨v, hread, hplain'⟩ := Store.act_read_byte (s := cleared) hplain
      refine ⟨v, hread.trans ?_, hplain'⟩
      rw [Tape.put_put]
      rfl
  refine ⟨v, Walk.ends_of_act hs hprint ?_, hplain'⟩
  rw [hparts]
  refine (Walk.ends_append_iff _ _ _ _ _).2 (Or.inr ⟨cleared, hclear, ?_⟩)
  exact Walk.ends_of_act hs hread (Walk.ends_nil_iff.2 ⟨rfl, rfl⟩)

theorem iterates_zero (hzero : s.current = 0) :
    Walk.Iterates token body s (.ok ()) ⟨s.tape.put 0, s.streams, s.signals⟩ := by
  have hkept : s.tape.put 0 = s.tape := by
    rw [← hzero]
    exact s.tape.put_current
  rw [hkept]
  exact .done hzero

/-- **The loop.** It writes the cell, which has been read already, and what follows it in the input, up to the first zero
byte. -/
theorem iterates_body (hs : s.signals.reason? token = none) (h : s.streams.Plain left written (n + 1)) :
    ∃ (u : Streams) (rest : List UInt8), Walk.Iterates token body s (.ok ()) ⟨s.tape.put 0, u, s.signals⟩ ∧
      u.Plain rest (written ++ (s.current :: left).takeWhile (· ≠ 0)) (n + bytesRead (s.current :: left)) := by
  induction left generalizing s written n with
  | nil =>
    by_cases hzero : s.current = 0
    · exact ⟨s.streams, [], iterates_zero hzero, by simpa [hzero, bytesRead_zero] using h⟩
    · obtain ⟨u, hbody, hplain⟩ := body_ends hs h
      refine ⟨u, [], .again hzero hbody (.done (Tape.current_put _ _)), ?_⟩
      rw [bytesRead_cons hzero]
      simpa [hzero, bytesRead] using hplain
  | cons b rest ih =>
    by_cases hzero : s.current = 0
    · exact ⟨s.streams, b :: rest, iterates_zero hzero, by simpa [hzero, bytesRead_zero] using h⟩
    · obtain ⟨u, hbody, hplain⟩ := body_ends hs h
      have hcell : Store.current ⟨s.tape.put b, u, s.signals⟩ = b := Tape.current_put _ _
      obtain ⟨v, left, hmore, hplain'⟩ := ih (s := ⟨s.tape.put b, u, s.signals⟩) hs hplain
      refine ⟨v, left, .again hzero hbody ?_, ?_⟩
      · rwa [Tape.put_put] at hmore
      · rw [hcell, List.append_assoc] at hplain'
        rw [bytesRead_cons hzero, List.takeWhile_cons_of_pos (by simpa using hzero)]
        rwa [Nat.add_assoc, Nat.add_comm 1] at hplain'

/-- the program on a store with a blank tape -/
theorem program_ends {given : List UInt8} (hs : s.signals.reason? token = none) (h : s.streams.Plain given written n)
    (htape : s.tape = .blank) : ∃ (u : Streams) (rest : List UInt8),
      (Walk.start program s).Ends token (.ok ()) ⟨.blank, u, s.signals⟩ ∧
        u.Plain rest (written ++ given.takeWhile (· ≠ 0)) (n + bytesRead given) := by
  cases given with
  | nil =>
    obtain ⟨u, hread, hplain, -⟩ := Store.act_read_end h
    have hzero : Store.current ⟨.blank, u, s.signals⟩ = 0 := Tape.cell_blank 0
    rw [htape] at hread
    refine ⟨u, [], Walk.ends_of_act hs hread ?_, by simpa [bytesRead] using hplain⟩
    exact (Walk.ends_loop_iff (t := ⟨.blank, u, s.signals⟩) hs).2 (.done hzero)
  | cons b given =>
    obtain ⟨u, hread, hplain⟩ := Store.act_read_byte h
    obtain ⟨v, rest, hloop, hplain'⟩ := iterates_body (s := ⟨s.tape.put b, u, s.signals⟩) hs hplain
    have hcell : Store.current ⟨s.tape.put b, u, s.signals⟩ = b := Tape.current_put _ _
    have hblank : (s.tape.put b).put 0 = .blank := by
      rw [Tape.put_put, htape]
      exact Tape.put_current .blank
    rw [hblank] at hloop
    rw [hcell] at hplain'
    refine ⟨v, rest, Walk.ends_of_act hs hread ?_, hplain'⟩
    exact (Walk.ends_loop_iff (t := ⟨.blank, v, s.signals⟩) hs).2 hloop

/-- **The program copies its input.** Whatever bytes it is given, on a fresh tape and with nothing that fails or raises the
signal, it comes back completed. It has written the bytes before the first zero byte, or all of them if there is none; it
has read the zero byte, too, and nothing behind it; and the tape is blank again. -/
theorem copies_input (given : List UInt8) (token : Token) (signals : Signals) (hquiet : signals.reason? token = none) :
    ∃ code, Code.parse (.ofBytes (Command.bytesOf text).toList) = .ok code ∧
      ∃ f, (Interpreter.new .blank { script := .ofBytes given }).Returns code token signals f ∧ f.result = .ok () ∧
        f.interpreter.status = .completed ∧ f.interpreter.streams.out.toList = given.takeWhile (· ≠ 0) ∧
        f.interpreter.streams.consumed = (given.takeWhile (· ≠ 0)).length + (if 0 ∈ given then 1 else 0) ∧
        f.interpreter.tape = .blank := by
  let s : Store := ⟨.blank, { script := .ofBytes given }, signals⟩
  have hstart : s.streams.Plain given [] 0 := ⟨⟨rfl, rfl, rfl, rfl⟩, rfl, rfl, rfl⟩
  obtain ⟨u, rest, hend, hplain⟩ := program_ends (s := s) hquiet hstart rfl
  rw [List.nil_append, Nat.zero_add] at hplain
  refine ⟨program, parse_text, .ofEnd (.ok ()) ⟨.blank, u, signals⟩, ?_, rfl, rfl, hplain.out, hplain.consumed, rfl⟩
  exact Interpreter.returns_new_iff.2 ⟨_, _, hend, rfl⟩

/-- a text with a zero byte behind its second byte -/
theorem copies_input_up_to_zero : Signals.reason? ⟨#[none]⟩ ⟨0⟩ = none ∧
    ∃ f, (Interpreter.new .blank { script := .ofBytes [72, 255, 0, 33] }).Returns program ⟨0⟩ ⟨#[none]⟩ f ∧
      f.result = .ok () ∧ f.interpreter.streams.out.toList = [72, 255] ∧ f.interpreter.streams.consumed = 3 ∧
      f.interpreter.tape = .blank := by
  have hquiet : Signals.reason? ⟨#[none]⟩ ⟨0⟩ = none := rfl
  obtain ⟨code, hcode, f, hreturns, hresult, -, hout, hconsumed, htape⟩ :=
    copies_input [72, 255, 0, 33] ⟨0⟩ ⟨#[none]⟩ hquiet
  obtain rfl : program = code := Except.ok.inj (parse_text.symm.trans hcode)
  exact ⟨hquiet, f, hreturns, hresult, hout, hconsumed, htape⟩

end Echo

end RingTape
