/-
A program on standard input and the same program in a file. The program on standard input shares its stream with the
run: what the parser has not looked at would be left for the reads of the program. But a program is read to the end of
its source, and so the command leaves the same report behind as for a file with the same bytes and an empty input.

- `Code.parsePart_of_bytes`: nothing is left of the bytes that a program was read from
- `Walk.ReadsPastEnd`: each read of a walk finds the end of the input and leaves the cell as it is
- `Walk.readsPastEnd_of_plain`: so it is on plain streams that have no bytes left
- `Command.runProgram_stays`: a run that has come back after some steps comes back in the same way after more
- `Command.execute_of_standard_input`: the two reports
-/
import RingTape.Proofs.Echo
import RingTape.Proofs.Invocations

namespace RingTape

/-! ## What is left of a source -/

namespace Code

/-- at the top level a sequence goes on to the end of a source that does not end before -/
theorem rest_of_sequence {whole : Script} {opened : Option Nat} {depth offset : Nat} {done : Code} {source : Script}
    {hs : source <:+ whole} (hends : .ended ∉ source) (htop : opened = none) {b : Block whole}
    (hb : sequence whole opened depth offset done source hs = .ok b) : b.rest = [] := by
  -- only the calls on the same level matter; the one for the body of a loop leaves a part of the source
  fun_induction sequence whole opened depth offset done source hs with
  | case1 | case3 | case6 | case9 | case10 | case13 => cases hb
  | case2 =>
    cases hb
    rfl
  | case4 => exact absurd List.mem_cons_self hends
  | case5 whole opened depth offset done f rest hs _ _ ih => exact ih (List.not_mem_of_not_mem_cons hends) htop hb
  | case7 whole opened depth offset done b rest hs _ _ _ ih => exact ih (List.not_mem_of_not_mem_cons hends) htop hb
  | case8 whole opened depth offset done b rest hs _ o _ _ ih => exact ih (List.not_mem_of_not_mem_cons hends) htop hb
  | case11 whole opened depth offset done b rest hs hr _ _ body _ _ _ ih =>
    exact ih (fun hmem => hends (List.mem_cons_of_mem _ (body.rest_suffix.subset hmem))) htop hb
  | case12 => cases htop

/-- **A program is read to the end of its source.** -/
theorem parsePart_of_bytes (bytes : List UInt8) :
    parsePart (.ofBytes bytes) = (parse (.ofBytes bytes)).map fun code => (code, []) := by
  have hends : .ended ∉ Script.ofBytes bytes := by
    intro hmem
    obtain ⟨b, -, hb⟩ := List.mem_map.1 hmem
    cases hb
  rw [parse, parsePart]
  rcases hb : sequence (.ofBytes bytes) none 0 0 .nil (.ofBytes bytes) (List.suffix_refl _) with e | b
  · rfl
  · simp only [Except.map, rest_of_sequence hends rfl hb]

end Code

/-! ## Reads past the end -/

/-- calls change nothing about which calls fail -/
theorem Streams.Serves.of_made {s t : Store} {calls : List Call} (h : s.streams.Serves false) (hmade : s.Made t calls) :
    t.streams.Serves false where
  reads := by
    rw [hmade.reads]
    exact h.reads
  writes := by
    rw [hmade.writes]
    exact h.writes
  flushes := by
    rw [hmade.flushes]
    exact h.flushes
  alarmed := hmade.alarmed.trans h.alarmed

namespace Walk

/-- each read makes one call, which finds the end of the input, it leaves the tape as it is, and the walk goes on -/
def ReadsPastEnd (token : Token) (w : Walk) : Prop :=
  ∀ n, (w.after token n).performs? token = some .read → (w.after token (n + 1)).result? = none ∧
    (w.after token (n + 1)).store.tape = (w.after token n).store.tape ∧
    (w.after token (n + 1)).store.trace = (w.after token n).store.trace ++ [.read .ended]

theorem readsPastEnd_of_serves {token : Token} {w : Walk} (h : w.store.streams.Serves false)
    (hscript : w.store.streams.script = []) : w.ReadsPastEnd token := by
  intro n hperforms
  obtain ⟨calls, hmade⟩ := w.after_made token n
  obtain ⟨used, hleft, -⟩ := hmade.script
  rw [hscript] at hleft
  have hplain : (w.after token n).store.streams.Plain [] _ _ :=
    ⟨h.of_made hmade, (List.append_eq_nil_iff.1 hleft.symm).2, rfl, rfl⟩
  rcases (w.after token n).step_cases token with ⟨o, rest, frames, s, hw, ho, hstep⟩ | ⟨hnone, -⟩
  · obtain rfl : o = .read := Option.some.inj (ho.symm.trans hperforms)
    rw [hw] at hplain
    obtain ⟨u, hact, -, htrace⟩ := Store.act_read_end (s := s) hplain
    rw [after_step, hstep, hw, perform, hact]
    refine ⟨rfl, rfl, ?_⟩
    simp only [store, Store.trace, htrace, Array.toList_push]
  · rw [hnone] at hperforms
    cases hperforms

end Walk

/-! ## The two reports -/

namespace Command

variable {around : Surroundings} {code : Code} {input : Script} {report : Report} {m n : Nat}

/-- a run that has come back has come back for good -/
theorem runProgram_stays (h : runProgram m around none code input = some report) (hmn : m ≤ n) :
    runProgram n around none code input = some report := by
  rw [runProgram_none, Option.map_eq_some_iff] at h ⊢
  obtain ⟨f, hf, rfl⟩ := h
  refine ⟨f, ?_, rfl⟩
  rw [Interpreter.run_new, Interpreter.settle_eq_some_iff] at hf ⊢
  obtain ⟨r, t, hend, rfl⟩ := hf
  exact ⟨r, t, Walk.after_of_ended hend hmn, rfl⟩

/-- without a time limit, a report is made or none ever is -/
theorem report_or_never {purpose : Purpose} (hpurpose : purpose = .tree ∨ purpose = .run none) :
    (∀ steps, purpose.report steps around code input = none) ∨
      ∃ report n, ∀ steps, n ≤ steps → purpose.report steps around code input = some report := by
  obtain rfl | rfl := hpurpose
  · exact Or.inr ⟨_, 0, fun _ _ => rfl⟩
  · by_cases h : ∃ n report, runProgram n around none code input = some report
    · obtain ⟨n, report, hreport⟩ := h
      exact Or.inr ⟨report, n, fun steps hsteps => runProgram_stays hreport hsteps⟩
    · refine Or.inl fun steps => Option.eq_none_iff_forall_ne_some.2 fun report hreport => ?_
      exact h ⟨steps, report, hreport⟩

/-- what is reported depends on standard output, and on nothing else around the command -/
theorem report_congr {other : Surroundings} (h : around.full = other.full) (purpose : Purpose) (steps : Nat) :
    purpose.report steps around code input = purpose.report steps other code input := by
  cases purpose with
  | tree => simp only [Purpose.report, ofTree, h]
  | run limit => simp only [Purpose.report, runProgram, streams, arriving, h]

section Lines

variable {path : String} {bytes : List UInt8} {flags args : List String} {purpose : Purpose}

/-- a program on standard input leaves nothing of it to its run -/
theorem execute_of_dash (hflags : Arguments.Announces flags purpose) (hargs : Arguments.Stands flags "-" args)
    (hinput : around.input = .file bytes) (steps : Nat) :
    execute steps around args = match Code.parse (.ofBytes bytes) with
      | .error e => some (loadFailed (.unparsed e))
      | .ok code => purpose.report steps around code [] := by
  have hsource : sourceOf around "-" = .ok (.file bytes) := (if_pos rfl).trans (congrArg _ hinput)
  have hall : Code.parsePart (Entry.file bytes).script = _ := Code.parsePart_of_bytes bytes
  rw [execute_of_purpose (Arguments.ofArguments_of_stands hflags hargs), hsource]
  simp only [hall]
  cases Code.parse (.ofBytes bytes) <;> rfl

theorem execute_of_path (hpath : path ≠ "-") (hfile : around.files.openPath path = .ok (.file bytes))
    (hflags : Arguments.Announces flags purpose) (hargs : Arguments.Stands flags path args) (steps : Nat) :
    execute steps around args = match Code.parse (.ofBytes bytes) with
      | .error e => some (loadFailed (.unparsed e))
      | .ok code => purpose.report steps around code around.input.script := by
  rw [execute_of_invocation (Arguments.ofArguments_of_stands hflags hargs), load_of_file hpath hfile]
  cases Code.parse (.ofBytes bytes) <;> rfl

end Lines

/-- **A program on standard input and in a file.** Bytes on standard input under a dash, and the same bytes in a file
under its path with an empty standard input, come to the same, on lines with the same flags: the command leaves the same
report behind after as many steps, and, without a time limit, either there is one at some time or both runs go on forever.
A text that is no program is reported with the offsets that it has in its source. A program is read to the end of the
input, so nothing is left of it to the run, and each read of the run finds the end and leaves its cell as it is. -/
theorem execute_of_standard_input (files others : Directory) {path : String} {bytes : List UInt8} (hpath : path ≠ "-")
    (hfile : files.openPath path = .ok (.file bytes)) {flags piped named : List String} {purpose : Purpose}
    (hflags : Arguments.Announces flags purpose) (hpiped : Arguments.Stands flags "-" piped)
    (hnamed : Arguments.Stands flags path named) :
    let around : Surroundings := ⟨others, .file bytes, false⟩
    let filed : Surroundings := ⟨files, .file [], false⟩
    (∀ steps, execute steps around piped = execute steps filed named) ∧
    (purpose = .tree ∨ purpose = .run none → (∀ steps, execute steps around piped = none) ∨
      ∃ report n, ∀ steps, n ≤ steps → execute steps around piped = some report) ∧
    (∀ e, Code.parse (.ofBytes bytes) = .error e → ∀ steps, execute steps around piped = some
      ⟨1, #[], s!"Error occurred while loading program: Could not parse program: {withCause e.message e.cause?}\n"⟩) ∧
    ∀ code, Code.parse (.ofBytes bytes) = .ok code → Code.parsePart (.ofBytes bytes) = .ok (code, []) ∧
      (∀ steps, execute steps around piped = purpose.report steps around code []) ∧
      ∀ signals token, (Walk.start code ⟨.blank, streams around [], signals⟩).ReadsPastEnd token := by
  intro around filed
  have hinput : around.input = .file bytes := rfl
  have hopened : filed.files.openPath path = .ok (.file bytes) := hfile
  have hpipe := execute_of_dash hflags hpiped hinput
  have hname := execute_of_path hpath hopened hflags hnamed
  have hsame : ∀ steps, execute steps around piped = execute steps filed named := by
    intro steps
    rw [hpipe, hname]
    cases Code.parse (.ofBytes bytes) with
    | error e => rfl
    | ok code => exact report_congr rfl purpose steps
  rcases hparse : Code.parse (.ofBytes bytes) with e | code
  · have hfails : ∀ steps, execute steps around piped = some (loadFailed (.unparsed e)) := fun steps => by
      rw [hpipe, hparse]
    refine ⟨hsame, fun _ => Or.inr ⟨_, 0, fun steps _ => hfails steps⟩, ?_, fun code hcode => (by cases hcode)⟩
    rintro e' ⟨⟩ steps
    exact hfails steps
  · have hruns : ∀ steps, execute steps around piped = purpose.report steps around code [] := fun steps => by
      rw [hpipe, hparse]
    refine ⟨hsame, fun hpurpose => ?_, fun e he => (by cases he), ?_⟩
    · simp only [hruns]
      exact report_or_never hpurpose
    · rintro code' ⟨⟩
      refine ⟨?_, hruns, fun signals token => Walk.readsPastEnd_of_serves (serves_streams around []) rfl⟩
      rw [Code.parsePart_of_bytes, hparse]
      rfl

/-- a program that reads before it counts up and prints, on lines that run it and on lines that show it -/
theorem execute_of_standard_input_reads_first :
    let bytes : List UInt8 := [0x2c, 0x2b, 0x2e]
    let files : Directory := .ofPaths [("p", .file bytes)]
    ("p" ≠ "-" ∧ files.openPath "p" = .ok (.file bytes)) ∧
    (execute 4 ⟨[], .file bytes, false⟩ ["-"] = some ⟨0, #[1], ""⟩ ∧
      execute 4 ⟨files, .file [], false⟩ ["p"] = some ⟨0, #[1], ""⟩) ∧
    ∀ steps, execute steps ⟨[], .file bytes, false⟩ ["--ast", "-"] =
      execute steps ⟨files, .file [], false⟩ ["p", "--ast"] := by
  intro bytes files
  have hfile : files.openPath "p" = .ok (.file bytes) := by cbv
  have hp : Argument.Bare "p" := Argument.bare_word fun c rest h => by cases h
  have hdash : Argument.Bare "-" := (Argument.classify_eq_positional_iff "-").1 rfl
  have hcode : Code.parse (.ofBytes bytes) = .ok (.op .read (.op .incr (.op .print .nil))) :=
    (Code.parse_eq_ok_iff_symbols _ _).2 ⟨by decide, by decide, by decide⟩
  obtain ⟨hsame, -, -, hok⟩ := execute_of_standard_input files [] (by decide) hfile .plain (.behind hdash) (.behind hp)
  obtain ⟨-, hruns, -⟩ := hok _ hcode
  have hreport : runProgram 4 ⟨[], .file bytes, false⟩ none (.op .read (.op .incr (.op .print .nil))) [] =
      some ⟨0, #[1], ""⟩ := by
    decide +kernel
  have hpiped := (hruns 4).trans hreport
  refine ⟨⟨by decide, hfile⟩, ⟨hpiped, (hsame 4).symm.trans hpiped⟩, ?_⟩
  exact (execute_of_standard_input files [] (by decide) hfile .shown (.behind hdash) (.before hp)).1

end Command

end RingTape
