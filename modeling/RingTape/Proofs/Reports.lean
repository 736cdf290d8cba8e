/-
What the command reports about a program in a file: what the parser says against it, or what a run of it on a fresh
tape comes to. Standard input and standard output answer calls in few ways, so there are few ways in which such a run can
end.

- `Streams.Serves`: streams whose output is a writable one, or a full device
- `Serves.make`, `Serves.answered`, `Serves.agree`: how such streams answer calls, and that they all answer alike
- `Walk.ok_iff_no_failure`: a run without a signal is completed unless a call fails
- `Walk.ok_iff_of_serves`: which runs on such streams are completed
- `Interpreter.run_of_serves_unraised`: such runs come back in the same way, whatever their token
- `Command.execute_of_file`: the report of a program in a file
-/
import Mathlib
import RingTape.CommandLine.Command
import RingTape.Proofs.Aftermath
import RingTape.Proofs.Causality
import RingTape.Proofs.Lifecycle

namespace RingTape

/-! ## Standard input and standard output -/

/-- streams that have no faults, except that a full device fails to flush; no call may follow a failed flush, so that
any later flushes may fail or not -/
structure Streams.Serves (full : Bool) (s : Streams) : Prop where
  reads : s.reads.faults = []
  writes : s.writes.faults = []
  flushes : if full then s.flushes.fault? = some .storageFull else s.flushes.faults = []
  alarmed : s.alarmed = none

/-- a call with the answer of a writable output or a full device, or of an input whose next answer is the one given -/
def Call.served (full : Bool) (next : ReadAnswer) : Call → Call
  | .read _ => .read next
  | .write b _ => .write b .accepted
  | .flush _ => .flush (if full then .failed .storageFull else .done)

namespace Streams.Serves

variable {full : Bool} {s t : Store}

/-- what such a store answers to a call, and what it is after one that does not end a run -/
theorem make (h : s.streams.Serves full) (c : Call) :
    (s.make c).1 = c.served full (s.streams.script.headD .ended) ∧ (s.make c).2.signals = s.signals ∧
      (s.make c).2.streams.script = (if c.kind = .read then s.streams.script.tail else s.streams.script) ∧
      ((s.make c).1.fatal? = none → (s.make c).2.streams.Serves full) := by
  have halarm : ∀ why, s.alarm why = s := by
    intro why
    rw [Store.alarm, h.alarmed]
  cases c with
  | read a =>
    have hfault : s.streams.reads.fault? = none := by
      rw [Channel.fault?, h.reads]
      rfl
    rcases hscript : s.streams.script with _ | ⟨_ | _ | f, rest⟩ <;>
      simp only [Store.make, Store.read_eq, halarm, Streams.read, hfault, hscript]
    all_goals exact ⟨rfl, trivial, rfl, fun _ => ⟨h.reads, h.writes, h.flushes, h.alarmed⟩⟩
  | write b a =>
    have hfault : s.streams.writes.fault? = none := by
      rw [Channel.fault?, h.writes]
      rfl
    simp only [Store.make, Store.write_eq, halarm, Streams.write, hfault]
    exact ⟨rfl, trivial, rfl, fun _ => ⟨h.reads, h.writes, h.flushes, h.alarmed⟩⟩
  | flush a =>
    have hflushes := h.flushes
    cases full with
    | false =>
      have hfault : s.streams.flushes.fault? = none := by
        rw [if_neg Bool.false_ne_true] at hflushes
        rw [Channel.fault?, hflushes]
        rfl
      simp only [Store.make, Store.flush_eq, halarm, Streams.flush, hfault]
      exact ⟨rfl, trivial, rfl, fun _ => ⟨h.reads, h.writes, h.flushes, h.alarmed⟩⟩
    | true =>
      rw [if_pos rfl] at hflushes
      simp only [Store.make, Store.flush_eq, halarm, Streams.flush, hflushes]
      exact ⟨rfl, trivial, rfl, fun hfatal => by cases hfatal⟩

/-- what is answered to calls of which none ends a run, the last one aside -/
theorem answered {calls : List Call} (h : s.streams.Serves full) (hanswers : s.Answers calls)
    (hfine : ∀ c ∈ calls.dropLast, c.fatal? = none) :
    ∀ c ∈ calls, ∃ next ∈ .ended :: s.streams.script, c = c.served full next := by
  induction calls generalizing s with
  | nil => exact List.forall_mem_nil _
  | cons c rest ih =>
    obtain ⟨hc, hrest⟩ := hanswers
    obtain ⟨hserved, -, hscript, hnext⟩ := h.make c
    have hfirst : ∃ next ∈ .ended :: s.streams.script, c = c.served full next := by
      refine ⟨_, ?_, hc.symm.trans hserved⟩
      cases s.streams.script with
      | nil => exact List.mem_cons_self
      | cons a more => exact List.mem_cons_of_mem _ List.mem_cons_self
    have hsub : (s.make c).2.streams.script ⊆ s.streams.script := by
      rw [hscript]
      split
      · exact (List.tail_sublist _).subset
      · exact List.Subset.refl _
    refine List.forall_mem_cons.2 ⟨hfirst, ?_⟩
    cases rest with
    | nil => exact List.forall_mem_nil _
    | cons d more =>
      rw [List.dropLast_cons_cons, List.forall_mem_cons] at hfine
      rw [hc] at hnext
      intro e he
      obtain ⟨next, hmem, heq⟩ := ih (hnext hfine.1) hrest hfine.2 e he
      exact ⟨next, List.cons_subset_cons _ hsub hmem, heq⟩

/-- two such stores with the same input answer alike, up to a call that ends a run -/
theorem agree {token : Token} {calls : List Call} (h : s.streams.Serves full) (k : t.streams.Serves full)
    (hscript : s.streams.script = t.streams.script) (hsignals : s.signals.reason? token = t.signals.reason? token)
    (hanswers : s.Answers calls) (hfine : ∀ c ∈ calls.dropLast, c.fatal? = none) : s.Agree token t calls := by
  induction calls generalizing s t with
  | nil => exact hsignals
  | cons c rest ih =>
    obtain ⟨hc, hrest⟩ := hanswers
    obtain ⟨hserved, hkept, hleft, hnext⟩ := h.make c
    obtain ⟨hserved', hkept', hleft', hnext'⟩ := k.make c
    have hsame : (s.make c).1 = (t.make c).1 := by rw [hserved, hserved', hscript]
    have hsignals' : (s.make c).2.signals.reason? token = (t.make c).2.signals.reason? token := by
      rw [hkept, hkept', hsignals]
    refine ⟨hsignals, hsame, ?_⟩
    cases rest with
    | nil => exact hsignals'
    | cons d more =>
      rw [List.dropLast_cons_cons, List.forall_mem_cons] at hfine
      rw [← hsame] at hnext'
      rw [hc] at hnext hnext'
      refine ih (hnext hfine.1) (hnext' hfine.1) ?_ hsignals' hrest hfine.2
      rw [hleft, hleft', hscript]

end Streams.Serves

/-- the calls so answered that end a run: a flush on a full device, and a read that fails -/
theorem Call.fatal?_served {full : Bool} {next : ReadAnswer} {c : Call} (hflush : full = true → c.kind ≠ .flush)
    (hread : c.kind = .read → ∀ f, next ≠ .failed f) : (c.served full next).fatal? = none := by
  cases c with
  | read a =>
    cases next with
    | byte b => rfl
    | ended => rfl
    | failed f => exact absurd rfl (hread rfl f)
  | write b a => rfl
  | flush a =>
    cases full with
    | false => rfl
    | true => exact absurd rfl (hflush rfl)

/-- a print on a full device makes a call that ends the run: it is the flush, as no write is lost -/
theorem Block.fatal_of_print {cell : UInt8} {calls : List Call} (h : Block .print cell calls)
    (hserved : ∀ c ∈ calls, ∃ next, c = c.served true next) : ∃ c ∈ calls, c.fatal? ≠ none := by
  cases h with
  | written waits answer hwaits =>
    have hmem : .flush answer ∈ interruptedWrites cell waits ++ [.write cell .accepted, .flush answer] := by simp
    obtain ⟨next, heq⟩ := hserved _ hmem
    refine ⟨_, hmem, ?_⟩
    rw [heq]
    exact Option.some_ne_none _
  | lost waits answer hwaits hanswer hlost =>
    have hmem : .write cell answer ∈ interruptedWrites cell waits ++ [.write cell answer] := by simp
    obtain ⟨next, heq⟩ := hserved _ hmem
    rw [Call.served, Call.write.injEq] at heq
    exact absurd heq.2 hlost

/-- each instruction has its block among the blocks -/
theorem exists_block {exchanges : List (Op × UInt8)} {blocks : List (List Call)}
    (h : List.Forall₂ (fun i calls => Block i.1 i.2 calls) exchanges blocks) :
    ∀ i ∈ exchanges, ∃ calls ∈ blocks, Block i.1 i.2 calls := by
  induction h with
  | nil => exact List.forall_mem_nil _
  | cons hblock hrest ih =>
    refine List.forall_mem_cons.2 ⟨⟨_, List.mem_cons_self, hblock⟩, fun i hi => ?_⟩
    obtain ⟨calls, hcalls, hi⟩ := ih i hi
    exact ⟨calls, List.mem_cons_of_mem _ hcalls, hi⟩

namespace Walk

variable {token : Token} {w : Walk} {n : Nat}

/-! ## Runs on such streams -/

/-- **The calls of any number of steps and their answers.** -/
theorem calls_answered (token : Token) {w : Walk} (hw : w.failure? = none) (n : Nat) :
    (∃ blocks, List.Forall₂ (fun i calls => Block i.1 i.2 calls) (w.exchanges token n) blocks ∧
      w.callsIn token n = blocks.flatten) ∧
      w.store.Answers (w.callsIn token n) ∧ Outcome (w.callsIn token n) (w.after token n).failure? := by
  obtain ⟨blocks, hblocks, hmade, hout⟩ := w.after_calls token hw n
  obtain ⟨calls, hcalls⟩ := w.after_asks token n
  have hflat : w.callsIn token n = blocks.flatten := by rw [callsIn, hmade.trace, List.drop_left]
  have hanswers := hcalls.answers
  rw [← hcalls.callsIn] at hanswers
  refine ⟨⟨blocks, hblocks, hflat⟩, hanswers, ?_⟩
  rwa [hflat]

theorem served_calls {full : Bool} (token : Token) {w : Walk} (h : w.store.streams.Serves full)
    (hw : w.failure? = none) (n : Nat) :
    ∀ c ∈ w.callsIn token n, ∃ next ∈ .ended :: w.store.streams.script, c = c.served full next := by
  obtain ⟨-, hanswers, hout⟩ := calls_answered token hw n
  exact h.answered hanswers hout.dropLast

/-- such streams with the same input answer a walk alike, however long it goes on -/
theorem answeredAlike_of_serves {full : Bool} {t : Store} (h : w.store.streams.Serves full)
    (ht : t.streams.Serves full) (hscript : w.store.streams.script = t.streams.script)
    (hsignals : w.store.signals.reason? token = t.signals.reason? token) (hw : w.failure? = none) (k : Nat) :
    w.AnsweredAlike token t k := by
  intro calls _ hbegins
  obtain ⟨n, more, hall⟩ := hbegins.exists_asks
  obtain ⟨-, -, hout⟩ := calls_answered token hw n
  rw [hall.callsIn] at hout
  exact ((Store.agree_append calls more).1 (h.agree ht hscript hsignals hall.answers hout.dropLast)).1

theorem test_congr {s : Store} {other : Token} (h : s.signals.reason? token = s.signals.reason? other)
    (body rest : Code) (frames : List Frame) : test token body rest frames s = test other body rest frames s := by
  rw [test, test, h]

/-- a step looks at nothing of its token but the reason given to its signal -/
theorem step_congr {other : Token} (h : w.store.signals.reason? token = w.store.signals.reason? other) :
    w.step token = w.step other := by
  rcases w with ⟨_ | ⟨o, rest⟩ | ⟨body, rest⟩, _ | ⟨f, frames⟩, s⟩ | ⟨r, s⟩
  · rfl
  · exact test_congr h f.body f.rest frames
  · simp only [store] at h
    simp only [step, h]
  · rfl
  · simp only [store] at h
    simp only [step, h, test_congr h]
  · exact test_congr h body rest (f :: frames)
  · rfl

/-- of two signals that are never raised, a walk may be under either -/
theorem Unsignalled.after_eq {other : Token} (h : w.Unsignalled token) (hother : w.Unsignalled other) (n : Nat) :
    w.after token n = w.after other n := by
  induction n with
  | zero => rfl
  | succ n ih =>
    rw [after_step, after_step, ← ih]
    refine step_congr ?_
    rw [h n, ih, hother n]

/-- **A run whose signal is not raised is completed unless a call fails.** -/
theorem ok_iff_no_failure (hw : w.result? = none) (hquiet : w.Unsignalled token) {r : Except RunError Unit} {t : Store}
    (hend : w.after token n = .ended r t) : r = .ok () ↔ ∀ c ∈ w.callsIn token n, c.fatal? = none := by
  have hfailure : w.failure? = none := by rw [failure?, hw]; rfl
  obtain ⟨-, -, hout⟩ := calls_answered token hfailure n
  have hlast : (w.after token n).failure? = failureOf r := by rw [hend]; rfl
  rw [hlast] at hout
  constructor
  · rintro rfl c hc
    cases hfatal : c.fatal? with
    | none => rfl
    | some f => cases (hout.eq_some_iff f).2 ⟨c, hc, hfatal⟩
  · intro hfine
    have hresult : (w.after token n).result? = some r := by rw [hend]; rfl
    have hstart : ∀ q, w.result? = some q → Conclusion q := by
      intro q hq
      rw [hw] at hq
      cases hq
    cases after_conclusion token hstart n r hresult with
    | completed => rfl
    | cancelled why =>
      have hcancelled : ¬ w.Cancelled := by
        rintro ⟨why, hwhy⟩
        rw [hw] at hwhy
        cases hwhy
      exact absurd ⟨why, hresult⟩ (hquiet.not_cancelled hcancelled n)
    | failed f =>
      obtain ⟨c, hc, hfatal⟩ := (hout.eq_some_iff f).1 rfl
      rw [hfine c hc] at hfatal
      cases hfatal

/-- **When a run on such streams is completed.** It has carried out no print if the device is full, and no read of it
has failed. -/
theorem ok_iff_of_serves {full : Bool} (h : w.store.streams.Serves full)
    (hfailing : ∀ f, .failed f ∈ w.store.streams.script → (Call.read (.failed f)).fatal? = some f)
    (hw : w.result? = none) (hquiet : w.store.signals.reason? token = none) {r : Except RunError Unit} {t : Store}
    (hend : w.after token n = .ended r t) : r = .ok () ↔
      (full = true → ∀ i ∈ w.exchanges token n, i.1 ≠ .print) ∧ ∀ f, .read (.failed f) ∉ w.callsIn token n := by
  have hunsignalled : w.Unsignalled token := unsignalled_of_unalarmed hquiet (by rw [h.alarmed]; simp)
  have hfailure : w.failure? = none := by rw [failure?, hw]; rfl
  have hserved := served_calls token h hfailure n
  obtain ⟨⟨blocks, hblocks, hflat⟩, -, -⟩ := calls_answered token hfailure n
  rw [ok_iff_no_failure hw hunsignalled hend]
  constructor
  · intro hfine
    refine ⟨?_, fun f hf => ?_⟩
    · rintro rfl i hi hprint
      obtain ⟨calls, hcalls, hblock⟩ := exists_block hblocks i hi
      have hin : ∀ c ∈ calls, c ∈ w.callsIn token n := by
        intro c hc
        rw [hflat]
        exact List.mem_flatten_of_mem hcalls hc
      rw [hprint] at hblock
      obtain ⟨c, hc, hfatal⟩ := hblock.fatal_of_print fun c hc => by
        obtain ⟨next, -, heq⟩ := hserved c (hin c hc)
        exact ⟨next, heq⟩
      exact hfatal (hfine c (hin c hc))
    · obtain ⟨next, hnext, heq⟩ := hserved _ hf
      rw [Call.served, Call.read.injEq] at heq
      subst heq
      have hmem : .failed f ∈ w.store.streams.script := by simpa using hnext
      have hnone := hfine _ hf
      rw [hfailing f hmem] at hnone
      cases hnone
  · rintro ⟨hprint, hread⟩ c hc
    obtain ⟨next, -, heq⟩ := hserved c hc
    rw [heq]
    refine Call.fatal?_served (fun hfull hflush => ?_) fun hkind f hnext => ?_
    · refine flatten_kind hblocks (hprint hfull) c (by rwa [hflat] at hc) ?_
      rw [hflush]
      rfl
    · subst hnext
      cases c with
      | read a => exact hread f (by rwa [heq] at hc)
      | write b a => cases hkind
      | flush a => cases hkind

end Walk

/-! ## The command -/

/-- reading a file never fails -/
theorem Entry.not_failed_of_file (bytes : List UInt8) (f : Failure) : .failed f ∉ (Entry.file bytes).script := by
  intro h
  obtain ⟨b, -, hb⟩ := List.mem_map.1 h
  cases hb

/-- the failure that reading a directory answers ends a run -/
theorem Entry.fatal_of_script (e : Entry) {f : Failure} (h : .failed f ∈ e.script) :
    (Call.read (.failed f)).fatal? = some f := by
  cases e with
  | file bytes => exact absurd h (not_failed_of_file bytes f)
  | directory =>
    rw [Entry.script, List.mem_singleton] at h
    cases h
    rfl

namespace Interpreter

theorem Finished.SameEnd.trans {f g h : Finished} (hfg : f.SameEnd g) (hgh : g.SameEnd h) : f.SameEnd h where
  result := hfg.result.trans hgh.result
  status := hfg.status.trans hgh.status
  tape := hfg.tape.trans hgh.tape
  out := hfg.out.trans hgh.out
  consumed := hfg.consumed.trans hgh.consumed
  trace := hfg.trace.trans hgh.trace

/-- a run that comes back on such streams comes back in the same way on others of that kind with the same input -/
theorem run_of_serves {full : Bool} {a b : Streams} (ha : a.Serves full) (hb : b.Serves full)
    (hscript : a.script = b.script) (hsofar : a.SameSoFar b) {tape : Tape} {code : Code} {token : Token}
    {sa sb : Signals} (hsignals : sa.reason? token = sb.reason? token) {n : Nat} {f : Finished}
    (hf : (new tape a).run n code token sa = some f) :
    ∃ g, (new tape b).run n code token sb = some g ∧ f.SameEnd g := by
  have halike := Walk.answeredAlike_of_serves (w := .start code ⟨tape, a, sa⟩) (t := ⟨tape, b, sb⟩) ha hb hscript
    hsignals rfl f.interpreter.streams.trace.size
  exact run_of_answeredAlike hsofar halike hf (Nat.le_add_left _ _)

/-- nor does the token matter, as long as its signal is not raised -/
theorem run_of_serves_unraised {full : Bool} {a b : Streams} (ha : a.Serves full) (hb : b.Serves full)
    (hscript : a.script = b.script) (hsofar : a.SameSoFar b) {tape : Tape} {code : Code} {token other : Token}
    {sa sb : Signals} (hsa : sa.reason? token = none) (hsb : sb.reason? other = none) {n : Nat} {f : Finished}
    (hf : (new tape a).run n code token sa = some f) :
    ∃ g, (new tape b).run n code other sb = some g ∧ f.SameEnd g := by
  -- the tokens are exchanged where neither of the two signals is raised
  have hnone : ∀ t, Signals.reason? {} t = none := fun t => rfl
  have hsilent : sa.reason? token = Signals.reason? {} token := hsa.trans (hnone token).symm
  obtain ⟨g, hg, hfg⟩ := run_of_serves ha hb hscript hsofar hsilent hf
  have hunsignalled : ∀ t, (Walk.start code ⟨tape, b, {}⟩).Unsignalled t :=
    fun t => Walk.unsignalled_of_unalarmed (hnone t) (by rw [Walk.start, Walk.store, hb.alarmed]; simp)
  have hexchanged : (new tape b).run n code other {} = some g := by
    rwa [run_new, ← (hunsignalled token).after_eq (hunsignalled other), ← run_new]
  obtain ⟨h, hh, hgh⟩ := run_of_serves hb hb rfl ⟨rfl, rfl, rfl⟩ ((hnone other).trans hsb.symm) hexchanged
  exact ⟨h, hh, hfg.trans hgh⟩

end Interpreter

namespace Command

variable {around : Surroundings} {path : String} {bytes : List UInt8}

theorem serves_streams (around : Surroundings) (input : Script) : (streams around input).Serves around.full where
  reads := rfl
  writes := rfl
  flushes := by
    rw [streams]
    cases around.full <;> rfl
  alarmed := rfl

theorem ofArguments_of_positional (h : Argument.classify path = .positional path) :
    Invocation.ofArguments [path] = .ok (.run none path) := by
  simp only [Invocation.ofArguments, Arguments.split, h]
  rfl

theorem load_of_file (hpath : path ≠ "-") (hfile : around.files.openPath path = .ok (.file bytes)) :
    load around path = match Code.parse (.ofBytes bytes) with
      | .ok code => .ok (code, around.input.script)
      | .error e => .error (.unparsed e) := by
  rw [load, if_neg hpath, hfile]
  rfl

/-- without a time limit a loaded program is run as an interpreter runs it, under a token of its own -/
theorem runProgram_none (steps : Nat) (around : Surroundings) (code : Code) (input : Script) :
    runProgram steps around none code input =
      ((Interpreter.new .blank (streams around input)).run steps code ⟨0⟩ ⟨#[none]⟩).map fun f =>
        ofRun f.result (arriving around f.interpreter.streams.out) := by
  have hrun := Clock.run_of_no_timers 0 steps (.new .blank (streams around input)) code ⟨0⟩ ⟨#[none]⟩
  have hprogram : runProgram steps around none code input =
      (Clock.run ⟨0, []⟩ steps (.new .blank (streams around input)) code ⟨0⟩ ⟨#[none]⟩).map fun r =>
        ofRun r.2.result (arriving around r.2.interpreter.streams.out) := rfl
  rw [hprogram, hrun, Option.map_map]
  rfl

theorem execute_of_positional (hlook : Argument.classify path = .positional path) (steps : Nat) :
    execute steps around [path] = match load around path with
      | .error e => some (loadFailed e)
      | .ok (code, input) => runProgram steps around none code input := by
  have hrun := ofArguments_of_positional hlook
  rcases hload : load around path with e | ⟨code, input⟩
  · simp only [execute, hrun, hload]
  · simp only [execute, hrun, hload]

/-- the report of a run says what its result was -/
theorem ofRun_eq_iff (result : Except RunError Unit) (output : Array UInt8) (report : Report) :
    report = ofRun result output ↔ report.output = output ∧
      (result = .ok () ∧ report.exitCode = 0 ∧ report.errors = "" ∨
        ∃ e, result = .error e ∧ report.exitCode = 1 ∧
          report.errors = s!"Error occurred while running program: {withCause e.message e.cause?}\n") := by
  obtain ⟨exitCode, sent, errors⟩ := report
  rcases result with e | _
  · simp only [ofRun, failed, Report.mk.injEq, reduceCtorEq, false_and, false_or, Except.error.injEq]
    constructor
    · rintro ⟨rfl, rfl, rfl⟩
      exact ⟨rfl, e, rfl, rfl, rfl⟩
    · rintro ⟨rfl, -, rfl, rfl, rfl⟩
      exact ⟨rfl, rfl, rfl⟩
  · simp only [ofRun, Report.mk.injEq, reduceCtorEq, false_and, exists_false, or_false, true_and]
    constructor
    · rintro ⟨rfl, rfl, rfl⟩
      exact ⟨rfl, rfl, rfl⟩
    · rintro ⟨rfl, rfl, rfl⟩
      exact ⟨rfl, rfl, rfl⟩

theorem ofRun_exitCode_eq_zero_iff (result : Except RunError Unit) (output : Array UInt8) :
    (ofRun result output).exitCode = 0 ↔ result = .ok () := by
  rcases result with e | _ <;> simp [ofRun, failed]

/-- there is a report of a program if its run comes back, on any streams that behave as those of the command do -/
theorem execute_eq_some_iff (hpath : path ≠ "-") (hlook : Argument.classify path = .positional path)
    (hfile : around.files.openPath path = .ok (.file bytes)) {code : Code}
    (hcode : Code.parse (.ofBytes bytes) = .ok code) {s : Streams} {token : Token} {signals : Signals}
    (hserves : s.Serves around.full) (hscript : s.script = around.input.script) (hsofar : s.SameSoFar {})
    (hquiet : signals.reason? token = none) (steps : Nat) (report : Report) :
    execute steps around [path] = some report ↔
      ∃ f, (Interpreter.new .blank s).run steps code token signals = some f ∧
        report = ofRun f.result (arriving around f.interpreter.streams.out) := by
  have hown := serves_streams around around.input.script
  have hstart : s.SameSoFar (streams around around.input.script) := ⟨hsofar.out, hsofar.consumed, hsofar.trace⟩
  have hfresh : Signals.reason? ⟨#[none]⟩ ⟨0⟩ = none := rfl
  rw [execute_of_positional hlook, load_of_file hpath hfile, hcode]
  simp only [runProgram_none, Option.map_eq_some_iff]
  constructor
  · rintro ⟨g, hg, rfl⟩
    obtain ⟨f, hf, hsame⟩ :=
      Interpreter.run_of_serves_unraised hown hserves hscript.symm hstart.symm hfresh hquiet hg
    exact ⟨f, hf, by rw [hsame.result, hsame.out]⟩
  · rintro ⟨f, hf, rfl⟩
    obtain ⟨g, hg, hsame⟩ := Interpreter.run_of_serves_unraised hserves hown hscript hstart hquiet hfresh hf
    exact ⟨g, hg, by rw [hsame.result, hsame.out]⟩

/-- **What the command reports about a program in a file.** A text that is no program is reported, with nothing on
standard output and nothing run. A program is run as an interpreter runs it on a fresh tape, on any streams that behave
as standard input and standard output do: there is a report after so many steps if and only if that run comes back after
as many, its output is what arrives of the bytes written, and its exit code says whether the run was completed. That is
so if the run has printed nothing on a full device and no read of it has failed; so a program that reads a file and whose
output is writable never fails. -/
theorem execute_of_file (hpath : path ≠ "-") (hlook : Argument.classify path = .positional path)
    (hfile : around.files.openPath path = .ok (.file bytes)) :
    (∀ e, Code.parse (.ofBytes bytes) = .error e → ∀ steps, execute steps around [path] = some
      ⟨1, #[], s!"Error occurred while loading program: Could not parse program: {withCause e.message e.cause?}\n"⟩) ∧
    ∀ code, Code.parse (.ofBytes bytes) = .ok code → ∀ (s : Streams) (token : Token) (signals : Signals),
      s.Serves around.full → s.script = around.input.script → s.SameSoFar {} → signals.reason? token = none →
        let i := Interpreter.new .blank s
        let w := Walk.start code ⟨.blank, s, signals⟩
        (∀ steps report, execute steps around [path] = some report ↔ ∃ f, i.run steps code token signals = some f ∧
          report.output = (if around.full then #[] else f.interpreter.streams.out) ∧
          (f.result = .ok () ∧ report.exitCode = 0 ∧ report.errors = "" ∨
            ∃ e, f.result = .error e ∧ report.exitCode = 1 ∧
              report.errors = s!"Error occurred while running program: {withCause e.message e.cause?}\n")) ∧
        (∀ steps report, execute steps around [path] = some report → (report.exitCode = 0 ↔
          (around.full = true → ∀ x ∈ w.exchanges token steps, x.1 ≠ .print) ∧
            ∀ f, .read (.failed f) ∉ w.callsIn token steps)) ∧
        (∀ steps report, execute steps around [path] = some report → around.full = false →
          ∀ given, around.input = .file given → report.exitCode = 0 ∧ report.errors = "") := by
  refine ⟨?_, ?_⟩
  · intro e he steps
    rw [execute_of_positional hlook, load_of_file hpath hfile, he]
    rfl
  intro code hcode s token signals hserves hscript hsofar hquiet i w
  have hreports : ∀ steps report, execute steps around [path] = some report ↔ ∃ f,
      i.run steps code token signals = some f ∧ report = ofRun f.result (arriving around f.interpreter.streams.out) :=
    execute_eq_some_iff hpath hlook hfile hcode hserves hscript hsofar hquiet
  have hw : w.store.streams.script = around.input.script := hscript
  have hcodes : ∀ steps report, execute steps around [path] = some report → (report.exitCode = 0 ↔
      (around.full = true → ∀ x ∈ w.exchanges token steps, x.1 ≠ .print) ∧
        ∀ f, .read (.failed f) ∉ w.callsIn token steps) := by
    intro steps report hreport
    obtain ⟨f, hf, rfl⟩ := (hreports steps report).1 hreport
    rw [Interpreter.run_new, Interpreter.settle_eq_some_iff] at hf
    obtain ⟨r, t, hend, rfl⟩ := hf
    have hfailing : ∀ e, .failed e ∈ w.store.streams.script → (Call.read (.failed e)).fatal? = some e := by
      rw [hw]
      exact fun e => around.input.fatal_of_script
    rw [← Walk.ok_iff_of_serves (w := w) hserves hfailing rfl hquiet hend]
    exact ofRun_exitCode_eq_zero_iff r _
  refine ⟨fun steps report => ?_, hcodes, fun steps report hreport hfull given hgiven => ?_⟩
  · simp only [hreports, ofRun_eq_iff]
    rfl
  · have hdone : report.exitCode = 0 := by
      refine (hcodes steps report hreport).2 ⟨fun h => absurd h (by rw [hfull]; simp), fun f hf => ?_⟩
      obtain ⟨next, hnext, heq⟩ := Walk.served_calls token (w := w) hserves rfl steps _ hf
      rw [Call.served, Call.read.injEq] at heq
      subst heq
      have hmem : .failed f ∈ w.store.streams.script := by simpa using hnext
      rw [hw, hgiven] at hmem
      exact Entry.not_failed_of_file given f hmem
    obtain ⟨f, -, hf⟩ := (hreports steps report).1 hreport
    obtain ⟨-, ⟨-, -, herrors⟩ | ⟨e, -, hcode, -⟩⟩ := (ofRun_eq_iff _ _ _).1 hf
    · exact ⟨hdone, herrors⟩
    · omega

/-- a file that reads a byte and prints it, as standard output is writable and as it is a full device, and a file that
closes a loop it has not opened -/
theorem execute_of_file_full_device :
    let around (full : Bool) : Surroundings :=
      { files := .ofPaths [("p", .file [0x2c, 0x2e]), ("q", .file [0x2b, 0x5d])], input := .file [65], full := full }
    (∃ report, execute 3 (around false) ["p"] = some report ∧ report.exitCode = 0 ∧ report.output = #[65] ∧
      report.errors = "") ∧
    (∃ report, execute 3 (around true) ["p"] = some report ∧ report.exitCode = 1 ∧ report.output = #[] ∧
      report.errors =
        "Error occurred while running program: I/O failure: No space left on device (os error 28)\n") ∧
    ∀ full steps, execute steps (around full) ["q"] = some ⟨1, #[],
      "Error occurred while loading program: Could not parse program: unexpected ] at byte 1: no matching [\n"⟩ := by
  intro around
  have hp : Argument.classify "p" = .positional "p" := by decide +kernel
  have hq : Argument.classify "q" = .positional "q" := by decide +kernel
  have hfilep : ∀ full, (around full).files.openPath "p" = .ok (.file [0x2c, 0x2e]) := by intro full; cbv
  have hfileq : ∀ full, (around full).files.openPath "q" = .ok (.file [0x2b, 0x5d]) := by intro full; cbv
  have hcode : Code.parse (.ofBytes [0x2c, 0x2e]) = .ok (.op .read (.op .print .nil)) :=
    (Code.parse_eq_ok_iff_symbols _ _).2 ⟨by decide, by decide, by decide⟩
  have hstray : Code.parse (.ofBytes [0x2b, 0x5d]) = .error (.unopened 1) := by
    decide +kernel
  let code : Code := .op .read (.op .print .nil)
  let s (full : Bool) : Streams :=
    { script := .ofBytes [65], flushes := { faults := if full then [(0, .storageFull), (1, .storageFull)] else [] } }
  have hserves : ∀ full, (s full).Serves full := by
    intro full
    cases full <;> exact ⟨rfl, rfl, rfl, rfl⟩
  have hruns : ∀ full, _ := fun full => (execute_of_file (by decide) hp (hfilep full)).2 code hcode (s full) ⟨0⟩
    ⟨#[none]⟩ (hserves full) rfl ⟨rfl, rfl, rfl⟩ rfl
  refine ⟨?_, ?_, fun full steps => ?_⟩
  · have hrun : ((Interpreter.new .blank (s false)).run 3 code ⟨0⟩ ⟨#[none]⟩).map
        (fun f => (f.result, f.interpreter.streams.out)) = some (.ok (), #[65]) := by
      decide +kernel
    obtain ⟨f, hf, hend⟩ := Option.map_eq_some_iff.1 hrun
    obtain ⟨hresult, hout⟩ := Prod.mk.inj hend
    exact ⟨⟨0, #[65], ""⟩, ((hruns false).1 3 _).2 ⟨f, hf, hout.symm, Or.inl ⟨hresult, rfl, rfl⟩⟩, rfl, rfl, rfl⟩
  · have hrun : ((Interpreter.new .blank (s true)).run 3 code ⟨0⟩ ⟨#[none]⟩).map (·.result) =
        some (.error (.failure .storageFull)) := by
      decide +kernel
    obtain ⟨f, hf, hresult⟩ := Option.map_eq_some_iff.1 hrun
    exact ⟨_, ((hruns true).1 3 ⟨1, #[], _⟩).2 ⟨f, hf, rfl, Or.inr ⟨_, hresult, rfl, rfl⟩⟩, rfl, rfl, by decide +kernel⟩
  · obtain ⟨hrefused, -⟩ := execute_of_file (by decide) hq (hfileq full)
    exact hrefused _ hstray steps

end Command

end RingTape
