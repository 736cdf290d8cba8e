/-
The stream calls of a run. Every call belongs to one stream instruction, the calls of an instruction are one block, and
a call that ends the run is its last one.

- `Walk.performs?`, `Walk.exchanges`: the instruction that a step carries out, and the stream instructions of a stretch
  of steps
- `Walk.step_cases`: what a step can do
- `Walk.step_calls`, `Walk.after_calls`: the calls of one step, and of any number of steps
- `Walk.Unsignalled`: a walk during which its signal is not raised
- `stream_calls_of_run`: the calls, the result, the output and the input of a run that comes back
-/
import Mathlib.Data.List.Forall2
import RingTape.Proofs.Exchange
import RingTape.Proofs.Runs

namespace RingTape

namespace Walk

/-! ## Steps -/

/-- the instruction that the next step carries out, if it carries out one -/
def performs? (token : Token) : Walk → Option Op
  | .going (.op o _) [] s => if s.signals.reason? token = none then some o else none
  | .going (.op o _) (_ :: _) _ => some o
  | _ => none

/-- the stream instruction that the next step carries out, with the value of the cell that it finds -/
def exchange? (token : Token) (w : Walk) : Option (Op × UInt8) :=
  match w.performs? token with
  | some o => if o.usesStreams then some (o, w.store.current) else none
  | none => none

/-- the stream instructions carried out in so many steps, in order -/
def exchanges (token : Token) (w : Walk) : Nat → List (Op × UInt8)
  | 0 => []
  | n + 1 => w.exchanges token n ++ ((w.after token n).exchange? token).toList

/-- the failure that a walk has ended with -/
def failure? (w : Walk) : Option Failure :=
  w.result?.bind failureOf

/-- the ways in which a step that carries out no instruction goes on: further along the program, or no further because
the walk is over, because nothing is left, or because of the signal -/
inductive Idle (token : Token) (w : Walk) : Walk → Prop where
  | on (code : Code) (frames : List Frame) : Idle token w (.going code frames w.store)
  | still (r : Except RunError Unit) (h : w.result? = some r) : Idle token w (.ended r w.store)
  | done : Idle token w (.ended (.ok ()) w.store)
  | stopped (why : String) (h : w.store.signals.reason? token = some why) :
      Idle token w (.ended (.error (.cancelled why)) w.store)

theorem test_idle {token : Token} {w : Walk} {s : Store} (hs : w.store = s) (body rest : Code) (frames : List Frame) :
    Idle token w (test token body rest frames s) := by
  subst hs
  rw [test]
  split
  · exact .on rest frames
  · cases hr : w.store.signals.reason? token with
    | none => exact .on body (⟨body, rest⟩ :: frames)
    | some why => exact .stopped why hr

/-- **What a step does.** It carries out the instruction that it stands at, or none at all. -/
theorem step_cases (token : Token) (w : Walk) :
    (∃ o rest frames s, w = .going (.op o rest) frames s ∧ w.performs? token = some o ∧
      w.step token = perform o rest frames s) ∨
    (w.performs? token = none ∧ Idle token w (w.step token)) := by
  cases w with
  | ended r s => exact Or.inr ⟨rfl, .still r rfl⟩
  | going code frames s =>
    cases frames with
    | nil =>
      cases code with
      | nil => exact Or.inr ⟨rfl, .done⟩
      | op o rest =>
        simp only [step, performs?]
        cases hr : s.signals.reason? token with
        | none => exact Or.inl ⟨o, rest, [], s, rfl, rfl, rfl⟩
        | some why => exact Or.inr ⟨rfl, .stopped why hr⟩
      | loop body rest =>
        simp only [step]
        cases hr : s.signals.reason? token with
        | none => exact Or.inr ⟨rfl, test_idle rfl body rest []⟩
        | some why => exact Or.inr ⟨rfl, .stopped why hr⟩
    | cons f frames =>
      cases code with
      | nil => exact Or.inr ⟨rfl, test_idle rfl f.body f.rest frames⟩
      | op o rest => exact Or.inl ⟨o, rest, f :: frames, s, rfl, rfl, rfl⟩
      | loop body rest => exact Or.inr ⟨rfl, test_idle rfl body rest (f :: frames)⟩

theorem perform_store (o : Op) (rest : Code) (frames : List Frame) (s : Store) :
    (perform o rest frames s).store = (o.act s).2 := by
  rw [perform]
  rcases o.act s with ⟨_ | _, t⟩ <;> rfl

theorem perform_failure? (o : Op) (rest : Code) (frames : List Frame) (s : Store) :
    (perform o rest frames s).failure? = failureOf (o.act s).1 := by
  rw [perform]
  rcases o.act s with ⟨_ | _, t⟩ <;> rfl

theorem Idle.store {token : Token} {w v : Walk} (h : Idle token w v) : v.store = w.store := by
  cases h <;> rfl

theorem Idle.failure? {token : Token} {w v : Walk} (h : Idle token w v) (hw : w.failure? = none) :
    v.failure? = none := by
  cases h with
  | still r hr =>
    rw [Walk.failure?, hr] at hw
    exact hw
  | on code frames => rfl
  | done => rfl
  | stopped why hr => rfl

/-! ## The calls of a walk -/

/-- **The calls of a step.** One block if the step carries out a stream instruction, and none if it does not. -/
theorem step_calls (token : Token) (w : Walk) (hw : w.failure? = none) : ∃ blocks,
    List.Forall₂ (fun i calls => Block i.1 i.2 calls) (w.exchange? token).toList blocks ∧
    w.store.Made (w.step token).store blocks.flatten ∧ Outcome blocks.flatten (w.step token).failure? := by
  rcases w.step_cases token with ⟨o, rest, frames, s, rfl, hperforms, hstep⟩ | ⟨hperforms, hidle⟩
  · rw [hstep, perform_store, perform_failure?]
    cases ho : o.usesStreams with
    | false =>
      have hnone : (going (.op o rest) frames s).exchange? token = none := by simp [exchange?, hperforms, ho]
      obtain ⟨hok, hmade⟩ := Op.act_silent ho s
      rw [hnone, hok]
      exact ⟨[], .nil, hmade, .fine (List.forall_mem_nil _)⟩
    | true =>
      have hsome : (going (.op o rest) frames s).exchange? token = some (o, s.current) := by
        simp [exchange?, hperforms, ho, store]
      obtain ⟨calls, hblock, hmade, hout⟩ := Op.act_calls ho s
      rw [hsome]
      refine ⟨[calls], .cons hblock .nil, ?_, ?_⟩
      · rw [List.flatten_singleton]
        exact hmade
      · rw [List.flatten_singleton]
        exact hout
  · rw [exchange?, hperforms, hidle.store, hidle.failure? hw]
    exact ⟨[], .nil, .refl w.store, .fine (List.forall_mem_nil _)⟩

/-- a step makes calls, perhaps none -/
theorem step_made (token : Token) (w : Walk) : ∃ calls, w.store.Made (w.step token).store calls := by
  cases w with
  | ended r s => exact ⟨[], .refl s⟩
  | going code frames s =>
    obtain ⟨blocks, -, hmade, -⟩ := (going code frames s).step_calls token rfl
    exact ⟨_, hmade⟩

/-- **The calls of any number of steps.** One block for each stream instruction carried out, and none that ends the
run except the last call of all. -/
theorem after_calls (token : Token) (w : Walk) (hw : w.failure? = none) (n : Nat) : ∃ blocks,
    List.Forall₂ (fun i calls => Block i.1 i.2 calls) (w.exchanges token n) blocks ∧
    w.store.Made (w.after token n).store blocks.flatten ∧ Outcome blocks.flatten (w.after token n).failure? := by
  induction n with
  | zero =>
    have hstart : w.after token 0 = w := rfl
    rw [hstart, hw]
    exact ⟨[], .nil, .refl w.store, .fine (List.forall_mem_nil _)⟩
  | succ n ih =>
    obtain ⟨blocks, hblocks, hmade, hout⟩ := ih
    rw [after_step, exchanges]
    cases hf : (w.after token n).failure? with
    | some f =>
      -- a walk that has failed makes no more calls
      obtain ⟨r, t, hend⟩ : ∃ r t, w.after token n = .ended r t := by
        cases hv : w.after token n with
        | going code frames s => rw [hv] at hf; cases hf
        | ended r t => exact ⟨r, t, rfl⟩
      rw [hend] at hmade hout ⊢
      exact ⟨blocks, by simpa [exchange?, performs?] using hblocks, hmade, hout⟩
    | none =>
      obtain ⟨more, hmore, hmade', hout'⟩ := step_calls token (w.after token n) hf
      rw [hf] at hout
      refine ⟨blocks ++ more, List.rel_append hblocks hmore, ?_, ?_⟩
      · rw [List.flatten_append]
        exact hmade.trans hmade'
      · rw [List.flatten_append]
        exact hout.after hout'

/-- any number of steps makes calls, perhaps none -/
theorem after_made (token : Token) (w : Walk) (n : Nat) : ∃ calls, w.store.Made (w.after token n).store calls := by
  induction n with
  | zero => exact ⟨[], .refl w.store⟩
  | succ n ih =>
    obtain ⟨first, hfirst⟩ := ih
    obtain ⟨more, hmore⟩ := (w.after token n).step_made token
    exact ⟨first ++ more, hfirst.trans hmore⟩

/-! ## Walks without a signal -/

/-- the signal is raised at no moment of the walk -/
def Unsignalled (token : Token) (w : Walk) : Prop :=
  ∀ n, (w.after token n).store.signals.reason? token = none

/-- a signal that is not raised at the start, and that no alarm raises, is never raised -/
theorem unsignalled_of_unalarmed {token : Token} {w : Walk} (h : w.store.signals.reason? token = none)
    (halarmed : w.store.streams.alarmed ≠ some token) : w.Unsignalled token := by
  intro n
  obtain ⟨calls, hmade⟩ := w.after_made token n
  rw [hmade.signals, Store.reason?_alarm, if_neg fun hboth => halarmed hboth.1]
  exact h

end Walk

/-! ## The calls of a run -/

namespace Interpreter

/-- **The stream calls of a run.** The calls of a run that comes back are those of the stream instructions it has carried
out, one block for each, in order. A call that ends the run can only be the last one, and the run fails if and only if
there is one, with the failure of that call. The output has grown by the bytes accepted, the bytes delivered are
the next ones of the script, and they have been counted. -/
theorem stream_calls_of_run {steps : Nat} {code : Code} {tape : Tape} {streams : Streams} {token : Token}
    {signals : Signals} {f : Finished} (h : (new tape streams).run steps code token signals = some f) :
    ∃ blocks, List.Forall₂ (fun i calls => Block i.1 i.2 calls)
        ((Walk.start code ⟨tape, streams, signals⟩).exchanges token steps) blocks ∧
      let calls := blocks.flatten
      let left := f.interpreter.streams
      left.trace.toList = streams.trace.toList ++ calls ∧
        (∀ c ∈ calls.dropLast, c.fatal? = none) ∧
        (∀ e, f.result = .error (.failure e) ↔ ∃ c ∈ calls, c.fatal? = some e) ∧
        left.out.toList = streams.out.toList ++ calls.filterMap Call.accepted? ∧
        (∃ used, streams.script = used ++ left.script ∧
          used.filterMap ReadAnswer.byte? = calls.filterMap Call.delivered?) ∧
        left.consumed = streams.consumed + (calls.filterMap Call.delivered?).length := by
  rw [run_new, settle_eq_some_iff] at h
  obtain ⟨r, t, hend, rfl⟩ := h
  obtain ⟨blocks, hblocks, hmade, hout⟩ :=
    (Walk.start code ⟨tape, streams, signals⟩).after_calls token rfl steps
  rw [hend] at hmade hout
  refine ⟨blocks, hblocks, hmade.trace, hout.dropLast, fun e => ?_, hmade.out, hmade.script, hmade.consumed⟩
  rw [← hout.eq_some_iff e]
  exact (failureOf_eq_some_iff r e).symm

/-- two iterations of a loop: in the second one a read is interrupted before it delivers, and the write takes nothing -/
theorem stream_calls_of_run_second_write :
    let code : Code := .op .read (.loop (.op .print (.op .read .nil)) .nil)
    let wait : Failure := { kind := .interrupted }
    let streams : Streams :=
      { script := [.byte 65, .failed wait, .byte 66, .byte 67], writes := { faults := [(1, none)] } }
    ∃ f, (new .blank streams).run 6 code ⟨0⟩ ⟨#[none]⟩ = some f ∧
      f.result = .error (.failure .nothingWritten) ∧
      (Walk.start code ⟨.blank, streams, ⟨#[none]⟩⟩).exchanges ⟨0⟩ 6 =
        [(.read, 0), (.print, 65), (.read, 65), (.print, 66)] ∧
      ∃ blocks : List (List Call), blocks.length = 4 ∧
        blocks.flatten = [.read (.byte 65), .write 65 .accepted, .flush .done, .read (.failed wait),
          .read (.byte 66), .write 66 .refused] ∧
        (∀ c ∈ blocks.flatten.dropLast, c.fatal? = none) ∧ ∃ c ∈ blocks.flatten, c.fatal? = some .nothingWritten := by
  intro code wait streams
  have hexchanges : (Walk.start code ⟨.blank, streams, ⟨#[none]⟩⟩).exchanges ⟨0⟩ 6 =
      [(.read, 0), (.print, 65), (.read, 65), (.print, 66)] := by
    decide +kernel
  have hrun : (match (new .blank streams).run 6 code ⟨0⟩ ⟨#[none]⟩ with
      | some f => decide (f.result = .error (.failure .nothingWritten)) && f.interpreter.streams.trace ==
          #[.read (.byte 65), .write 65 .accepted, .flush .done, .read (.failed wait), .read (.byte 66),
            .write 66 .refused]
      | none => false) = true := by
    decide +kernel
  split at hrun
  · next f hf =>
    rw [Bool.and_eq_true, decide_eq_true_eq] at hrun
    have htrace := congrArg Array.toList (eq_of_beq hrun.2)
    obtain ⟨blocks, hblocks, hcalls, hlast, hfatal, -⟩ := stream_calls_of_run hf
    rw [hexchanges] at hblocks
    refine ⟨f, hf, hrun.1, hexchanges, blocks, hblocks.length_eq.symm, ?_, hlast, (hfatal _).1 hrun.1⟩
    rw [htrace] at hcalls
    exact hcalls.symm
  · cases hrun

end Interpreter

end RingTape
