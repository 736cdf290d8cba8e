/-
The life of an interpreter over any number of calls to run it. The first call decides: it leaves one of three statuses,
according to its result, and every later call is refused with that status and changes nothing.

- `Walk.Conclusion`: the results that a walk can come to; `after_conclusion`: it comes to no other
- `Interpreter.History`: calls to run one interpreter, one after the other, with what they give back
- `History.refused`: what an interpreter that is no longer ready answers
- `life_of_interpreter`: the statuses and the answers over any history
-/
import RingTape.Proofs.Discipline

namespace RingTape

namespace Walk

/-- the results that a walk can come to; the end of the input and the refusal of a run are not among them -/
inductive Conclusion : Except RunError Unit → Prop where
  | completed : Conclusion (.ok ())
  | cancelled (why : String) : Conclusion (.error (.cancelled why))
  | failed (f : Failure) : Conclusion (.error (.failure f))

theorem perform_conclusion {o : Op} {rest : Code} {frames : List Frame} {s : Store} {r : Except RunError Unit}
    (h : (perform o rest frames s).result? = some r) : Conclusion r := by
  rw [perform] at h
  split at h
  · cases h
  · next e t hact =>
    obtain ⟨f, rfl⟩ := Op.act_error hact
    cases h
    exact .failed f

theorem step_conclusion (token : Token) {w : Walk} (hw : ∀ r, w.result? = some r → Conclusion r)
    (r : Except RunError Unit) (h : (w.step token).result? = some r) : Conclusion r := by
  rcases w.step_cases token with ⟨o, rest, frames, s, -, -, hstep⟩ | ⟨-, hidle⟩
  · rw [hstep] at h
    exact perform_conclusion h
  · generalize w.step token = v at h hidle
    cases hidle with
    | on code frames => cases h
    | still r' hr =>
      cases h
      exact hw _ hr
    | done =>
      cases h
      exact .completed
    | stopped why hr =>
      cases h
      exact .cancelled why

theorem after_conclusion (token : Token) {w : Walk} (hw : ∀ r, w.result? = some r → Conclusion r) (n : Nat) :
    ∀ r, (w.after token n).result? = some r → Conclusion r := by
  induction n with
  | zero => exact hw
  | succ n ih => exact step_conclusion token ih

end Walk

namespace Interpreter

/-! ## What a call leaves -/

/-- the status that a call leaves, when its result is one that a walk can come to -/
structure Filed (f : Finished) : Prop where
  settled : f.interpreter.status = .completed ∨ f.interpreter.status = .cancelled ∨ f.interpreter.status = .failed
  completed : f.interpreter.status = .completed ↔ f.result = .ok ()
  cancelled : f.interpreter.status = .cancelled ↔ ∃ why, f.result = .error (.cancelled why)
  failed : f.interpreter.status = .failed ↔ ∃ e, f.result = .error (.failure e)

theorem filed_of_conclusion {r : Except RunError Unit} (h : Walk.Conclusion r) (t : Store) : Filed (.ofEnd r t) := by
  cases h with
  | completed => constructor <;> simp [Finished.ofEnd, Status.ofResult]
  | cancelled why => constructor <;> simp [Finished.ofEnd, Status.ofResult]
  | failed f => constructor <;> simp [Finished.ofEnd, Status.ofResult]

theorem filed_of_returns_new {tape : Tape} {streams : Streams} {code : Code} {token : Token} {signals : Signals}
    {f : Finished} (h : (new tape streams).Returns code token signals f) : Filed f := by
  obtain ⟨r, t, ⟨n, hend⟩, rfl⟩ := returns_new_iff.1 h
  refine filed_of_conclusion (Walk.after_conclusion token ?_ n r (by rw [hend]; rfl)) t
  intro r h
  cases h

theorem run_of_not_ready {i : Interpreter} (h : i.status ≠ .ready) (steps : Nat) (code : Code) (token : Token)
    (signals : Signals) : i.run steps code token signals = some ⟨.error (.notReady i.status), i, signals⟩ := by
  rw [run, begin, if_neg h]
  rfl

/-! ## Histories -/

/-- a call to run, with the signals as they are when it is made -/
structure Request where
  code : Code
  token : Token
  signals : Signals

/-- calls to run one interpreter, one after the other, each with what it has given back; between two of them the signals
may have been raised from outside -/
inductive History : Interpreter → List (Request × Finished) → Prop where
  | none (i : Interpreter) : History i []
  | call {i : Interpreter} {q : Request} {f : Finished} {later : List (Request × Finished)}
      (h : i.Returns q.code q.token q.signals f) (more : History f.interpreter later) : History i ((q, f) :: later)

/-- an interpreter that is no longer ready refuses every call and stays what it is -/
theorem History.refused {i : Interpreter} {calls : List (Request × Finished)} (h : History i calls)
    (hi : i.status ≠ .ready) : ∀ c ∈ calls, c.2 = ⟨.error (.notReady i.status), i, c.1.signals⟩ := by
  induction h with
  | none i => exact List.forall_mem_nil _
  | @call i q f later hreturns more ih =>
    obtain ⟨steps, hrun⟩ := hreturns
    rw [run_of_not_ready hi] at hrun
    cases hrun
    exact List.forall_mem_cons.2 ⟨rfl, ih hi⟩

theorem Filed.not_ready {f : Finished} (h : Filed f) : f.interpreter.status ≠ .ready := by
  rcases h.settled with hs | hs | hs <;> rw [hs] <;> decide

/-- **The life of an interpreter.** It is ready before the first call. The first call that comes back leaves the status
that its result says, and its result is one of three. From then on every call is refused with that status, whatever the
program, the token and the signals; it makes no stream call, and tape, streams, status and signals stay as they were. -/
theorem life_of_interpreter (tape : Tape) (streams : Streams) (first : Request × Finished)
    (later : List (Request × Finished)) (h : History (new tape streams) (first :: later)) :
    (new tape streams).status = .ready ∧
    let i := first.2.interpreter
    (i.status = .completed ∨ i.status = .cancelled ∨ i.status = .failed) ∧
      (i.status = .completed ↔ first.2.result = .ok ()) ∧
      (i.status = .cancelled ↔ ∃ why, first.2.result = .error (.cancelled why)) ∧
      (i.status = .failed ↔ ∃ e, first.2.result = .error (.failure e)) ∧
      (∀ c ∈ first :: later, c.2.interpreter.status = i.status) ∧
      (∀ c ∈ later, c.2 = ⟨.error (.notReady i.status), i, c.1.signals⟩) ∧
      ∀ (steps : Nat) (q : Request), i.run steps q.code q.token q.signals =
        some ⟨.error (.notReady i.status), i, q.signals⟩ := by
  cases h with
  | @call _ q f _ hreturns more =>
    have hfiled := filed_of_returns_new hreturns
    have hlater := more.refused hfiled.not_ready
    refine ⟨rfl, hfiled.settled, hfiled.completed, hfiled.cancelled, hfiled.failed, ?_, hlater, ?_⟩
    · refine List.forall_mem_cons.2 ⟨rfl, fun c hc => ?_⟩
      rw [hlater c hc]
    · exact fun steps q => run_of_not_ready hfiled.not_ready steps q.code q.token q.signals

/-- a first call that its signal ends, a call with the empty program, and one under a token that nothing has raised -/
theorem life_of_interpreter_cancelled :
    let raised : Signals := ⟨#[some "stop", none]⟩
    let i : Interpreter := ⟨.blank, {}, .cancelled⟩
    let calls : List (Request × Finished) :=
      [(⟨.op .incr .nil, ⟨0⟩, raised⟩, ⟨.error (.cancelled "stop"), i, raised⟩),
        (⟨.nil, ⟨0⟩, raised⟩, ⟨.error (.notReady .cancelled), i, raised⟩),
        (⟨.op .print .nil, ⟨1⟩, raised⟩, ⟨.error (.notReady .cancelled), i, raised⟩)]
    History (new .blank {}) calls ∧ (∀ c ∈ calls, c.2.interpreter.status = .cancelled) ∧
      ∀ steps (q : Request), i.run steps q.code q.token q.signals =
        some ⟨.error (.notReady .cancelled), i, q.signals⟩ := by
  intro raised i calls
  have h : History (new .blank {}) calls :=
    .call ⟨1, rfl⟩ (.call ⟨0, rfl⟩ (.call ⟨0, rfl⟩ (.none _)))
  obtain ⟨-, -, -, -, -, hstatus, -, hrefused⟩ := life_of_interpreter .blank {} _ _ h
  exact ⟨h, hstatus, hrefused⟩

end Interpreter

end RingTape
