/-
Sessions as histories of handles. What a session does to its signals, step by step and while its clock runs, is what
certain actions on handles do, one after the other: a run is begun, goes on, and timers fire in between.

- `World.Becomes`: a world and another one that it becomes by actions
- `World.Awaits`: the timers of a clock are those that were set
- `World.Carries`: a run has come to this point; `Carries.advance`, `Carries.drive`: it goes on, alone and while the
  clock runs
- `Session.Mirrors`: a session shows the signals, tokens and timers of a world
- `Mirrors.step`, `mirrors_run`: each step keeps to some actions, and so does a whole session
- `World.first_reason_wins`: what handles report, what tokens answer, and what runs are cancelled for
-/
import Mathlib.Data.List.Perm.Basic
import RingTape.Session
import RingTape.Proofs.Handles

namespace RingTape

theorem Timer.insert_perm (t : Timer) (timers : List Timer) : (t.insert timers).Perm (t :: timers) := by
  induction timers with
  | nil => exact .refl _
  | cons u rest ih =>
    rw [insert]
    split
    · exact (ih.cons u).trans (.swap t u rest)
    · exact .refl _

namespace Walk

theorem mapSignals_self (w : Walk) : (w.mapSignals fun _ => w.store.signals) = w := by
  cases w <;> rfl

theorem mapSignals_mapSignals (f g : Signals → Signals) (w : Walk) :
    (w.mapSignals f).mapSignals g = w.mapSignals fun s => g (f s) := by
  cases w <;> rfl

end Walk

namespace World

/-- a world and one that it becomes by some actions -/
def Becomes (w v : World) : Prop :=
  ∃ actions, w.run actions = v

theorem Becomes.refl (w : World) : w.Becomes w :=
  ⟨[], rfl⟩

theorem Becomes.trans {u v w : World} (h : u.Becomes v) (k : v.Becomes w) : u.Becomes w := by
  obtain ⟨a, rfl⟩ := h
  obtain ⟨b, rfl⟩ := k
  exact ⟨a ++ b, u.run_append a b⟩

theorem becomes_step (w : World) (a : Action) : w.Becomes (w.step a) :=
  ⟨[a], rfl⟩

theorem Becomes.sound {w v : World} (h : w.Becomes v) (hw : w.Sound) : v.Sound := by
  obtain ⟨actions, rfl⟩ := h
  exact hw.run actions

theorem Becomes.handles {w v : World} (h : w.Becomes v) : w.handles <+: v.handles := by
  obtain ⟨actions, rfl⟩ := h
  exact (w.run_grows actions).1

/-- some handle is a handle on the signal of the token -/
def Has (w : World) (t : Token) : Prop :=
  ∃ h ∈ w.handles, h.token = t

theorem Has.later {w v : World} {t : Token} (h : w.Has t) (hv : w.Becomes v) : v.Has t := by
  obtain ⟨g, hg, rfl⟩ := h
  exact ⟨g, hv.handles.subset hg, rfl⟩

/-! ## Timers -/

/-- the timers of a clock are those that were set and have not fired -/
def Awaits (w : World) (timers : List Timer) : Prop :=
  (w.timers.map fun t => (t.1.token, timedOut t.2)).Perm (timers.map fun t => (t.token, t.reason))

/-- the next timer of the clock fires -/
theorem Awaits.fire {w : World} {t : Timer} {rest : List Timer} (h : w.Awaits (t :: rest)) :
    ∃ j, let v := w.step (.fire j)
      v.signals = t.fire w.signals ∧ v.Awaits rest ∧ v.processes = w.processes := by
  have hmem : (t.token, t.reason) ∈ w.timers.map fun t => (t.1.token, timedOut t.2) := h.symm.subset List.mem_cons_self
  obtain ⟨⟨g, micros⟩, hset, heq⟩ := List.mem_map.1 hmem
  obtain ⟨j, hj⟩ := List.getElem?_of_mem hset
  obtain ⟨htoken, hreason⟩ := Prod.mk.inj heq
  refine ⟨j, ?_⟩
  simp only [step, hj]
  refine ⟨?_, ?_, trivial⟩
  · simp only [Timer.fire]
    rw [← htoken, ← hreason]
  · obtain ⟨hlength, hget⟩ := List.getElem?_eq_some_iff.1 hj
    have hperm := (List.getElem_cons_eraseIdx_perm hlength).symm
    rw [hget] at hperm
    have hall := (hperm.map fun t : Handle × Nat => (t.1.token, timedOut t.2)).symm.trans h
    rw [List.map_cons, List.map_cons, ← heq] at hall
    exact hall.cons_inv

/-- the clock waits for a signal -/
theorem Awaits.wait {w : World} (token : Token) (now : Nat) {timers : List Timer} (h : w.Awaits timers) :
    ∃ v, w.Becomes v ∧ v.signals = (Clock.waitFor token w.signals now timers).2 ∧
      v.Awaits (Clock.waitFor token w.signals now timers).1.timers := by
  induction timers generalizing w now with
  | nil => exact ⟨w, .refl w, rfl, h⟩
  | cons t rest ih =>
    rw [Clock.waitFor]
    split
    · exact ⟨w, .refl w, rfl, h⟩
    · obtain ⟨j, hsignals, hrest, -⟩ := h.fire
      obtain ⟨v, hv, hlater⟩ := ih t.due hrest
      rw [hsignals] at hlater
      exact ⟨v, (w.becomes_step _).trans hv, hlater⟩

/-! ## Runs -/

/-- a run under a token has come to this point -/
def Carries (w : World) (i : Nat) (token : Token) (walk : Walk) : Prop :=
  ∃ p, w.processes[i]? = some p ∧ p.handle.token = token ∧ p.resumed w.signals = walk

namespace Carries

variable {w : World} {i : Nat} {token : Token} {walk : Walk}

theorem signals (h : w.Carries i token walk) : walk.store.signals = w.signals := by
  obtain ⟨p, -, -, rfl⟩ := h
  rw [Process.store_resumed]

theorem step (h : w.Carries i token walk) :
    (w.step (.advance i)).Carries i token (walk.step token) ∧ (w.step (.advance i)).timers = w.timers := by
  obtain ⟨p, hp, rfl, rfl⟩ := h
  obtain ⟨hlength, -⟩ := List.getElem?_eq_some_iff.1 hp
  simp only [World.step, hp]
  refine ⟨⟨{ p with walk := p.advanced w.signals }, ?_, rfl, ?_⟩, trivial⟩
  · simp only [List.getElem?_set_self hlength]
  · exact Walk.mapSignals_self _

/-- the run goes on, with nothing done in between -/
theorem advance (h : w.Carries i token walk) (n : Nat) :
    ∃ v, w.Becomes v ∧ v.Carries i token (walk.advance token n) ∧ v.timers = w.timers := by
  rw [Walk.advance_eq_after]
  induction n with
  | zero => exact ⟨w, .refl w, h, rfl⟩
  | succ n ih =>
    obtain ⟨v, hv, hcarries, htimers⟩ := ih
    obtain ⟨hnext, hsame⟩ := hcarries.step
    rw [← Walk.after_step] at hnext
    exact ⟨_, hv.trans (v.becomes_step _), hnext, hsame.trans htimers⟩

/-- the run goes on while the clock runs -/
theorem drive (h : w.Carries i token walk) (limit now : Nat) {timers : List Timer} (ht : w.Awaits timers) :
    ∃ v, w.Becomes v ∧ v.Carries i token (Clock.driveFrom limit token now timers walk).2 ∧
      v.Awaits (Clock.driveFrom limit token now timers walk).1.timers := by
  induction timers generalizing w walk now with
  | nil =>
    obtain ⟨v, hv, hcarries, htimers⟩ := h.advance limit
    refine ⟨v, hv, hcarries, ?_⟩
    rw [Awaits, htimers]
    exact ht
  | cons t rest ih =>
    rw [Clock.driveFrom]
    split
    · obtain ⟨u, hu, hcarries, htimers⟩ := h.advance (Clock.allowance (t.due - now))
      have hawaits : u.Awaits (t :: rest) := by
        rw [Awaits, htimers]
        exact ht
      split
      · next r s hend =>
        rw [hend] at hcarries
        exact ⟨u, hu, hcarries, hawaits⟩
      · next code frames s hgoing =>
        rw [hgoing] at hcarries
        obtain ⟨j, hsignals, hrest, hprocesses⟩ := hawaits.fire
        have hfired : (u.step (.fire j)).Carries i token ((Walk.going code frames s).mapSignals t.fire) := by
          obtain ⟨p, hp, htoken, hresumed⟩ := hcarries
          refine ⟨p, by rwa [hprocesses], htoken, ?_⟩
          rw [hsignals, ← hresumed, Process.resumed, Process.resumed, Walk.mapSignals_mapSignals]
        obtain ⟨v, hv, hlater⟩ := ih hfired t.due hrest
        exact ⟨v, (hu.trans (u.becomes_step _)).trans hv, hlater⟩
    · obtain ⟨v, hv, hcarries, htimers⟩ := h.advance limit
      refine ⟨v, hv, hcarries, ?_⟩
      rw [Awaits, htimers]
      exact ht

/-- a run that was cancelled has been so for the reason of its token -/
theorem cancelled (h : w.Carries i token walk) (hw : w.Sound) {why : String}
    (hwhy : walk.result? = some (.error (.cancelled why))) : w.signals.reason? token = some why := by
  obtain ⟨p, hp, rfl, rfl⟩ := h
  rw [Process.result?_resumed] at hwhy
  exact hw.stopped p (List.mem_of_getElem? hp) why hwhy

/-- what the streams of a run raise is the signal of a handle -/
theorem alarmed (h : w.Carries i token walk) (hw : w.Sound) {t : Token}
    (ht : walk.store.streams.alarmed = some t) : w.Has t := by
  obtain ⟨p, hp, rfl, rfl⟩ := h
  have hmem := List.mem_of_getElem? hp
  rw [Process.store_resumed] at ht
  have hbell := (hw.bells p hmem).symm.trans ht
  obtain ⟨b, hb, rfl⟩ := Option.map_eq_some_iff.1 hbell
  exact ⟨b, (hw.processes p hmem).2 b hb, rfl⟩

end Carries

/-- a run begins, under a handle on the signal of a token -/
theorem Has.start {w : World} {t : Token} (h : w.Has t) (code : Code) (tape : Tape) {streams : Streams}
    (halarmed : ∀ u, streams.alarmed = some u → w.Has u) :
    ∃ v i, w.Becomes v ∧ v.Carries i t (.start code ⟨tape, streams, w.signals⟩) ∧ v.timers = w.timers := by
  obtain ⟨g, hg, rfl⟩ := h
  obtain ⟨a, ha⟩ := List.getElem?_of_mem hg
  obtain ⟨bell, hbell⟩ : ∃ bell : Option Nat, (bell.bind (w.handles[·]?)).map Handle.token = streams.alarmed := by
    cases hs : streams.alarmed with
    | none => exact ⟨none, rfl⟩
    | some u =>
      obtain ⟨b, hb, rfl⟩ := halarmed u hs
      obtain ⟨k, hk⟩ := List.getElem?_of_mem hb
      exact ⟨some k, by rw [Option.bind_some, hk, Option.map_some]⟩
  refine ⟨_, w.processes.length, w.becomes_step (.start a bell code tape streams), ?_⟩
  simp only [step, ha, hbell]
  refine ⟨⟨_, List.getElem?_concat_length, rfl, rfl⟩, trivial⟩

end World

/-! ## Sessions -/

/-- the streams that a step makes raise no signal but that of the token it names for them -/
def Step.Wired : Step → Prop
  | .newInterpreter _ streams none => streams.alarmed = none
  | _ => True

/-- the reason for which a run was cancelled, where this is the answer to one that was -/
def Answer.cancelledFor? : Answer → Option String
  | .finished (.error (.cancelled why)) _ => some why
  | _ => none

theorem Answer.cancelledFor?_finished {r : Except RunError Unit} {i : Interpreter} {why : String} :
    (Answer.finished r i).cancelledFor? = some why ↔ r = .error (.cancelled why) := by
  rcases r with (_ | _ | _ | _) | _ <;> simp [cancelledFor?]

namespace Session

/-- a session shows what a world shows: its signals are those of the world, its tokens and those that its interpreters
raise are on signals of handles, and its clock awaits the timers that were set -/
structure Mirrors (s : Session) (w : World) : Prop where
  signals : w.signals = s.signals
  tokens : ∀ name t, s.tokens.find? name = some t → w.Has t
  alarmed : ∀ name i, s.interpreters.find? name = some i → ∀ t, i.streams.alarmed = some t → w.Has t
  timers : w.Awaits s.clock.timers

theorem mirrors_empty : Mirrors {} {} where
  signals := rfl
  tokens _ _ h := by cases h
  alarmed _ _ h := by cases h
  timers := .refl _

namespace Mirrors

variable {s : Session} {w : World}

/-- actions that leave the tokens and the interpreters of a session as they are -/
theorem later (h : s.Mirrors w) {v : World} (hv : w.Becomes v) {signals : Signals} {clock : Clock}
    (hsignals : v.signals = signals) (htimers : v.Awaits clock.timers) :
    Mirrors { s with signals := signals, clock := clock } v where
  signals := hsignals
  tokens name t ht := (h.tokens name t ht).later hv
  alarmed name i hi t ht := (h.alarmed name i hi t ht).later hv
  timers := htimers

/-- an interpreter bound to a name -/
theorem bindInterpreter (h : s.Mirrors w) (name : String) {i : Interpreter}
    (hi : ∀ t, i.streams.alarmed = some t → w.Has t) :
    Mirrors { s with interpreters := s.interpreters.bind name i } w :=
  { h with
    alarmed := by
      intro other j hj
      simp only [Bindings.find?_bind] at hj
      split at hj
      · cases hj
        exact hi
      · exact h.alarmed other j hj }

theorem unbindInterpreter (h : s.Mirrors w) (name : String) :
    Mirrors { s with interpreters := s.interpreters.unbind name } w :=
  { h with
    alarmed := by
      intro other j hj
      simp only [Bindings.find?_unbind] at hj
      split at hj
      · cases hj
      · exact h.alarmed other j hj }

/-- a token bound to a name -/
theorem bindToken (h : s.Mirrors w) (name : String) {t : Token} (ht : w.Has t) :
    Mirrors { s with tokens := s.tokens.bind name t } w :=
  { h with
    tokens := by
      intro other u hu
      simp only [Bindings.find?_bind] at hu
      split at hu
      · cases hu
        exact ht
      · exact h.tokens other u hu }

/-- a run on an interpreter of the session; if it is cancelled, then for the reason of its token -/
theorem runOn (h : s.Mirrors w) (hw : w.Sound) (limit : Nat) {name : String} {i : Interpreter} {t : Token}
    (hi : s.interpreters.find? name = some i) (ht : w.Has t) (code : Code) :
    (∃ v, w.Becomes v ∧ (s.runOn limit name i code t).1.Mirrors v) ∧
      ∀ why, (s.runOn limit name i code t).2.cancelledFor? = some why →
        (s.runOn limit name i code t).1.signals.reason? t = some why := by
  rw [Session.runOn]
  by_cases hready : i.status = .ready
  · obtain ⟨u, k, hu, hstart, hset⟩ := ht.start code i.tape (h.alarmed name i hi)
    have hawaits : u.Awaits s.clock.timers := by
      rw [World.Awaits, hset]
      exact h.timers
    obtain ⟨v, hv, hend, hleft⟩ := hstart.drive limit s.clock.now hawaits
    have hsound := (hu.trans hv).sound hw
    have hrun : s.clock.run limit i code t s.signals =
        (Interpreter.settle (s.clock.drive limit t (.start code ⟨i.tape, i.streams, s.signals⟩)).2).map fun f =>
          ((s.clock.drive limit t (.start code ⟨i.tape, i.streams, s.signals⟩)).1, f) := by
      rw [Clock.run, Interpreter.begin, if_pos hready]
    rw [hrun]
    rw [h.signals] at hend hleft
    rw [Clock.drive]
    rcases hdriven : Clock.driveFrom limit t s.clock.now s.clock.timers (.start code ⟨i.tape, i.streams, s.signals⟩)
      with ⟨clock, code' | ⟨r, store⟩⟩
    · exact ⟨⟨w, .refl w, h⟩, fun why hwhy => by cases hwhy⟩
    · rw [hdriven] at hend hleft
      have hsettled : Interpreter.settle (.ended r store) = some (.ofEnd r store) := rfl
      simp only [hsettled, Option.map_some]
      have hsignals : v.signals = store.signals := hend.signals.symm
      have hmirrors := h.later (hu.trans hv) hsignals hleft
      refine ⟨⟨v, hu.trans hv, hmirrors.bindInterpreter name fun u => hend.alarmed hsound⟩, fun why hwhy => ?_⟩
      obtain rfl : r = .error (.cancelled why) := Answer.cancelledFor?_finished.1 hwhy
      have hreason := hend.cancelled hsound rfl
      rwa [hsignals] at hreason
  · have hrun : s.clock.run limit i code t s.signals = some (s.clock, i.refuse s.signals (.notReady i.status)) := by
      rw [Clock.run, Interpreter.begin, if_neg hready]
    rw [hrun]
    exact ⟨⟨w, .refl w, h.bindInterpreter name (h.alarmed name i hi)⟩, fun why hwhy => by cases hwhy⟩

/-- a new token -/
theorem newToken (h : s.Mirrors w) (limit : Nat) (name : String) :
    ∃ v, w.Becomes v ∧ (s.step limit (.newToken name)).1.Mirrors v := by
  have hadded : (w.step .create).signals = s.signals.add.2 := congrArg (·.add.2) h.signals
  have hhas : (w.step .create).Has s.signals.add.1 := by
    refine ⟨⟨w.signals.add.1, w.handles.length⟩, List.mem_append_right _ (List.mem_singleton_self _), ?_⟩
    rw [h.signals]
  exact ⟨_, w.becomes_step .create, (h.later (w.becomes_step .create) hadded h.timers).bindToken name hhas⟩

/-- a copy of a token is a clone of a handle on its signal -/
theorem copyToken (h : s.Mirrors w) (limit : Nat) (source name : String) :
    ∃ v, w.Becomes v ∧ (s.step limit (.copyToken source name)).1.Mirrors v := by
  simp only [Session.step]
  cases ht : s.tokens.find? source with
  | none => exact ⟨w, .refl w, h⟩
  | some t =>
    obtain ⟨g, hg, rfl⟩ := h.tokens source t ht
    obtain ⟨i, hi⟩ := List.getElem?_of_mem hg
    have hclone : (w.step (.clone i)) = { w with handles := w.handles ++ [g] } := by simp only [World.step, hi]
    have hv := w.becomes_step (.clone i)
    rw [hclone] at hv
    have hlater : Mirrors { s with signals := s.signals, clock := s.clock } _ := h.later hv h.signals h.timers
    exact ⟨_, hv, hlater.bindToken name ⟨g, List.mem_append_left _ hg, rfl⟩⟩

theorem cancel (h : s.Mirrors w) (limit : Nat) (name reason : String) :
    ∃ v, w.Becomes v ∧ (s.step limit (.cancel name reason)).1.Mirrors v := by
  simp only [Session.step]
  cases ht : s.tokens.find? name with
  | none => exact ⟨w, .refl w, h⟩
  | some t =>
    obtain ⟨g, hg, rfl⟩ := h.tokens name t ht
    obtain ⟨i, hi⟩ := List.getElem?_of_mem hg
    have hcancel : w.step (.cancel i reason) =
        { w with signals := w.signals.raise g.token reason, log := w.log ++ [⟨g.family, reason⟩] } := by
      simp only [World.step, hi]
    have hv := w.becomes_step (.cancel i reason)
    rw [hcancel] at hv
    exact ⟨_, hv, h.later hv (congrArg (·.raise g.token reason) h.signals) h.timers⟩

/-- a timer is set, and perhaps waited for -/
theorem cancelAfter (h : s.Mirrors w) (limit : Nat) (name : String) (micros : Nat) (wait : Bool) :
    ∃ v, w.Becomes v ∧ (s.step limit (.cancelAfter name micros wait)).1.Mirrors v := by
  simp only [Session.step]
  cases ht : s.tokens.find? name with
  | none => exact ⟨w, .refl w, h⟩
  | some t =>
    obtain ⟨g, hg, rfl⟩ := h.tokens name t ht
    obtain ⟨i, hi⟩ := List.getElem?_of_mem hg
    have hset : w.step (.setTimer i micros) = { w with timers := w.timers ++ [(g, micros)] } := by
      simp only [World.step, hi]
    have hu := w.becomes_step (.setTimer i micros)
    rw [hset] at hu
    have hawaits : World.Awaits { w with timers := w.timers ++ [(g, micros)] } (s.clock.set g.token micros).timers := by
      have hinsert := (Timer.insert_perm ⟨s.clock.now + micros, g.token, timedOut micros⟩ s.clock.timers).map
        fun t => (t.token, t.reason)
      rw [World.Awaits, List.map_append]
      exact (List.perm_append_comm.trans (h.timers.cons _)).trans hinsert.symm
    cases wait with
    | false => exact ⟨_, hu, h.later hu h.signals hawaits⟩
    | true =>
      obtain ⟨v, hv, hsignals, hleft⟩ := hawaits.wait g.token s.clock.now
      rw [h.signals] at hsignals hleft
      exact ⟨v, hu.trans hv, h.later (hu.trans hv) hsignals hleft⟩

/-- **Each step keeps to some actions.** -/
theorem step (h : s.Mirrors w) (hw : w.Sound) (limit : Nat) (p : Step) (hp : p.Wired) :
    ∃ v, w.Becomes v ∧ (s.step limit p).1.Mirrors v := by
  have hsame : ∃ v, w.Becomes v ∧ s.Mirrors v := ⟨w, .refl w, h⟩
  have hprogram : ∀ programs, ∃ v, w.Becomes v ∧ Mirrors { s with programs := programs } v :=
    fun programs => ⟨w, .refl w, { h with }⟩
  cases p with
  | newToken name => exact h.newToken limit name
  | copyToken source name => exact h.copyToken limit source name
  | cancel name reason => exact h.cancel limit name reason
  | cancelAfter name micros wait => exact h.cancelAfter limit name micros wait
  | exhibit what layout => exact hsame
  | unknown word => exact hsame
  | emptyProgram name => exact hprogram _
  | parse name source =>
    simp only [Session.step]
    split
    · exact hsame
    · exact hprogram _
  | copyProgram source name =>
    simp only [Session.step]
    split
    · exact hsame
    · exact hprogram _
  | compare left right =>
    simp only [Session.step]
    split <;> exact hsame
  | node name path =>
    simp only [Session.step]
    split <;> exact hsame
  | tokenState name =>
    simp only [Session.step]
    split <;> exact hsame
  | state name =>
    simp only [Session.step]
    split <;> exact hsame
  | newInterpreter name streams token =>
    cases token with
    | none =>
      refine ⟨w, .refl w, h.bindInterpreter name fun t ht => ?_⟩
      have hnone : streams.alarmed = none := hp
      rw [Interpreter.new, hnone] at ht
      cases ht
    | some token =>
      simp only [Session.step]
      cases ht : s.tokens.find? token with
      | none => exact hsame
      | some t =>
        refine ⟨w, .refl w, h.bindInterpreter name fun u hu => ?_⟩
        cases hu
        exact h.tokens token t ht
  | run name program token =>
    simp only [Session.step]
    split
    · exact hsame
    · exact hsame
    · exact hsame
    · next code t i _ ht hi => exact (h.runOn hw limit hi (h.tokens token t ht) code).1
  | handOver source name =>
    simp only [Session.step]
    cases hi : s.interpreters.find? source with
    | none => exact hsame
    | some i => exact ⟨w, .refl w, (h.unbindInterpreter source).bindInterpreter name (h.alarmed source i hi)⟩

end Mirrors

/-- **A whole session keeps to some actions.** -/
theorem mirrors_run (limit : Nat) (steps : List Step) (hsteps : ∀ p ∈ steps, p.Wired) {s : Session} {w : World}
    (h : s.Mirrors w) (hw : w.Sound) : ∃ v, w.Becomes v ∧ (s.run limit steps).1.Mirrors v := by
  induction steps generalizing s w with
  | nil => exact ⟨w, .refl w, h⟩
  | cons p rest ih =>
    obtain ⟨hp, hrest⟩ := List.forall_mem_cons.1 hsteps
    obtain ⟨u, hu, hstep⟩ := h.step hw limit p hp
    obtain ⟨v, hv, hrun⟩ := ih hrest hstep (hu.sound hw)
    exact ⟨v, hu.trans hv, hrun⟩

/-- what a token answers is what some handle reports -/
theorem Mirrors.answer {s : Session} {w : World} (h : s.Mirrors w) (hw : w.Sound) {name : String} {t : Token}
    (ht : s.tokens.find? name = some t) :
    ∃ g ∈ w.handles, g.token = t ∧ s.tokenAnswer t = .token (World.firstReason? g.family w.log) := by
  obtain ⟨g, hg, rfl⟩ := h.tokens name t ht
  refine ⟨g, hg, rfl, ?_⟩
  rw [tokenAnswer, ← h.signals, ← hw.report g hg]
  rfl

/-- a run of a session that is cancelled carries the reason that its token then answers -/
theorem Mirrors.cancelled_run {s : Session} {w : World} (h : s.Mirrors w) (hw : w.Sound) {limit : Nat}
    {name program token why : String}
    (hrun : (s.step limit (.run name program token)).2.cancelledFor? = some why) :
    ∃ t, s.tokens.find? token = some t ∧
      (s.step limit (.run name program token)).1.tokenAnswer t = .token (some why) := by
  simp only [Session.step] at hrun ⊢
  split at hrun
  · cases hrun
  · cases hrun
  · cases hrun
  · next code t j _ ht hj =>
    refine ⟨t, ht, ?_⟩
    rw [tokenAnswer, (h.runOn hw limit hj (h.tokens token t ht) code).2 why hrun]

end Session

namespace World

/-- **The first reason wins.** After any actions, each handle reports the reason of the earliest cancel through a handle
of its family, so that all handles of a family report the same, and none if there was no such cancel. Whatever is done
next, a reason that is reported stays, and cancels through handles of other families change nothing about what is
reported. And a run that is cancelled carries the reason that its handle reports.

So it is in a session: what its steps and its clock do is what some actions do. At every moment a token answers the
reason of the earliest cancel in its family, and a run that is cancelled carries the reason that its token answers. -/
theorem first_reason_wins :
    (∀ actions : List Action,
      let w := World.run {} actions
      (∀ h ∈ w.handles, w.report h = firstReason? h.family w.log) ∧
        (∀ g ∈ w.handles, ∀ h ∈ w.handles, g.family = h.family → w.report g = w.report h) ∧
        (∀ h ∈ w.handles, ∀ more, h ∈ (w.run more).handles ∧ ∃ later, (w.run more).log = w.log ++ later ∧
          (∀ why, w.report h = some why → (w.run more).report h = some why) ∧
          ((∀ c ∈ later, c.family ≠ h.family) → (w.run more).report h = w.report h)) ∧
        ∀ p ∈ w.processes, p.handle ∈ w.handles ∧
          ∀ f, Interpreter.settle p.walk = some f → f.interpreter.status = .cancelled →
            ∃ why, f.result = .error (.cancelled why) ∧ w.report p.handle = some why) ∧
    ∀ (limit : Nat) (steps : List Step), (∀ p ∈ steps, p.Wired) →
      let s := (Session.run limit {} steps).1
      ∃ actions, s.Mirrors (World.run {} actions) ∧
        (∀ name t, s.tokens.find? name = some t → ∃ h ∈ (World.run {} actions).handles, h.token = t ∧
          s.tokenAnswer t = .token (firstReason? h.family (World.run {} actions).log)) ∧
        ∀ name program token why, (s.step limit (.run name program token)).2.cancelledFor? = some why →
          ∃ t, s.tokens.find? token = some t ∧
            (s.step limit (.run name program token)).1.tokenAnswer t = .token (some why) := by
  constructor
  · intro actions w
    have hw : w.Sound := sound_empty.run actions
    refine ⟨hw.report, ?_, ?_, ?_⟩
    · intro g hg h hh hsame
      rw [hw.report g hg, hw.report h hh, hsame]
    · intro h hh more
      exact hw.report_later hh more
    · intro p hp
      exact ⟨(hw.processes p hp).1, fun f hf hstatus => hw.cancelled_run hp hf hstatus⟩
  · intro limit steps hsteps s
    obtain ⟨v, ⟨actions, rfl⟩, hmirrors⟩ := Session.mirrors_run limit steps hsteps Session.mirrors_empty sound_empty
    have hsound := sound_empty.run actions
    refine ⟨actions, hmirrors, ?_, ?_⟩
    · intro name t ht
      exact hmirrors.answer hsound ht
    · intro name program token why hrun
      exact hmirrors.cancelled_run hsound hrun

/-- the streams of a run cancel through a clone before anyone else does, so the run carries their reason, and the timer
of an unrelated handle counts for that handle only; and a session in which a copy of a token is cancelled first -/
theorem first_reason_wins_clone :
    let code : Code := .op .incr (.loop (.op .print .nil) .nil)
    let streams : Streams := { flushes := { alarms := [(0, "stop")] } }
    let w := World.run {} [.create, .clone 0, .create, .setTimer 2 50000, .start 0 (some 1) code .blank streams,
      .advance 0, .advance 0, .advance 0, .cancel 0 "late", .advance 0, .fire 0]
    let s := (Session.run 9 {} [.newToken "a", .copyToken "a" "b", .cancelAfter "a" 50000 false, .cancel "b" "stop",
      .cancel "a" "late", .parse "p" (.ofBytes [0x2b]), .newInterpreter "i" {} none]).1
    w.handles = [⟨⟨0⟩, 0⟩, ⟨⟨0⟩, 0⟩, ⟨⟨1⟩, 2⟩] ∧
      w.log = [⟨0, "stop"⟩, ⟨0, "late"⟩, ⟨2, "timed out after 50ms"⟩] ∧
      w.report ⟨⟨0⟩, 0⟩ = some "stop" ∧ w.report ⟨⟨1⟩, 2⟩ = some "timed out after 50ms" ∧
      (∃ p ∈ w.processes, ∃ f, Interpreter.settle p.walk = some f ∧ f.result = .error (.cancelled "stop")) ∧
      ∃ t, s.tokens.find? "a" = some t ∧ (s.step 9 (.run "i" "p" "a")).1.tokenAnswer t = .token (some "stop") := by
  intro code streams w s
  have hhandles : w.handles = [⟨⟨0⟩, 0⟩, ⟨⟨0⟩, 0⟩, ⟨⟨1⟩, 2⟩] := by decide +kernel
  have hlog : w.log = [⟨0, "stop"⟩, ⟨0, "late"⟩, ⟨2, "timed out after 50ms"⟩] := by decide +kernel
  obtain ⟨hactions, hsessions⟩ := first_reason_wins
  obtain ⟨hreport, -, -, hruns⟩ := hactions [.create, .clone 0, .create, .setTimer 2 50000,
    .start 0 (some 1) code .blank streams, .advance 0, .advance 0, .advance 0, .cancel 0 "late", .advance 0, .fire 0]
  have hfirst : w.report ⟨⟨0⟩, 0⟩ = some "stop" := by
    rw [hreport _ (by rw [hhandles]; decide), hlog]
    decide
  have hother : w.report ⟨⟨1⟩, 2⟩ = some "timed out after 50ms" := by
    rw [hreport _ (by rw [hhandles]; decide), hlog]
    decide
  have hrun : w.processes.map (fun p => (p.handle, (Interpreter.settle p.walk).map (·.interpreter.status))) =
      [(⟨⟨0⟩, 0⟩, some .cancelled)] := by
    decide +kernel
  have hsession : (s.step 9 (.run "i" "p" "a")).2.cancelledFor? = some "stop" := by decide +kernel
  obtain ⟨actions, -, -, hcancelled⟩ := hsessions 9 [.newToken "a", .copyToken "a" "b", .cancelAfter "a" 50000 false,
    .cancel "b" "stop", .cancel "a" "late", .parse "p" (.ofBytes [0x2b]), .newInterpreter "i" {} none]
    (by simp [Step.Wired])
  refine ⟨hhandles, hlog, hfirst, hother, ?_, ?_⟩
  · obtain ⟨p, hp, hone⟩ := List.map_eq_singleton_iff.1 hrun
    obtain ⟨hhandle, hstatus⟩ := Prod.mk.inj hone
    obtain ⟨f, hf, hend⟩ := Option.map_eq_some_iff.1 hstatus
    have hmem : p ∈ w.processes := by rw [hp]; exact List.mem_singleton_self p
    obtain ⟨why, hresult, hwhy⟩ := (hruns p hmem).2 f hf hend
    rw [hhandle] at hwhy
    obtain rfl := Option.some.inj (hfirst.symm.trans hwhy)
    exact ⟨p, hmem, f, hf, hresult⟩
  · exact hcancelled _ _ _ _ hsession

end World

end RingTape
