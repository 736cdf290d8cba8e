/-
Handles on signals, and who sees what. A handle may be made anew or cloned from another one, and then handed on: to
whoever cancels, to a timer, to a run, or to the streams of a run. Handles made from one another belong to one family.
Whatever is done in whatever order, the handles of a family report the first reason that any of them was given, and
nothing that is done through the handles of another family matters to them.

- `World`: the handles, timers and runs there are, and the cancels so far, as a log
- `World.step`, `World.run`: one action, and any actions one after the other
- `World.Sound`: the invariant: what each handle reports is the first cancel in the log of its family
- `Sound.step`, `Sound.run`: each action keeps it, and so do any actions one after the other
- `Sound.report_later`, `Sound.cancelled_run`: what handles report later, and what runs are cancelled for
-/
import RingTape.Clock
import RingTape.Proofs.Aftermath

namespace RingTape

namespace Signals

theorem size_raiseAll (s : Signals) (t : Token) (whys : List String) :
    (s.raiseAll t whys).reasons.size = s.reasons.size := by
  induction whys generalizing s with
  | nil => rfl
  | cons why rest ih =>
    have hcons : s.raiseAll t (why :: rest) = (s.raise t why).raiseAll t rest := rfl
    rw [hcons, ih, size_raise]

theorem size_add (s : Signals) : s.add.2.reasons.size = s.reasons.size + 1 :=
  Array.size_push _

/-- a new signal changes nothing about those that were there -/
theorem reason?_add {s : Signals} {t : Token} (h : t.index < s.reasons.size) : s.add.2.reason? t = s.reason? t := by
  simp only [reason?, add, Array.getElem?_push, if_neg (Nat.ne_of_lt h)]

/-- a new signal is not raised -/
theorem reason?_add_self (s : Signals) : s.add.2.reason? s.add.1 = none := by
  simp [reason?, add]

end Signals

/-! ## Handles and what is done with them -/

/-- a handle, and its family: the number of the handle that it was cloned from, directly or indirectly, which is its own
number if it was not cloned -/
structure Handle where
  token : Token
  family : Nat
  deriving DecidableEq, Repr

/-- a cancel through some handle of a family -/
structure Cancel where
  family : Nat
  why : String
  deriving DecidableEq, Repr

/-- a run under a handle; its streams may cancel through another one, or through the same -/
structure Process where
  handle : Handle
  bell : Option Handle
  walk : Walk

/-- the handles made so far, the signals they stand for, the timers still to fire, and the runs; `log` lists the cancels
made so far, which nothing else reads -/
structure World where
  handles : List Handle := []
  signals : Signals := {}
  timers : List (Handle × Nat) := []
  processes : List Process := []
  log : List Cancel := []

/-- what may be done, handles, timers and runs being named by their numbers -/
inductive Action where
  /-- a new handle, on a signal of its own -/
  | create
  | clone (handle : Nat)
  | cancel (handle : Nat) (why : String)
  /-- sets a timer, which takes a clone of the handle with it -/
  | setTimer (handle micros : Nat)
  /-- a timer fires -/
  | fire (timer : Nat)
  /-- a run begins -/
  | start (handle : Nat) (bell : Option Nat) (code : Code) (tape : Tape) (streams : Streams)
  /-- a run goes one step further -/
  | advance (process : Nat)

namespace Process

/-- the walk of a run, under the signals as they are now -/
def resumed (p : Process) (signals : Signals) : Walk :=
  p.walk.mapSignals fun _ => signals

/-- the walk of a run one step further -/
def advanced (p : Process) (signals : Signals) : Walk :=
  (p.resumed signals).step p.handle.token

/-- the cancels made by the calls of the next step of a run -/
def cancels (p : Process) (signals : Signals) : List Cancel :=
  let calls := (p.advanced signals).store.trace.drop p.walk.store.trace.length
  p.bell.toList.flatMap fun h => (p.walk.store.streams.reasons calls).map (⟨h.family, ·⟩)

end Process

namespace World

/-- what a handle reports -/
def report (w : World) (h : Handle) : Option String :=
  w.signals.reason? h.token

/-- the reason of the earliest cancel through a handle of a family -/
def firstReason? (family : Nat) (log : List Cancel) : Option String :=
  (log.find? (·.family == family)).map Cancel.why

/-- one action; where there is no handle, timer or run of the number, nothing is done -/
def step (w : World) : Action → World
  | .create =>
    { w with handles := w.handles ++ [⟨w.signals.add.1, w.handles.length⟩], signals := w.signals.add.2 }
  | .clone i =>
    match w.handles[i]? with
    | none => w
    | some h => { w with handles := w.handles ++ [h] }
  | .cancel i why =>
    match w.handles[i]? with
    | none => w
    | some h => { w with signals := w.signals.raise h.token why, log := w.log ++ [⟨h.family, why⟩] }
  | .setTimer i micros =>
    match w.handles[i]? with
    | none => w
    | some h => { w with timers := w.timers ++ [(h, micros)] }
  | .fire i =>
    match w.timers[i]? with
    | none => w
    | some (h, micros) =>
      { w with
        signals := Timer.fire ⟨micros, h.token, timedOut micros⟩ w.signals
        timers := w.timers.eraseIdx i
        log := w.log ++ [⟨h.family, timedOut micros⟩] }
  | .start i bell code tape streams =>
    match w.handles[i]? with
    | none => w
    | some h =>
      let bell := bell.bind (w.handles[·]?)
      let walk := Walk.start code ⟨tape, { streams with alarmed := bell.map Handle.token }, w.signals⟩
      { w with processes := w.processes ++ [⟨h, bell, walk⟩] }
  | .advance i =>
    match w.processes[i]? with
    | none => w
    | some p =>
      { w with
        signals := (p.advanced w.signals).store.signals
        processes := w.processes.set i { p with walk := p.advanced w.signals }
        log := w.log ++ p.cancels w.signals }

/-- any actions, one after the other -/
def run (w : World) (actions : List Action) : World :=
  actions.foldl step w

theorem run_append (w : World) (a b : List Action) : w.run (a ++ b) = (w.run a).run b :=
  List.foldl_append

/-! ## The first cancel in a log -/

theorem firstReason?_append (family : Nat) (a b : List Cancel) :
    firstReason? family (a ++ b) = (firstReason? family a).or (firstReason? family b) := by
  rw [firstReason?, firstReason?, firstReason?, List.find?_append]
  cases a.find? (·.family == family) <;> rfl

/-- among cancels through one handle the first one is the first one of its family -/
theorem firstReason?_map (family other : Nat) (whys : List String) :
    firstReason? family (whys.map (⟨other, ·⟩)) = if other = family then whys.head? else none := by
  cases whys with
  | nil => simp [firstReason?]
  | cons why rest =>
    by_cases h : other = family
    · simp [firstReason?, h]
    · simp [firstReason?, h]

theorem firstReason?_eq_none {family : Nat} {log : List Cancel} (h : ∀ c ∈ log, c.family ≠ family) :
    firstReason? family log = none := by
  rw [firstReason?, Option.map_eq_none_iff, List.find?_eq_none]
  intro c hc
  simp [h c hc]

/-! ## The invariant -/

/-- the handles of a family, and no others, share a signal, and what it reports is the first cancel of the family; and
no run was cancelled for anything else -/
structure Sound (w : World) : Prop where
  made : ∀ h ∈ w.handles, h.token.index < w.signals.reasons.size ∧ h.family < w.handles.length
  shared : ∀ g ∈ w.handles, ∀ h ∈ w.handles, g.token = h.token ↔ g.family = h.family
  report : ∀ h ∈ w.handles, w.report h = firstReason? h.family w.log
  logged : ∀ c ∈ w.log, c.family < w.handles.length
  timers : ∀ t ∈ w.timers, t.1 ∈ w.handles
  processes : ∀ p ∈ w.processes, p.handle ∈ w.handles ∧ ∀ b ∈ p.bell, b ∈ w.handles
  bells : ∀ p ∈ w.processes, p.walk.store.streams.alarmed = p.bell.map Handle.token
  stopped : ∀ p ∈ w.processes, ∀ why, p.walk.result? = some (.error (.cancelled why)) → w.report p.handle = some why

theorem sound_empty : Sound {} := by
  constructor <;> simp

namespace Sound

variable {w : World}

/-- a handle that was not there, on a signal that was not there -/
theorem create (hw : w.Sound) : (w.step .create).Sound := by
  have hold : ∀ h ∈ w.handles, (w.step .create).report h = w.report h :=
    fun h hh => Signals.reason?_add (hw.made h hh).1
  have hsize : (w.step .create).signals.reasons.size = w.signals.reasons.size + 1 := w.signals.size_add
  have hlength : (w.step .create).handles.length = w.handles.length + 1 := by
    simp only [step, List.length_append, List.length_singleton]
  have hmem : ∀ {h : Handle}, h ∈ w.handles → h ∈ (w.step .create).handles := List.mem_append_left _
  -- what is said of each handle is said of the old ones and of the new one
  have hcases : ∀ {P : Handle → Prop}, (∀ h ∈ w.handles, P h) → P ⟨w.signals.add.1, w.handles.length⟩ →
      ∀ h ∈ (w.step .create).handles, P h := by
    intro P hP hlast h hh
    rcases List.mem_append.1 hh with hh | hh
    · exact hP h hh
    · rwa [List.mem_singleton.1 hh]
  constructor
  · refine hcases (fun h hh => ?_) ?_
    · obtain ⟨hindex, hfamily⟩ := hw.made h hh
      omega
    · rw [hsize, hlength]
      exact ⟨Nat.lt_succ_self _, Nat.lt_succ_self _⟩
  · have hother : ∀ g ∈ w.handles, g.token ≠ w.signals.add.1 ∧ g.family ≠ w.handles.length := by
      intro g hg
      obtain ⟨hindex, hfamily⟩ := hw.made g hg
      refine ⟨fun htoken => ?_, Nat.ne_of_lt hfamily⟩
      rw [htoken] at hindex
      exact Nat.lt_irrefl _ hindex
    refine hcases (fun g hg => hcases (hw.shared g hg) ?_) (hcases (fun h hh => ?_) ?_)
    · exact iff_of_false (hother g hg).1 (hother g hg).2
    · exact iff_of_false (hother h hh).1.symm (hother h hh).2.symm
    · exact iff_of_true rfl rfl
  · refine hcases (fun h hh => ?_) ?_
    · rw [hold h hh]
      exact hw.report h hh
    · exact w.signals.reason?_add_self.trans (firstReason?_eq_none fun c hc => Nat.ne_of_lt (hw.logged c hc)).symm
  · intro c hc
    rw [hlength]
    exact Nat.lt_succ_of_lt (hw.logged c hc)
  · exact fun t ht => hmem (hw.timers t ht)
  · exact fun p hp => ⟨hmem (hw.processes p hp).1, fun b hb => hmem ((hw.processes p hp).2 b hb)⟩
  · exact hw.bells
  · intro p hp why hwhy
    rw [hold _ (hw.processes p hp).1]
    exact hw.stopped p hp why hwhy

/-- one handle more on the same signal -/
theorem clone (hw : w.Sound) {h : Handle} (hh : h ∈ w.handles) : Sound { w with handles := w.handles ++ [h] } := by
  have hmem : ∀ {g : Handle}, g ∈ w.handles → g ∈ w.handles ++ [h] := List.mem_append_left _
  have hback : ∀ {g : Handle}, g ∈ w.handles ++ [h] → g ∈ w.handles := by
    intro g hg
    rcases List.mem_append.1 hg with hg | hg
    · exact hg
    · rwa [List.mem_singleton.1 hg]
  have hlength : w.handles.length ≤ (w.handles ++ [h]).length := by
    rw [List.length_append]
    exact Nat.le_add_right _ _
  constructor
  · intro g hg
    obtain ⟨hindex, hfamily⟩ := hw.made g (hback hg)
    exact ⟨hindex, Nat.lt_of_lt_of_le hfamily hlength⟩
  · exact fun g hg g' hg' => hw.shared g (hback hg) g' (hback hg')
  · exact fun g hg => hw.report g (hback hg)
  · exact fun c hc => Nat.lt_of_lt_of_le (hw.logged c hc) hlength
  · exact fun t ht => hmem (hw.timers t ht)
  · exact fun p hp => ⟨hmem (hw.processes p hp).1, fun b hb => hmem ((hw.processes p hp).2 b hb)⟩
  · exact hw.bells
  · exact hw.stopped

/-- cancels through one handle, one after the other -/
theorem raise (hw : w.Sound) {h : Handle} (hh : h ∈ w.handles) (whys : List String) :
    Sound { w with signals := w.signals.raiseAll h.token whys, log := w.log ++ whys.map (⟨h.family, ·⟩) } where
  made g hg := by
    rw [Signals.size_raiseAll]
    exact hw.made g hg
  shared := hw.shared
  report g hg := by
    have hshared := hw.shared g hg h hh
    have hreport := hw.report g hg
    rw [World.report] at hreport
    rw [World.report, Signals.reason?_raiseAll, hreport, firstReason?_append, firstReason?_map]
    by_cases hsame : g.family = h.family
    · rw [if_pos ⟨hshared.2 hsame, (hw.made h hh).1⟩, if_pos hsame.symm]
    · rw [if_neg fun hboth => hsame (hshared.1 hboth.1), if_neg fun h => hsame h.symm, Option.or_none]
  logged c hc := by
    rcases List.mem_append.1 hc with hc | hc
    · exact hw.logged c hc
    · obtain ⟨why, -, rfl⟩ := List.mem_map.1 hc
      exact (hw.made h hh).2
  timers := hw.timers
  processes := hw.processes
  bells := hw.bells
  stopped p hp why hwhy := by
    have hreport := hw.stopped p hp why hwhy
    rw [World.report] at hreport
    rw [World.report, Signals.reason?_raiseAll, hreport]
    split <;> rfl

theorem setTimer (hw : w.Sound) {h : Handle} (hh : h ∈ w.handles) (micros : Nat) :
    Sound { w with timers := w.timers ++ [(h, micros)] } :=
  { hw with
    timers := by
      intro t ht
      rcases List.mem_append.1 ht with ht | ht
      · exact hw.timers t ht
      · rwa [List.mem_singleton.1 ht] }

theorem fire (hw : w.Sound) {t : Handle × Nat} (ht : t ∈ w.timers) (i : Nat) :
    Sound { w with
      signals := Timer.fire ⟨t.2, t.1.token, timedOut t.2⟩ w.signals
      timers := w.timers.eraseIdx i
      log := w.log ++ [⟨t.1.family, timedOut t.2⟩] } :=
  { hw.raise (hw.timers t ht) [timedOut t.2] with
    timers := fun u hu => hw.timers u ((List.eraseIdx_sublist _ _).subset hu) }

/-- a run begins under a handle, with or without another one for its streams -/
theorem start (hw : w.Sound) {h : Handle} (hh : h ∈ w.handles) {bell : Option Handle}
    (hbell : ∀ b ∈ bell, b ∈ w.handles) (code : Code) (tape : Tape) (streams : Streams) :
    Sound { w with
      processes := w.processes ++
        [⟨h, bell, .start code ⟨tape, { streams with alarmed := bell.map Handle.token }, w.signals⟩⟩] } := by
  have hcases : ∀ {P : Process → Prop}, (∀ p ∈ w.processes, P p) →
      P ⟨h, bell, .start code ⟨tape, { streams with alarmed := bell.map Handle.token }, w.signals⟩⟩ →
      ∀ p ∈ w.processes ++
        [⟨h, bell, .start code ⟨tape, { streams with alarmed := bell.map Handle.token }, w.signals⟩⟩], P p := by
    intro P hP hlast p hp
    rcases List.mem_append.1 hp with hp | hp
    · exact hP p hp
    · rwa [List.mem_singleton.1 hp]
  exact { hw with
    processes := hcases hw.processes ⟨hh, hbell⟩
    bells := hcases hw.bells rfl
    stopped := hcases hw.stopped fun why hwhy => by cases hwhy }

end Sound

end World

/-! ## Steps of a run -/

namespace Process

theorem store_resumed (p : Process) (signals : Signals) :
    (p.resumed signals).store = { p.walk.store with signals := signals } := by
  rw [resumed]
  cases p.walk <;> rfl

theorem result?_resumed (p : Process) (signals : Signals) : (p.resumed signals).result? = p.walk.result? := by
  rw [resumed]
  cases p.walk <;> rfl

/-- **What a step of a run does to the signals.** It cancels through the handle that its streams hold, as its log says,
and does nothing else to them. -/
theorem advanced_signals {p : Process} (hbell : p.walk.store.streams.alarmed = p.bell.map Handle.token)
    (signals : Signals) :
    (p.advanced signals).store.streams.alarmed = p.bell.map Handle.token ∧
      ∃ whys, p.cancels signals = p.bell.toList.flatMap (fun h => whys.map (⟨h.family, ·⟩)) ∧
        (p.advanced signals).store.signals =
          p.bell.elim signals fun h => signals.raiseAll h.token whys := by
  obtain ⟨calls, hmade⟩ := (p.resumed signals).step_made p.handle.token
  rw [store_resumed] at hmade
  have hcalls : (p.advanced signals).store.trace.drop p.walk.store.trace.length = calls := by
    have htrace : (p.advanced signals).store.trace = p.walk.store.trace ++ calls := hmade.trace
    rw [htrace, List.drop_left]
  refine ⟨hmade.alarmed.trans hbell, p.walk.store.streams.reasons calls, ?_, ?_⟩
  · rw [cancels, hcalls]
  · have hsignals := hmade.signals
    rw [Store.alarm] at hsignals
    have hbell' : ({ p.walk.store with signals := signals } : Store).streams.alarmed = p.bell.map Handle.token := hbell
    rw [hbell'] at hsignals
    cases hb : p.bell with
    | none =>
      rw [hb] at hsignals
      exact hsignals
    | some h =>
      rw [hb] at hsignals
      exact hsignals

end Process

namespace World

namespace Sound

variable {w : World}

/-- a run goes one step further, and perhaps cancels on the way -/
theorem advance (hw : w.Sound) {p : Process} (hp : p ∈ w.processes) (i : Nat) :
    Sound { w with
      signals := (p.advanced w.signals).store.signals
      processes := w.processes.set i { p with walk := p.advanced w.signals }
      log := w.log ++ p.cancels w.signals } := by
  obtain ⟨halarmed, whys, hcancels, hsignals⟩ := Process.advanced_signals (hw.bells p hp) w.signals
  obtain ⟨hhandle, hbell⟩ := hw.processes p hp
  have hrung : Sound { w with
      signals := (p.advanced w.signals).store.signals, log := w.log ++ p.cancels w.signals } := by
    rw [hsignals, hcancels]
    cases hb : p.bell with
    | none =>
      simp only [Option.elim, Option.toList, List.flatMap_nil, List.append_nil]
      exact hw
    | some h =>
      simp only [Option.elim, Option.toList, List.flatMap_singleton]
      exact hw.raise (hbell h hb) whys
  have hcases : ∀ {P : Process → Prop}, (∀ q ∈ w.processes, P q) → P { p with walk := p.advanced w.signals } →
      ∀ q ∈ w.processes.set i { p with walk := p.advanced w.signals }, P q := by
    intro P hP hnew q hq
    rcases List.mem_or_eq_of_mem_set hq with hq | rfl
    · exact hP q hq
    · exact hnew
  exact { hrung with
    processes := hcases hw.processes ⟨hhandle, hbell⟩
    bells := hcases hw.bells halarmed
    stopped := hcases hrung.stopped fun why hwhy => by
      obtain ⟨calls, hmade⟩ := (p.resumed w.signals).step_made p.handle.token
      have hbefore : (p.resumed w.signals).store.signals.reason? p.handle.token = some why := by
        rw [Process.store_resumed]
        rcases Walk.cancelled_of_step hwhy with hended | hraised
        · rw [Process.result?_resumed] at hended
          exact hw.stopped p hp why hended
        · rwa [Process.store_resumed] at hraised
      exact hmade.reason? hbefore }

/-- **Each action keeps the invariant.** -/
theorem step (hw : w.Sound) (a : Action) : (w.step a).Sound := by
  cases a with
  | create => exact hw.create
  | clone i =>
    cases h : w.handles[i]? with
    | none => simpa only [World.step, h] using hw
    | some g => simpa only [World.step, h] using hw.clone (List.mem_of_getElem? h)
  | cancel i why =>
    cases h : w.handles[i]? with
    | none => simpa only [World.step, h] using hw
    | some g =>
      simp only [World.step, h]
      exact hw.raise (List.mem_of_getElem? h) [why]
  | setTimer i micros =>
    cases h : w.handles[i]? with
    | none => simpa only [World.step, h] using hw
    | some g => simpa only [World.step, h] using hw.setTimer (List.mem_of_getElem? h) micros
  | fire i =>
    cases h : w.timers[i]? with
    | none => simpa only [World.step, h] using hw
    | some t => simpa only [World.step, h] using hw.fire (List.mem_of_getElem? h) i
  | start i bell code tape streams =>
    cases h : w.handles[i]? with
    | none => simpa only [World.step, h] using hw
    | some g =>
      have hbell : ∀ b ∈ bell.bind (w.handles[·]?), b ∈ w.handles := by
        intro b hb
        obtain ⟨j, -, hj⟩ := Option.bind_eq_some_iff.1 hb
        exact List.mem_of_getElem? hj
      simpa only [World.step, h] using hw.start (List.mem_of_getElem? h) hbell code tape streams
  | advance i =>
    cases h : w.processes[i]? with
    | none => simpa only [World.step, h] using hw
    | some p => simpa only [World.step, h] using hw.advance (List.mem_of_getElem? h) i

theorem run (hw : w.Sound) (actions : List Action) : (w.run actions).Sound := by
  induction actions generalizing w with
  | nil => exact hw
  | cons a rest ih => exact ih (hw.step a)

end Sound

/-! ## What actions leave as it is -/

/-- no handle goes away, and no cancel is taken back -/
theorem step_grows (w : World) (a : Action) :
    w.handles <+: (w.step a).handles ∧ w.log <+: (w.step a).log := by
  have hsame : w.handles <+: w.handles ∧ w.log <+: w.log := ⟨List.prefix_refl _, List.prefix_refl _⟩
  cases a with
  | create => exact ⟨List.prefix_append _ _, hsame.2⟩
  | clone i =>
    simp only [step]
    cases w.handles[i]? with
    | none => exact hsame
    | some h => exact ⟨List.prefix_append _ _, hsame.2⟩
  | cancel i why =>
    simp only [step]
    cases w.handles[i]? with
    | none => exact hsame
    | some h => exact ⟨hsame.1, List.prefix_append _ _⟩
  | setTimer i micros =>
    simp only [step]
    cases w.handles[i]? <;> exact hsame
  | fire i =>
    simp only [step]
    cases w.timers[i]? with
    | none => exact hsame
    | some t => exact ⟨hsame.1, List.prefix_append _ _⟩
  | start i bell code tape streams =>
    simp only [step]
    cases w.handles[i]? <;> exact hsame
  | advance i =>
    simp only [step]
    cases w.processes[i]? with
    | none => exact hsame
    | some p => exact ⟨hsame.1, List.prefix_append _ _⟩

theorem run_grows (w : World) (actions : List Action) :
    w.handles <+: (w.run actions).handles ∧ w.log <+: (w.run actions).log := by
  induction actions generalizing w with
  | nil => exact ⟨List.prefix_refl _, List.prefix_refl _⟩
  | cons a rest ih =>
    obtain ⟨hhandles, hlog⟩ := w.step_grows a
    obtain ⟨hmore, hlater⟩ := ih (w.step a)
    exact ⟨hhandles.trans hmore, hlog.trans hlater⟩

/-- what a handle reports later: the reason it reported before, and if it reported none, nothing that is given to
handles of other families -/
theorem Sound.report_later {w : World} (hw : w.Sound) {h : Handle} (hh : h ∈ w.handles) (more : List Action) :
    h ∈ (w.run more).handles ∧ ∃ later, (w.run more).log = w.log ++ later ∧
      (∀ why, w.report h = some why → (w.run more).report h = some why) ∧
      ((∀ c ∈ later, c.family ≠ h.family) → (w.run more).report h = w.report h) := by
  obtain ⟨hhandles, later, hlog⟩ := w.run_grows more
  have hmem := hhandles.subset hh
  have hreport := (hw.run more).report h hmem
  rw [← hlog, firstReason?_append, ← hw.report h hh] at hreport
  refine ⟨hmem, later, hlog.symm, fun why hwhy => ?_, fun hother => ?_⟩
  · rw [hreport, hwhy]
    rfl
  · rw [hreport, firstReason?_eq_none hother, Option.or_none]

/-- a run that comes back cancelled carries the reason that its handle reports -/
theorem Sound.cancelled_run {w : World} (hw : w.Sound) {p : Process} (hp : p ∈ w.processes) {f : Interpreter.Finished}
    (hf : Interpreter.settle p.walk = some f) (hstatus : f.interpreter.status = .cancelled) :
    ∃ why, f.result = .error (.cancelled why) ∧ w.report p.handle = some why := by
  obtain ⟨r, s, hend, rfl⟩ := (Interpreter.settle_eq_some_iff p.walk f).1 hf
  obtain ⟨why, rfl⟩ := (Interpreter.status_eq_cancelled_iff r s).1 hstatus
  exact ⟨why, rfl, hw.stopped p hp why (by rw [hend]; rfl)⟩

end World

end RingTape
