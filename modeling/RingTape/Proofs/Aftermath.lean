/-
What a run still does once its signal is raised. No instruction of the top level and no iteration of a loop is started
any more, so the walk only goes on along the text, inside the instruction of the top level that it is in.

- `Walk.step_raised`: the signal stays raised
- `Walk.stopped_at_check`: where the signal is looked at, the walk ends
- `Walk.stepsLeft`, `stepsLeft_step_lt`: how many steps are left at most, one less after each step
- `Walk.begun`, `begun_raised`: the nodes begun, each at a later path than the one before it
- `raised_run_ends`: a run whose signal is raised comes back, what it still begins, and how it ends
-/
import Mathlib.Data.Nat.Find
import RingTape.Proofs.Cancellation
import RingTape.Proofs.Discipline
import RingTape.Proofs.Places

namespace RingTape

namespace Walk

variable {token : Token} {why : String}

/-! ## The signal stays raised -/

theorem step_raised {w : Walk} (h : w.store.signals.reason? token = some why) :
    (w.step token).store.signals.reason? token = some why := by
  obtain ⟨calls, hmade⟩ := w.step_made token
  exact hmade.reason? h

theorem after_raised {w : Walk} (h : w.store.signals.reason? token = some why) (n : Nat) :
    (w.after token n).store.signals.reason? token = some why := by
  induction n with
  | zero => exact h
  | succ n ih => exact step_raised ih

/-- a step that ends a walk by its signal finds the signal raised -/
theorem cancelled_of_step {w : Walk} (h : (w.step token).result? = some (.error (.cancelled why))) :
    w.result? = some (.error (.cancelled why)) ∨ w.store.signals.reason? token = some why := by
  rcases w.step_cases token with ⟨o, rest, frames, s, -, -, hstep⟩ | ⟨-, hidle⟩
  · rw [hstep] at h
    exact absurd ⟨why, h⟩ (perform_not_cancelled o rest frames s)
  · generalize w.step token = v at h hidle
    cases hidle with
    | on code frames => cases h
    | still r hr =>
      cases h
      exact Or.inl hr
    | done => cases h
    | stopped why' hwhy =>
      cases h
      exact Or.inr hwhy

/-- a walk whose signal is never raised is not ended by it -/
theorem Unsignalled.not_cancelled {w : Walk} (h : w.Unsignalled token) (hw : ¬ w.Cancelled) (n : Nat) :
    ¬ (w.after token n).Cancelled := by
  induction n with
  | zero => exact hw
  | succ n ih =>
    rintro ⟨why, hwhy⟩
    rcases cancelled_of_step hwhy with hended | hraised
    · exact ih ⟨why, hended⟩
    · cases (h n).symm.trans hraised

/-- **Nothing is started.** Where the walk is about to start an instruction of the top level or an iteration of a loop,
the signal ends it. -/
theorem stopped_at_check {w : Walk} (h : w.store.signals.reason? token = some why) (hw : w.AtCheck) :
    w.step token = .ended (.error (.cancelled why)) w.store := by
  have htest : ∀ body rest frames s, s.signals.reason? token = some why → s.current ≠ 0 →
      test token body rest frames s = .ended (.error (.cancelled why)) s := by
    intro body rest frames s hs hc
    rw [test, if_neg hc, hs]
  rcases w with ⟨_ | ⟨o, rest⟩ | ⟨body, rest⟩, _ | ⟨f, frames⟩, s⟩ | ⟨r, s⟩
  · exact hw.elim
  · exact htest f.body f.rest frames s h hw
  · simp only [store] at h
    simp only [step, h, store]
  · exact hw.elim
  · simp only [store] at h
    simp only [step, h, store]
  · exact htest body rest (f :: frames) s h hw
  · exact hw.elim

/-- the ways in which a walk whose signal is raised goes on -/
inductive Aftermath (token : Token) (why : String) : Walk → Walk → Prop where
  /-- a walk that is over stays as it is -/
  | still (r : Except RunError Unit) (s : Store) : Aftermath token why (.ended r s) (.ended r s)
  /-- nothing is left -/
  | done (s : Store) : Aftermath token why (.going .nil [] s) (.ended (.ok ()) s)
  /-- the signal is looked at -/
  | stopped {code : Code} {frames : List Frame} (s : Store) (h : (going code frames s).AtCheck) :
      Aftermath token why (.going code frames s) (.ended (.error (.cancelled why)) s)
  /-- an instruction in a loop is carried out -/
  | performed {o : Op} {rest : Code} {f : Frame} {frames : List Frame} {s t : Store} (h : o.act s = (.ok (), t)) :
      Aftermath token why (.going (.op o rest) (f :: frames) s) (.going rest (f :: frames) t)
  /-- an instruction in a loop fails -/
  | failed {o : Op} {rest : Code} {f : Frame} {frames : List Frame} {s t : Store} {e : Failure}
      (h : o.act s = (.error (.failure e), t)) :
      Aftermath token why (.going (.op o rest) (f :: frames) s) (.ended (.error (.failure e)) t)
  /-- a loop in a loop is passed -/
  | passed {body rest : Code} {f : Frame} {frames : List Frame} {s : Store} (h : s.current = 0) :
      Aftermath token why (.going (.loop body rest) (f :: frames) s) (.going rest (f :: frames) s)
  /-- a loop is left -/
  | left {f : Frame} {frames : List Frame} {s : Store} (h : s.current = 0) :
      Aftermath token why (.going .nil (f :: frames) s) (.going f.rest frames s)

/-- **What a step can still do.** -/
theorem step_aftermath {w : Walk} (h : w.store.signals.reason? token = some why) :
    Aftermath token why w (w.step token) := by
  by_cases hcheck : w.AtCheck
  · rw [stopped_at_check h hcheck]
    cases w with
    | ended r s => exact hcheck.elim
    | going code frames s => exact .stopped s hcheck
  · rcases w with ⟨_ | ⟨o, rest⟩ | ⟨body, rest⟩, _ | ⟨f, frames⟩, s⟩ | ⟨r, s⟩
    · exact .done s
    · have hzero : s.current = 0 := Decidable.not_not.1 hcheck
      simp only [step, test, hzero, if_true]
      exact .left hzero
    · exact absurd trivial hcheck
    · simp only [step, perform]
      rcases hact : o.act s with ⟨e | _, t⟩
      · obtain ⟨g, rfl⟩ := Op.act_error hact
        exact .failed hact
      · exact .performed hact
    · exact absurd trivial hcheck
    · have hzero : s.current = 0 := Decidable.not_not.1 hcheck
      simp only [step, test, hzero, if_true]
      exact .passed hzero
    · exact .still r s

/-! ## How long the walk goes on -/

/-- how many steps a walk whose signal is raised can still take: one for each node ahead, one for the end of each loop
around it, and the last one -/
def stepsLeft : Walk → Nat
  | .going code frames _ => code.size + (frames.map fun f => f.rest.size + 1).sum + 1
  | .ended .. => 0

theorem stepsLeft_step_lt {w : Walk} (h : w.store.signals.reason? token = some why) (hw : w.stepsLeft ≠ 0) :
    (w.step token).stepsLeft < w.stepsLeft := by
  have hafter := step_aftermath h
  generalize w.step token = v at hafter
  cases hafter with
  | still r s => exact absurd rfl hw
  | done s => exact Nat.zero_lt_of_ne_zero hw
  | stopped s hcheck => exact Nat.zero_lt_of_ne_zero hw
  | performed hact =>
    simp only [stepsLeft, Code.size]
    omega
  | failed hact => exact Nat.zero_lt_of_ne_zero hw
  | passed hzero =>
    simp only [stepsLeft, Code.size]
    omega
  | left hzero =>
    simp only [stepsLeft, Code.size, List.map_cons, List.sum_cons]
    omega

/-- **The walk ends.** -/
theorem ended_after_stepsLeft {w : Walk} (h : w.store.signals.reason? token = some why) {n : Nat}
    (hn : w.stepsLeft ≤ n) : ∃ r t, w.after token n = .ended r t := by
  induction n generalizing w with
  | zero =>
    cases w with
    | ended r t => exact ⟨r, t, rfl⟩
    | going code frames s =>
      simp only [stepsLeft] at hn
      omega
  | succ n ih =>
    rw [after_succ]
    by_cases hzero : w.stepsLeft = 0
    · cases w with
      | ended r t => exact ⟨r, t, after_ended token n r t⟩
      | going code frames s =>
        simp only [stepsLeft] at hzero
        omega
    · have := stepsLeft_step_lt h hzero
      exact ih (step_raised h) (by omega)

/-! ## The nodes begun -/

/-- the walk is at a place of the program, or over -/
def Within (whole : Code) : Walk → Prop
  | .going code frames _ => ∃ i, Position whole code frames i
  | .ended .. => True

/-- the path to the place of the walk -/
def path (whole : Code) : Walk → List Nat
  | .going code frames _ => whole.pathTo code frames
  | .ended .. => []

/-- the instructions of the top level that are not started yet -/
def unstarted : Walk → Code
  | .going code frames _ => Code.unstarted code frames
  | .ended .. => .nil

/-- the next step begins a node of the program: it carries out an instruction, or it comes to a loop from outside -/
def begins (token : Token) : Walk → Bool
  | .going .nil _ _ => false
  | .going _ [] s => (s.signals.reason? token).isNone
  | .going _ (_ :: _) _ => true
  | .ended .. => false

/-- the paths to the nodes that are begun in so many steps, in order -/
def begun (whole : Code) (token : Token) (w : Walk) : Nat → List (List Nat)
  | 0 => []
  | n + 1 => (if w.begins token then [w.path whole] else []) ++ begun whole token (w.step token) n

theorem step_within {whole : Code} {w : Walk} (h : w.Within whole) : (w.step token).Within whole := by
  cases w with
  | ended r s => trivial
  | going code frames s =>
    obtain ⟨i, hi⟩ := h
    have hmatch := (Matches.going hi s).step token
    generalize step token (.going code frames s) = v, Flat.step whole.symbols token (.going i s) = m at hmatch
    cases hmatch with
    | going hj t => exact ⟨_, hj⟩
    | ended r t => trivial

theorem start_within (code : Code) (s : Store) : (start code s).Within code :=
  ⟨_, .outside .nil code rfl⟩

theorem after_within {whole : Code} {w : Walk} (h : w.Within whole) (n : Nat) : (w.after token n).Within whole := by
  induction n with
  | zero => exact h
  | succ n ih => exact step_within ih

theorem stepsLeft_le {whole : Code} {w : Walk} (h : w.Within whole) : w.stepsLeft ≤ whole.size + 1 := by
  cases w with
  | ended r s => exact Nat.zero_le _
  | going code frames s =>
    obtain ⟨i, hi⟩ := h
    exact Nat.succ_le_succ hi.size_le

theorem begun_ended (whole : Code) (r : Except RunError Unit) (s : Store) (n : Nat) :
    begun whole token (.ended r s) n = [] := by
  induction n with
  | zero => rfl
  | succ n ih => exact ih

theorem begins_top {code : Code} {s : Store} (h : s.signals.reason? token = some why) :
    (going code [] s).begins token = false := by
  cases code with
  | nil => rfl
  | op o rest => simp [begins, h]
  | loop body rest => simp [begins, h]

/-- a walk that is at the top level begins nothing any more -/
theorem begun_top {whole code : Code} {s : Store} (h : s.signals.reason? token = some why) (n : Nat) :
    begun whole token (.going code [] s) n = [] := by
  cases n with
  | zero => rfl
  | succ n =>
    rw [begun, begins_top h]
    cases code with
    | nil => exact begun_ended whole _ _ n
    | op o rest =>
      simp only [step, h]
      exact begun_ended whole _ _ n
    | loop body rest =>
      simp only [step, h]
      exact begun_ended whole _ _ n

/-- what can be said of the nodes begun from a place on: they come at later and later paths, none of them before the
place, in the instruction of the top level that the place is in, and they are nodes of the program -/
structure Forward (whole : Code) (v : Walk) (paths : List (List Nat)) : Prop where
  sorted : paths.Pairwise (· < ·)
  later : ∀ p ∈ paths, v.path whole = p ∨ v.path whole < p
  inside : ∀ p ∈ paths, p.head? = some (whole.length - (v.unstarted.length + 1))
  nodes : ∀ p ∈ paths, ∃ node, whole.nodeAt? p = some node

theorem Forward.nil (whole : Code) (v : Walk) : Forward whole v [] :=
  ⟨.nil, List.forall_mem_nil _, List.forall_mem_nil _, List.forall_mem_nil _⟩

/-- the node at a place in a loop, before the nodes begun from a later place on -/
theorem Forward.cons {whole code : Code} {f : Frame} {frames : List Frame} {s : Store} {v : Walk}
    {paths : List (List Nat)} {node : Node} (h : Forward whole v paths)
    (hnode : whole.nodeAt? (whole.pathTo code (f :: frames)) = some node)
    (hlt : whole.pathTo code (f :: frames) < v.path whole)
    (hsame : v.unstarted = Code.unstarted code (f :: frames)) :
    Forward whole (.going code (f :: frames) s) (whole.pathTo code (f :: frames) :: paths) where
  sorted := by
    refine List.pairwise_cons.2 ⟨fun p hp => ?_, h.sorted⟩
    rcases h.later p hp with rfl | hp
    · exact hlt
    · exact List.lt_trans hlt hp
  later := by
    refine List.forall_mem_cons.2 ⟨Or.inl rfl, fun p hp => ?_⟩
    rcases h.later p hp with rfl | hp
    · exact Or.inr hlt
    · exact Or.inr (List.lt_trans hlt hp)
  inside := by
    refine List.forall_mem_cons.2 ⟨whole.head?_pathTo code f frames, fun p hp => ?_⟩
    rw [h.inside p hp, hsame]
    rfl
  nodes := List.forall_mem_cons.2 ⟨⟨node, hnode⟩, h.nodes⟩

/-- the node at a place in a loop, when no other is begun behind it -/
theorem Forward.last {whole code : Code} {f : Frame} {frames : List Frame} {s : Store} {node : Node}
    (hnode : whole.nodeAt? (whole.pathTo code (f :: frames)) = some node) :
    Forward whole (.going code (f :: frames) s) [whole.pathTo code (f :: frames)] where
  sorted := List.pairwise_singleton _ _
  later := List.forall_mem_singleton.2 (Or.inl rfl)
  inside := List.forall_mem_singleton.2 (whole.head?_pathTo code f frames)
  nodes := List.forall_mem_singleton.2 ⟨node, hnode⟩

/-- **The nodes begun after the signal.** -/
theorem begun_raised {whole : Code} {w : Walk} (hw : w.Within whole)
    (h : w.store.signals.reason? token = some why) (n : Nat) : Forward whole w (w.begun whole token n) := by
  induction n generalizing w with
  | zero => exact .nil whole w
  | succ n ih =>
    have hafter := step_aftermath h
    have hmore := ih (step_within hw) (step_raised h)
    rw [begun]
    generalize w.step token = v at hafter hmore
    cases hafter with
    | still r s =>
      rw [begun_ended]
      exact .nil whole _
    | done s =>
      rw [begun_ended]
      exact .nil whole _
    | @stopped code frames s hcheck =>
      rw [begun_ended]
      cases frames with
      | nil =>
        have hnot : (going code [] s).begins token = false := begins_top h
        rw [hnot]
        exact .nil whole _
      | cons f frames =>
        cases code with
        | nil => exact .nil whole _
        | op o rest => exact hcheck.elim
        | loop body rest =>
          -- the loop in front is begun, and its test ends the walk
          obtain ⟨i, hi⟩ := hw
          exact .last hi.nodeAt?_loop
    | @performed o rest f frames s t hact =>
      obtain ⟨i, hi⟩ := hw
      exact hmore.cons hi.nodeAt?_op (hi.pathTo_lt_rest (Code.length_op o rest)) rfl
    | failed hact =>
      rw [begun_ended]
      obtain ⟨i, hi⟩ := hw
      exact .last hi.nodeAt?_op
    | @passed body rest f frames s hzero =>
      obtain ⟨i, hi⟩ := hw
      exact hmore.cons hi.nodeAt?_loop (hi.pathTo_lt_rest (Code.length_loop body rest)) rfl
    | @left f frames s hzero =>
      obtain ⟨i, hi⟩ := hw
      have hlt := hi.pathTo_lt_behind
      refine ⟨hmore.sorted, fun p hp => ?_, hmore.inside, hmore.nodes⟩
      rcases hmore.later p hp with rfl | hp
      · exact Or.inr hlt
      · exact Or.inr (List.lt_trans hlt hp)

/-! ## How the walk ends -/

/-- the results that a walk can come to after its signal, from a place where it is still going -/
theorem end_raised {w : Walk} (hw : w.result? = none) (h : w.store.signals.reason? token = some why) {n : Nat}
    {r : Except RunError Unit} {t : Store} (hend : w.after token n = .ended r t) :
    r = .error (.cancelled why) ∨
      (∃ e, r = .error (.failure e) ∧ ∃ m o, (w.after token m).performs? token = some o ∧
        (o.act (w.after token m).store).1 = .error (.failure e)) ∨
      (r = .ok () ∧ w.unstarted = .nil) := by
  induction n generalizing w with
  | zero =>
    have hstart : w.after token 0 = w := rfl
    rw [← hstart, hend] at hw
    cases hw
  | succ n ih =>
    have hafter := step_aftermath h
    have hshift : ∀ m, (w.step token).after token m = w.after token (m + 1) := fun m => (after_succ token m w).symm
    -- while the walk goes on, what is left of the top level stays the same
    have hon : (w.step token).result? = none → (w.step token).unstarted = w.unstarted →
        r = .error (.cancelled why) ∨
          (∃ e, r = .error (.failure e) ∧ ∃ m o, (w.after token m).performs? token = some o ∧
            (o.act (w.after token m).store).1 = .error (.failure e)) ∨
          (r = .ok () ∧ w.unstarted = .nil) := by
      intro hgoing hsame
      rcases ih hgoing (step_raised h) ((hshift n).trans hend) with hr | ⟨e, hr, m, o, hperforms, hact⟩ | ⟨hr, hnil⟩
      · exact Or.inl hr
      · rw [hshift] at hperforms hact
        exact Or.inr (Or.inl ⟨e, hr, m + 1, o, hperforms, hact⟩)
      · exact Or.inr (Or.inr ⟨hr, hsame.symm.trans hnil⟩)
    rw [after_succ] at hend
    clear hshift
    generalize w.step token = v at hafter hon hend
    cases hafter with
    | still r' s => cases hw
    | done s =>
      rw [after_ended] at hend
      cases hend
      exact Or.inr (Or.inr ⟨rfl, rfl⟩)
    | stopped s hcheck =>
      rw [after_ended] at hend
      cases hend
      exact Or.inl rfl
    | performed hact => exact hon rfl rfl
    | @failed o rest f frames s t' e hact =>
      rw [after_ended] at hend
      cases hend
      exact Or.inr (Or.inl ⟨e, rfl, 0, o, rfl, congrArg Prod.fst hact⟩)
    | passed hzero => exact hon rfl rfl
    | left hzero => exact hon rfl rfl

/-! ## How the signal comes -/

/-- the signal is raised after so many steps, and not before -/
structure Signalled (token : Token) (w : Walk) (n : Nat) (why : String) : Prop where
  raised : (w.after token n).store.signals.reason? token = some why
  first : ∀ m < n, (w.after token m).store.signals.reason? token = none

theorem exists_signalled {w : Walk} (h : ∃ n, (w.after token n).store.signals.reason? token ≠ none) :
    ∃ n why, Signalled token w n why := by
  obtain ⟨why, hwhy⟩ := Option.ne_none_iff_exists'.1 (Nat.find_spec h)
  exact ⟨Nat.find h, why, hwhy, fun m hm => Decidable.not_not.1 (Nat.find_min h hm)⟩

namespace Signalled

variable {w : Walk} {n : Nat}

/-- once the walk goes on, the signal is raised by a stream instruction in the course of its calls -/
theorem during (h : Signalled token w (n + 1) why) : ∃ o rest frames s,
    w.after token n = .going (.op o rest) frames s ∧ (w.after token n).performs? token = some o ∧
      o.usesStreams = true ∧ w.after token (n + 1) = perform o rest frames s := by
  have hbefore := h.first n (Nat.lt_succ_self n)
  have hnow : ((w.after token n).step token).store.signals.reason? token = some why := h.raised
  rcases (w.after token n).step_cases token with ⟨o, rest, frames, s, hat, hperforms, hstep⟩ | ⟨-, hidle⟩
  · refine ⟨o, rest, frames, s, hat, hperforms, ?_, hstep⟩
    by_contra hsilent
    obtain ⟨-, hmade⟩ := Op.act_silent (Bool.eq_false_iff.2 hsilent) s
    rw [hstep, perform_store, hmade.signals, Streams.reasons, Store.alarm_nil] at hnow
    rw [hat] at hbefore
    cases hbefore.symm.trans hnow
  · rw [hidle.store] at hnow
    cases hbefore.symm.trans hnow

/-- **The nodes begun after the signal.** They come later and later, behind the instruction in the course of which the
signal was raised, in the same instruction of the top level; there are none if it was raised before the run. -/
theorem begun {code : Code} {s : Store} (h : Signalled token (start code s) n why) (k : Nat) :
    (((start code s).after token n).begun code token k).Pairwise (· < ·) ∧
      ∀ p ∈ ((start code s).after token n).begun code token k, (∃ node, code.nodeAt? p = some node) ∧
        ∃ m, n = m + 1 ∧ ((start code s).after token m).path code < p ∧
          p.head? = (((start code s).after token m).path code).head? := by
  cases n with
  | zero =>
    have hnone : ((start code s).after token 0).begun code token k = [] := begun_top h.raised k
    rw [hnone]
    exact ⟨.nil, List.forall_mem_nil _⟩
  | succ m =>
    obtain ⟨o, rest, frames, s', hat, -, -, hnow⟩ := h.during
    rcases hact : o.act s' with ⟨_ | _, t⟩
    · rw [hnow, perform, hact]
      simp only [begun_ended]
      exact ⟨.nil, List.forall_mem_nil _⟩
    · have hgoing : (start code s).after token (m + 1) = .going rest frames t := by rw [hnow, perform, hact]
      have hforward := begun_raised (after_within (start_within code s) (m + 1)) h.raised k
      obtain ⟨i, hi⟩ : Within code (.going (.op o rest) frames s') := hat ▸ after_within (start_within code s) m
      have hlt := hi.pathTo_lt_rest (Code.length_op o rest)
      refine ⟨hforward.sorted, fun p hp => ⟨hforward.nodes p hp, m, rfl, ?_, ?_⟩⟩
      · rw [hat]
        have hlater := hforward.later p hp
        rw [hgoing] at hlater
        rcases hlater with rfl | hlater
        · exact hlt
        · exact List.lt_trans hlt hlater
      · have hinside := hforward.inside p hp
        rw [hgoing] at hinside
        rw [hat, hinside]
        exact (Code.head?_pathTo_op code o rest frames).symm

/-- **How the walk ends.** By its signal, by an instruction that was still carried out, or with nothing left of the top
level at the moment of the signal. -/
theorem result {code : Code} {s : Store} (h : Signalled token (start code s) n why) {k : Nat}
    {r : Except RunError Unit} {t : Store} (hend : (start code s).after token (n + k) = .ended r t) :
    r = .error (.cancelled why) ∨
      (∃ e, r = .error (.failure e) ∧ ∃ m o, n ≤ m + 1 ∧ ((start code s).after token m).performs? token = some o ∧
        (o.act ((start code s).after token m).store).1 = .error (.failure e)) ∨
      (r = .ok () ∧ (code = .nil ∨
        ∃ m, n = m + 1 ∧ (((start code s).after token m).path code).head? = some (code.length - 1))) := by
  -- from a moment at which the walk is still going, later steps are steps from there
  have hgoing : ((start code s).after token n).result? = none → r = .error (.cancelled why) ∨
      (∃ e, r = .error (.failure e) ∧ ∃ m o, n ≤ m + 1 ∧ ((start code s).after token m).performs? token = some o ∧
        (o.act ((start code s).after token m).store).1 = .error (.failure e)) ∨
      (r = .ok () ∧ ((start code s).after token n).unstarted = .nil) := by
    intro hnone
    rw [after_add] at hend
    rcases end_raised hnone h.raised hend with hr | ⟨e, hr, m, o, hperforms, hact⟩ | hr
    · exact Or.inl hr
    · rw [← after_add] at hperforms hact
      exact Or.inr (Or.inl ⟨e, hr, n + m, o, by omega, hperforms, hact⟩)
    · exact Or.inr (Or.inr hr)
  cases n with
  | zero =>
    rcases hgoing rfl with hr | hr | ⟨hr, hnil⟩
    · exact Or.inl hr
    · exact Or.inr (Or.inl hr)
    · exact Or.inr (Or.inr ⟨hr, Or.inl hnil⟩)
  | succ m =>
    obtain ⟨o, rest, frames, s', hat, hperforms, -, hnow⟩ := h.during
    rcases hact : o.act s' with ⟨e | _, u⟩
    · -- the instruction in the course of which the signal was raised has failed
      obtain ⟨f, rfl⟩ := Op.act_error hact
      have hover : (start code s).after token (m + 1) = .ended (.error (.failure f)) u := by rw [hnow, perform, hact]
      rw [after_add, hover, after_ended] at hend
      cases hend
      refine Or.inr (Or.inl ⟨f, rfl, m, o, Nat.le_refl _, hperforms, ?_⟩)
      rw [hat]
      exact congrArg Prod.fst hact
    · have hon : (start code s).after token (m + 1) = .going rest frames u := by rw [hnow, perform, hact]
      rw [hon] at hgoing
      rcases hgoing rfl with hr | hr | ⟨hr, hnil⟩
      · exact Or.inl hr
      · exact Or.inr (Or.inl hr)
      · refine Or.inr (Or.inr ⟨hr, Or.inr ⟨m, rfl, ?_⟩⟩)
        have hlast : Code.unstarted rest frames = .nil := hnil
        rw [hat]
        exact (Code.head?_pathTo_op code o rest frames).trans (by rw [hlast]; rfl)

end Signalled

end Walk

/-! ## Runs -/

namespace Interpreter

/-- **A run whose signal is raised ends, and soon.** Take a run on any tape and streams, of any program, whose signal is
raised at some moment: before the run, or in the course of the calls of some stream instruction. From that moment on it
takes no more steps than the program has nodes, and one. No instruction of the top level and no iteration of a loop is
started any more; the nodes that are still begun come at later and later places of the program, behind the instruction in
the course of which the signal was raised and in the same instruction of the top level. The run is cancelled with the
first reason ever given, or a stream instruction that is still carried out fails, or else there was nothing left to
start: the program is empty, or the signal was raised during the last instruction of the top level. -/
theorem raised_run_ends (code : Code) (tape : Tape) (streams : Streams) (signals : Signals) (token : Token)
    (h : ∃ n, ((Walk.start code ⟨tape, streams, signals⟩).after token n).store.signals.reason? token ≠ none) :
    let w := (Walk.start code ⟨tape, streams, signals⟩).after token
    ∃ n why f, Walk.Signalled token (Walk.start code ⟨tape, streams, signals⟩) n why ∧
      (∀ m, n = m + 1 → ∃ o, (w m).performs? token = some o ∧ o.usesStreams = true) ∧
      (new tape streams).run (n + code.size + 1) code token signals = some f ∧
      (∀ m, n ≤ m → (w m).AtCheck → w (m + 1) = .ended (.error (.cancelled why)) (w m).store) ∧
      (∀ k, ((w n).begun code token k).Pairwise (· < ·) ∧
        ∀ p ∈ (w n).begun code token k, (∃ node, code.nodeAt? p = some node) ∧
          ∃ m, n = m + 1 ∧ (w m).path code < p ∧ p.head? = ((w m).path code).head?) ∧
      (f.result = .error (.cancelled why) ∨
        (∃ e, f.result = .error (.failure e) ∧ ∃ m o, n ≤ m + 1 ∧ (w m).performs? token = some o ∧
          o.usesStreams = true ∧ (o.act (w m).store).1 = .error (.failure e)) ∨
        (f.result = .ok () ∧ (∀ m, n ≤ m → ¬ (w m).AtCheck) ∧
          (code = .nil ∨ ∃ m, n = m + 1 ∧ ((w m).path code).head? = some (code.length - 1)))) ∧
      ∃ calls, f.interpreter.streams.trace.toList = streams.trace.toList ++ calls ∧
        (signals.reason? token).or
          (if streams.alarmed = some token then (streams.reasons calls).head? else none) = some why := by
  intro w
  obtain ⟨n, why, hsignal⟩ := Walk.exists_signalled h
  have hraised : ∀ m, n ≤ m → (w m).store.signals.reason? token = some why := by
    intro m hm
    obtain ⟨k, rfl⟩ := Nat.exists_eq_add_of_le hm
    have hlater := Walk.after_raised hsignal.raised k
    rwa [← Walk.after_add] at hlater
  have hstopped : ∀ m, n ≤ m → (w m).AtCheck → w (m + 1) = .ended (.error (.cancelled why)) (w m).store :=
    fun m hm hcheck => Walk.stopped_at_check (hraised m hm) hcheck
  -- as many steps are enough as the program has nodes, and one
  obtain ⟨r, t, hend⟩ : ∃ r t, w (n + (code.size + 1)) = .ended r t := by
    have hwithin : (w n).Within code := Walk.after_within (Walk.start_within code _) n
    have hleft := Walk.stepsLeft_le hwithin
    obtain ⟨r, t, hlater⟩ := Walk.ended_after_stepsLeft hsignal.raised hleft
    rw [← Walk.after_add] at hlater
    exact ⟨r, t, hlater⟩
  obtain ⟨blocks, -, hmade, -⟩ :=
    (Walk.start code ⟨tape, streams, signals⟩).after_calls token rfl (n + (code.size + 1))
  have hlast := hraised (n + (code.size + 1)) (Nat.le_add_right _ _)
  have hfirst := hmade.first_reason hlast
  have htrace := hmade.trace
  have hover : (Walk.start code ⟨tape, streams, signals⟩).after token (n + (code.size + 1)) = .ended r t := hend
  rw [hover] at htrace
  refine ⟨n, why, .ofEnd r t, hsignal, ?_, ?_, hstopped, hsignal.begun, ?_, blocks.flatten, htrace, hfirst⟩
  · rintro m rfl
    obtain ⟨o, -, -, -, -, hperforms, huses, -⟩ := hsignal.during
    exact ⟨o, hperforms, huses⟩
  · rw [run_new, settle_eq_some_iff]
    exact ⟨r, t, hend, rfl⟩
  · rcases hsignal.result hend with hr | ⟨e, hr, m, o, hm, hperforms, hact⟩ | ⟨hr, hlast⟩
    · exact Or.inl hr
    · exact Or.inr (Or.inl ⟨e, hr, m, o, hm, hperforms, Op.usesStreams_of_error hact, hact⟩)
    · refine Or.inr (Or.inr ⟨hr, fun m hm hcheck => ?_, hlast⟩)
      -- a check would have ended the run by its signal
      have hcancelled := hstopped m hm hcheck
      obtain ⟨hboth, -⟩ := Walk.Ends.unique ⟨m + 1, hcancelled⟩ ⟨_, hend⟩
      rw [hr] at hboth
      cases hboth

/-- the signal is raised twice by the second read, in a loop inside a loop: what follows the read in the inner loop is
still carried out, and the run stops before the next iteration -/
theorem raised_run_ends_inner_loop :
    let code : Code := .op .read (.loop (.loop (.op .read (.op .print .nil)) (.op .incr .nil)) .nil)
    let streams : Streams :=
      { script := [.byte 1, .byte 2], reads := { alarms := [(1, "stop"), (1, "late")] }, alarmed := some ⟨0⟩ }
    let w := (Walk.start code ⟨.blank, streams, ⟨#[none]⟩⟩).after ⟨0⟩
    (∃ n, (w n).store.signals.reason? ⟨0⟩ ≠ none) ∧
      ∃ n f, Walk.Signalled ⟨0⟩ (Walk.start code ⟨.blank, streams, ⟨#[none]⟩⟩) n "stop" ∧
        (new .blank streams).run (n + code.size + 1) code ⟨0⟩ ⟨#[none]⟩ = some f ∧
        f.result = .error (.cancelled "stop") := by
  intro code streams w
  have h : ∃ n, (w n).store.signals.reason? ⟨0⟩ ≠ none := ⟨4, by decide +kernel⟩
  obtain ⟨n, why, f, hsignal, -, hrun, -⟩ := raised_run_ends code .blank streams ⟨#[none]⟩ ⟨0⟩ h
  have hbefore : ∀ m < 4, (w m).store.signals.reason? ⟨0⟩ = none := by decide +kernel
  have hthen : (w 4).store.signals.reason? ⟨0⟩ = some "stop" := by decide +kernel
  obtain rfl : n = 4 := by
    rcases Nat.lt_trichotomy n 4 with hlt | heq | hgt
    · exact absurd (hsignal.raised.symm.trans (hbefore n hlt)) (Option.some_ne_none why)
    · exact heq
    · exact absurd (hthen.symm.trans (hsignal.first 4 hgt)) (Option.some_ne_none _)
  obtain rfl : why = "stop" := Option.some.inj (hsignal.raised.symm.trans hthen)
  have hresult : ((new .blank streams).run (4 + code.size + 1) code ⟨0⟩ ⟨#[none]⟩).map Finished.result =
      some (.error (.cancelled "stop")) := by decide +kernel
  rw [hrun] at hresult
  exact ⟨h, 4, f, hsignal, hrun, Option.some.inj hresult⟩

end Interpreter

end RingTape
