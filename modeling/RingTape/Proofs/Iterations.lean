/-
How a walk ends, told by the form of its program, where the signal is not raised. It is then the same whether a sequence
stands at the top level or inside a loop, so a loop ends as its iterations do, each of them the walk over its body.

- `Store.Unraised`: a store on which nothing raises the signal
- `Walk.inside`: a walk over the body of a loop
- `after_inside`: inside the loop it goes the same way, until the body is done or the signal is raised
- `Walk.ends_op_iff`, `Walk.trace_op_iff`: a walk that begins with an instruction that makes no calls
- `Walk.Iterates`, `Walk.ends_loop_iff`: a loop ends as its iterations do
- `Walk.Shows`, `Walk.trace_loop_iff`: and it makes their calls, also if they have no end
-/
import RingTape.Proofs.Discipline
import RingTape.Proofs.Sequencing

namespace RingTape

namespace Walk

variable {token : Token}

/-! ## The signal at the end -/

/-- a signal that is not raised at some moment was not raised at any earlier one -/
theorem reason?_before {w : Walk} {m n : Nat} (hmn : m ≤ n)
    (h : (w.after token n).store.signals.reason? token = none) :
    (w.after token m).store.signals.reason? token = none := by
  obtain ⟨k, rfl⟩ := Nat.exists_eq_add_of_le hmn
  obtain ⟨calls, hmade⟩ := (w.after token m).after_made token k
  rw [after_add] at h
  exact hmade.reason?_before h

/-- a signal that is not raised at the end was not raised at the start -/
theorem Ends.reason?_start {w : Walk} {r : Except RunError Unit} {t : Store} (h : w.Ends token r t)
    (ht : t.signals.reason? token = none) : w.store.signals.reason? token = none := by
  obtain ⟨n, hn⟩ := h
  exact reason?_before (Nat.zero_le n) (by rwa [hn])

end Walk

/-- nothing has raised the signal of the token, and no call will -/
structure Store.Unraised (token : Token) (s : Store) : Prop where
  reason? : s.signals.reason? token = none
  alarmed : s.streams.alarmed ≠ some token

namespace Walk

variable {token : Token}

theorem after_unraised {w : Walk} (h : w.store.Unraised token) (n : Nat) : (w.after token n).store.Unraised token where
  reason? := unsignalled_of_unalarmed h.reason? h.alarmed n
  alarmed := by
    obtain ⟨calls, hmade⟩ := w.after_made token n
    rw [hmade.alarmed]
    exact h.alarmed

theorem Ends.unraised {w : Walk} {r : Except RunError Unit} {t : Store} (h : w.Ends token r t)
    (hw : w.store.Unraised token) : t.Unraised token := by
  obtain ⟨n, hn⟩ := h
  have hafter := after_unraised hw n
  rwa [hn] at hafter

/-! ## Inside a loop -/

/-- the walk over the body of a loop, inside this loop and the loops around it -/
def inside (f : Frame) (frames : List Frame) : Walk → Walk
  | .going code inner s => .going code (inner ++ f :: frames) s
  | .ended (.ok ()) s => .going .nil (f :: frames) s
  | .ended (.error e) s => .ended (.error e) s

variable {f : Frame} {frames : List Frame}

theorem store_inside (w : Walk) : (w.inside f frames).store = w.store := by
  rcases w with ⟨code, inner, s⟩ | ⟨_ | _, s⟩ <;> rfl

theorem inside_of_spent {w : Walk} (h : w.Spent) : w.inside f frames = .going .nil (f :: frames) w.store := by
  rcases w with ⟨_ | _ | _, _ | _, s⟩ | ⟨_ | _, s⟩
  case going.nil.nil => rfl
  case ended.ok => rfl
  all_goals exact h.elim

theorem test_inside (body rest : Code) (inner : List Frame) (s : Store) :
    test token body rest (inner ++ f :: frames) s = (test token body rest inner s).inside f frames := by
  unfold test
  split
  · rfl
  · cases s.signals.reason? token <;> rfl

theorem perform_inside (o : Op) (rest : Code) (inner : List Frame) (s : Store) :
    perform o rest (inner ++ f :: frames) s = (perform o rest inner s).inside f frames := by
  unfold perform
  rcases o.act s with ⟨_ | _, t⟩ <;> rfl

/-- **One step.** Where the signal is not raised, it does not matter that the top level looks at it more often. -/
theorem step_inside {w : Walk} (h : ¬ w.Spent) (hquiet : w.store.signals.reason? token = none) :
    (w.inside f frames).step token = (w.step token).inside f frames := by
  rcases w with ⟨_ | ⟨o, rest⟩ | ⟨body, rest⟩, _ | ⟨g, inner⟩, s⟩ | ⟨_ | _, s⟩
  · exact absurd trivial h
  · exact test_inside g.body g.rest inner s
  · simp only [store] at hquiet
    simp only [inside, List.nil_append, step, hquiet]
    exact perform_inside o rest [] s
  · exact perform_inside o rest (g :: inner) s
  · simp only [store] at hquiet
    simp only [inside, List.nil_append, step, hquiet]
    exact test_inside body rest [] s
  · exact test_inside body rest (g :: inner) s
  · rfl
  · exact absurd trivial h

/-- **Any number of steps.** The walks go side by side, unless the body was done at some moment, where the loop is
tested again, or the signal was raised. -/
theorem after_inside (f : Frame) (frames : List Frame) (w : Walk) (n : Nat) :
    (w.inside f frames).after token n = (w.after token n).inside f frames ∨
      (∃ m ≤ n, ∃ u, w.Ends token (.ok ()) u ∧ (w.inside f frames).after token m = .going .nil (f :: frames) u) ∨
      ∃ m ≤ n, (w.inside f frames).after token m = (w.after token m).inside f frames ∧
        (w.after token m).store.signals.reason? token ≠ none := by
  induction n with
  | zero => exact Or.inl rfl
  | succ n ih =>
    rcases ih with hsame | ⟨m, hm, hdone⟩ | ⟨m, hm, hraised⟩
    · by_cases hspent : (w.after token n).Spent
      · refine Or.inr (Or.inl ⟨n, Nat.le_succ n, _, (ends_after_iff n).1 hspent.ends, ?_⟩)
        rw [hsame, inside_of_spent hspent]
      · by_cases hquiet : (w.after token n).store.signals.reason? token = none
        · left
          rw [after_step, after_step, hsame, step_inside hspent hquiet]
        · exact Or.inr (Or.inr ⟨n, Nat.le_succ n, hsame, hquiet⟩)
    · exact Or.inr (Or.inl ⟨m, Nat.le_succ_of_le hm, hdone⟩)
    · exact Or.inr (Or.inr ⟨m, Nat.le_succ_of_le hm, hraised⟩)

/-- a walk inside a loop ends where the walk over the body fails, or later, when the body is done -/
theorem ends_of_inside {w : Walk} {n : Nat} {r : Except RunError Unit} {t : Store}
    (h : (w.inside f frames).after token n = .ended r t) (ht : t.signals.reason? token = none) :
    (w.Ends token r t ∧ r ≠ .ok ()) ∨
      ∃ m ≤ n, ∃ u, w.Ends token (.ok ()) u ∧ (going .nil (f :: frames) u).after token (n - m) = .ended r t := by
  have hquiet : ((w.inside f frames).after token n).store.signals.reason? token = none := by rwa [h]
  rcases w.after_inside f frames n with hsame | ⟨m, hm, u, hu, hdone⟩ | ⟨m, hm, hsame, hraised⟩
  · left
    rw [h] at hsame
    rcases hw : w.after token n with ⟨code, inner, v⟩ | ⟨e | _, v⟩
    · rw [hw] at hsame
      cases hsame
    · rw [hw] at hsame
      cases hsame
      exact ⟨⟨n, hw⟩, by simp⟩
    · rw [hw] at hsame
      cases hsame
  · right
    refine ⟨m, hm, u, hu, ?_⟩
    rw [← hdone, ← after_add, Nat.add_sub_cancel' hm]
    exact h
  · have hbefore := reason?_before hm hquiet
    rw [hsame, store_inside] at hbefore
    exact absurd hbefore hraised

/-- a walk over a body that fails, fails inside the loop -/
theorem Ends.inside_of_error {w : Walk} {e : RunError} {t : Store} (h : w.Ends token (.error e) t)
    (ht : t.signals.reason? token = none) (f : Frame) (frames : List Frame) :
    (w.inside f frames).Ends token (.error e) t := by
  obtain ⟨n, hn⟩ := h
  have hquiet : (w.after token n).store.signals.reason? token = none := by rwa [hn]
  rcases w.after_inside f frames n with hsame | ⟨m, -, u, hu, -⟩ | ⟨m, hm, -, hraised⟩
  · refine ⟨n, ?_⟩
    rw [hsame, hn]
    rfl
  · have hdone := (hu.unique ⟨n, hn⟩).1
    cases hdone
  · exact absurd (reason?_before hm hquiet) hraised

/-- a walk over a body that is done comes to the next test of the loop -/
theorem Ends.inside_of_ok {w : Walk} {u : Store} (h : w.Ends token (.ok ()) u)
    (hu : u.signals.reason? token = none) (f : Frame) (frames : List Frame) :
    ∃ n, (w.inside f frames).after token n = .going .nil (f :: frames) u := by
  obtain ⟨n, hn⟩ := h
  have hquiet : (w.after token n).store.signals.reason? token = none := by rwa [hn]
  rcases w.after_inside f frames n with hsame | ⟨m, -, v, hv, hdone⟩ | ⟨m, hm, -, hraised⟩
  · refine ⟨n, ?_⟩
    rw [hsame, hn]
    rfl
  · obtain ⟨-, rfl⟩ := hv.unique ⟨n, hn⟩
    exact ⟨m, hdone⟩
  · exact absurd (reason?_before hm hquiet) hraised

/-- the calls of a walk over a body are made inside the loop too -/
theorem Trace.inside {w : Walk} {calls : List Call} (h : w.Trace token calls) (hw : w.store.Unraised token) (f : Frame)
    (frames : List Frame) : (w.inside f frames).Trace token calls := by
  obtain ⟨n, hn⟩ := h
  rcases w.after_inside f frames n with hsame | ⟨m, -, u, hu, hdone⟩ | ⟨m, -, -, hraised⟩
  · refine ⟨n, ?_⟩
    rw [hsame, store_inside]
    exact hn
  · refine ⟨m, ?_⟩
    rw [hdone]
    exact hu.trace ⟨n, hn⟩
  · exact absurd (after_unraised hw m).reason? hraised

/-! ## Instructions -/

/-- a walk over nothing ends at once -/
theorem ends_nil_iff {s t : Store} {r : Except RunError Unit} :
    (start .nil s).Ends token r t ↔ r = .ok () ∧ t = s := by
  have hend : (start .nil s).Ends token (.ok ()) s := ⟨1, rfl⟩
  constructor
  · intro h
    obtain ⟨hr, ht⟩ := h.unique hend
    exact ⟨hr, ht⟩
  · rintro ⟨rfl, rfl⟩
    exact hend

/-- a walk over nothing makes no calls -/
theorem trace_nil_iff {s : Store} {calls : List Call} : (start .nil s).Trace token calls ↔ calls <+: s.trace := by
  constructor
  · exact (ends_nil_iff.2 ⟨rfl, rfl⟩ : (start .nil s).Ends token (.ok ()) s).trace
  · intro h
    exact ⟨0, h⟩

/-- an instruction that makes no calls takes one step -/
theorem after_op {o : Op} (ho : o.usesStreams = false) {rest : Code} {s : Store}
    (hs : s.signals.reason? token = none) : (start (.op o rest) s).after token 1 = start rest (o.act s).2 := by
  obtain ⟨hok, -⟩ := Op.act_silent ho s
  have hact : o.act s = (.ok (), (o.act s).2) := Prod.ext hok rfl
  have hstep : (start (.op o rest) s).after token 1 = (start (.op o rest) s).step token := rfl
  rw [hstep]
  simp only [start, step, hs, perform]
  rw [hact]

/-- an instruction that makes no calls is carried out, and the walk goes on from there -/
theorem ends_op_iff {o : Op} (ho : o.usesStreams = false) {rest : Code} {s t : Store} {r : Except RunError Unit}
    (ht : t.signals.reason? token = none) :
    (start (.op o rest) s).Ends token r t ↔ (start rest (o.act s).2).Ends token r t := by
  obtain ⟨-, hmade⟩ := Op.act_silent ho s
  constructor
  · intro h
    have hs : s.signals.reason? token = none := h.reason?_start ht
    rw [← after_op ho hs]
    exact (ends_after_iff 1).2 h
  · intro h
    have hs : s.signals.reason? token = none := hmade.reason?_before (h.reason?_start ht)
    rw [← after_op ho hs] at h
    exact (ends_after_iff 1).1 h

/-- and so do its calls -/
theorem trace_op_iff {o : Op} (ho : o.usesStreams = false) {rest : Code} {s : Store} {calls : List Call}
    (hs : s.signals.reason? token = none) :
    (start (.op o rest) s).Trace token calls ↔ (start rest (o.act s).2).Trace token calls := by
  rw [← after_op ho hs, trace_after_iff]

/-! ## Loops -/

/-- the iterations of a loop: none on a zero cell; on any other, a walk over the body, and more iterations from there
if it is completed -/
inductive Iterates (token : Token) (body : Code) : Store → Except RunError Unit → Store → Prop where
  | done {s : Store} (hs : s.current = 0) : Iterates token body s (.ok ()) s
  | fails {s t : Store} {e : RunError} (hs : s.current ≠ 0) (hbody : (start body s).Ends token (.error e) t) :
      Iterates token body s (.error e) t
  | again {s u t : Store} {r : Except RunError Unit} (hs : s.current ≠ 0)
      (hbody : (start body s).Ends token (.ok ()) u) (hmore : Iterates token body u r t) : Iterates token body s r t

/-- a loop that is completed leaves a zero cell -/
theorem Iterates.current_of_ok {body : Code} {s t : Store} (h : Iterates token body s (.ok ()) t) : t.current = 0 := by
  generalize hr : Except.ok () = r at h
  induction h with
  | done hs => exact hs
  | fails hs hbody => cases hr
  | again hs hbody hmore ih => exact ih hr

/-- on a zero cell a loop does nothing -/
theorem iterates_of_zero_iff {body : Code} {s t : Store} {r : Except RunError Unit} (hs : s.current = 0) :
    Iterates token body s r t ↔ r = .ok () ∧ t = s := by
  constructor
  · intro h
    cases h with
    | done => exact ⟨rfl, rfl⟩
    | fails hne => exact absurd hs hne
    | again hne => exact absurd hs hne
  · rintro ⟨rfl, rfl⟩
    exact .done hs

theorem test_of_zero {body rest : Code} {frames : List Frame} {s : Store} (hs : s.current = 0) :
    test token body rest frames s = .going rest frames s := by
  rw [test, if_pos hs]

theorem test_of_nonzero {body rest : Code} {frames : List Frame} {s : Store} (hs : s.current ≠ 0)
    (hquiet : s.signals.reason? token = none) :
    test token body rest frames s = (start body s).inside ⟨body, rest⟩ frames :=
  test_unraised hs hquiet

/-- the walk that stands at the end of a body of a loop of the top level is about to test the loop -/
theorem Iterates.ends {body : Code} {s t : Store} {r : Except RunError Unit} (h : Iterates token body s r t)
    (ht : t.signals.reason? token = none) : (going .nil [⟨body, .nil⟩] s).Ends token r t := by
  have hfirst : ∀ s : Store, (going .nil [⟨body, .nil⟩] s).after token 1 = test token body .nil [] s := fun _ => rfl
  induction h with
  | done hs =>
    refine (ends_after_iff 1).1 ?_
    rw [hfirst, test_of_zero hs]
    exact ⟨1, rfl⟩
  | @fails s t e hs hbody =>
    refine (ends_after_iff 1).1 ?_
    rw [hfirst, test_of_nonzero hs (hbody.reason?_start ht)]
    exact hbody.inside_of_error ht _ _
  | @again s u t r hs hbody hmore ih =>
    have hu : u.signals.reason? token = none := (ih ht).reason?_start ht
    obtain ⟨n, hn⟩ := hbody.inside_of_ok hu ⟨body, .nil⟩ []
    refine (ends_after_iff 1).1 ?_
    rw [hfirst, test_of_nonzero hs (hbody.reason?_start hu)]
    refine (ends_after_iff n).1 ?_
    rw [hn]
    exact ih ht

theorem iterates_of_ends {body : Code} {t : Store} {r : Except RunError Unit} (ht : t.signals.reason? token = none)
    (n : Nat) (s : Store) (h : (going .nil [⟨body, .nil⟩] s).after token n = .ended r t) :
    Iterates token body s r t := by
  -- on the number of steps: each iteration takes some of them
  induction n using Nat.strongRecOn generalizing s with
  | ind n ih =>
    cases n with
    | zero => cases h
    | succ n =>
      have hs : s.signals.reason? token = none := Ends.reason?_start ⟨_, h⟩ ht
      have hrest : (test token body .nil [] s).after token n = .ended r t := by
        rw [after_succ] at h
        exact h
      by_cases hcell : s.current = 0
      · rw [test_of_zero hcell] at hrest
        obtain ⟨rfl, rfl⟩ := ends_nil_iff.1 ⟨n, hrest⟩
        exact .done hcell
      · rw [test_of_nonzero hcell hs] at hrest
        rcases ends_of_inside hrest ht with ⟨hbody, hr⟩ | ⟨m, hm, u, hbody, hmore⟩
        · rcases r with e | _
          · exact .fails hcell hbody
          · exact absurd rfl hr
        · exact .again hcell hbody (ih (n - m) (by omega) u hmore)

/-- a loop is tested at first as it is at the end of an iteration -/
theorem after_loop {body : Code} {s : Store} (hs : s.signals.reason? token = none) :
    (start (.loop body .nil) s).after token 1 = (going .nil [⟨body, .nil⟩] s).after token 1 := by
  have hstep : (start (.loop body .nil) s).after token 1 = (start (.loop body .nil) s).step token := rfl
  rw [hstep]
  simp only [start, step, hs]
  rfl

/-- **How a loop ends.** As its iterations do. -/
theorem ends_loop_iff {body : Code} {s t : Store} {r : Except RunError Unit} (ht : t.signals.reason? token = none) :
    (start (.loop body .nil) s).Ends token r t ↔ Iterates token body s r t := by
  constructor
  · intro h
    have hs : s.signals.reason? token = none := h.reason?_start ht
    have hstart := (ends_after_iff 1).2 h
    rw [after_loop hs] at hstart
    obtain ⟨n, hn⟩ := (ends_after_iff 1).1 hstart
    exact iterates_of_ends ht n s hn
  · intro h
    have hend := h.ends ht
    have hs : s.signals.reason? token = none := hend.reason?_start ht
    have hstart := (ends_after_iff 1).2 hend
    rw [← after_loop hs] at hstart
    exact (ends_after_iff 1).1 hstart

/-! ## The calls of a loop -/

/-- the calls of the iterations of a loop, whether or not they come to an end: those made before, those of a walk over
the body, and those of more iterations from where it is completed -/
inductive Shows (token : Token) (body : Code) : Store → List Call → Prop where
  | before {s : Store} {calls : List Call} (h : calls <+: s.trace) : Shows token body s calls
  | during {s : Store} {calls : List Call} (hs : s.current ≠ 0) (hbody : (start body s).Trace token calls) :
      Shows token body s calls
  | again {s u : Store} {calls : List Call} (hs : s.current ≠ 0) (hbody : (start body s).Ends token (.ok ()) u)
      (hmore : Shows token body u calls) : Shows token body s calls

/-- on a zero cell a loop makes no calls -/
theorem shows_of_zero_iff {body : Code} {s : Store} {calls : List Call} (hs : s.current = 0) :
    Shows token body s calls ↔ calls <+: s.trace := by
  constructor
  · intro h
    cases h with
    | before h => exact h
    | during hne => exact absurd hs hne
    | again hne => exact absurd hs hne
  · exact .before

theorem Shows.trace {body : Code} {s : Store} {calls : List Call} (h : Shows token body s calls)
    (hs : s.Unraised token) : (going .nil [⟨body, .nil⟩] s).Trace token calls := by
  have hfirst : ∀ s : Store, (going .nil [⟨body, .nil⟩] s).after token 1 = test token body .nil [] s := fun _ => rfl
  induction h with
  | before h => exact ⟨0, h⟩
  | during hcell hbody =>
    refine (trace_after_iff 1).1 ?_
    rw [hfirst, test_of_nonzero hcell hs.reason?]
    exact hbody.inside hs _ _
  | again hcell hbody hmore ih =>
    have hu := hbody.unraised hs
    obtain ⟨n, hn⟩ := hbody.inside_of_ok hu.reason? ⟨body, .nil⟩ []
    refine (trace_after_iff 1).1 ?_
    rw [hfirst, test_of_nonzero hcell hs.reason?]
    refine (trace_after_iff n).1 ?_
    rw [hn]
    exact ih hu

theorem shows_of_trace {body : Code} {calls : List Call} (n : Nat) (s : Store) (hs : s.Unraised token)
    (h : calls <+: ((going .nil [⟨body, .nil⟩] s).after token n).store.trace) : Shows token body s calls := by
  -- on the number of steps: each iteration takes some of them
  induction n using Nat.strongRecOn generalizing s with
  | ind n ih =>
    cases n with
    | zero => exact .before h
    | succ n =>
      have hrest : calls <+: ((test token body .nil [] s).after token n).store.trace := by
        rw [after_succ] at h
        exact h
      by_cases hcell : s.current = 0
      · rw [test_of_zero hcell] at hrest
        exact .before (trace_nil_iff.1 ⟨n, hrest⟩)
      · rw [test_of_nonzero hcell hs.reason?] at hrest
        rcases (start body s).after_inside ⟨body, .nil⟩ [] n with hsame | ⟨m, hm, u, hu, hdone⟩ | ⟨m, -, -, hraised⟩
        · rw [hsame, store_inside] at hrest
          exact .during hcell ⟨n, hrest⟩
        · refine .again hcell hu (ih (n - m) (by omega) u (hu.unraised hs) ?_)
          rw [← hdone, ← after_add, Nat.add_sub_cancel' hm]
          exact hrest
        · exact absurd (after_unraised hs m).reason? hraised

/-- **The calls of a loop.** They are those of its iterations. -/
theorem trace_loop_iff {body : Code} {s : Store} {calls : List Call} (hs : s.Unraised token) :
    (start (.loop body .nil) s).Trace token calls ↔ Shows token body s calls := by
  rw [← trace_after_iff 1, after_loop hs.reason?, trace_after_iff]
  constructor
  · rintro ⟨n, hn⟩
    exact shows_of_trace n s hs hn
  · intro h
    exact h.trace hs

end Walk

end RingTape
