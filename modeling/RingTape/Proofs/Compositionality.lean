/-
Programs by their parts. Where the signal is not raised, what a part of a program does to the tape and to the streams is
all that the rest of the program can see of it: in place of the part there may stand any sequence that does the same.

- `Code.Context`: a program with a gap in it, at the top level or inside loops
- `Code.Equivalent`: two sequences that end alike on every store that nothing raises the signal on
- `Equivalent.endsAlike`: then they end in the same store wherever the signal is not raised
- `EndsAlike.fill`: and so do two programs that differ in such a part
- `CallsAlike.fill`: parts that also make the same calls if they have no end
- `Code.Vain`: sequences that may be left out
- `equivalent_in_context`: the same for runs
-/
import RingTape.Proofs.Iterations
import RingTape.Proofs.Replay

namespace RingTape

/-! ## Without alarms -/

/-- the same streams, on which no call raises a signal -/
def Streams.unalarmed (s : Streams) : Streams :=
  { s with alarmed := none }

/-- the same store, on which no call raises a signal, under other signals -/
def Store.unalarmed (signals : Signals) (s : Store) : Store :=
  ⟨s.tape, s.streams.unalarmed, signals⟩

namespace Streams

theorem read_unalarmed (s : Streams) : s.unalarmed.read = (s.read.1, s.read.2.unalarmed) := by
  have hfault : s.unalarmed.reads.fault? = s.reads.fault? := rfl
  have hscript : s.unalarmed.script = s.script := rfl
  rw [read, read, hfault, hscript]
  cases s.reads.fault? with
  | some f => rfl
  | none => rcases s.script with _ | ⟨_ | _ | _, rest⟩ <;> rfl

theorem write_unalarmed (b : UInt8) (s : Streams) :
    s.unalarmed.write b = ((s.write b).1, (s.write b).2.unalarmed) := by
  have hfault : s.unalarmed.writes.fault? = s.writes.fault? := rfl
  rw [write, write, hfault]
  rcases s.writes.fault? with _ | _ | f <;> rfl

theorem flush_unalarmed (s : Streams) : s.unalarmed.flush = (s.flush.1, s.flush.2.unalarmed) := by
  have hfault : s.unalarmed.flushes.fault? = s.flushes.fault? := rfl
  rw [flush, flush, hfault]
  cases s.flushes.fault? <;> rfl

end Streams

namespace Store

variable {token : Token}

theorem make_unalarmed (signals : Signals) (s : Store) (c : Call) :
    (s.unalarmed signals).make c = ((s.make c).1, (s.make c).2.unalarmed signals) := by
  have halarm : ∀ why, ((s.unalarmed signals).alarm why).signals = signals := fun _ => rfl
  cases c with
  | read a =>
    have hread : (s.unalarmed signals).streams.read = _ := s.streams.read_unalarmed
    simp only [make, read_eq, halarm, hread]
    rfl
  | write b a =>
    have hwrite : (s.unalarmed signals).streams.write b = _ := s.streams.write_unalarmed b
    simp only [make, write_eq, halarm, hwrite]
    rfl
  | flush a =>
    have hflush : (s.unalarmed signals).streams.flush = _ := s.streams.flush_unalarmed
    simp only [make, flush_eq, halarm, hflush]
    rfl

/-- where calls do not raise the signal, it makes no difference to them that others have no alarms -/
theorem agree_unalarmed {signals : Signals} (hsignals : signals.reason? token = none) {s : Store} {calls : List Call}
    (h : s.Answers calls) (hend : (s.replay calls).signals.reason? token = none) :
    s.Agree token (s.unalarmed signals) calls := by
  induction calls generalizing s with
  | nil => exact Eq.trans hend hsignals.symm
  | cons c rest ih =>
    have hs : s.signals.reason? token = none := h.made.reason?_before hend
    rw [Agree, make_unalarmed]
    exact ⟨hs.trans hsignals.symm, rfl, ih h.2 hend⟩

end Store

namespace Code

/-! ## Parts of a program -/

/-- a program with a gap in a sequence of its top level, or in a sequence inside a loop -/
inductive Context where
  | here (before after : Code)
  | inside (before : Code) (body : Context) (after : Code)

/-- the program with this in the gap -/
def Context.fill (part : Code) : Context → Code
  | .here before after => before ++ (part ++ after)
  | .inside before body after => before ++ .loop (body.fill part) after

/-- two sequences such that, from every store on which nothing raises the signal, the walk over one of them comes to an
end if and only if the walk over the other does, and then with the same result, the same tape and the same calls -/
def Equivalent (token : Token) (p q : Code) : Prop :=
  ∀ s : Store, s.Unraised token →
    ((∃ r t, (Walk.start p s).Ends token r t) ↔ ∃ r t, (Walk.start q s).Ends token r t) ∧
      ∀ r r' t t', (Walk.start p s).Ends token r t → (Walk.start q s).Ends token r' t' →
        r = r' ∧ t.tape = t'.tape ∧ t.trace = t'.trace

/-- two sequences that come to the same end wherever the signal is not raised by then -/
def EndsAlike (token : Token) (p q : Code) : Prop :=
  ∀ (s t : Store) (r : Except RunError Unit), t.signals.reason? token = none →
    ((Walk.start p s).Ends token r t ↔ (Walk.start q s).Ends token r t)

/-- two sequences that make the same calls wherever nothing raises the signal, whether or not they come to an end -/
def CallsAlike (token : Token) (p q : Code) : Prop :=
  ∀ s : Store, s.Unraised token → ∀ calls, (Walk.start p s).Trace token calls ↔ (Walk.start q s).Trace token calls

variable {token : Token} {p q : Code}

namespace EndsAlike

theorem symm (h : EndsAlike token p q) : EndsAlike token q p :=
  fun s t r ht => (h s t r ht).symm

theorem append_left (h : EndsAlike token p q) (before : Code) : EndsAlike token (before ++ p) (before ++ q) := by
  intro s t r ht
  rw [Walk.ends_append_iff, Walk.ends_append_iff]
  refine or_congr_right (exists_congr fun u => and_congr_right fun _ => ?_)
  exact h u t r ht

theorem append_right (h : EndsAlike token p q) (later : Code) : EndsAlike token (p ++ later) (q ++ later) := by
  intro s t r ht
  rw [Walk.ends_append_iff, Walk.ends_append_iff, h s t r ht]
  refine or_congr_right (exists_congr fun u => and_congr_left fun hlater => ?_)
  exact h s u (.ok ()) (hlater.reason?_start ht)

theorem iterates (h : EndsAlike token p q) {s t : Store} {r : Except RunError Unit}
    (hp : Walk.Iterates token p s r t) (ht : t.signals.reason? token = none) : Walk.Iterates token q s r t := by
  induction hp with
  | done hs => exact .done hs
  | @fails s t e hs hbody => exact .fails hs ((h s t _ ht).1 hbody)
  | @again s u t r hs hbody hmore ih =>
    have hu : u.signals.reason? token = none := (hmore.ends ht).reason?_start ht
    exact .again hs ((h s u _ hu).1 hbody) (ih ht)

/-- loops whose bodies end alike end alike -/
theorem loop (h : EndsAlike token p q) (later : Code) : EndsAlike token (.loop p later) (.loop q later) := by
  have hloop : EndsAlike token (.loop p .nil) (.loop q .nil) := by
    intro s t r ht
    rw [Walk.ends_loop_iff ht, Walk.ends_loop_iff ht]
    exact ⟨fun hp => h.iterates hp ht, fun hq => h.symm.iterates hq ht⟩
  exact hloop.append_right later

/-- **Parts that end alike, in programs that are the same but for them.** -/
theorem fill (h : EndsAlike token p q) (c : Context) : EndsAlike token (c.fill p) (c.fill q) := by
  induction c with
  | here before later => exact (h.append_right later).append_left before
  | inside before body later ih => exact (ih.loop later).append_left before

end EndsAlike

namespace CallsAlike

theorem symm (h : CallsAlike token p q) : CallsAlike token q p :=
  fun s hs calls => (h s hs calls).symm

theorem append_left (h : CallsAlike token p q) (before : Code) : CallsAlike token (before ++ p) (before ++ q) := by
  intro s hs calls
  rw [Walk.trace_append_iff, Walk.trace_append_iff]
  refine or_congr_right (exists_congr fun u => and_congr_right fun hbefore => ?_)
  exact h u (hbefore.unraised hs) calls

/-- what follows is the same if the sequences end alike, too -/
theorem append_right (h : CallsAlike token p q) (hends : EndsAlike token p q) (later : Code) :
    CallsAlike token (p ++ later) (q ++ later) := by
  intro s hs calls
  rw [Walk.trace_append_iff, Walk.trace_append_iff, h s hs calls]
  have hsame : ∀ u, (Walk.start p s).Ends token (.ok ()) u ↔ (Walk.start q s).Ends token (.ok ()) u := by
    intro u
    constructor
    · intro hp
      exact (hends s u _ (hp.unraised hs).reason?).1 hp
    · intro hq
      exact (hends s u _ (hq.unraised hs).reason?).2 hq
  simp only [hsame]

theorem shows (h : CallsAlike token p q) (hends : EndsAlike token p q) {s : Store} {calls : List Call}
    (hp : Walk.Shows token p s calls) (hs : s.Unraised token) : Walk.Shows token q s calls := by
  induction hp with
  | before hbefore => exact .before hbefore
  | during hcell hbody => exact .during hcell ((h _ hs _).1 hbody)
  | again hcell hbody hmore ih =>
    have hu := hbody.unraised hs
    exact .again hcell ((hends _ _ _ hu.reason?).1 hbody) (ih hu)

/-- loops whose bodies end alike and make the same calls make the same calls -/
theorem loop (h : CallsAlike token p q) (hends : EndsAlike token p q) (later : Code) :
    CallsAlike token (.loop p later) (.loop q later) := by
  have hloop : CallsAlike token (.loop p .nil) (.loop q .nil) := by
    intro s hs calls
    rw [Walk.trace_loop_iff hs, Walk.trace_loop_iff hs]
    exact ⟨fun hp => h.shows hends hp hs, fun hq => h.symm.shows hends.symm hq hs⟩
  exact hloop.append_right (hends.loop .nil) later

/-- **Parts that make the same calls and end alike, in programs that are the same but for them.** -/
theorem fill (h : CallsAlike token p q) (hends : EndsAlike token p q) (c : Context) :
    CallsAlike token (c.fill p) (c.fill q) := by
  induction c with
  | here before later => exact (h.append_right hends later).append_left before
  | inside before body later ih => exact (ih.loop (hends.fill body) later).append_left before

end CallsAlike

/-! ## Equivalent sequences -/

theorem Equivalent.symm (h : Equivalent token p q) : Equivalent token q p := by
  intro s hs
  obtain ⟨hends, hsame⟩ := h s hs
  refine ⟨hends.symm, fun r r' t t' hq hp => ?_⟩
  obtain ⟨hr, htape, htrace⟩ := hsame r' r t' t hp hq
  exact ⟨hr.symm, htape.symm, htrace.symm⟩

/-- **Equivalent sequences come to the same end**, not only with the same tape and the same calls: what else there is to
a store has been made by these calls. -/
theorem Equivalent.endsAlike (h : Equivalent token p q) : EndsAlike token p q := by
  have along : ∀ {p q : Code}, Equivalent token p q → ∀ (s t : Store) (r : Except RunError Unit),
      t.signals.reason? token = none → (Walk.start p s).Ends token r t → (Walk.start q s).Ends token r t := by
    rintro p q h s t r ht ⟨n, hn⟩
    have hs : s.signals.reason? token = none := Walk.Ends.reason?_start ⟨n, hn⟩ ht
    obtain ⟨calls, hcalls⟩ := (Walk.start p s).after_asks token n
    have hstore : t = { s.replay calls with tape := t.tape } := by
      have hafter := hcalls.store_after
      rwa [hn] at hafter
    have hquiet : (s.replay calls).signals.reason? token = none := by
      rw [hstore] at ht
      exact ht
    -- both sequences on the store without alarms, and from there back to the store that was given
    have hagree : s.Agree token (s.unalarmed s.signals) calls := Store.agree_unalarmed hs hcalls.answers hquiet
    have hp := hcalls.same (s.unalarmed s.signals) rfl hagree
    rw [hn] at hp
    have hnone : (s.unalarmed s.signals).streams.alarmed ≠ some token := by
      intro hsome
      cases hsome
    obtain ⟨hends, hsame⟩ := h (s.unalarmed s.signals) ⟨hs, hnone⟩
    obtain ⟨r', u, m, hm⟩ := hends.1 ⟨r, _, n, hp⟩
    obtain ⟨rfl, htape, htrace⟩ := hsame r r' _ u ⟨n, hp⟩ ⟨m, hm⟩
    obtain ⟨calls', hcalls'⟩ := (Walk.start q (s.unalarmed s.signals)).after_asks token m
    have hmade := hcalls'.trace
    rw [hm] at hmade
    have hown : ((s.unalarmed s.signals).replay calls).trace = (s.unalarmed s.signals).trace ++ calls :=
      (hagree.answers hcalls.answers).made.trace
    obtain rfl : calls = calls' := List.append_cancel_left (hown.symm.trans (htrace.trans hmade))
    have hq := hcalls'.same s rfl hagree.symm
    rw [hm] at hq
    refine ⟨m, hq.trans ?_⟩
    rw [hstore]
    exact congrArg (fun tape => Walk.ended r { s.replay calls with tape := tape }) htape.symm
  exact fun s t r ht => ⟨along h s t r ht, along h.symm s t r ht⟩

/-! ## Sequences that may be left out -/

/-- an instruction so many times -/
def copies (o : Op) : Nat → Code
  | 0 => nil
  | n + 1 => op o (copies o n)

/-- sequences, and what is left of them without what they do in vain: an instruction and the one that undoes it, once
round the values of a cell or round the ring, and a loop behind a loop, which is never entered -/
inductive Vain : Code → Code → Prop where
  | undone {o p : Op} (h : (o, p) ∈ [(.incr, .decr), (.decr, .incr), (.prev, .next), (.next, .prev)]) :
      Vain (op o (op p nil)) nil
  | round {o : Op} (h : o ∈ [.incr, .decr, .next, .prev]) : Vain (copies o 256) nil
  | behind (first second : Code) : Vain (loop first (loop second nil)) (loop first nil)

end Code

/-- what is turned by an instruction that makes no calls -/
inductive Dial where
  | cell
  | pointer

/-- the dial that an instruction turns, and how far -/
def Op.turns? : Op → Option (Dial × UInt8)
  | .incr => some (.cell, 1)
  | .decr => some (.cell, -1)
  | .next => some (.pointer, 1)
  | .prev => some (.pointer, -1)
  | _ => none

namespace Tape

/-- the tape with the cell under its pointer, or the pointer, so much further -/
def turned (t : Tape) (k : UInt8) : Dial → Tape
  | .cell => t.put (t.current + k)
  | .pointer => { t with pointer := t.pointer + k }

theorem put_current (t : Tape) : t.put t.current = t := by
  apply ext_cell
  · intro i
    rw [cell_put]
    split
    · next h => rw [h, current]
    · rfl
  · rfl

theorem put_put (t : Tape) (v w : UInt8) : (t.put v).put w = t.put w := by
  apply ext_cell
  · intro i
    rw [cell_put, cell_put, cell_put, pointer_put]
    split <;> rfl
  · rfl

theorem turned_zero (t : Tape) (d : Dial) : t.turned 0 d = t := by
  cases d with
  | cell => rw [turned, UInt8.add_zero, put_current]
  | pointer => rw [turned, UInt8.add_zero]

theorem turned_turned (t : Tape) (j k : UInt8) (d : Dial) : (t.turned j d).turned k d = t.turned (j + k) d := by
  cases d with
  | cell => rw [turned, turned, turned, current_put, put_put, UInt8.add_assoc]
  | pointer => simp only [turned, UInt8.add_assoc]

/-- one turn and so many more -/
theorem turns_succ (n : Nat) (k : UInt8) : k + UInt8.ofNat n * k = UInt8.ofNat (n + 1) * k := by
  rw [UInt8.ofNat_add, UInt8.add_mul, UInt8.ofNat_one, UInt8.one_mul, UInt8.add_comm]

end Tape

theorem Op.act_of_turns {o : Op} {d : Dial} {k : UInt8} (h : o.turns? = some (d, k)) (s : Store) :
    o.usesStreams = false ∧ (o.act s).2 = { s with tape := s.tape.turned k d } := by
  cases o with
  | incr =>
    cases h
    exact ⟨rfl, rfl⟩
  | decr =>
    cases h
    refine ⟨rfl, ?_⟩
    simp only [act, Tape.turned, UInt8.sub_eq_add_neg]
  | next =>
    cases h
    exact ⟨rfl, rfl⟩
  | prev =>
    cases h
    refine ⟨rfl, ?_⟩
    simp only [act, Tape.turned, Tape.left, UInt8.sub_eq_add_neg]
  | print => cases h
  | read => cases h

namespace Walk

variable {token : Token} {s t : Store} {r : Except RunError Unit} {o : Op} {d : Dial} {k : UInt8}

theorem ends_turn_iff (ho : o.turns? = some (d, k)) {rest : Code} (ht : t.signals.reason? token = none) :
    (start (.op o rest) s).Ends token r t ↔ (start rest { s with tape := s.tape.turned k d }).Ends token r t := by
  obtain ⟨hsilent, hact⟩ := Op.act_of_turns ho s
  rw [ends_op_iff hsilent ht, hact]

theorem trace_turn_iff (ho : o.turns? = some (d, k)) {rest : Code} {calls : List Call}
    (hs : s.signals.reason? token = none) : (start (.op o rest) s).Trace token calls ↔
      (start rest { s with tape := s.tape.turned k d }).Trace token calls := by
  obtain ⟨hsilent, hact⟩ := Op.act_of_turns ho s
  rw [trace_op_iff hsilent hs, hact]

/-- an instruction so many times turns its dial so many times as far -/
theorem ends_copies_iff (ho : o.turns? = some (d, k)) (ht : t.signals.reason? token = none) (n : Nat) :
    (start (Code.copies o n) s).Ends token r t ↔
      (start .nil { s with tape := s.tape.turned (UInt8.ofNat n * k) d }).Ends token r t := by
  induction n generalizing s with
  | zero =>
    have hzero : UInt8.ofNat 0 = 0 := rfl
    rw [Code.copies, hzero, UInt8.zero_mul, Tape.turned_zero]
  | succ n ih =>
    rw [Code.copies, ends_turn_iff ho ht, ih, Tape.turned_turned, Tape.turns_succ]

theorem trace_copies_iff (ho : o.turns? = some (d, k)) {calls : List Call} (hs : s.signals.reason? token = none)
    (n : Nat) : (start (Code.copies o n) s).Trace token calls ↔ calls <+: s.trace := by
  induction n generalizing s with
  | zero => exact trace_nil_iff
  | succ n ih =>
    rw [Code.copies, trace_turn_iff ho hs]
    exact ih hs

end Walk

namespace Code

namespace Vain

theorem turns_of_undone {o o' : Op} (h : (o, o') ∈ [(.incr, .decr), (.decr, .incr), (.prev, .next), (.next, .prev)]) :
    ∃ d j k, o.turns? = some (d, j) ∧ o'.turns? = some (d, k) ∧ j + k = 0 := by
  simp only [List.mem_cons, Prod.mk.injEq, List.not_mem_nil, or_false] at h
  rcases h with ⟨rfl, rfl⟩ | ⟨rfl, rfl⟩ | ⟨rfl, rfl⟩ | ⟨rfl, rfl⟩
  · exact ⟨_, _, _, rfl, rfl, by decide⟩
  · exact ⟨_, _, _, rfl, rfl, by decide⟩
  · exact ⟨_, _, _, rfl, rfl, by decide⟩
  · exact ⟨_, _, _, rfl, rfl, by decide⟩

theorem turns_of_round {o : Op} (h : o ∈ [.incr, .decr, .next, .prev]) : ∃ d k, o.turns? = some (d, k) := by
  simp only [List.mem_cons, List.not_mem_nil, or_false] at h
  rcases h with rfl | rfl | rfl | rfl <;> exact ⟨_, _, rfl⟩

/-- **What is done in vain may be left out.** -/
theorem endsAlike {p q : Code} (h : Vain p q) (token : Token) : EndsAlike token p q := by
  intro s t r ht
  cases h with
  | @undone o o' h =>
    obtain ⟨d, j, k, ho, ho', hjk⟩ := turns_of_undone h
    rw [Walk.ends_turn_iff ho ht, Walk.ends_turn_iff ho' ht, Tape.turned_turned, hjk, Tape.turned_zero]
  | @round o h =>
    obtain ⟨d, k, ho⟩ := turns_of_round h
    have hround : UInt8.ofNat 256 = 0 := rfl
    rw [Walk.ends_copies_iff ho ht, hround, UInt8.zero_mul, Tape.turned_zero]
  | behind first second =>
    have hboth : loop first (loop second nil) = loop first nil ++ loop second nil := rfl
    rw [hboth, Walk.ends_append_iff]
    constructor
    · rintro (⟨hfirst, -⟩ | ⟨u, hfirst, hsecond⟩)
      · exact hfirst
      · have hu : u.signals.reason? token = none := hsecond.reason?_start ht
        have hzero := ((Walk.ends_loop_iff hu).1 hfirst).current_of_ok
        obtain ⟨rfl, rfl⟩ := (Walk.iterates_of_zero_iff hzero).1 ((Walk.ends_loop_iff ht).1 hsecond)
        exact hfirst
    · intro hfirst
      rcases r with e | _
      · exact Or.inl ⟨hfirst, by simp⟩
      · have hzero := ((Walk.ends_loop_iff ht).1 hfirst).current_of_ok
        exact Or.inr ⟨t, hfirst, (Walk.ends_loop_iff ht).2 (.done hzero)⟩

/-- it makes no calls, either -/
theorem callsAlike {p q : Code} (h : Vain p q) (token : Token) : CallsAlike token p q := by
  intro s hs calls
  cases h with
  | @undone o o' h =>
    obtain ⟨d, j, k, ho, ho', -⟩ := turns_of_undone h
    have hturned : ({ s with tape := s.tape.turned j d } : Store).signals.reason? token = none := hs.reason?
    rw [Walk.trace_turn_iff ho hs.reason?, Walk.trace_turn_iff ho' hturned, Walk.trace_nil_iff, Walk.trace_nil_iff]
    rfl
  | @round o h =>
    obtain ⟨d, k, ho⟩ := turns_of_round h
    rw [Walk.trace_copies_iff ho hs.reason?, Walk.trace_nil_iff]
  | behind first second =>
    have hboth : loop first (loop second nil) = loop first nil ++ loop second nil := rfl
    rw [hboth, Walk.trace_append_iff]
    refine or_iff_left_of_imp ?_
    rintro ⟨u, hfirst, hsecond⟩
    have hu := hfirst.unraised hs
    have hzero := ((Walk.ends_loop_iff hu.reason?).1 hfirst).current_of_ok
    have hmade := (Walk.shows_of_zero_iff hzero).1 ((Walk.trace_loop_iff hu).1 hsecond)
    obtain ⟨n, hn⟩ := hfirst
    refine ⟨n, ?_⟩
    rw [hn]
    exact hmade

end Vain

/-! ## An equivalence -/

/-- counting the cell until it is zero, in either direction -/
theorem iterates_clear {token : Token} {o : Op} {k : UInt8} (ho : o.turns? = some (.cell, k)) (n : Nat) {s : Store}
    (hs : s.signals.reason? token = none) (h : s.current + UInt8.ofNat n * k = 0) :
    Walk.Iterates token (op o nil) s (.ok ()) { s with tape := s.tape.put 0 } := by
  have hdone : ∀ s : Store, s.current = 0 →
      Walk.Iterates token (op o nil) s (.ok ()) { s with tape := s.tape.put 0 } := by
    intro s hzero
    have hkept : s.tape.put 0 = s.tape := by
      rw [← hzero]
      exact s.tape.put_current
    rw [hkept]
    exact .done hzero
  induction n generalizing s with
  | zero =>
    have hnone : UInt8.ofNat 0 = 0 := rfl
    rw [hnone, UInt8.zero_mul, UInt8.add_zero] at h
    exact hdone s h
  | succ n ih =>
    by_cases hzero : s.current = 0
    · exact hdone s hzero
    · let next : Store := { s with tape := s.tape.turned k .cell }
      have hnext : next.signals.reason? token = none := hs
      have hbody : (Walk.start (op o nil) s).Ends token (.ok ()) next :=
        (Walk.ends_turn_iff ho hnext).2 (Walk.ends_nil_iff.2 ⟨rfl, rfl⟩)
      have hcurrent : next.current = s.current + k := Tape.current_put _ _
      have hleft : next.current + UInt8.ofNat n * k = 0 := by
        rw [hcurrent, UInt8.add_assoc, Tape.turns_succ]
        exact h
      have hput : next.tape.put 0 = s.tape.put 0 := Tape.put_put _ _ _
      have hmore := ih (s := next) hnext hleft
      rw [hput] at hmore
      exact .again hzero hbody hmore

theorem ends_clear {token : Token} {o : Op} (ho : o = .incr ∨ o = .decr) {s : Store}
    (hs : s.signals.reason? token = none) :
    (Walk.start (loop (op o nil) nil) s).Ends token (.ok ()) { s with tape := s.tape.put 0 } := by
  let cleared : Store := { s with tape := s.tape.put 0 }
  have hcleared : cleared.signals.reason? token = none := hs
  refine (Walk.ends_loop_iff hcleared).2 ?_
  rcases ho with rfl | rfl
  · apply iterates_clear rfl (-s.current).toNat hs
    rw [UInt8.ofNat_toNat, UInt8.mul_one, UInt8.add_right_neg]
  · apply iterates_clear rfl s.current.toNat hs
    rw [UInt8.ofNat_toNat, UInt8.mul_neg, UInt8.mul_one, UInt8.add_right_neg]

/-- a cell is cleared by counting it down or by counting it up -/
theorem equivalent_clear (token : Token) : Equivalent token (loop (op .decr nil) nil) (loop (op .incr nil) nil) := by
  intro s hs
  have hdown := ends_clear (Or.inr rfl) hs.reason?
  have hup := ends_clear (Or.inl rfl) hs.reason?
  refine ⟨⟨fun _ => ⟨_, _, hup⟩, fun _ => ⟨_, _, hdown⟩⟩, fun r r' t t' hr hr' => ?_⟩
  obtain ⟨rfl, rfl⟩ := hdown.unique hr
  obtain ⟨rfl, rfl⟩ := hup.unique hr'
  exact ⟨rfl, rfl, rfl⟩

end Code

/-! ## Runs -/

namespace Interpreter

/-- two programs of which, on every tape and every pair of streams, one comes back from its run if and only if the other
does, with the same result and the same status, tape, streams and signals: at any rate where the signal of the token has
not been raised by then, and so at no time -/
def SameRuns (token : Token) (p q : Code) : Prop :=
  ∀ (tape : Tape) (streams : Streams) (signals : Signals) (f : Finished), f.signals.reason? token = none →
    ((new tape streams).Returns p token signals f ↔ (new tape streams).Returns q token signals f)

theorem sameRuns_of_endsAlike {token : Token} {p q : Code} (h : Code.EndsAlike token p q) : SameRuns token p q := by
  intro tape streams signals f hf
  rw [returns_new_iff, returns_new_iff]
  constructor
  · rintro ⟨r, t, hend, rfl⟩
    exact ⟨r, t, (h _ t r hf).1 hend, rfl⟩
  · rintro ⟨r, t, hend, rfl⟩
    exact ⟨r, t, (h _ t r hf).2 hend, rfl⟩

/-- **A program is what its parts do.** At any depth of a program, any stretch of a sequence may be replaced by one that
is equivalent to it: as long as the signal is not raised, the runs are the same. In particular an instruction together
with the one that undoes it may be put in or left out anywhere, and so may once round the values of a cell, once round
the ring, and a loop directly behind another one; then a run that does not come back makes the same calls, too. -/
theorem equivalent_in_context (token : Token) (c : Code.Context) :
    (∀ p q, Code.Equivalent token p q → SameRuns token (c.fill p) (c.fill q)) ∧
      ∀ p q, Code.Vain p q →
        SameRuns token (c.fill p) (c.fill q) ∧ Code.CallsAlike token (c.fill p) (c.fill q) := by
  constructor
  · intro p q h
    exact sameRuns_of_endsAlike (h.endsAlike.fill c)
  · intro p q h
    exact ⟨sameRuns_of_endsAlike ((h.endsAlike token).fill c), (h.callsAlike token).fill (h.endsAlike token) c⟩

/-- a program that writes what it reads and clears the cell in a loop: it may count the other way, and clear it a second
time -/
theorem equivalent_in_context_echo :
    let down : Code := .loop (.op .decr .nil) .nil
    let up : Code := .loop (.op .incr .nil) .nil
    let twice : Code := .loop (.op .decr .nil) (.loop (.op .decr .nil) .nil)
    let echo : Code.Context := .inside (.op .read .nil) (.here (.op .print .nil) (.op .read .nil)) .nil
    let streams : Streams := { script := [.byte 1, .byte 2] }
    Code.Equivalent ⟨0⟩ down up ∧ Code.Vain twice down ∧
      ∃ f, (new .blank streams).Returns (echo.fill down) ⟨0⟩ ⟨#[none]⟩ f ∧ f.interpreter.streams.out = #[1, 2] ∧
        (new .blank streams).Returns (echo.fill up) ⟨0⟩ ⟨#[none]⟩ f ∧
        (new .blank streams).Returns (echo.fill twice) ⟨0⟩ ⟨#[none]⟩ f ∧
        Code.CallsAlike ⟨0⟩ (echo.fill twice) (echo.fill down) := by
  intro down up twice echo streams
  have hequivalent : Code.Equivalent ⟨0⟩ down up := Code.equivalent_clear ⟨0⟩
  have hvain : Code.Vain twice down := .behind _ _
  obtain ⟨hparts, hvains⟩ := equivalent_in_context ⟨0⟩ echo
  have hrun : (match (new .blank streams).run 30 (echo.fill down) ⟨0⟩ ⟨#[none]⟩ with
      | some f => f.interpreter.streams.out == #[1, 2] && f.signals.reason? ⟨0⟩ == none
      | none => false) = true := by
    decide +kernel
  split at hrun
  · next f hf =>
    rw [Bool.and_eq_true] at hrun
    obtain ⟨hout, hquiet⟩ := hrun
    have hreturns : (new .blank streams).Returns (echo.fill down) ⟨0⟩ ⟨#[none]⟩ f := ⟨30, hf⟩
    have hup := (hparts down up hequivalent .blank streams ⟨#[none]⟩ f (eq_of_beq hquiet)).1 hreturns
    have htwice := ((hvains twice down hvain).1 .blank streams ⟨#[none]⟩ f (eq_of_beq hquiet)).2 hreturns
    exact ⟨hequivalent, hvain, f, hreturns, eq_of_beq hout, hup, htwice, (hvains twice down hvain).2⟩
  · cases hrun

end Interpreter

end RingTape
