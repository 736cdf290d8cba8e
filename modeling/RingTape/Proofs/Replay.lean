/-
What a walk does, made again from the answers to its calls. A walk sees its streams through the answers that they give,
and its signal through the reason that it is raised for. On a store that gives the same answers it does the same; and up
to the first answer that is another one, it asks for the same calls.

- `Store.make`, `Store.replay`: a call that asks what another one asks, and such calls one after the other
- `Store.Answers`: calls that are answered as they are
- `Store.Asks`: what a procedure does on a store, seen through its calls; `Op.act_asks`: so does an instruction
- `Store.Agree`: two stores that answer calls alike and raise the signal alike
- `Walk.on`: a walk at the same place, on another store
- `Walk.step_asks`, `Walk.after_asks`: one step, and any number of steps, seen through their calls
-/
import RingTape.Proofs.Discipline

namespace RingTape

/-- an element of two lists one behind the other is one of the first list or one of the second -/
theorem split_append {α : Type} {a b before rest : List α} {c : α} (h : a ++ b = before ++ c :: rest) :
    (∃ later, a = before ++ c :: later) ∨ ∃ tail, before = a ++ tail ∧ b = tail ++ c :: rest := by
  rcases List.append_eq_append_iff.1 h with ⟨tail, hbefore, hb⟩ | ⟨tail, ha, hb⟩
  · exact Or.inr ⟨tail, hbefore, hb⟩
  · cases tail with
    | nil => exact Or.inr ⟨[], by rw [ha, List.append_nil, List.append_nil], hb.symm⟩
    | cons d later =>
      obtain ⟨rfl, -⟩ := List.cons.inj hb
      exact Or.inl ⟨later, ha⟩

/-- what a flush gives the instruction -/
def FlushAnswer.toResult : FlushAnswer → Except RunError Unit
  | .done => .ok ()
  | .failed f => .error (.failure f)

namespace Store

/-! ## Calls made again -/

/-- the call that asks what a call asks, with its answer -/
def make (s : Store) : Call → Call × Store
  | .read _ => (.read s.read.1, s.read.2)
  | .write b _ => (.write b (s.write b).1, (s.write b).2)
  | .flush _ => (.flush s.flush.1, s.flush.2)

/-- the store behind calls that ask what these calls ask -/
def replay (s : Store) : List Call → Store
  | [] => s
  | c :: rest => (s.make c).2.replay rest

/-- made one after the other, the calls are answered as they are -/
def Answers (s : Store) : List Call → Prop
  | [] => True
  | c :: rest => (s.make c).1 = c ∧ (s.make c).2.Answers rest

theorem make_asked (s : Store) (c : Call) : (s.make c).1.asked = c.asked := by
  cases c <;> rfl

/-- calls that ask the same are answered the same -/
theorem make_congr (s : Store) {c d : Call} (h : c.asked = d.asked) : s.make c = s.make d := by
  cases c with
  | read a =>
    cases d with
    | read a' => rfl
    | write b a' => cases h
    | flush a' => cases h
  | write b a =>
    cases d with
    | read a' => cases h
    | write b' a' =>
      cases h
      rfl
    | flush a' => cases h
  | flush a =>
    cases d with
    | read a' => cases h
    | write b a' => cases h
    | flush a' => rfl

theorem make_made (s : Store) (c : Call) : s.Made (s.make c).2 [(s.make c).1] := by
  cases c with
  | read a => exact s.read_made
  | write b a => exact s.write_made b
  | flush a => exact s.flush_made

theorem make_tape (s : Store) (c : Call) : (s.make c).2.tape = s.tape := by
  cases c with
  | read a => simp only [make, read_eq]
  | write b a => simp only [make, write_eq]
  | flush a => simp only [make, flush_eq]

theorem make_trace (s : Store) (c : Call) : (s.make c).2.trace = s.trace ++ [(s.make c).1] :=
  (s.make_made c).trace

/-- the tape plays no part in a call -/
theorem make_withTape (s : Store) (tape : Tape) (c : Call) :
    make { s with tape := tape } c = ((s.make c).1, { (s.make c).2 with tape := tape }) := by
  have halarm : ∀ why, (alarm { s with tape := tape } why).signals = (s.alarm why).signals :=
    alarm_signals_congr rfl rfl
  cases c with
  | read a => simp only [make, read_eq, halarm]
  | write b a => simp only [make, write_eq, halarm]
  | flush a => simp only [make, flush_eq, halarm]

theorem replay_append (s : Store) (a b : List Call) : s.replay (a ++ b) = (s.replay a).replay b := by
  induction a generalizing s with
  | nil => rfl
  | cons c rest ih => exact ih _

theorem replay_tape (s : Store) (calls : List Call) : (s.replay calls).tape = s.tape := by
  induction calls generalizing s with
  | nil => rfl
  | cons c rest ih => rw [replay, ih, make_tape]

theorem replay_withTape (s : Store) (tape : Tape) (calls : List Call) :
    replay { s with tape := tape } calls = { s.replay calls with tape := tape } := by
  induction calls generalizing s with
  | nil => rfl
  | cons c rest ih => rw [replay, make_withTape, ih, replay]

theorem answers_append (s : Store) (a b : List Call) :
    s.Answers (a ++ b) ↔ s.Answers a ∧ (s.replay a).Answers b := by
  induction a generalizing s with
  | nil => simp only [List.nil_append, Answers, replay, true_and]
  | cons c rest ih => rw [List.cons_append, Answers, Answers, ih, replay, and_assoc]

theorem answers_withTape (s : Store) (tape : Tape) (calls : List Call) :
    Answers { s with tape := tape } calls ↔ s.Answers calls := by
  induction calls generalizing s with
  | nil => exact Iff.rfl
  | cons c rest ih => rw [Answers, make_withTape, ih, Answers]

/-- calls that are answered as they are have the effects of these calls -/
theorem Answers.made {s : Store} {calls : List Call} (h : s.Answers calls) : s.Made (s.replay calls) calls := by
  induction calls generalizing s with
  | nil => exact .refl s
  | cons c rest ih =>
    have hfirst := s.make_made c
    rw [h.1] at hfirst
    exact hfirst.trans (ih h.2)

/-- of two calls that ask the same, behind the same calls, both answered as they are, one is the other -/
theorem Answers.unique {s : Store} {before : List Call} {c d : Call} (hc : s.Answers (before ++ [c]))
    (hd : s.Answers (before ++ [d])) (h : c.asked = d.asked) : c = d := by
  have hlast := ((s.answers_append before [c]).1 hc).2.1
  have hlast' := ((s.answers_append before [d]).1 hd).2.1
  rw [make_congr _ h] at hlast
  exact hlast.symm.trans hlast'

/-! ## Procedures seen through their calls -/

/-- what a procedure does on a store, seen through the calls that it makes there -/
structure Asks {α : Type} (p : Store → α × Store) (s : Store) (calls : List Call) : Prop where
  /-- the store answers the calls so -/
  answers : s.Answers calls
  /-- where the calls are answered so, the procedure makes them and no others, and has the same result -/
  same : ∀ t : Store, t.Answers calls → p t = ((p s).1, t.replay calls)
  /-- where the calls before one of them are answered so, this one is asked for too -/
  next : ∀ (t : Store) (before more : List Call) (c : Call), calls = before ++ c :: more → t.Answers before →
    ∃ d, d.asked = c.asked ∧ t.trace ++ before ++ [d] <+: (p t).2.trace

namespace Asks

variable {α : Type} {p : Store → α × Store} {s : Store} {c : Call}

/-- a procedure that begins with a call and is over if the call is answered so -/
theorem single {r : α} (hc : (s.make c).1 = c) (hfirst : ∀ t : Store, t.trace ++ [(t.make c).1] <+: (p t).2.trace)
    (h : ∀ t : Store, (t.make c).1 = c → p t = (r, (t.make c).2)) : Asks p s [c] where
  answers := ⟨hc, trivial⟩
  same t ht := by
    rw [h s hc]
    exact h t ht.1
  next t before more d hsplit ht := by
    cases before with
    | nil =>
      obtain rfl : c = d := (List.cons.inj hsplit).1
      refine ⟨(t.make c).1, t.make_asked c, ?_⟩
      rw [List.append_nil]
      exact hfirst t
    | cons b rest =>
      have hempty := (List.cons.inj hsplit).2
      simp at hempty

/-- a procedure that begins with a call and begins again if the call is answered so -/
theorem again {calls : List Call} (hc : (s.make c).1 = c)
    (hfirst : ∀ t : Store, t.trace ++ [(t.make c).1] <+: (p t).2.trace)
    (h : ∀ t : Store, (t.make c).1 = c → p t = p (t.make c).2) (hmore : Asks p (s.make c).2 calls) :
    Asks p s (c :: calls) where
  answers := ⟨hc, hmore.answers⟩
  same t ht := by
    rw [h s hc, h t ht.1]
    exact hmore.same _ ht.2
  next t before more d hsplit ht := by
    cases before with
    | nil =>
      obtain rfl : c = d := (List.cons.inj hsplit).1
      refine ⟨(t.make c).1, t.make_asked c, ?_⟩
      rw [List.append_nil]
      exact hfirst t
    | cons b rest =>
      obtain ⟨rfl, hrest⟩ := List.cons.inj hsplit
      obtain ⟨e, hasked, htrace⟩ := hmore.next (t.make c).2 rest more d hrest ht.2
      refine ⟨e, hasked, ?_⟩
      rw [h t ht.1]
      rw [make_trace, ht.1, List.append_assoc t.trace] at htrace
      exact htrace

end Asks

theorem readByte_first (t : Store) (a : ReadAnswer) :
    t.trace ++ [(t.make (.read a)).1] <+: t.readByte.2.trace := by
  have hread := t.make_trace (.read a)
  rw [← hread]
  rcases h : t.read with ⟨b | _ | f, u⟩
  · rw [readByte, h]
    simp only [make, h]
    exact List.prefix_refl _
  · rw [readByte, h]
    simp only [make, h]
    exact List.prefix_refl _
  · rw [readByte, h]
    simp only [make, h]
    split
    · exact u.readByte_trace
    · split <;> exact List.prefix_refl _

/-- **A read, seen through its calls.** -/
theorem readByte_asks (s : Store) : ∃ calls, Asks readByte s calls := by
  have hread : ∀ {t : Store} {a : ReadAnswer}, (t.make (.read a)).1 = .read a →
      t.read = (a, (t.make (.read a)).2) := by
    intro t a h
    exact Prod.ext (Call.read.inj h) rfl
  have hmake : ∀ {t u : Store} {a : ReadAnswer}, t.read = (a, u) → t.make (.read a) = (.read a, u) := by
    intro t u a h
    simp only [make, h]
  -- along the calls that are interrupted, up to the one that decides
  fun_induction readByte s with
  | case1 s b t h =>
    refine ⟨[.read (.byte b)], .single (r := .ok b) ?_ (fun t => t.readByte_first _) fun t ht => ?_⟩
    · rw [hmake h]
    · rw [readByte, hread ht]
  | case2 s t h =>
    refine ⟨[.read .ended], .single (r := .error .endOfInput) ?_ (fun t => t.readByte_first _) fun t ht => ?_⟩
    · rw [hmake h]
    · rw [readByte, hread ht]
  | case3 s f t h hf ih =>
    obtain ⟨calls, hcalls⟩ := ih
    refine ⟨.read (.failed f) :: calls, .again ?_ (fun t => t.readByte_first _) (fun t ht => ?_) ?_⟩
    · rw [hmake h]
    · rw [readByte, hread ht]
      simp only [if_pos hf]
    · rw [hmake h]
      exact hcalls
  | case4 s f t h hf hf' =>
    refine ⟨[.read (.failed f)], .single (r := .error .endOfInput) ?_ (fun t => t.readByte_first _) fun t ht => ?_⟩
    · rw [hmake h]
    · rw [readByte, hread ht]
      simp only [if_neg hf, if_pos hf']
  | case5 s f t h hf hf' =>
    refine ⟨[.read (.failed f)], .single (r := .error (.failure f)) ?_ (fun t => t.readByte_first _) fun t ht => ?_⟩
    · rw [hmake h]
    · rw [readByte, hread ht]
      simp only [if_neg hf, if_neg hf']

theorem pushByte_first (b : UInt8) (t : Store) (a : WriteAnswer) :
    t.trace ++ [(t.make (.write b a)).1] <+: (t.pushByte b).2.trace := by
  have hwrite := t.make_trace (.write b a)
  rw [← hwrite]
  rcases h : t.write b with ⟨_ | _ | f, u⟩
  · rw [pushByte, h]
    simp only [make, h]
    exact List.prefix_refl _
  · rw [pushByte, h]
    simp only [make, h]
    exact List.prefix_refl _
  · rw [pushByte, h]
    simp only [make, h]
    split
    · exact u.pushByte_trace b
    · exact List.prefix_refl _

/-- **Handing over a byte, seen through its calls.** -/
theorem pushByte_asks (b : UInt8) (s : Store) : ∃ calls, Asks (pushByte b) s calls := by
  have hwrite : ∀ {t : Store} {a : WriteAnswer}, (t.make (.write b a)).1 = .write b a →
      t.write b = (a, (t.make (.write b a)).2) := by
    intro t a h
    exact Prod.ext (Call.write.inj h).2 rfl
  have hmake : ∀ {t u : Store} {a : WriteAnswer}, t.write b = (a, u) → t.make (.write b a) = (.write b a, u) := by
    intro t u a h
    simp only [make, h]
  fun_induction pushByte b s with
  | case1 s t h =>
    refine ⟨[.write b .accepted], .single (r := .ok ()) ?_ (fun t => pushByte_first b t _) fun t ht => ?_⟩
    · rw [hmake h]
    · rw [pushByte, hwrite ht]
  | case2 s t h =>
    refine ⟨[.write b .refused],
      .single (r := .error (.failure .nothingWritten)) ?_ (fun t => pushByte_first b t _) fun t ht => ?_⟩
    · rw [hmake h]
    · rw [pushByte, hwrite ht]
  | case3 s f t h hf ih =>
    obtain ⟨calls, hcalls⟩ := ih
    refine ⟨.write b (.failed f) :: calls, .again ?_ (fun t => pushByte_first b t _) (fun t ht => ?_) ?_⟩
    · rw [hmake h]
    · rw [pushByte, hwrite ht]
      simp only [if_pos hf]
    · rw [hmake h]
      exact hcalls
  | case4 s f t h hf =>
    refine ⟨[.write b (.failed f)],
      .single (r := .error (.failure f)) ?_ (fun t => pushByte_first b t _) fun t ht => ?_⟩
    · rw [hmake h]
    · rw [pushByte, hwrite ht]
      simp only [if_neg hf]

/-- a procedure that makes no call -/
theorem Asks.pure {α : Type} (r : α) (s : Store) : Asks (fun t => (r, t)) s [] where
  answers := trivial
  same _ _ := rfl
  next t before more c hsplit ht := by simp at hsplit

/-- a procedure and what is done with its result, one behind the other -/
theorem Asks.bind {α β : Type} {p : Store → α × Store} {k : α → Store → β × Store} {s : Store}
    {calls more : List Call} (h : Asks p s calls) (hk : Asks (k (p s).1) (p s).2 more)
    (htrace : ∀ r (t : Store), t.trace <+: (k r t).2.trace) :
    Asks (fun t => k (p t).1 (p t).2) s (calls ++ more) := by
  have hend := congrArg Prod.snd (h.same s h.answers)
  rw [hend] at hk
  refine ⟨?_, fun t ht => ?_, fun t before rest c hsplit ht => ?_⟩
  · rw [answers_append]
    exact ⟨h.answers, hk.answers⟩
  · rw [answers_append] at ht
    rw [h.same t ht.1, replay_append, hend]
    exact hk.same _ ht.2
  · rcases split_append hsplit with ⟨later, hcalls⟩ | ⟨tail, rfl, hmore⟩
    · obtain ⟨d, hasked, hd⟩ := h.next t before later c hcalls ht
      exact ⟨d, hasked, hd.trans (htrace _ _)⟩
    · rw [answers_append] at ht
      obtain ⟨d, hasked, hd⟩ := hk.next _ tail rest c hmore ht.2
      refine ⟨d, hasked, ?_⟩
      rw [ht.1.made.trace, List.append_assoc t.trace] at hd
      rw [h.same t ht.1]
      exact hd

/-- flushes a byte that was handed over -/
def flushPushed : Except RunError Unit → Store → Except RunError Unit × Store
  | .ok (), t => (t.flush.1.toResult, t.flush.2)
  | .error e, t => (.error e, t)

theorem writeByte_eq (b : UInt8) (t : Store) : t.writeByte b = flushPushed (t.pushByte b).1 (t.pushByte b).2 := by
  rw [writeByte]
  rcases t.pushByte b with ⟨e | _, u⟩
  · rfl
  · simp only [flushPushed]
    rcases u.flush with ⟨_ | f, v⟩ <;> rfl

theorem flushPushed_trace (r : Except RunError Unit) (t : Store) : t.trace <+: (flushPushed r t).2.trace := by
  rcases r with e | _
  · exact List.prefix_refl _
  · exact ⟨_, t.flush_trace.symm⟩

theorem flushPushed_asks (r : Except RunError Unit) (s : Store) : ∃ calls, Asks (flushPushed r) s calls := by
  rcases r with e | _
  · exact ⟨[], .pure _ s⟩
  · refine ⟨[.flush s.flush.1], .single (r := s.flush.1.toResult) rfl (fun t => ?_) fun t ht => ?_⟩
    · rw [← make_trace]
      exact List.prefix_refl _
    · rw [flushPushed, Call.flush.inj ht]
      rfl

/-- **Writing a byte, seen through its calls**: those that hand it over and, if it was handed over, a flush. -/
theorem writeByte_asks (b : UInt8) (s : Store) : ∃ calls, Asks (writeByte b) s calls := by
  have hwrite : writeByte b = fun t => flushPushed (t.pushByte b).1 (t.pushByte b).2 := funext (writeByte_eq b)
  obtain ⟨calls, hpush⟩ := s.pushByte_asks b
  obtain ⟨more, hflush⟩ := flushPushed_asks (s.pushByte b).1 (s.pushByte b).2
  rw [hwrite]
  exact ⟨calls ++ more, hpush.bind hflush flushPushed_trace⟩

end Store

namespace Op

/-- what an instruction does on a store, seen through the calls that it makes there -/
structure Asks (o : Op) (s : Store) (calls : List Call) : Prop where
  answers : s.Answers calls
  /-- on the same tape, and where the calls are answered so, it has the same result and makes the same of the tape -/
  same : ∀ t : Store, t.tape = s.tape → t.Answers calls →
    o.act t = ((o.act s).1, { t.replay calls with tape := (o.act s).2.tape })
  /-- on the same tape, and where the calls before one of them are answered so, this one is asked for too -/
  next : ∀ (t : Store) (before more : List Call) (c : Call), t.tape = s.tape → calls = before ++ c :: more →
    t.Answers before → ∃ d, d.asked = c.asked ∧ t.trace ++ before ++ [d] <+: (o.act t).2.trace

/-- an instruction that only changes the tape -/
theorem asks_of_tape {o : Op} {f : Tape → Tape} (h : ∀ t, o.act t = (.ok (), { t with tape := f t.tape }))
    (s : Store) : o.Asks s [] where
  answers := trivial
  same t htape _ := by
    rw [h, h, htape]
    rfl
  next t before more c _ hsplit _ := by simp at hsplit

theorem print_asks (s : Store) : ∃ calls, Op.print.Asks s calls := by
  obtain ⟨calls, hcalls⟩ := s.writeByte_asks s.current
  have hact : ∀ t : Store, t.tape = s.tape → Op.print.act t = t.writeByte s.current := by
    intro t htape
    have hcurrent : t.current = s.current := congrArg Tape.current htape
    rw [act, hcurrent]
  refine ⟨calls, hcalls.answers, fun t htape ht => ?_, fun t before more c htape hsplit ht => ?_⟩
  · have hs := hcalls.same s hcalls.answers
    have htapes : (t.replay calls).tape = (s.writeByte s.current).2.tape := by
      rw [hs, Store.replay_tape, Store.replay_tape, htape]
    rw [hact t htape, hact s rfl, hcalls.same t ht, ← htapes]
  · rw [hact t htape]
    exact hcalls.next t before more c hsplit ht

theorem read_asks (s : Store) : ∃ calls, Op.read.Asks s calls := by
  obtain ⟨calls, hcalls⟩ := s.readByte_asks
  refine ⟨calls, hcalls.answers, fun t htape ht => ?_, fun t before more c htape hsplit ht => ?_⟩
  · have hs := hcalls.same s hcalls.answers
    have ht := hcalls.same t ht
    have htapes : (t.replay calls).tape = (s.replay calls).tape := by
      rw [Store.replay_tape, Store.replay_tape, htape]
    simp only [act]
    rw [hs, ht]
    rcases s.readByte.1 with e | b
    · cases e <;> simp only [← htapes]
    · simp only [htapes]
  · have htrace : (Op.read.act t).2.trace = t.readByte.2.trace := by
      rw [read_act_store]
      rfl
    rw [htrace]
    exact hcalls.next t before more c hsplit ht

/-- **An instruction, seen through its calls.** -/
theorem act_asks (o : Op) (s : Store) : ∃ calls, o.Asks s calls := by
  cases o with
  | incr => exact ⟨[], asks_of_tape (f := fun t => t.put (t.current + 1)) (fun _ => rfl) s⟩
  | decr => exact ⟨[], asks_of_tape (f := fun t => t.put (t.current - 1)) (fun _ => rfl) s⟩
  | next => exact ⟨[], asks_of_tape (f := Tape.right) (fun _ => rfl) s⟩
  | prev => exact ⟨[], asks_of_tape (f := Tape.left) (fun _ => rfl) s⟩
  | print => exact print_asks s
  | read => exact read_asks s

end Op

/-! ## Stores that answer calls alike -/

namespace Store

/-- the calls, made one after the other, are answered alike by two stores, and before the first and after each of them
the signal of the token is raised alike: in both for the same reason, or in neither -/
def Agree (token : Token) (s t : Store) : List Call → Prop
  | [] => s.signals.reason? token = t.signals.reason? token
  | c :: rest => s.signals.reason? token = t.signals.reason? token ∧ (s.make c).1 = (t.make c).1 ∧
      Agree token (s.make c).2 (t.make c).2 rest

variable {token : Token} {s t : Store} {calls : List Call}

theorem Agree.reason? (h : s.Agree token t calls) : s.signals.reason? token = t.signals.reason? token := by
  cases calls with
  | nil => exact h
  | cons c rest => exact h.1

theorem Agree.refl (token : Token) (s : Store) (calls : List Call) : s.Agree token s calls := by
  induction calls generalizing s with
  | nil => rfl
  | cons c rest ih => exact ⟨rfl, rfl, ih _⟩

theorem Agree.symm (h : s.Agree token t calls) : t.Agree token s calls := by
  induction calls generalizing s t with
  | nil => exact Eq.symm h
  | cons c rest ih => exact ⟨h.1.symm, h.2.1.symm, ih h.2.2⟩

theorem agree_append (a b : List Call) :
    s.Agree token t (a ++ b) ↔ s.Agree token t a ∧ (s.replay a).Agree token (t.replay a) b := by
  induction a generalizing s t with
  | nil =>
    constructor
    · intro h
      exact ⟨h.reason?, h⟩
    · rintro ⟨-, h⟩
      exact h
  | cons c rest ih => simp only [List.cons_append, Agree, ih, replay, and_assoc]

theorem agree_withTape (f g : Tape) :
    Agree token { s with tape := f } { t with tape := g } calls ↔ s.Agree token t calls := by
  induction calls generalizing s t with
  | nil => exact Iff.rfl
  | cons c rest ih => simp only [Agree, make_withTape, ih]

/-- a store that agrees with another one on the calls that it answers answers them too -/
theorem Agree.answers (h : s.Agree token t calls) (hs : s.Answers calls) : t.Answers calls := by
  induction calls generalizing s t with
  | nil => trivial
  | cons c rest ih => exact ⟨h.2.1.symm.trans hs.1, ih h.2.2 hs.2⟩

end Store

/-! ## Walks -/

namespace Walk

/-- the walk at the same place, on another store -/
def on (s : Store) : Walk → Walk
  | .going code frames _ => .going code frames s
  | .ended r _ => .ended r s

@[simp] theorem store_on (s : Store) (w : Walk) : (w.on s).store = s := by
  cases w <;> rfl

@[simp] theorem on_store (w : Walk) : w.on w.store = w := by
  cases w <;> rfl

@[simp] theorem on_on (s t : Store) (w : Walk) : (w.on s).on t = w.on t := by
  cases w <;> rfl

/-- so many steps of a walk, seen through the calls that they make -/
structure Asks (token : Token) (w : Walk) (n : Nat) (calls : List Call) : Prop where
  answers : w.store.Answers calls
  /-- on the same tape, and where the calls are answered so, the steps lead to the same place and the same tape -/
  same : ∀ t : Store, t.tape = w.store.tape → w.store.Agree token t calls →
    (w.on t).after token n = (w.after token n).on { t.replay calls with tape := (w.after token n).store.tape }
  /-- on the same tape, and where the calls before one of them are answered so, this one is asked for too -/
  next : ∀ (t : Store) (before more : List Call) (c : Call), t.tape = w.store.tape → calls = before ++ c :: more →
    w.store.Agree token t before →
      ∃ d, d.asked = c.asked ∧ t.trace ++ before ++ [d] <+: ((w.on t).after token n).store.trace

variable {token : Token}

/-- the store behind some steps is the one behind their calls, but for its tape -/
theorem Asks.store_after {w : Walk} {n : Nat} {calls : List Call} (h : Asks token w n calls) :
    (w.after token n).store = { w.store.replay calls with tape := (w.after token n).store.tape } := by
  have hsame := congrArg Walk.store (h.same w.store rfl (.refl token w.store calls))
  rwa [on_store, store_on] at hsame

theorem Asks.made {w : Walk} {n : Nat} {calls : List Call} (h : Asks token w n calls) :
    w.store.Made (w.after token n).store calls := by
  rw [h.store_after]
  exact h.answers.made.withTape _

theorem Asks.trace {w : Walk} {n : Nat} {calls : List Call} (h : Asks token w n calls) :
    (w.after token n).store.trace = w.store.trace ++ calls :=
  h.made.trace

/-- a step that makes no call and looks at nothing but the tape and the signal -/
theorem asks_of_idle {w : Walk} (hstore : (w.step token).store = w.store)
    (h : ∀ t : Store, t.tape = w.store.tape → w.store.signals.reason? token = t.signals.reason? token →
      (w.on t).step token = (w.step token).on t) : Asks token w 1 [] where
  answers := trivial
  same t htape hagree := by
    have hstep : w.after token 1 = w.step token := rfl
    rw [hstep, hstore, ← htape]
    exact h t htape hagree
  next t before more c _ hsplit _ := by simp at hsplit

theorem test_on (token : Token) (body rest : Code) (frames : List Frame) {s t : Store} (htape : t.tape = s.tape)
    (hreason : s.signals.reason? token = t.signals.reason? token) :
    test token body rest frames t = (test token body rest frames s).on t := by
  have hcurrent : t.current = s.current := congrArg Tape.current htape
  rw [test, test, hcurrent, ← hreason]
  split
  · rfl
  · cases s.signals.reason? token <;> rfl

theorem perform_on {o : Op} {s : Store} {calls : List Call} (h : o.Asks s calls) (rest : Code) (frames : List Frame)
    {t : Store} (htape : t.tape = s.tape) (ht : t.Answers calls) :
    perform o rest frames t = (perform o rest frames s).on { t.replay calls with tape := (o.act s).2.tape } := by
  rw [perform, h.same t htape ht, perform]
  rcases o.act s with ⟨_ | _, u⟩ <;> rfl

/-- a step that carries out an instruction -/
theorem asks_of_perform {w : Walk} {o : Op} (rest : Code) (frames : List Frame) {calls : List Call}
    (hcalls : o.Asks w.store calls) (h : ∀ t : Store, w.store.signals.reason? token = t.signals.reason? token →
      (w.on t).step token = perform o rest frames t) : Asks token w 1 calls where
  answers := hcalls.answers
  same t htape hagree := by
    have hstep : w.after token 1 = perform o rest frames w.store := by
      have hown := h w.store rfl
      rwa [on_store] at hown
    have hother : (w.on t).after token 1 = perform o rest frames t := h t hagree.reason?
    rw [hstep, hother, perform_store]
    exact perform_on hcalls rest frames htape (hagree.answers hcalls.answers)
  next t before more c htape hsplit hagree := by
    have hanswers := hcalls.answers
    rw [hsplit, Store.answers_append] at hanswers
    have hother : (w.on t).after token 1 = perform o rest frames t := h t hagree.reason?
    rw [hother, perform_store]
    exact hcalls.next t before more c htape hsplit (hagree.answers hanswers.1)

/-- **One step, seen through its calls.** -/
theorem step_asks (token : Token) (w : Walk) : ∃ calls, Asks token w 1 calls := by
  rcases w with ⟨_ | ⟨o, rest⟩ | ⟨body, rest⟩, _ | ⟨f, frames⟩, s⟩ | ⟨r, s⟩
  · exact ⟨[], asks_of_idle rfl fun t _ _ => rfl⟩
  · exact ⟨[], asks_of_idle (test_store ..) fun t htape hreason => test_on token f.body f.rest frames htape hreason⟩
  · cases hr : s.signals.reason? token with
    | none =>
      obtain ⟨calls, hcalls⟩ := o.act_asks s
      refine ⟨calls, asks_of_perform (w := .going (.op o rest) [] s) rest [] hcalls fun t hreason => ?_⟩
      simp only [store, hr] at hreason
      simp only [on, step, ← hreason]
    | some why =>
      refine ⟨[], asks_of_idle ?_ fun t _ hreason => ?_⟩
      · simp only [step, hr, store]
      · simp only [store, hr] at hreason
        simp only [on, step, hr, ← hreason]
  · obtain ⟨calls, hcalls⟩ := o.act_asks s
    exact ⟨calls, asks_of_perform (w := .going (.op o rest) (f :: frames) s) rest (f :: frames) hcalls fun t _ => rfl⟩
  · refine ⟨[], asks_of_idle ?_ fun t htape hreason => ?_⟩
    · simp only [step]
      cases s.signals.reason? token with
      | none => exact test_store ..
      | some why => rfl
    · have htest := test_on token body rest [] htape hreason
      simp only [store] at hreason
      simp only [on, step, ← hreason]
      cases hr : s.signals.reason? token with
      | none => exact htest
      | some why => rfl
  · exact ⟨[], asks_of_idle (test_store ..) fun t htape hreason => test_on token body rest (f :: frames) htape hreason⟩
  · exact ⟨[], asks_of_idle rfl fun t _ _ => rfl⟩

/-- **Any number of steps, seen through their calls.** -/
theorem after_asks (token : Token) (w : Walk) (n : Nat) : ∃ calls, Asks token w n calls := by
  induction n with
  | zero =>
    refine ⟨[], trivial, fun t htape _ => ?_, fun t before more c _ hsplit => ?_⟩
    · have hstart : ∀ v : Walk, v.after token 0 = v := fun _ => rfl
      rw [hstart, hstart, ← htape]
      rfl
    · simp at hsplit
  | succ n ih =>
    obtain ⟨calls, hcalls⟩ := ih
    obtain ⟨more, hmore⟩ := step_asks token (w.after token n)
    have hstore := hcalls.store_after
    -- the store that the last step begins with, on either side
    have hagree : ∀ {t : Store} {l : List Call}, w.store.Agree token t (calls ++ l) →
        (w.after token n).store.Agree token { t.replay calls with tape := (w.after token n).store.tape } l := by
      intro t l h
      rw [hstore, Store.agree_withTape]
      exact ((Store.agree_append calls l).1 h).2
    refine ⟨calls ++ more, ?_, fun t htape h => ?_, fun t before rest c htape hsplit h => ?_⟩
    · have hanswers := hmore.answers
      rw [hstore, Store.answers_withTape] at hanswers
      exact (Store.answers_append _ calls more).2 ⟨hcalls.answers, hanswers⟩
    · have hlast := hmore.same { t.replay calls with tape := (w.after token n).store.tape } rfl (hagree h)
      rw [after_step, after_step, hcalls.same t htape ((Store.agree_append calls more).1 h).1]
      rw [Store.replay_withTape (t.replay calls)] at hlast
      rw [Store.replay_append]
      exact hlast
    · rcases split_append hsplit with ⟨later, hcut⟩ | ⟨tail, rfl, hcut⟩
      · obtain ⟨d, hasked, hd⟩ := hcalls.next t before later c htape hcut h
        exact ⟨d, hasked, hd.trans (step_trace token _)⟩
      · obtain ⟨d, hasked, hd⟩ := hmore.next { t.replay calls with tape := (w.after token n).store.tape } tail rest c
          rfl hcut (hagree h)
        have hbefore := (Store.agree_append calls tail).1 h
        have htrace := (hbefore.1.answers hcalls.answers).made.trace
        refine ⟨d, hasked, ?_⟩
        rw [after_step, hcalls.same t htape hbefore.1, ← List.append_assoc, ← htrace]
        exact hd

end Walk

end RingTape
