/-
What one more fatal fault does to a run. Up to the call that the fault names, the run goes as it went without it; there
it fails, and nothing comes after.

- `ChannelFault`: a fault on one of the channels, and the call that meets it
- `Streams.withFault`: streams with one fault more
- `Store.Reaches`, `Walk.Makes`: the call is made on a stretch of the way, or at some moment
- `Op.act_withFault`, `Walk.step_withFault`: nothing changes where the call is not made
- `Store.Struck`, `Op.act_struck`: where it is made, the calls before it are the same and the instruction fails
- `Walk.step_struck`, `Walk.after_struck`: the walk ends there
- `fatal_fault_truncates`: the run with the fault beside the run without it
-/
import Mathlib.Data.Nat.Find
import RingTape.Proofs.Discipline

namespace RingTape

/-! ## Faults -/

/-- a fault on one of the channels -/
inductive ChannelFault where
  | read (f : Failure)
  /-- a write may also fail by taking nothing, which is the fault `none` -/
  | write (f : Option Failure)
  | flush (f : Failure)
  deriving DecidableEq, Repr

namespace ChannelFault

/-- the channel of a fault -/
def kind : ChannelFault → CallKind
  | .read _ => .read
  | .write _ => .write
  | .flush _ => .flush

/-- a fault that ends a run: an interrupted read or write is made again, and an exhausted input is no failure -/
def Fatal : ChannelFault → Prop
  | .read f => f.kind ≠ .interrupted ∧ f.kind ≠ .unexpectedEof
  | .write (some f) => f.kind ≠ .interrupted
  | .write none => True
  | .flush _ => True

/-- the failure that a run ends with at a fatal fault -/
def failure : ChannelFault → Failure
  | .read f => f
  | .write (some f) => f
  | .write none => .nothingWritten
  | .flush f => f

/-- the call that meets a fault, made by an instruction on a cell with the given value -/
def call (cell : UInt8) : ChannelFault → Call
  | .read f => .read (.failed f)
  | .write (some f) => .write cell (.failed f)
  | .write none => .write cell .refused
  | .flush f => .flush (.failed f)

/-- what the instruction has written by the time its call meets the fault -/
def written (cell : UInt8) : ChannelFault → List UInt8
  | .flush _ => [cell]
  | _ => []

theorem accepted?_call (x : ChannelFault) (cell : UInt8) : [x.call cell].filterMap Call.accepted? = [] := by
  cases x with
  | read f => rfl
  | write g => cases g <;> rfl
  | flush f => rfl

theorem delivered?_call (x : ChannelFault) (cell : UInt8) : [x.call cell].filterMap Call.delivered? = [] := by
  cases x with
  | read f => rfl
  | write g => cases g <;> rfl
  | flush f => rfl

end ChannelFault

/-- the channel with one more fault, named for the `n`-th call, at some place of the list -/
def Channel.withFault {Fault : Type} (c : Channel Fault) (i n : Nat) (f : Fault) : Channel Fault :=
  { c with faults := c.faults.take i ++ (n, f) :: c.faults.drop i }

/-- the streams with one more fault, on its channel -/
def Streams.withFault (s : Streams) (i n : Nat) : ChannelFault → Streams
  | .read f => { s with reads := s.reads.withFault i n f }
  | .write f => { s with writes := s.writes.withFault i n f }
  | .flush f => { s with flushes := s.flushes.withFault i n f }

/-- no fault names the `n`-th call of this kind -/
def Streams.Spares (s : Streams) (n : Nat) : CallKind → Prop
  | .read => ∀ f ∈ s.reads.faults, f.1 ≠ n
  | .write => ∀ f ∈ s.writes.faults, f.1 ≠ n
  | .flush => ∀ f ∈ s.flushes.faults, f.1 ≠ n

/-- the store with one more fault on its streams -/
def Store.withFault (s : Store) (i n : Nat) (x : ChannelFault) : Store :=
  { s with streams := s.streams.withFault i n x }

/-- the walk with one more fault on its streams -/
def Walk.withFault (i n : Nat) (x : ChannelFault) : Walk → Walk
  | .going code frames s => .going code frames (s.withFault i n x)
  | .ended r s => .ended r (s.withFault i n x)

/-- what a run gives back, with one more fault on the streams -/
def Interpreter.Finished.withFault (i n : Nat) (x : ChannelFault) (f : Finished) : Finished :=
  { f with interpreter := { f.interpreter with streams := f.interpreter.streams.withFault i n x } }

/-- the `n`-th call of this kind is made on the way from one store to another -/
def Store.Reaches (s t : Store) (k : CallKind) (n : Nat) : Prop :=
  s.streams.calls k ≤ n ∧ n < t.streams.calls k

instance (s t : Store) (k : CallKind) (n : Nat) : Decidable (s.Reaches t k n) :=
  inferInstanceAs (Decidable (_ ∧ _))

/-- the walk makes the `n`-th call of this kind, at some moment -/
def Walk.Makes (token : Token) (w : Walk) (k : CallKind) (n : Nat) : Prop :=
  ∃ m, w.store.Reaches (w.after token m).store k n

/-! ## Which call meets the fault -/

namespace Channel

variable {Fault : Type} (c : Channel Fault) (i : Nat) {n : Nat} (f : Fault)

theorem fault?_withFault_of_ne (h : c.calls ≠ n) : (c.withFault i n f).fault? = c.fault? := by
  have hsplit : c.faults.lookup c.calls = (c.faults.take i ++ c.faults.drop i).lookup c.calls := by
    rw [List.take_append_drop]
  rw [fault?, fault?, hsplit]
  simp only [withFault, List.lookup_append, List.lookup_cons, beq_false_of_ne h]

theorem fault?_withFault_self (hfree : ∀ g ∈ c.faults, g.1 ≠ n) (h : c.calls = n) :
    (c.withFault i n f).fault? = some f := by
  have hnone : (c.faults.take i).lookup n = none := by
    rw [List.lookup_eq_none_iff]
    exact fun g hg => bne_iff_ne.2 (hfree g (List.mem_of_mem_take hg)).symm
  subst h
  simp only [fault?, withFault, List.lookup_append, hnone, List.lookup_cons, beq_self_eq_true, Option.none_or]

end Channel

namespace Streams

variable {x : ChannelFault} {i n : Nat} {f : Failure}

theorem read_withFault (s : Streams) (h : x.kind = .read → s.reads.calls ≠ n) :
    (s.withFault i n x).read = (s.read.1, s.read.2.withFault i n x) := by
  have hfault : (s.withFault i n x).reads.fault? = s.reads.fault? := by
    cases x with
    | read f => exact s.reads.fault?_withFault_of_ne i f (h rfl)
    | write f => rfl
    | flush f => rfl
  have hscript : (s.withFault i n x).script = s.script := by cases x <;> rfl
  rw [read, read, hfault, hscript]
  cases s.reads.fault? with
  | some g => cases x <;> rfl
  | none => rcases s.script with _ | ⟨_ | _ | _, rest⟩ <;> cases x <;> rfl

theorem write_withFault (b : UInt8) (s : Streams) (h : x.kind = .write → s.writes.calls ≠ n) :
    (s.withFault i n x).write b = ((s.write b).1, (s.write b).2.withFault i n x) := by
  have hfault : (s.withFault i n x).writes.fault? = s.writes.fault? := by
    cases x with
    | read f => rfl
    | write f => exact s.writes.fault?_withFault_of_ne i f (h rfl)
    | flush f => rfl
  rw [write, write, hfault]
  rcases s.writes.fault? with _ | _ | g <;> cases x <;> rfl

theorem flush_withFault (s : Streams) (h : x.kind = .flush → s.flushes.calls ≠ n) :
    (s.withFault i n x).flush = (s.flush.1, s.flush.2.withFault i n x) := by
  have hfault : (s.withFault i n x).flushes.fault? = s.flushes.fault? := by
    cases x with
    | read f => rfl
    | write f => rfl
    | flush f => exact s.flushes.fault?_withFault_of_ne i f (h rfl)
  rw [flush, flush, hfault]
  cases s.flushes.fault? <;> cases x <;> rfl

/-- the read that the fault names -/
theorem read_struck (s : Streams) (hfree : s.Spares n .read) (h : s.calls .read = n) :
    (s.withFault i n (.read f)).read.1 = .failed f := by
  have hfault : (s.withFault i n (.read f)).reads.fault? = some f := s.reads.fault?_withFault_self i f hfree h
  rw [read, hfault]

/-- the write that the fault names -/
theorem write_struck (b : UInt8) (s : Streams) (g : Option Failure) (hfree : s.Spares n .write)
    (h : s.calls .write = n) :
    Call.write b ((s.withFault i n (.write g)).write b).1 = (ChannelFault.write g).call b := by
  have hfault : (s.withFault i n (.write g)).writes.fault? = some g := s.writes.fault?_withFault_self i g hfree h
  rw [write, hfault]
  cases g <;> rfl

/-- the flush that the fault names -/
theorem flush_struck (s : Streams) (hfree : s.Spares n .flush) (h : s.calls .flush = n) :
    (s.withFault i n (.flush f)).flush.1 = .failed f := by
  have hfault : (s.withFault i n (.flush f)).flushes.fault? = some f := s.flushes.fault?_withFault_self i f hfree h
  rw [flush, hfault]

/-- an alarm does not ask for faults -/
theorem reasonsOf_withFault (s : Streams) (k : CallKind) : (s.withFault i n x).reasonsOf k = s.reasonsOf k := by
  cases k <;> cases x <;> rfl

theorem counted_withFault (s : Streams) (k : CallKind) :
    (s.withFault i n x).counted k = (s.counted k).withFault i n x := by
  cases k <;> cases x <;> rfl

theorem reasons_withFault (s : Streams) (calls : List Call) : (s.withFault i n x).reasons calls = s.reasons calls := by
  induction calls generalizing s with
  | nil => rfl
  | cons c rest ih => rw [reasons, reasons, reasonsOf_withFault, counted_withFault, ih]

end Streams

namespace Store

variable {x : ChannelFault} {i n : Nat} {s t u : Store} {a b : List Call} {c : Call} {k : CallKind}

theorem alarm_withFault (s : Store) (why : List String) :
    ((s.withFault i n x).alarm why).signals = (s.alarm why).signals := by
  have halarmed : (s.withFault i n x).streams.alarmed = s.streams.alarmed := by cases x <;> rfl
  have hsignals : (s.withFault i n x).signals = s.signals := rfl
  exact alarm_signals_congr halarmed hsignals why

/-- calls are made alike, as long as the faults of the streams do not matter -/
theorem Made.withFault (h : s.Made t a) : (s.withFault i n x).Made (t.withFault i n x) a where
  trace := by
    have htrace := h.trace
    cases x <;> exact htrace
  out := by
    have hout := h.out
    cases x <;> exact hout
  consumed := by
    have hconsumed := h.consumed
    cases x <;> exact hconsumed
  script := by
    have hscript := h.script
    cases x <;> exact hscript
  reads := by
    have hreads := h.reads
    cases x with
    | read f => exact congrArg (·.withFault i n f) hreads
    | write f => exact hreads
    | flush f => exact hreads
  writes := by
    have hwrites := h.writes
    cases x with
    | read f => exact hwrites
    | write f => exact congrArg (·.withFault i n f) hwrites
    | flush f => exact hwrites
  flushes := by
    have hflushes := h.flushes
    cases x with
    | read f => exact hflushes
    | write f => exact hflushes
    | flush f => exact congrArg (·.withFault i n f) hflushes
  alarmed := by
    have halarmed := h.alarmed
    cases x <;> exact halarmed
  signals := by
    have hreasons : (s.withFault i n x).streams.reasons a = s.streams.reasons a := Streams.reasons_withFault s.streams a
    rw [hreasons, alarm_withFault]
    exact h.signals

/-! What is made of a store with one more fault is made on top of what the store has. -/

theorem Made.trace_of_withFault (h : (s.withFault i n x).Made t a) : t.trace = s.trace ++ a := by
  have htrace := h.trace
  cases x <;> exact htrace

theorem Made.out_of_withFault (h : (s.withFault i n x).Made t a) :
    t.streams.out.toList = s.streams.out.toList ++ a.filterMap Call.accepted? := by
  have hout := h.out
  cases x <;> exact hout

theorem Made.consumed_of_withFault (h : (s.withFault i n x).Made t a) :
    t.streams.consumed = s.streams.consumed + (a.filterMap Call.delivered?).length := by
  have hconsumed := h.consumed
  cases x <;> exact hconsumed

theorem Made.spares (h : s.Made t a) (hfree : s.streams.Spares n k) : t.streams.Spares n k := by
  cases k with
  | read =>
    rw [Streams.Spares, h.reads]
    exact hfree
  | write =>
    rw [Streams.Spares, h.writes]
    exact hfree
  | flush =>
    rw [Streams.Spares, h.flushes]
    exact hfree

/-- a call that is made in two stretches is made in one of them -/
theorem Made.reaches_iff (h : s.Made t a) (hk : t.Made u b) :
    s.Reaches u k n ↔ s.Reaches t k n ∨ t.Reaches u k n := by
  have hfirst := h.calls k
  have hsecond := hk.calls k
  simp only [Reaches]
  omega

/-- a single call is the one that is made -/
theorem Made.reaches_single (h : s.Made t [c]) : s.Reaches t k n ↔ c.kind = k ∧ s.streams.calls k = n := by
  have hcalls := h.calls k
  rw [List.countP_singleton] at hcalls
  by_cases hc : c.kind = k
  · rw [if_pos (beq_iff_eq.2 hc)] at hcalls
    simp only [Reaches, hc, true_and]
    omega
  · rw [if_neg (by simpa using hc)] at hcalls
    simp only [Reaches, hc, false_and, iff_false]
    omega

/-- a call that is made is one of the calls -/
theorem Made.kind_of_reaches (h : s.Made t a) (hreach : s.Reaches t k n) : ∃ c ∈ a, c.kind = k := by
  by_contra hnone
  push Not at hnone
  have hcalls := h.calls k
  rw [List.countP_eq_zero.2 fun c hc => by simpa using hnone c hc] at hcalls
  exact absurd (Nat.lt_of_le_of_lt hreach.1 hreach.2) (by omega)

theorem Made.ne_of_not_reaches (h : s.Made t [c]) (hnot : ¬ s.Reaches t k n) (hc : k = c.kind) :
    s.streams.calls c.kind ≠ n := by
  subst hc
  exact fun hat => hnot (h.reaches_single.2 ⟨rfl, hat⟩)

/-! ## Calls beside the fault -/

theorem read_withFault {answer : ReadAnswer} (h : s.read = (answer, t)) (hnot : ¬ s.Reaches t x.kind n) :
    (s.withFault i n x).read = (answer, t.withFault i n x) := by
  have hread : (s.withFault i n x).streams.read = (s.streams.read.1, s.streams.read.2.withFault i n x) :=
    s.streams.read_withFault ((made_of_read h).1.ne_of_not_reaches hnot)
  have hreasons : (s.withFault i n x).streams.reads.reasons = s.streams.reads.reasons :=
    s.streams.reasonsOf_withFault .read
  rw [read_eq] at h
  cases h
  rw [read_eq, hread, hreasons, alarm_withFault]
  rfl

theorem write_withFault {cell : UInt8} {answer : WriteAnswer} (h : s.write cell = (answer, t))
    (hnot : ¬ s.Reaches t x.kind n) : (s.withFault i n x).write cell = (answer, t.withFault i n x) := by
  have hwrite : (s.withFault i n x).streams.write cell =
      ((s.streams.write cell).1, (s.streams.write cell).2.withFault i n x) :=
    s.streams.write_withFault cell ((made_of_write h).1.ne_of_not_reaches hnot)
  have hreasons : (s.withFault i n x).streams.writes.reasons = s.streams.writes.reasons :=
    s.streams.reasonsOf_withFault .write
  rw [write_eq] at h
  cases h
  rw [write_eq, hwrite, hreasons, alarm_withFault]
  rfl

theorem flush_withFault {answer : FlushAnswer} (h : s.flush = (answer, t)) (hnot : ¬ s.Reaches t x.kind n) :
    (s.withFault i n x).flush = (answer, t.withFault i n x) := by
  have hflush : (s.withFault i n x).streams.flush = (s.streams.flush.1, s.streams.flush.2.withFault i n x) :=
    s.streams.flush_withFault ((made_of_flush h).1.ne_of_not_reaches hnot)
  have hreasons : (s.withFault i n x).streams.flushes.reasons = s.streams.flushes.reasons :=
    s.streams.reasonsOf_withFault .flush
  rw [flush_eq] at h
  cases h
  rw [flush_eq, hflush, hreasons, alarm_withFault]
  rfl

theorem readByte_withFault (s : Store) (hnot : ¬ s.Reaches s.readByte.2 x.kind n) :
    (s.withFault i n x).readByte = (s.readByte.1, s.readByte.2.withFault i n x) := by
  -- along the calls that are interrupted: none of them is the one that the fault names
  fun_induction readByte s with
  | case1 s b t h => rw [readByte, read_withFault h hnot]
  | case2 s t h => rw [readByte, read_withFault h hnot]
  | case3 s f t h hf ih =>
    obtain ⟨waits, answer, -, -, -, hmore⟩ := t.readByte_calls
    rw [(made_of_read h).1.reaches_iff hmore, not_or] at hnot
    rw [readByte, read_withFault h hnot.1]
    simp only [hf, if_true]
    exact ih hnot.2
  | case4 s f t h hf hf' =>
    rw [readByte, read_withFault h hnot]
    simp [hf']
  | case5 s f t h hf hf' =>
    rw [readByte, read_withFault h hnot]
    simp only [if_neg hf, if_neg hf']

theorem pushByte_withFault (cell : UInt8) (s : Store) (hnot : ¬ s.Reaches (s.pushByte cell).2 x.kind n) :
    (s.withFault i n x).pushByte cell = ((s.pushByte cell).1, (s.pushByte cell).2.withFault i n x) := by
  fun_induction pushByte cell s with
  | case1 s t h => rw [pushByte, write_withFault h hnot]
  | case2 s t h => rw [pushByte, write_withFault h hnot]
  | case3 s f t h hf ih =>
    obtain ⟨waits, answer, -, -, -, hmore⟩ := t.pushByte_calls cell
    rw [(made_of_write h).1.reaches_iff hmore, not_or] at hnot
    rw [pushByte, write_withFault h hnot.1]
    simp only [hf, if_true]
    exact ih hnot.2
  | case4 s f t h hf =>
    rw [pushByte, write_withFault h hnot]
    simp only [if_neg hf]

/-- handing over a byte and flushing it, in two stretches of calls -/
theorem writeByte_withFault (cell : UInt8) (s : Store) (hnot : ¬ s.Reaches (s.writeByte cell).2 x.kind n) :
    (s.withFault i n x).writeByte cell = ((s.writeByte cell).1, (s.writeByte cell).2.withFault i n x) := by
  obtain ⟨waits, answer, -, -, -, hmade⟩ := s.pushByte_calls cell
  rcases hpush : s.pushByte cell with ⟨e | _, t⟩
  · rw [writeByte_of_error (congrArg Prod.fst hpush)] at hnot ⊢
    have hpushed : (s.withFault i n x).pushByte cell = _ := s.pushByte_withFault cell hnot
    rw [writeByte_of_error (by rw [hpushed, hpush]), hpushed]
  · rcases hflush : t.flush with ⟨answer', u⟩
    rw [hpush] at hmade
    rw [writeByte_of_ok hpush hflush, hmade.reaches_iff (made_of_flush hflush).1, not_or] at hnot
    have hpushed : (s.withFault i n x).pushByte cell = _ := s.pushByte_withFault cell (by rw [hpush]; exact hnot.1)
    have hflushed : (t.withFault i n x).flush = _ := flush_withFault hflush hnot.2
    rw [writeByte, hpushed, hpush]
    simp only [hflushed, writeByte, hpush, hflush]
    cases answer' <;> rfl

end Store

/-- **An instruction that does not make the call.** It does what it does without the fault. -/
theorem Op.act_withFault {o : Op} {s : Store} {x : ChannelFault} {i n : Nat}
    (hnot : ¬ s.Reaches (o.act s).2 x.kind n) :
    o.act (s.withFault i n x) = ((o.act s).1, (o.act s).2.withFault i n x) := by
  cases o with
  | incr => rfl
  | decr => rfl
  | next => rfl
  | prev => rfl
  | print => exact s.writeByte_withFault s.current hnot
  | read =>
    rw [read_act_store] at hnot
    have hread : (s.withFault i n x).readByte = _ := s.readByte_withFault hnot
    simp only [act, hread]
    rcases s.readByte with ⟨e | b, t⟩
    · cases e <;> rfl
    · rfl

/-! ## The call that meets the fault -/

namespace Store

variable {x : ChannelFault} {i n : Nat} {s t u : Store} {a b before more : List Call} {c : Call} {cell : UInt8}
  {f : Failure} {α : Type} {r : Except RunError α × Store}

/-- on the way from one store to another, the call that the fault names is made; with the fault, the calls before it are
made, and it fails -/
structure Struck (x : ChannelFault) (i n : Nat) (cell : UInt8) (s t : Store) (r : Except RunError α × Store)
    (before : List Call) (c : Call) (more : List Call) : Prop where
  made : s.Made t (before ++ c :: more)
  asked : c.asked = (x.call cell).asked
  count : s.streams.calls x.kind + before.countP (·.kind == x.kind) = n
  result : r.1 = .error (.failure x.failure)
  tape : r.2.tape = s.tape
  cut : (s.withFault i n x).Made r.2 (before ++ [x.call cell])

namespace Struck

/-- calls that come before -/
theorem after (h : s.Made t a) (htape : t.tape = s.tape) (hs : Struck x i n cell t u r before c more) :
    Struck x i n cell s u r (a ++ before) c more where
  made := by
    rw [List.append_assoc]
    exact h.trans hs.made
  asked := hs.asked
  count := by rw [List.countP_append, ← Nat.add_assoc, ← h.calls, hs.count]
  result := hs.result
  tape := hs.tape.trans htape
  cut := by
    rw [List.append_assoc]
    exact h.withFault.trans hs.cut

/-- calls that the run without the fault goes on to make -/
theorem onward (hs : Struck x i n cell s t r before c more) (h : t.Made u b) :
    Struck x i n cell s u r before c (more ++ b) where
  made := by
    have hall := hs.made.trans h
    rwa [List.append_assoc] at hall
  asked := hs.asked
  count := hs.count
  result := hs.result
  tape := hs.tape
  cut := hs.cut

end Struck

/-- the read that the fault names -/
theorem struck_of_read {answer : ReadAnswer} (hfatal : (ChannelFault.read f).Fatal) (hfree : s.streams.Spares n .read)
    (h : s.read = (answer, t)) (hreach : s.Reaches t .read n) (hmore : t.Made u more) :
    Struck (.read f) i n cell s u (s.withFault i n (.read f)).readByte [] (.read answer) more := by
  have hat := ((made_of_read h).1.reaches_single.1 hreach).2
  rcases hcall : (s.withFault i n (.read f)).read with ⟨answer', v⟩
  obtain rfl : answer' = .failed f := by
    rw [read_eq] at hcall
    exact (congrArg Prod.fst hcall).symm.trans (s.streams.read_struck hfree hat)
  have hresult : (s.withFault i n (.read f)).readByte = (.error (.failure f), v) := by
    rw [readByte, hcall]
    simp only [if_neg hfatal.1, if_neg hfatal.2]
  obtain ⟨hmade, htape⟩ := made_of_read hcall
  rw [hresult]
  exact ⟨(made_of_read h).1.trans hmore, rfl, hat, rfl, htape, hmade⟩

/-- the write that the fault names -/
theorem struck_of_write {g : Option Failure} {answer : WriteAnswer} (hfatal : (ChannelFault.write g).Fatal)
    (hfree : s.streams.Spares n .write) (h : s.write cell = (answer, t)) (hreach : s.Reaches t .write n)
    (hmore : t.Made u more) :
    Struck (.write g) i n cell s u ((s.withFault i n (.write g)).pushByte cell) [] (.write cell answer) more := by
  have hat := ((made_of_write h).1.reaches_single.1 hreach).2
  rcases hcall : (s.withFault i n (.write g)).write cell with ⟨answer', v⟩
  obtain ⟨hmade, htape⟩ := made_of_write hcall
  have hstruck : Call.write cell answer' = (ChannelFault.write g).call cell := by
    rw [write_eq] at hcall
    have hanswer : ((s.withFault i n (.write g)).streams.write cell).1 = answer' := congrArg Prod.fst hcall
    rw [← hanswer]
    exact s.streams.write_struck cell g hfree hat
  have hresult : ((s.withFault i n (.write g)).pushByte cell) =
      (.error (.failure (ChannelFault.write g).failure), v) := by
    rw [pushByte, hcall]
    cases g with
    | none =>
      cases hstruck
      rfl
    | some f =>
      cases hstruck
      exact if_neg hfatal
  rw [hresult]
  refine ⟨(made_of_write h).1.trans hmore, ?_, hat, rfl, htape, hstruck ▸ hmade⟩
  rw [← hstruck]
  rfl

/-- the flush that the fault names -/
theorem struck_of_flush {answer : FlushAnswer} (cell : UInt8) (hfree : s.streams.Spares n .flush)
    (h : s.flush = (answer, t)) (hreach : s.Reaches t .flush n) : ∃ v, (s.withFault i n (.flush f)).flush = (.failed f, v) ∧
      Struck (α := Unit) (.flush f) i n cell s t (.error (.failure f), v) [] (.flush answer) [] := by
  have hat := ((made_of_flush h).1.reaches_single.1 hreach).2
  rcases hcall : (s.withFault i n (.flush f)).flush with ⟨answer', v⟩
  obtain rfl : answer' = .failed f := by
    rw [flush_eq] at hcall
    exact (congrArg Prod.fst hcall).symm.trans (s.streams.flush_struck hfree hat)
  obtain ⟨hmade, htape⟩ := made_of_flush hcall
  exact ⟨v, rfl, (made_of_flush h).1, rfl, hat, rfl, htape, hmade⟩

/-- **A read that makes the call.** -/
theorem readByte_struck (cell : UInt8) (s : Store) (hfatal : (ChannelFault.read f).Fatal)
    (hfree : s.streams.Spares n .read) (hreach : s.Reaches s.readByte.2 .read n) :
    ∃ before c more, Struck (.read f) i n cell s s.readByte.2 (s.withFault i n (.read f)).readByte before c more := by
  fun_induction readByte s with
  | case1 s b t h | case2 s t h | case4 s g t h hg hg' | case5 s g t h hg hg' =>
    exact ⟨[], _, [], struck_of_read hfatal hfree h hreach (.refl t)⟩
  | case3 s g t h hg ih =>
    obtain ⟨waits, answer, -, -, -, hmore⟩ := t.readByte_calls
    by_cases hnow : s.Reaches t .read n
    · exact ⟨[], _, _, struck_of_read hfatal hfree h hnow hmore⟩
    · -- the interrupted read is made alike, and made again
      have hlater := ((made_of_read h).1.reaches_iff hmore).1 hreach
      obtain ⟨before, c, more, hstruck⟩ := ih ((made_of_read h).1.spares hfree) (hlater.resolve_left hnow)
      have hagain : (s.withFault i n (.read f)).readByte = (t.withFault i n (.read f)).readByte := by
        rw [readByte, read_withFault (x := .read f) h hnow]
        simp only [hg, if_true]
      rw [hagain]
      exact ⟨_, c, more, hstruck.after (made_of_read h).1 (made_of_read h).2⟩

/-- **A write that makes the call.** -/
theorem pushByte_struck {g : Option Failure} (cell : UInt8) (s : Store) (hfatal : (ChannelFault.write g).Fatal)
    (hfree : s.streams.Spares n .write) (hreach : s.Reaches (s.pushByte cell).2 .write n) :
    ∃ before c more, Struck (.write g) i n cell s (s.pushByte cell).2 ((s.withFault i n (.write g)).pushByte cell)
      before c more := by
  fun_induction pushByte cell s with
  | case1 s t h | case2 s t h | case4 s f t h hf =>
    exact ⟨[], _, [], struck_of_write hfatal hfree h hreach (.refl t)⟩
  | case3 s f t h hf ih =>
    obtain ⟨waits, answer, -, -, -, hmore⟩ := t.pushByte_calls cell
    by_cases hnow : s.Reaches t .write n
    · exact ⟨[], _, _, struck_of_write hfatal hfree h hnow hmore⟩
    · have hlater := ((made_of_write h).1.reaches_iff hmore).1 hreach
      obtain ⟨before, c, more, hstruck⟩ := ih ((made_of_write h).1.spares hfree) (hlater.resolve_left hnow)
      have hagain : (s.withFault i n (.write g)).pushByte cell = (t.withFault i n (.write g)).pushByte cell := by
        rw [pushByte, write_withFault (x := .write g) h hnow]
        simp only [hf, if_true]
      rw [hagain]
      exact ⟨_, c, more, hstruck.after (made_of_write h).1 (made_of_write h).2⟩

/-- the write that the fault names, and no flush -/
theorem struck_of_push (s : Store) (hfatal : x.Fatal) (hfree : s.streams.Spares n x.kind)
    (hreach : s.Reaches (s.pushByte cell).2 x.kind n) (hmore : (s.pushByte cell).2.Made u b) :
    ∃ before c more, Struck x i n cell s u ((s.withFault i n x).writeByte cell) before c more := by
  obtain ⟨waits, answer, -, -, -, hmade⟩ := s.pushByte_calls cell
  obtain ⟨c, hc, hkind⟩ := hmade.kind_of_reaches hreach
  rw [kind_of_mem_writes hc] at hkind
  cases x with
  | read f => cases hkind
  | flush f => cases hkind
  | write g =>
    obtain ⟨before, c, more, hstruck⟩ := s.pushByte_struck (i := i) cell hfatal hfree hreach
    have hfailed : (s.withFault i n (.write g)).writeByte cell = (s.withFault i n (.write g)).pushByte cell :=
      writeByte_of_error hstruck.result
    rw [hfailed]
    exact ⟨before, c, _, hstruck.onward hmore⟩

/-- **Handing over a byte where that makes the call.** By a write, or by the flush after it. -/
theorem writeByte_struck (cell : UInt8) (s : Store) (hfatal : x.Fatal) (hfree : s.streams.Spares n x.kind)
    (hreach : s.Reaches (s.writeByte cell).2 x.kind n) :
    ∃ before c more, Struck x i n cell s (s.writeByte cell).2 ((s.withFault i n x).writeByte cell) before c more := by
  rcases hpush : s.pushByte cell with ⟨e | _, t⟩
  · rw [writeByte_of_error (congrArg Prod.fst hpush)] at hreach ⊢
    exact struck_of_push s hfatal hfree hreach (.refl _)
  · rcases hflush : t.flush with ⟨answer, u⟩
    obtain ⟨waits, answer', -, -, -, hmade⟩ := s.pushByte_calls cell
    have htape := s.pushByte_tape cell
    rw [hpush] at hmade htape
    rw [writeByte_of_ok hpush hflush] at hreach ⊢
    rcases (hmade.reaches_iff (made_of_flush hflush).1).1 hreach with hnow | hlater
    · have hmore : (s.pushByte cell).2.Made u [.flush answer] := by
        rw [hpush]
        exact (made_of_flush hflush).1
      exact struck_of_push s hfatal hfree (by rwa [hpush]) hmore
    · -- the byte has been accepted, and it is the flush that fails
      obtain ⟨hkind, -⟩ := (made_of_flush hflush).1.reaches_single.1 hlater
      cases x with
      | read f => cases hkind
      | write g => cases hkind
      | flush f =>
        have hnot : ¬ s.Reaches t .flush n := fun hnow => Nat.not_lt.2 hlater.1 hnow.2
        have hpushed : (s.withFault i n (.flush f)).pushByte cell = _ := s.pushByte_withFault cell (by rwa [hpush])
        obtain ⟨v, hflushed, hstruck⟩ := struck_of_flush (i := i) (f := f) cell (hmade.spares hfree) hflush hlater
        have hfailed : (s.withFault i n (.flush f)).writeByte cell = (.error (.failure f), v) := by
          rw [writeByte, hpushed, hpush]
          simp only [hflushed]
        rw [hfailed]
        exact ⟨_, _, _, hstruck.after hmade htape⟩

end Store

/-- what has been accepted and delivered in a block that a fault cuts short: the byte that was to be flushed, if it is a
flush that fails, and nothing else -/
theorem Block.before_fault {o : Op} {x : ChannelFault} {cell : UInt8} {before : List Call}
    (h : Block o cell (before ++ [x.call cell])) :
    before.filterMap Call.accepted? = x.written cell ∧ before.filterMap Call.delivered? = [] := by
  generalize hcalls : before ++ [x.call cell] = calls at h
  cases h with
  | read waits answer hwaits hanswer =>
    obtain ⟨rfl, hlast⟩ := List.append_inj' hcalls rfl
    cases x with
    | read f => exact interruptedReads_silent waits
    | write g => cases g <;> cases hlast
    | flush f => cases hlast
  | written waits answer hwaits =>
    rw [List.append_cons (interruptedWrites cell waits)] at hcalls
    obtain ⟨rfl, hlast⟩ := List.append_inj' hcalls rfl
    cases x with
    | read f => cases hlast
    | write g => cases g <;> cases hlast
    | flush f =>
      obtain ⟨haccepted, hdelivered⟩ := interruptedWrites_silent cell waits
      rw [List.filterMap_append, List.filterMap_append, haccepted, hdelivered]
      exact ⟨rfl, rfl⟩
  | lost waits answer hwaits hanswer hlost =>
    obtain ⟨rfl, hlast⟩ := List.append_inj' hcalls rfl
    cases x with
    | read f => cases hlast
    | write g => exact interruptedWrites_silent cell waits
    | flush f => cases hlast

namespace Op

variable {x : ChannelFault} {i n : Nat}

/-- the instruction that makes a call is the one that makes the calls of this kind -/
theorem eq_of_reaches {o : Op} {s : Store} {k : CallKind} (hreach : s.Reaches (o.act s).2 k n) : o = k.op := by
  cases ho : o.usesStreams with
  | false =>
    obtain ⟨-, hmade⟩ := act_silent ho s
    obtain ⟨c, hc, -⟩ := hmade.kind_of_reaches hreach
    exact absurd hc List.not_mem_nil
  | true =>
    obtain ⟨calls, hblock, hmade, -⟩ := act_calls ho s
    obtain ⟨c, hc, rfl⟩ := hmade.kind_of_reaches hreach
    exact (hblock.op_kind c hc).symm

/-- **An instruction that makes the call.** It fails there, and leaves the tape as it is. -/
theorem act_struck {o : Op} {s : Store} (hfatal : x.Fatal) (hfree : s.streams.Spares n x.kind)
    (hreach : s.Reaches (o.act s).2 x.kind n) :
    ∃ before c more, Store.Struck x i n s.current s (o.act s).2 (o.act (s.withFault i n x)) before c more := by
  have ho := eq_of_reaches hreach
  cases x with
  | write g =>
    cases ho
    exact s.writeByte_struck s.current hfatal hfree hreach
  | flush f =>
    cases ho
    exact s.writeByte_struck s.current hfatal hfree hreach
  | read f =>
    obtain rfl : o = .read := ho
    rw [read_act_store] at hreach ⊢
    obtain ⟨before, c, more, hstruck⟩ := s.readByte_struck (i := i) s.current hfatal hfree hreach
    have hfailed : Op.read.act (s.withFault i n (.read f)) =
        (.error (.failure f), (s.withFault i n (.read f)).readByte.2) :=
      read_act_of_failure hstruck.result
    rw [hfailed]
    exact ⟨before, c, more, hstruck.made.withTape _, hstruck.asked, hstruck.count, rfl, hstruck.tape, hstruck.cut⟩

/-- what has been accepted and delivered before the call, by the same instruction -/
theorem struck_before {o : Op} {s t : Store} {before more : List Call} {c : Call}
    (h : Store.Struck x i n s.current s t (o.act (s.withFault i n x)) before c more) :
    before.filterMap Call.accepted? = x.written s.current ∧ before.filterMap Call.delivered? = [] := by
  obtain ⟨calls, hblock, hmade, -⟩ := act_calls (usesStreams_of_error h.result) (s.withFault i n x)
  have hcalls : before ++ [x.call s.current] = calls := List.append_cancel_left (h.cut.trace.symm.trans hmade.trace)
  rw [← hcalls] at hblock
  exact hblock.before_fault

end Op

/-! ## The walk -/

namespace Walk

variable {token : Token} {x : ChannelFault} {i n : Nat} {k : CallKind}

theorem test_withFault (body rest : Code) (frames : List Frame) (s : Store) :
    test token body rest frames (s.withFault i n x) = (test token body rest frames s).withFault i n x := by
  have hcell : (s.withFault i n x).current = s.current := rfl
  have hsignals : (s.withFault i n x).signals = s.signals := rfl
  rw [test, test, hcell, hsignals]
  split
  · rfl
  · cases s.signals.reason? token <;> rfl

theorem perform_withFault {o : Op} {s : Store} (hnot : ¬ s.Reaches (o.act s).2 x.kind n) (rest : Code)
    (frames : List Frame) :
    perform o rest frames (s.withFault i n x) = (perform o rest frames s).withFault i n x := by
  rw [perform, perform, Op.act_withFault hnot]
  rcases o.act s with ⟨_ | _, t⟩ <;> rfl

/-- **A step that does not make the call.** -/
theorem step_withFault {w : Walk} (hnot : ¬ w.store.Reaches (w.step token).store x.kind n) :
    (w.withFault i n x).step token = (w.step token).withFault i n x := by
  have hsignals : ∀ s : Store, (s.withFault i n x).signals = s.signals := fun _ => rfl
  rcases w with ⟨_ | ⟨o, rest⟩ | ⟨body, rest⟩, _ | ⟨f, frames⟩, s⟩ | ⟨r, s⟩
  · rfl
  · exact test_withFault f.body f.rest frames s
  · simp only [withFault, step, hsignals]
    cases hr : s.signals.reason? token with
    | none =>
      simp only [step, hr, perform_store] at hnot
      exact perform_withFault hnot rest []
    | some why => rfl
  · simp only [step, perform_store] at hnot
    exact perform_withFault hnot rest (f :: frames)
  · simp only [withFault, step, hsignals]
    cases s.signals.reason? token with
    | none => exact test_withFault body rest [] s
    | some why => rfl
  · exact test_withFault body rest (f :: frames) s
  · rfl

/-- the calls on the way to a later moment -/
theorem after_reaches_succ (token : Token) (w : Walk) (m : Nat) :
    w.store.Reaches (w.after token (m + 1)).store k n ↔ w.store.Reaches (w.after token m).store k n ∨
      (w.after token m).store.Reaches (w.after token (m + 1)).store k n := by
  obtain ⟨a, ha⟩ := w.after_made token m
  obtain ⟨b, hb⟩ := (w.after token m).step_made token
  exact ha.reaches_iff hb

/-- a call that is made is made in some step, and not before -/
theorem Makes.first {w : Walk} (h : w.Makes token k n) : ∃ m,
    (∀ l ≤ m, ¬ w.store.Reaches (w.after token l).store k n) ∧
      (w.after token m).store.Reaches (w.after token (m + 1)).store k n := by
  have hat := Nat.find_spec h
  have hbefore : ∀ l < Nat.find h, ¬ w.store.Reaches (w.after token l).store k n := fun l hl => Nat.find_min h hl
  cases hm : Nat.find h with
  | zero =>
    rw [hm] at hat
    exact absurd hat.2 (Nat.not_lt.2 hat.1)
  | succ m =>
    rw [hm] at hat hbefore
    refine ⟨m, fun l hl => hbefore l (Nat.lt_succ_of_le hl), ?_⟩
    rw [after_reaches_succ] at hat
    exact hat.resolve_left (hbefore m (Nat.lt_succ_self m))

/-- **Any number of steps that do not make the call.** -/
theorem after_withFault {w : Walk} {m : Nat} (hnot : ¬ w.store.Reaches (w.after token m).store x.kind n) :
    (w.withFault i n x).after token m = (w.after token m).withFault i n x := by
  induction m with
  | zero => rfl
  | succ m ih =>
    rw [after_reaches_succ, not_or] at hnot
    rw [after_step, after_step, ih hnot.1]
    exact step_withFault hnot.2

theorem performs?_withFault (w : Walk) : (w.withFault i n x).performs? token = w.performs? token := by
  rcases w with ⟨_ | _ | _, _ | _, s⟩ | ⟨r, s⟩ <;> rfl

/-- **A step that makes the call.** With the fault, the walk ends there. -/
theorem step_struck {w : Walk} (hfatal : x.Fatal) (hfree : w.store.streams.Spares n x.kind)
    (hreach : w.store.Reaches (w.step token).store x.kind n) :
    w.performs? token = some x.kind.op ∧ ∃ u before c more,
      (w.withFault i n x).step token = .ended (.error (.failure x.failure)) u ∧
      Store.Struck (α := Unit) x i n w.store.current w.store (w.step token).store (.error (.failure x.failure), u)
        before c more ∧
      before.filterMap Call.accepted? = x.written w.store.current ∧ before.filterMap Call.delivered? = [] := by
  rcases w.step_cases token with ⟨o, rest, frames, s, rfl, hperforms, hstep⟩ | ⟨-, hidle⟩
  · rw [hstep, perform_store] at hreach ⊢
    obtain rfl := Op.eq_of_reaches hreach
    obtain ⟨before, c, more, hstruck⟩ := Op.act_struck (s := s) (i := i) hfatal hfree hreach
    have hbefore := Op.struck_before hstruck
    -- the signal does not ask for faults, so the instruction is carried out with the fault as well
    rcases ((going (.op x.kind.op rest) frames s).withFault i n x).step_cases token with
      ⟨o, rest', frames', s', hat, -, hstep'⟩ | ⟨hnone, -⟩
    · cases hat
      rcases hact : x.kind.op.act (s.withFault i n x) with ⟨r, u⟩
      rw [hact] at hstruck
      obtain rfl : r = .error (.failure x.failure) := hstruck.result
      refine ⟨hperforms, u, before, c, more, ?_, hstruck, hbefore⟩
      rw [hstep', perform, hact]
    · rw [performs?_withFault, hperforms] at hnone
      cases hnone
  · rw [hidle.store] at hreach
    exact absurd (Nat.lt_of_le_of_lt hreach.1 hreach.2) (Nat.lt_irrefl _)

/-- **The walk up to the call.** With the fault, it goes on as it does without it up to the step that makes the call,
and ends there. -/
theorem after_struck {w : Walk} (hfatal : x.Fatal) (hfree : w.store.streams.Spares n x.kind)
    (h : w.Makes token x.kind n) : ∃ m u before c more,
      (∀ l ≤ m, (w.withFault i n x).after token l = (w.after token l).withFault i n x) ∧
      (w.withFault i n x).after token (m + 1) = .ended (.error (.failure x.failure)) u ∧
      (w.after token m).performs? token = some x.kind.op ∧
      (w.after token m).store.Reaches (w.after token (m + 1)).store x.kind n ∧
      Store.Struck (α := Unit) x i n (w.after token m).store.current (w.after token m).store
        (w.after token (m + 1)).store (.error (.failure x.failure), u) before c more ∧
      before.filterMap Call.accepted? = x.written (w.after token m).store.current ∧
      before.filterMap Call.delivered? = [] := by
  obtain ⟨m, hbefore, hreach⟩ := h.first
  obtain ⟨calls, hcalls⟩ := w.after_made token m
  have hsame : ∀ l ≤ m, (w.withFault i n x).after token l = (w.after token l).withFault i n x :=
    fun l hl => after_withFault (hbefore l hl)
  obtain ⟨hperforms, u, before, c, more, hend, hstruck, hwritten⟩ :=
    step_struck (i := i) hfatal (hcalls.spares hfree) hreach
  refine ⟨m, u, before, c, more, hsame, ?_, hperforms, hreach, hstruck, hwritten⟩
  rw [after_step, hsame m (Nat.le_refl m)]
  exact hend

end Walk

/-! ## Runs -/

namespace Interpreter

theorem settle_withFault (w : Walk) (i n : Nat) (x : ChannelFault) :
    settle (w.withFault i n x) = (settle w).map (·.withFault i n x) := by
  cases w <;> rfl

/-- **A fatal fault truncates the run and changes nothing else.** Take a run on any tape and streams, under any signals,
and beside it the run on the same streams with one more fault, a fatal one at a call that no other fault names. If the
first run never makes that call, the two are the same. If it makes it, the second run makes the same calls up to that
one and fails there, with the failure of the fault. Its tape is the one that the first run has just before the
instruction that makes the call, its output is what was accepted before the call, the byte that was to be flushed
included, and it has consumed what the first run has consumed just before the instruction. -/
theorem fatal_fault_truncates (code : Code) (tape : Tape) (streams : Streams) (signals : Signals) (token : Token)
    {x : ChannelFault} {n : Nat} (i : Nat) (hfatal : x.Fatal) (hfree : streams.Spares n x.kind) :
    let w := (Walk.start code ⟨tape, streams, signals⟩).after token
    let v := (Walk.start code ⟨tape, streams.withFault i n x, signals⟩).after token
    (¬ (w 0).Makes token x.kind n → (∀ m, v m = (w m).withFault i n x) ∧
      ∀ steps, (new tape (streams.withFault i n x)).run steps code token signals =
        ((new tape streams).run steps code token signals).map (·.withFault i n x)) ∧
    ((w 0).Makes token x.kind n → ∃ m before c f,
      let s := (w m).store
      (∀ l ≤ m, v l = (w l).withFault i n x) ∧
        (w m).performs? token = some x.kind.op ∧ s.Reaches (w (m + 1)).store x.kind n ∧
        streams.trace.toList ++ before ++ [c] <+: (w (m + 1)).store.trace ∧
        c.asked = (x.call s.current).asked ∧ streams.calls x.kind + before.countP (·.kind == x.kind) = n ∧
        (new tape (streams.withFault i n x)).run (m + 1) code token signals = some f ∧
        f.result = .error (.failure x.failure) ∧ f.interpreter.status = .failed ∧
        f.interpreter.tape = s.tape ∧
        f.interpreter.streams.trace.toList = streams.trace.toList ++ before ++ [x.call s.current] ∧
        f.interpreter.streams.out.toList = streams.out.toList ++ before.filterMap Call.accepted? ∧
        f.interpreter.streams.out.toList = s.streams.out.toList ++ x.written s.current ∧
        f.interpreter.streams.consumed = s.streams.consumed) := by
  intro w v
  constructor
  · intro hnever
    have hsame : ∀ m, v m = (w m).withFault i n x := fun m => Walk.after_withFault fun hm => hnever ⟨m, hm⟩
    refine ⟨hsame, fun steps => ?_⟩
    rw [run_new, run_new, ← settle_withFault]
    exact congrArg settle (hsame steps)
  · intro hmakes
    obtain ⟨m, u, before, c, more, hsame, hend, hperforms, hreach, hstruck, haccepted, hdelivered⟩ :=
      Walk.after_struck (w := Walk.start code ⟨tape, streams, signals⟩) (i := i) hfatal hfree hmakes
    obtain ⟨first, hfirst⟩ := (Walk.start code ⟨tape, streams, signals⟩).after_made token m
    -- with the fault, the calls up to the one that it names are made in the same two stretches
    have hmade := hfirst.trans hstruck.made
    have hcut := hfirst.withFault.trans hstruck.cut
    refine ⟨m, first ++ before, c, .ofEnd (.error (.failure x.failure)) u, hsame, hperforms, hreach, ?_, hstruck.asked,
      ?_, ?_, rfl, rfl, hstruck.tape, ?_, ?_, ?_, ?_⟩
    · refine ⟨more, ?_⟩
      calc streams.trace.toList ++ (first ++ before) ++ [c] ++ more
          = streams.trace.toList ++ (first ++ (before ++ c :: more)) := by simp
        _ = (w (m + 1)).store.trace := hmade.trace.symm
    · rw [List.countP_append, ← Nat.add_assoc, ← hstruck.count, hfirst.calls x.kind]
      rfl
    · rw [run_new, settle_eq_some_iff]
      exact ⟨_, u, hend, rfl⟩
    · calc u.trace = streams.trace.toList ++ (first ++ (before ++ [x.call (w m).store.current])) :=
            hcut.trace_of_withFault
        _ = streams.trace.toList ++ (first ++ before) ++ [x.call (w m).store.current] := by simp
    · have hout := hcut.out_of_withFault
      rw [← List.append_assoc, List.filterMap_append, ChannelFault.accepted?_call, List.append_nil] at hout
      exact hout
    · have hout := hstruck.cut.out_of_withFault
      rw [List.filterMap_append, haccepted, ChannelFault.accepted?_call, List.append_nil] at hout
      exact hout
    · have hconsumed := hstruck.cut.consumed_of_withFault
      rw [List.filterMap_append, hdelivered, ChannelFault.delivered?_call] at hconsumed
      exact hconsumed

/-- the second flush of a loop that copies its input fails: its byte has been written by then, and the next one is not
read -/
theorem fatal_fault_truncates_second_flush :
    let code : Code := .op .read (.loop (.op .print (.op .read .nil)) .nil)
    let streams : Streams := { script := [.byte 65, .byte 66, .byte 67] }
    let x : ChannelFault := .flush { kind := .brokenPipe }
    let w := (Walk.start code ⟨.blank, streams, ⟨#[none]⟩⟩).after ⟨0⟩
    x.Fatal ∧ streams.Spares 1 x.kind ∧ (w 0).Makes ⟨0⟩ x.kind 1 ∧
      ∃ m f, (new .blank (streams.withFault 0 1 x)).run (m + 1) code ⟨0⟩ ⟨#[none]⟩ = some f ∧
        (w m).performs? ⟨0⟩ = some .print ∧ f.result = .error (.failure { kind := .brokenPipe }) ∧
        f.interpreter.tape = (w m).store.tape ∧
        f.interpreter.streams.out.toList = (w m).store.streams.out.toList ++ [(w m).store.current] ∧
        f.interpreter.streams.consumed = (w m).store.streams.consumed := by
  intro code streams x w
  have hfree : streams.Spares 1 x.kind := List.forall_mem_nil _
  have hmakes : (w 0).Makes ⟨0⟩ x.kind 1 := ⟨6, by decide +kernel⟩
  obtain ⟨-, htruncated⟩ := fatal_fault_truncates code .blank streams ⟨#[none]⟩ ⟨0⟩ 0 (x := x) trivial hfree
  obtain ⟨m, before, c, f, -, hperforms, -, -, -, -, hrun, hresult, -, htape, -, -, hout, hconsumed⟩ :=
    htruncated hmakes
  exact ⟨trivial, hfree, hmakes, m, f, hrun, hperforms, hresult, htape, hout, hconsumed⟩

end Interpreter

end RingTape
