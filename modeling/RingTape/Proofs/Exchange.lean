/-
What the calls of an instruction do to a store.

A stretch of calls has its effects call by call: what is added to the trace and to the output, what is taken from the
script, how far the channels have counted, which reasons have been given to the signal. `Store.Made` lists these
effects once; a call has them, and stretches one behind the other have them together.

- `Call.delivered?`, `Call.accepted?`, `Call.fatal?`: what a call brings in, takes out, and whether it ends a run
- `Streams.reasons`: the reasons that alarms give in the course of calls
- `Store.Made`: the effects of a stretch of calls; of the reasons given, the first one stays
- `Block`: the calls that one stream instruction makes
- `Op.act_calls`: an instruction makes one block of calls if it is a stream instruction, and no calls if it is not
-/
import RingTape.Proofs.Instructions

namespace RingTape

/-! ## Calls one by one -/

/-- the three kinds of calls, one for each channel -/
inductive CallKind where
  | read
  | write
  | flush
  deriving DecidableEq, Repr

/-- the stream instruction that makes the calls of a kind -/
def CallKind.op : CallKind → Op
  | .read => .read
  | .write => .print
  | .flush => .print

/-- the byte that an answer brings -/
def ReadAnswer.byte? : ReadAnswer → Option UInt8
  | .byte b => some b
  | _ => none

namespace Call

/-- the channel of a call -/
def kind : Call → CallKind
  | .read _ => .read
  | .write .. => .write
  | .flush _ => .flush

/-- what a call asks for, its answer aside: its kind, and the byte to write -/
def asked : Call → CallKind × Option UInt8
  | .read _ => (.read, none)
  | .write b _ => (.write, some b)
  | .flush _ => (.flush, none)

/-- the byte that a call delivers -/
def delivered? : Call → Option UInt8
  | .read answer => answer.byte?
  | _ => none

/-- the byte that the output accepts in a call -/
def accepted? : Call → Option UInt8
  | .write b .accepted => some b
  | _ => none

/-- the failure with which a call ends the run; an interrupted read or write is made again, an input that is exhausted
in either flavour is no failure, and no failure of a flush is forgiven -/
def fatal? : Call → Option Failure
  | .read (.failed f) => if f.kind = .interrupted ∨ f.kind = .unexpectedEof then none else some f
  | .write _ (.failed f) => if f.kind = .interrupted then none else some f
  | .write _ .refused => some .nothingWritten
  | .flush (.failed f) => some f
  | _ => none

end Call

/-- the channel as it is so many calls later -/
def Channel.later {Fault : Type} (c : Channel Fault) (n : Nat) : Channel Fault :=
  { c with calls := c.calls + n }

namespace Channel

variable {Fault : Type}

theorem later_count (c : Channel Fault) (n : Nat) : c.count.later n = c.later (n + 1) := by
  simp only [later, count, Nat.add_assoc, Nat.add_comm 1]

theorem later_later (c : Channel Fault) (m n : Nat) : (c.later m).later n = c.later (m + n) := by
  simp only [later, Nat.add_assoc]

end Channel

namespace Streams

/-- the calls made on a channel -/
def calls (s : Streams) : CallKind → Nat
  | .read => s.reads.calls
  | .write => s.writes.calls
  | .flush => s.flushes.calls

/-- a read counts itself, takes what it answers from the script, and leaves everything else as it is -/
theorem read_effect (s : Streams) : ∃ used rest, s.script = used ++ rest ∧
    used.filterMap ReadAnswer.byte? = s.read.1.byte?.toList ∧
    s.read.2 = { s with script := rest, reads := s.reads.count, consumed := s.consumed + s.read.1.byte?.toList.length,
                        trace := s.trace.push (.read s.read.1) } := by
  rw [read]
  cases s.reads.fault? with
  | some f => exact ⟨[], s.script, rfl, rfl, rfl⟩
  | none =>
    rcases hscript : s.script with _ | ⟨_ | _ | _, rest⟩
    · exact ⟨[], [], rfl, rfl, rfl⟩
    · exact ⟨[_], rest, rfl, rfl, rfl⟩
    · exact ⟨[_], rest, rfl, rfl, rfl⟩
    · exact ⟨[_], rest, rfl, rfl, rfl⟩

/-- a write counts itself and adds its byte to the output if the byte is accepted -/
theorem write_effect (b : UInt8) (s : Streams) :
    (s.write b).2 = { s with writes := s.writes.count,
                             out := s.out ++ ((Call.write b (s.write b).1).accepted?).toArray,
                             trace := s.trace.push (.write b (s.write b).1) } := by
  rw [write]
  rcases s.writes.fault? with _ | _ | f
  · simp [Call.accepted?]
  · simp [Call.accepted?]
  · simp [Call.accepted?]

/-- a flush counts itself -/
theorem flush_effect (s : Streams) :
    s.flush.2 = { s with flushes := s.flushes.count, trace := s.trace.push (.flush s.flush.1) } := by
  rw [flush]
  cases s.flushes.fault? <;> rfl

/-- the reasons for which the next call of a kind raises the signal -/
def reasonsOf (s : Streams) : CallKind → List String
  | .read => s.reads.reasons
  | .write => s.writes.reasons
  | .flush => s.flushes.reasons

/-- the streams with one more call counted -/
def counted (s : Streams) : CallKind → Streams
  | .read => { s with reads := s.reads.count }
  | .write => { s with writes := s.writes.count }
  | .flush => { s with flushes := s.flushes.count }

/-- the reasons for which alarms raise the signal in the course of calls, in order -/
def reasons (s : Streams) : List Call → List String
  | [] => []
  | c :: rest => s.reasonsOf c.kind ++ (s.counted c.kind).reasons rest

/-- reasons are given by the channels and nothing else -/
theorem reasons_congr {s t : Streams} (hr : s.reads = t.reads) (hw : s.writes = t.writes) (hf : s.flushes = t.flushes)
    (calls : List Call) : s.reasons calls = t.reasons calls := by
  induction calls generalizing s t with
  | nil => rfl
  | cons c rest ih =>
    have hnow : s.reasonsOf c.kind = t.reasonsOf c.kind := by
      cases c <;> simp only [reasonsOf, Call.kind, hr, hw, hf]
    rw [reasons, reasons, hnow]
    congr 1
    cases c with
    | read a => exact ih (congrArg Channel.count hr) hw hf
    | write b a => exact ih hr (congrArg Channel.count hw) hf
    | flush a => exact ih hr hw (congrArg Channel.count hf)

/-- the reasons given in two stretches of calls, the second one on channels that have counted the first -/
theorem reasons_append {s t : Streams} {a : List Call} (b : List Call)
    (hr : t.reads = s.reads.later (a.countP (·.kind == .read)))
    (hw : t.writes = s.writes.later (a.countP (·.kind == .write)))
    (hf : t.flushes = s.flushes.later (a.countP (·.kind == .flush))) :
    s.reasons (a ++ b) = s.reasons a ++ t.reasons b := by
  induction a generalizing s with
  | nil => exact reasons_congr hr.symm hw.symm hf.symm b
  | cons c rest ih =>
    have hrest : (s.counted c.kind).reasons (rest ++ b) = (s.counted c.kind).reasons rest ++ t.reasons b := by
      rw [List.countP_cons] at hr hw hf
      cases c with
      | read x => exact ih (hr.trans (Channel.later_count _ _).symm) hw hf
      | write y x => exact ih hr (hw.trans (Channel.later_count _ _).symm) hf
      | flush x => exact ih hr hw (hf.trans (Channel.later_count _ _).symm)
    rw [List.cons_append, reasons, reasons, hrest, List.append_assoc]

end Streams

namespace Signals

theorem size_raise (s : Signals) (t : Token) (why : String) : (s.raise t why).reasons.size = s.reasons.size := by
  rw [raise, Array.size_modify]

/-- of the reasons for which a signal is raised, the first one stays -/
theorem reason?_raiseAll (s : Signals) (t u : Token) (whys : List String) :
    (s.raiseAll t whys).reason? u =
      if u = t ∧ t.index < s.reasons.size then (s.reason? u).or whys.head? else s.reason? u := by
  induction whys generalizing s with
  | nil => simp [raiseAll]
  | cons why rest ih =>
    have hcons : s.raiseAll t (why :: rest) = (s.raise t why).raiseAll t rest := rfl
    rw [hcons, ih, size_raise, reason?_raise]
    split
    · cases s.reason? u <;> rfl
    · rfl

end Signals

namespace Store

/-- what a stretch of calls has done on the way from one store to another -/
structure Made (s t : Store) (calls : List Call) : Prop where
  trace : t.trace = s.trace ++ calls
  out : t.streams.out.toList = s.streams.out.toList ++ calls.filterMap Call.accepted?
  consumed : t.streams.consumed = s.streams.consumed + (calls.filterMap Call.delivered?).length
  script : ∃ used, s.streams.script = used ++ t.streams.script ∧
    used.filterMap ReadAnswer.byte? = calls.filterMap Call.delivered?
  reads : t.streams.reads = s.streams.reads.later (calls.countP (·.kind == .read))
  writes : t.streams.writes = s.streams.writes.later (calls.countP (·.kind == .write))
  flushes : t.streams.flushes = s.streams.flushes.later (calls.countP (·.kind == .flush))
  alarmed : t.streams.alarmed = s.streams.alarmed
  signals : t.signals = (s.alarm (s.streams.reasons calls)).signals

theorem alarm_append (s : Store) (a b : List String) :
    (s.alarm (a ++ b)).signals = ((s.alarm a).alarm b).signals := by
  have hstreams := s.alarm_streams a
  rw [alarm, alarm.eq_def (s.alarm a), hstreams]
  cases h : s.streams.alarmed with
  | none => simp [alarm, h]
  | some t => simp [alarm, h, Signals.raiseAll]

/-- what an alarm does to the signals depends on the signals and on which of them is alarmed -/
theorem alarm_signals_congr {s t : Store} (halarmed : s.streams.alarmed = t.streams.alarmed)
    (hsignals : s.signals = t.signals) (why : List String) : (s.alarm why).signals = (t.alarm why).signals := by
  rw [alarm, alarm, halarmed]
  cases t.streams.alarmed with
  | none => exact hsignals
  | some k => exact congrArg (·.raiseAll k why) hsignals

theorem reason?_alarm (s : Store) (token : Token) (whys : List String) :
    (s.alarm whys).signals.reason? token =
      if s.streams.alarmed = some token ∧ token.index < s.signals.reasons.size then
        (s.signals.reason? token).or whys.head?
      else s.signals.reason? token := by
  rw [alarm]
  cases halarmed : s.streams.alarmed with
  | none => simp
  | some t =>
    rw [Signals.reason?_raiseAll]
    by_cases ht : token = t
    · simp [ht]
    · simp [ht, Ne.symm ht]

namespace Made

theorem refl (s : Store) : s.Made s [] where
  trace := by simp
  out := by simp
  consumed := rfl
  script := ⟨[], rfl, rfl⟩
  reads := rfl
  writes := rfl
  flushes := rfl
  alarmed := rfl
  signals := by simp [Streams.reasons]

theorem trans {s t u : Store} {a b : List Call} (h : s.Made t a) (k : t.Made u b) : s.Made u (a ++ b) where
  trace := by rw [k.trace, h.trace, List.append_assoc]
  out := by rw [k.out, h.out, List.filterMap_append, List.append_assoc]
  consumed := by rw [k.consumed, h.consumed, List.filterMap_append, List.length_append, Nat.add_assoc]
  script := by
    obtain ⟨first, hs, hfirst⟩ := h.script
    obtain ⟨second, ht, hsecond⟩ := k.script
    refine ⟨first ++ second, ?_, ?_⟩
    · rw [hs, ht, List.append_assoc]
    · rw [List.filterMap_append, List.filterMap_append, hfirst, hsecond]
  reads := by rw [k.reads, h.reads, Channel.later_later, List.countP_append]
  writes := by rw [k.writes, h.writes, Channel.later_later, List.countP_append]
  flushes := by rw [k.flushes, h.flushes, Channel.later_later, List.countP_append]
  alarmed := k.alarmed.trans h.alarmed
  signals := by
    have hreasons := Streams.reasons_append b h.reads h.writes h.flushes
    have halarmed := h.alarmed.trans (congrArg Streams.alarmed (s.alarm_streams (s.streams.reasons a)).symm)
    rw [k.signals, hreasons, alarm_append]
    exact alarm_signals_congr halarmed h.signals _

theorem calls {s t : Store} {a : List Call} (h : s.Made t a) (k : CallKind) :
    t.streams.calls k = s.streams.calls k + a.countP (·.kind == k) := by
  cases k with
  | read => rw [Streams.calls, h.reads]; rfl
  | write => rw [Streams.calls, h.writes]; rfl
  | flush => rw [Streams.calls, h.flushes]; rfl

/-- calls take no reason back -/
theorem reason? {s t : Store} {a : List Call} {token : Token} {why : String} (h : s.Made t a)
    (hs : s.signals.reason? token = some why) : t.signals.reason? token = some why := by
  rw [h.signals, reason?_alarm, hs]
  split <;> rfl

/-- a signal that is not raised after calls was not raised before them -/
theorem reason?_before {s t : Store} {a : List Call} {token : Token} (h : s.Made t a)
    (ht : t.signals.reason? token = none) : s.signals.reason? token = none := by
  cases hs : s.signals.reason? token with
  | none => rfl
  | some why =>
    have hlater := h.reason? hs
    rw [ht] at hlater
    cases hlater

/-- **The first reason.** It was given before the calls, or else it is the first one that an alarm gives in the course
of the calls. -/
theorem first_reason {s t : Store} {a : List Call} {token : Token} {why : String} (h : s.Made t a)
    (ht : t.signals.reason? token = some why) :
    (s.signals.reason? token).or
      (if s.streams.alarmed = some token then (s.streams.reasons a).head? else none) = some why := by
  rw [h.signals, reason?_alarm] at ht
  split at ht
  · next hboth => rwa [if_pos hboth.1]
  · rw [ht]
    rfl

end Made

/-! ## Single calls -/

theorem read_made (s : Store) : s.Made s.read.2 [.read s.read.1] := by
  obtain ⟨used, rest, hscript, hused, heffect⟩ := s.streams.read_effect
  have hdelivered : [Call.read s.streams.read.1].filterMap Call.delivered? = s.streams.read.1.byte?.toList := by
    cases s.streams.read.1 <;> rfl
  rw [read_eq, heffect]
  refine ⟨by simp [trace], by simp [Call.accepted?], ?_, ⟨used, hscript, ?_⟩, rfl, rfl, rfl, rfl, ?_⟩
  · rw [hdelivered]
  · rw [hdelivered, hused]
  · rw [Streams.reasons, Streams.reasons, List.append_nil]
    rfl

theorem write_made (b : UInt8) (s : Store) : s.Made (s.write b).2 [.write b (s.write b).1] := by
  have haccepted : [Call.write b (s.streams.write b).1].filterMap Call.accepted? =
      (Call.write b (s.streams.write b).1).accepted?.toList := by
    cases (s.streams.write b).1 <;> rfl
  rw [write_eq, Streams.write_effect]
  refine ⟨by simp [trace], ?_, rfl, ⟨[], rfl, rfl⟩, rfl, rfl, rfl, rfl, ?_⟩
  · simp [haccepted]
  · rw [Streams.reasons, Streams.reasons, List.append_nil]
    rfl

theorem flush_made (s : Store) : s.Made s.flush.2 [.flush s.flush.1] := by
  rw [flush_eq, Streams.flush_effect]
  refine ⟨by simp [trace], by simp [Call.accepted?], rfl, ⟨[], rfl, rfl⟩, rfl, rfl, rfl, rfl, ?_⟩
  rw [Streams.reasons, Streams.reasons, List.append_nil]
  rfl

/-! ## The calls of an instruction -/

end Store

/-- an answer after which the same read is not made again -/
def ReadAnswer.Settled : ReadAnswer → Prop
  | .failed f => f.kind ≠ .interrupted
  | _ => True

/-- an answer after which the same write is not made again -/
def WriteAnswer.Settled : WriteAnswer → Prop
  | .failed f => f.kind ≠ .interrupted
  | _ => True

/-- what the last read of an instruction gives it -/
def ReadAnswer.toResult : ReadAnswer → Except RunError UInt8
  | .byte b => .ok b
  | .ended => .error .endOfInput
  | .failed f => if f.kind = .unexpectedEof then .error .endOfInput else .error (.failure f)

/-- what the last write of an instruction gives it -/
def WriteAnswer.toResult : WriteAnswer → Except RunError Unit
  | .accepted => .ok ()
  | .refused => .error (.failure .nothingWritten)
  | .failed f => .error (.failure f)

/-- reads that were interrupted -/
def interruptedReads (waits : List Failure) : List Call :=
  waits.map fun f => .read (.failed f)

/-- writes of a byte that were interrupted -/
def interruptedWrites (b : UInt8) (waits : List Failure) : List Call :=
  waits.map fun f => .write b (.failed f)

/-- the calls of one stream instruction on a cell with the given value -/
inductive Block : Op → UInt8 → List Call → Prop where
  /-- any number of interrupted reads and one read that is not -/
  | read {cell : UInt8} (waits : List Failure) (answer : ReadAnswer) (hwaits : ∀ f ∈ waits, f.kind = .interrupted)
      (hanswer : answer.Settled) : Block .read cell (interruptedReads waits ++ [.read answer])
  /-- any number of interrupted writes, one that is accepted, and one flush -/
  | written {cell : UInt8} (waits : List Failure) (answer : FlushAnswer)
      (hwaits : ∀ f ∈ waits, f.kind = .interrupted) :
      Block .print cell (interruptedWrites cell waits ++ [.write cell .accepted, .flush answer])
  /-- any number of interrupted writes, one that fails, and no flush -/
  | lost {cell : UInt8} (waits : List Failure) (answer : WriteAnswer) (hwaits : ∀ f ∈ waits, f.kind = .interrupted)
      (hanswer : answer.Settled) (hlost : answer ≠ .accepted) :
      Block .print cell (interruptedWrites cell waits ++ [.write cell answer])

/-- reads that were interrupted bring nothing in and take nothing out -/
theorem interruptedReads_silent (waits : List Failure) : (interruptedReads waits).filterMap Call.accepted? = [] ∧
    (interruptedReads waits).filterMap Call.delivered? = [] := by
  simp [interruptedReads, Call.accepted?, Call.delivered?, ReadAnswer.byte?]

/-- writes that were interrupted bring nothing in and take nothing out -/
theorem interruptedWrites_silent (cell : UInt8) (waits : List Failure) :
    (interruptedWrites cell waits).filterMap Call.accepted? = [] ∧
      (interruptedWrites cell waits).filterMap Call.delivered? = [] := by
  simp [interruptedWrites, Call.accepted?, Call.delivered?]

theorem kind_of_mem_reads {waits : List Failure} {answer : ReadAnswer} {c : Call}
    (h : c ∈ interruptedReads waits ++ [.read answer]) : c.kind = .read := by
  rcases List.mem_append.1 h with h | h
  · obtain ⟨f, -, rfl⟩ := List.mem_map.1 h
    rfl
  · rw [List.mem_singleton.1 h]
    rfl

theorem kind_of_mem_writes {cell : UInt8} {waits : List Failure} {answer : WriteAnswer} {c : Call}
    (h : c ∈ interruptedWrites cell waits ++ [.write cell answer]) : c.kind = .write := by
  rcases List.mem_append.1 h with h | h
  · obtain ⟨f, -, rfl⟩ := List.mem_map.1 h
    rfl
  · rw [List.mem_singleton.1 h]
    rfl

/-- the calls of an instruction are calls of its kinds -/
theorem Block.op_kind {o : Op} {cell : UInt8} {calls : List Call} (h : Block o cell calls) :
    ∀ c ∈ calls, c.kind.op = o := by
  intro c hc
  cases h with
  | read waits answer hwaits hanswer =>
    rw [kind_of_mem_reads hc]
    rfl
  | written waits answer hwaits =>
    rw [List.append_cons] at hc
    rcases List.mem_append.1 hc with hc | hc
    · rw [kind_of_mem_writes hc]
      rfl
    · rw [List.mem_singleton.1 hc]
      rfl
  | lost waits answer hwaits hanswer hlost =>
    rw [kind_of_mem_writes hc]
    rfl

/-- calls of which only the last one may end the run, with the failure it ends the run with -/
inductive Outcome : List Call → Option Failure → Prop where
  | fine {calls : List Call} (h : ∀ c ∈ calls, c.fatal? = none) : Outcome calls none
  | fatal {calls : List Call} {c : Call} {f : Failure} (h : ∀ c ∈ calls, c.fatal? = none) (hc : c.fatal? = some f) :
      Outcome (calls ++ [c]) (some f)

/-- the failure in a result -/
def failureOf : Except RunError Unit → Option Failure
  | .error (.failure f) => some f
  | _ => none

namespace Outcome

/-- calls that end no run, before others -/
theorem after {a b : List Call} {r : Option Failure} (ha : Outcome a none) (hb : Outcome b r) : Outcome (a ++ b) r := by
  cases ha with
  | fine h =>
    cases hb with
    | fine k => exact fine fun c hc => (List.mem_append.1 hc).elim (h c) (k c)
    | fatal k hlast =>
      rw [← List.append_assoc]
      exact fatal (fun c hc => (List.mem_append.1 hc).elim (h c) (k c)) hlast

theorem single (c : Call) : Outcome [c] c.fatal? := by
  cases hc : c.fatal? with
  | none => exact fine fun d hd => by rwa [List.mem_singleton.1 hd]
  | some f =>
    have hnone : ∀ d ∈ ([] : List Call), d.fatal? = none := List.forall_mem_nil _
    exact fatal hnone hc

theorem interruptedReads {waits : List Failure} (h : ∀ f ∈ waits, f.kind = .interrupted) :
    Outcome (interruptedReads waits) none := by
  refine fine fun c hc => ?_
  obtain ⟨f, hf, rfl⟩ := List.mem_map.1 hc
  simp [Call.fatal?, h f hf]

theorem interruptedWrites {b : UInt8} {waits : List Failure} (h : ∀ f ∈ waits, f.kind = .interrupted) :
    Outcome (interruptedWrites b waits) none := by
  refine fine fun c hc => ?_
  obtain ⟨f, hf, rfl⟩ := List.mem_map.1 hc
  simp [Call.fatal?, h f hf]

theorem dropLast {calls : List Call} {r : Option Failure} (h : Outcome calls r) :
    ∀ c ∈ calls.dropLast, c.fatal? = none := by
  cases h with
  | fine h => exact fun c hc => h c ((List.dropLast_sublist calls).subset hc)
  | fatal h hlast => rwa [List.dropLast_concat]

theorem eq_some_iff {calls : List Call} {r : Option Failure} (h : Outcome calls r) (f : Failure) :
    r = some f ↔ ∃ c ∈ calls, c.fatal? = some f := by
  cases h with
  | fine h =>
    constructor
    · intro hf
      cases hf
    · rintro ⟨c, hc, hf⟩
      rw [h c hc] at hf
      cases hf
  | @fatal calls d g h hlast =>
    constructor
    · intro hf
      cases hf
      exact ⟨d, List.mem_append_right _ (List.mem_singleton_self d), hlast⟩
    · rintro ⟨c, hc, hf⟩
      rcases List.mem_append.1 hc with hc | hc
      · rw [h c hc] at hf
        cases hf
      · rw [List.mem_singleton.1 hc, hlast] at hf
        exact hf

end Outcome

theorem failureOf_eq_some_iff (r : Except RunError Unit) (f : Failure) :
    failureOf r = some f ↔ r = .error (.failure f) := by
  rcases r with (_ | g | _ | _) | _ <;> simp [failureOf]

namespace Store

theorem made_of_read {s t : Store} {answer : ReadAnswer} (h : s.read = (answer, t)) :
    s.Made t [.read answer] ∧ t.tape = s.tape := by
  have hmade := s.read_made
  have htape : s.read.2.tape = s.tape := by rw [read_eq]
  rw [h] at hmade htape
  exact ⟨hmade, htape⟩

theorem made_of_write {b : UInt8} {s t : Store} {answer : WriteAnswer} (h : s.write b = (answer, t)) :
    s.Made t [.write b answer] ∧ t.tape = s.tape := by
  have hmade := s.write_made b
  have htape : (s.write b).2.tape = s.tape := by rw [write_eq]
  rw [h] at hmade htape
  exact ⟨hmade, htape⟩

theorem made_of_flush {s t : Store} {answer : FlushAnswer} (h : s.flush = (answer, t)) :
    s.Made t [.flush answer] ∧ t.tape = s.tape := by
  have hmade := s.flush_made
  have htape : s.flush.2.tape = s.tape := by rw [flush_eq]
  rw [h] at hmade htape
  exact ⟨hmade, htape⟩

/-- **The calls of a read.** Interrupted ones, and one that decides. -/
theorem readByte_calls (s : Store) : ∃ waits answer, (∀ f ∈ waits, f.kind = .interrupted) ∧ answer.Settled ∧
    s.readByte.1 = answer.toResult ∧ s.Made s.readByte.2 (interruptedReads waits ++ [.read answer]) := by
  fun_induction readByte s with
  | case1 s b t h => exact ⟨[], .byte b, List.forall_mem_nil _, trivial, rfl, (made_of_read h).1⟩
  | case2 s t h => exact ⟨[], .ended, List.forall_mem_nil _, trivial, rfl, (made_of_read h).1⟩
  | case3 s f t h hf ih =>
    obtain ⟨waits, answer, hwaits, hanswer, hresult, hmore⟩ := ih
    exact ⟨f :: waits, answer, List.forall_mem_cons.2 ⟨hf, hwaits⟩, hanswer, hresult, (made_of_read h).1.trans hmore⟩
  | case4 s f t h hf hf' =>
    exact ⟨[], .failed f, List.forall_mem_nil _, hf, (if_pos hf').symm, (made_of_read h).1⟩
  | case5 s f t h hf hf' =>
    exact ⟨[], .failed f, List.forall_mem_nil _, hf, (if_neg hf').symm, (made_of_read h).1⟩

/-- **The calls that hand over a byte.** Interrupted ones, and one that decides. -/
theorem pushByte_calls (b : UInt8) (s : Store) : ∃ waits answer, (∀ f ∈ waits, f.kind = .interrupted) ∧
    answer.Settled ∧ (s.pushByte b).1 = answer.toResult ∧
    s.Made (s.pushByte b).2 (interruptedWrites b waits ++ [.write b answer]) := by
  fun_induction pushByte b s with
  | case1 s t h => exact ⟨[], .accepted, List.forall_mem_nil _, trivial, rfl, (made_of_write h).1⟩
  | case2 s t h => exact ⟨[], .refused, List.forall_mem_nil _, trivial, rfl, (made_of_write h).1⟩
  | case3 s f t h hf ih =>
    obtain ⟨waits, answer, hwaits, hanswer, hresult, hmore⟩ := ih
    exact ⟨f :: waits, answer, List.forall_mem_cons.2 ⟨hf, hwaits⟩, hanswer, hresult, (made_of_write h).1.trans hmore⟩
  | case4 s f t h hf => exact ⟨[], .failed f, List.forall_mem_nil _, hf, rfl, (made_of_write h).1⟩

theorem pushByte_tape (cell : UInt8) (s : Store) : (s.pushByte cell).2.tape = s.tape := by
  fun_induction pushByte cell s with
  | case1 s t h | case2 s t h | case4 s f t h hf => exact (made_of_write h).2
  | case3 s f t h hf ih => exact ih.trans (made_of_write h).2

theorem writeByte_of_error {s : Store} {cell : UInt8} {e : RunError} (h : (s.pushByte cell).1 = .error e) :
    s.writeByte cell = s.pushByte cell := by
  rcases hpush : s.pushByte cell with ⟨r, t⟩
  rw [hpush] at h
  subst h
  simp only [writeByte, hpush]

theorem writeByte_of_ok {s t u : Store} {cell : UInt8} {answer : FlushAnswer} (h : s.pushByte cell = (.ok (), t))
    (hflush : t.flush = (answer, u)) : (s.writeByte cell).2 = u := by
  simp only [writeByte, h, hflush]
  cases answer <;> rfl

/-- the tape plays no part in the calls -/
theorem Made.withTape {s t : Store} {calls : List Call} (h : s.Made t calls) (tape : Tape) :
    s.Made { t with tape := tape } calls :=
  ⟨h.trace, h.out, h.consumed, h.script, h.reads, h.writes, h.flushes, h.alarmed, h.signals⟩

end Store

namespace Op

/-- the instructions that make calls -/
def usesStreams : Op → Bool
  | .print | .read => true
  | _ => false

/-- an instruction that is no stream instruction makes no calls and cannot fail -/
theorem act_silent {o : Op} (h : o.usesStreams = false) (s : Store) :
    (o.act s).1 = .ok () ∧ s.Made (o.act s).2 [] := by
  cases o with
  | incr => exact ⟨rfl, (Store.Made.refl s).withTape _⟩
  | decr => exact ⟨rfl, (Store.Made.refl s).withTape _⟩
  | next => exact ⟨rfl, (Store.Made.refl s).withTape _⟩
  | prev => exact ⟨rfl, (Store.Made.refl s).withTape _⟩
  | print => cases h
  | read => cases h

theorem usesStreams_of_error {o : Op} {s : Store} {e : RunError} (h : (o.act s).1 = .error e) :
    o.usesStreams = true := by
  cases ho : o.usesStreams with
  | true => rfl
  | false =>
    obtain ⟨hok, -⟩ := act_silent ho s
    rw [hok] at h
    cases h

/-- a read changes the tape, and leaves the rest to the calls -/
theorem read_act_store (s : Store) :
    (Op.read.act s).2 = { s.readByte.2 with tape := (Op.read.act s).2.tape } := by
  simp only [act]
  rcases s.readByte with ⟨e | b, t⟩
  · cases e <;> rfl
  · rfl

theorem read_act_of_failure {s : Store} {f : Failure} (h : s.readByte.1 = .error (.failure f)) :
    Op.read.act s = (.error (.failure f), s.readByte.2) := by
  rcases hread : s.readByte with ⟨r, t⟩
  rw [hread] at h
  subst h
  simp only [act, hread]

theorem read_calls (s : Store) : ∃ calls, Block .read s.current calls ∧ s.Made (Op.read.act s).2 calls ∧
    Outcome calls (failureOf (Op.read.act s).1) := by
  obtain ⟨waits, answer, hwaits, hanswer, hresult, hmade⟩ := s.readByte_calls
  have hblock : Block .read s.current _ := .read waits answer hwaits hanswer
  have hout : Outcome (interruptedReads waits ++ [.read answer]) (Call.read answer).fatal? :=
    (Outcome.interruptedReads hwaits).after (.single _)
  rcases hread : s.readByte with ⟨r, t⟩
  rw [hread] at hresult hmade
  subst hresult
  cases answer with
  | byte b =>
    simp only [act, hread, ReadAnswer.toResult]
    exact ⟨_, hblock, hmade.withTape _, hout⟩
  | ended =>
    simp only [act, hread, ReadAnswer.toResult]
    exact ⟨_, hblock, hmade, hout⟩
  | failed f =>
    -- an input that is exhausted is no failure, and an interrupted read is never the last one
    simp only [ReadAnswer.Settled] at hanswer
    by_cases heof : f.kind = .unexpectedEof
    · simp only [act, hread, ReadAnswer.toResult, if_pos heof]
      simp only [Call.fatal?, heof, or_true, if_true] at hout
      exact ⟨_, hblock, hmade, hout⟩
    · simp only [act, hread, ReadAnswer.toResult, if_neg heof]
      simp only [Call.fatal?, hanswer, heof, or_self, if_false] at hout
      exact ⟨_, hblock, hmade, hout⟩

theorem print_calls (s : Store) : ∃ calls, Block .print s.current calls ∧ s.Made (Op.print.act s).2 calls ∧
    Outcome calls (failureOf (Op.print.act s).1) := by
  obtain ⟨waits, answer, hwaits, hanswer, hresult, hmade⟩ := s.pushByte_calls s.current
  have hout : Outcome (interruptedWrites s.current waits ++ [.write s.current answer])
      (Call.write s.current answer).fatal? :=
    (Outcome.interruptedWrites hwaits).after (.single _)
  rcases hpush : s.pushByte s.current with ⟨r, t⟩
  rw [hpush] at hresult hmade
  subst hresult
  cases answer with
  | accepted =>
    rcases hflush : t.flush with ⟨answer, u⟩
    have hblock : Block .print s.current _ := .written waits answer hwaits
    have hall := hmade.trans (Store.made_of_flush hflush).1
    have hend := hout.after (.single (.flush answer))
    rw [List.append_assoc] at hall hend
    cases answer with
    | done =>
      simp only [act, Store.writeByte, hpush, WriteAnswer.toResult, hflush]
      exact ⟨_, hblock, hall, hend⟩
    | failed f =>
      simp only [act, Store.writeByte, hpush, WriteAnswer.toResult, hflush]
      exact ⟨_, hblock, hall, hend⟩
  | refused =>
    simp only [act, Store.writeByte, hpush, WriteAnswer.toResult]
    exact ⟨_, .lost waits .refused hwaits hanswer (by simp), hmade, hout⟩
  | failed f =>
    simp only [WriteAnswer.Settled] at hanswer
    simp only [act, Store.writeByte, hpush, WriteAnswer.toResult]
    simp only [Call.fatal?, if_neg hanswer] at hout
    exact ⟨_, .lost waits (.failed f) hwaits hanswer (by simp), hmade, hout⟩

/-- **The calls of a stream instruction.** They are one block, and the instruction fails with the failure that the last
of them ends a run with, if it does. -/
theorem act_calls {o : Op} (h : o.usesStreams = true) (s : Store) : ∃ calls, Block o s.current calls ∧
    s.Made (o.act s).2 calls ∧ Outcome calls (failureOf (o.act s).1) := by
  cases o with
  | print => exact print_calls s
  | read => exact read_calls s
  | incr => cases h
  | decr => cases h
  | next => cases h
  | prev => cases h

end Op

end RingTape
