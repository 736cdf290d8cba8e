/-
What the stream calls and the instructions do to a store, and how they fail.

- `Store.read_eq`, `Store.write_eq`, `Store.flush_eq`: a call is a call on the streams, after its alarms
- `Store.readByte_map`, `Store.writeByte_map`: what the calls do alike on two stores, the stream instructions do alike
- `Store.read_trace`, `Store.write_trace`, `Store.flush_trace`: a call adds itself and its answer to the trace
- `Op.act_trace`: an instruction takes no call back
- `Op.act_error`: an instruction only ever fails because a stream failed; the end of the input never gets out of it
-/
import RingTape.Store

namespace RingTape

namespace Streams

theorem read_trace (s : Streams) : s.read.2.trace = s.trace.push (.read s.read.1) := by
  rw [read]
  cases s.reads.fault? with
  | some f => rfl
  | none => rcases s.script with _ | ⟨_ | _ | _, rest⟩ <;> rfl

theorem write_trace (b : UInt8) (s : Streams) :
    (s.write b).2.trace = s.trace.push (.write b (s.write b).1) := by
  rw [write]
  rcases s.writes.fault? with _ | _ | f <;> rfl

theorem flush_trace (s : Streams) : s.flush.2.trace = s.trace.push (.flush s.flush.1) := by
  rw [flush]
  cases s.flushes.fault? <;> rfl

end Streams

namespace Store

/-- the calls made so far -/
def trace (s : Store) : List Call :=
  s.streams.trace.toList

@[simp] theorem alarm_nil (s : Store) : s.alarm [] = s := by
  rw [alarm]
  cases s.streams.alarmed <;> rfl

theorem read_eq (s : Store) :
    s.read = (s.streams.read.1, ⟨s.tape, s.streams.read.2, (s.alarm s.streams.reads.reasons).signals⟩) := by
  simp only [read, alarm_streams, alarm_tape]

theorem write_eq (b : UInt8) (s : Store) :
    s.write b =
      ((s.streams.write b).1, ⟨s.tape, (s.streams.write b).2, (s.alarm s.streams.writes.reasons).signals⟩) := by
  simp only [write, alarm_streams, alarm_tape]

theorem flush_eq (s : Store) :
    s.flush = (s.streams.flush.1, ⟨s.tape, s.streams.flush.2, (s.alarm s.streams.flushes.reasons).signals⟩) := by
  simp only [flush, alarm_streams, alarm_tape]

/-! ## Stores side by side

A change of stores that every call goes along with is one that the stream instructions go along with. -/

theorem readByte_map {φ : Store → Store} (h : ∀ s, (φ s).read = (s.read.1, φ s.read.2)) (s : Store) :
    (φ s).readByte = (s.readByte.1, φ s.readByte.2) := by
  -- along the calls that are interrupted: each is made on both sides
  fun_induction readByte s with
  | case1 s b t hr => rw [readByte, h, hr]
  | case2 s t hr => rw [readByte, h, hr]
  | case3 s f t hr hf ih =>
    rw [readByte, h, hr]
    simp only [hf, if_true]
    exact ih
  | case4 s f t hr hf hf' =>
    rw [readByte, h, hr]
    simp [hf']
  | case5 s f t hr hf hf' =>
    rw [readByte, h, hr]
    simp only [if_neg hf, if_neg hf']

theorem pushByte_map {φ : Store → Store} {b : UInt8} (h : ∀ s, (φ s).write b = ((s.write b).1, φ (s.write b).2))
    (s : Store) : (φ s).pushByte b = ((s.pushByte b).1, φ (s.pushByte b).2) := by
  fun_induction pushByte b s with
  | case1 s t hw => rw [pushByte, h, hw]
  | case2 s t hw => rw [pushByte, h, hw]
  | case3 s f t hw hf ih =>
    rw [pushByte, h, hw]
    simp only [hf, if_true]
    exact ih
  | case4 s f t hw hf =>
    rw [pushByte, h, hw]
    simp only [if_neg hf]

theorem writeByte_map {φ : Store → Store} {b : UInt8} (hw : ∀ s, (φ s).write b = ((s.write b).1, φ (s.write b).2))
    (hf : ∀ s, (φ s).flush = (s.flush.1, φ s.flush.2)) (s : Store) :
    (φ s).writeByte b = ((s.writeByte b).1, φ (s.writeByte b).2) := by
  rw [writeByte, writeByte, pushByte_map hw]
  rcases s.pushByte b with ⟨_ | _, t⟩
  · rfl
  · simp only [hf]
    rcases t.flush with ⟨_ | _, u⟩ <;> rfl

/-! ## The trace -/

theorem read_trace (s : Store) : s.read.2.trace = s.trace ++ [.read s.read.1] := by
  simp [read_eq, trace, Streams.read_trace]

theorem write_trace (b : UInt8) (s : Store) : (s.write b).2.trace = s.trace ++ [.write b (s.write b).1] := by
  simp [write_eq, trace, Streams.write_trace]

theorem flush_trace (s : Store) : s.flush.2.trace = s.trace ++ [.flush s.flush.1] := by
  simp [flush_eq, trace, Streams.flush_trace]

theorem trace_prefix_read (s : Store) : s.trace <+: s.read.2.trace :=
  ⟨_, s.read_trace.symm⟩

theorem trace_prefix_write (b : UInt8) (s : Store) : s.trace <+: (s.write b).2.trace :=
  ⟨_, (s.write_trace b).symm⟩

theorem readByte_trace (s : Store) : s.trace <+: s.readByte.2.trace := by
  fun_induction readByte s with
  | case1 s b t h | case2 s t h | case4 s f t h hf hf' | case5 s f t h hf hf' =>
    have hread := s.trace_prefix_read
    rwa [h] at hread
  | case3 s f t h hf ih =>
    have hread := s.trace_prefix_read
    rw [h] at hread
    exact hread.trans ih

theorem pushByte_trace (b : UInt8) (s : Store) : s.trace <+: (s.pushByte b).2.trace := by
  fun_induction pushByte b s with
  | case1 s t h | case2 s t h | case4 s f t h hf =>
    have hwrite := s.trace_prefix_write b
    rwa [h] at hwrite
  | case3 s f t h hf ih =>
    have hwrite := s.trace_prefix_write b
    rw [h] at hwrite
    exact hwrite.trans ih

theorem writeByte_trace (b : UInt8) (s : Store) : s.trace <+: (s.writeByte b).2.trace := by
  have hpush := s.pushByte_trace b
  rw [writeByte]
  split
  · next e t hp => rwa [hp] at hpush
  · next t hp =>
    rw [hp] at hpush
    have hflush := t.flush_trace
    split
    · next u hf =>
      rw [hf] at hflush
      exact hpush.trans ⟨_, hflush.symm⟩
    · next f u hf =>
      rw [hf] at hflush
      exact hpush.trans ⟨_, hflush.symm⟩

/-! ## Failures -/

theorem readByte_error {s t : Store} {e : RunError} (h : s.readByte = (.error e, t)) :
    e = .endOfInput ∨ ∃ f, e = .failure f := by
  fun_induction readByte s with
  | case1 s b u hr => cases h
  | case2 s u hr =>
    cases h
    exact Or.inl rfl
  | case3 s f u hr hf ih => exact ih h
  | case4 s f u hr hf hf' =>
    cases h
    exact Or.inl rfl
  | case5 s f u hr hf hf' =>
    cases h
    exact Or.inr ⟨f, rfl⟩

theorem pushByte_error {b : UInt8} {s t : Store} {e : RunError} (h : s.pushByte b = (.error e, t)) :
    ∃ f, e = .failure f := by
  fun_induction pushByte b s with
  | case1 s u hw => cases h
  | case2 s u hw =>
    cases h
    exact ⟨_, rfl⟩
  | case3 s f u hw hf ih => exact ih h
  | case4 s f u hw hf =>
    cases h
    exact ⟨f, rfl⟩

theorem writeByte_error {b : UInt8} {s t : Store} {e : RunError} (h : s.writeByte b = (.error e, t)) :
    ∃ f, e = .failure f := by
  rw [writeByte] at h
  split at h
  · next e' u hp =>
    cases h
    exact pushByte_error hp
  · next u hp =>
    split at h
    · cases h
    · next f v hf =>
      cases h
      exact ⟨f, rfl⟩

end Store

/-- **How an instruction fails.** Only through a stream that failed. -/
theorem Op.act_error {o : Op} {s t : Store} {e : RunError} (h : o.act s = (.error e, t)) :
    ∃ f, e = .failure f := by
  cases o with
  | incr => cases h
  | decr => cases h
  | next => cases h
  | prev => cases h
  | print => exact Store.writeByte_error h
  | read =>
    simp only [act] at h
    split at h
    · cases h
    · cases h
    · next e' u hne hr =>
      cases h
      rcases Store.readByte_error hr with rfl | hf
      · exact absurd rfl hne
      · exact hf

/-- **An instruction takes no call back.** -/
theorem Op.act_trace (o : Op) (s : Store) : s.trace <+: (o.act s).2.trace := by
  cases o with
  | incr => exact List.prefix_refl _
  | decr => exact List.prefix_refl _
  | next => exact List.prefix_refl _
  | prev => exact List.prefix_refl _
  | print => exact s.writeByte_trace s.current
  | read =>
    have hread := s.readByte_trace
    simp only [act]
    split
    · next b t hr => rwa [hr] at hread
    · next t hr => rwa [hr] at hread
    · next e t hne hr => rwa [hr] at hread

end RingTape
