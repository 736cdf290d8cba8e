/-
What a program is told of its streams. A read or a write that is interrupted is made again and nothing more is heard of
it; an exhausted input is told in one flavour, and the next read asks again. So two pairs of streams that give the same
answers, interruptions and the flavour of the end aside, are the same to every program.

- `Inquiry`: calls that are made again as long as their answer is kept back; `Inquiry.told`: the answers told
- `Inquiry.SameTold`: the same answers are told from now on; `Inquiry.Settles.same`: the first of them is the same one,
  and the same ones are told after it
- `Streams.Alike`: all three channels tell the same
- `Op.act_alike`, `Walk.step_alike`, `Walk.after_alike`: an instruction, a step, and any number of steps, on streams that
  are alike
- `Walk.after_tells`: the reads of a walk are told the answers of its input in order
- `run_depends_on_told`: runs on streams that are alike, and what each read of a run is told
-/
import RingTape.Proofs.Discipline

namespace RingTape

/-! ## Answers that are told, and answers that are kept back -/

/-- calls of one kind, and what is told of an answer; where nothing is told, the call is made again -/
structure Inquiry (σ α : Type) where
  call : σ → α × σ
  told? : α → Option α

namespace Inquiry

variable {σ α : Type} (q : Inquiry σ α)

/-- the answers of so many calls, one behind the other -/
def answers : Nat → σ → List α
  | 0, _ => []
  | n + 1, s => (q.call s).1 :: answers n (q.call s).2

/-- what is told of the answers of so many calls -/
def told (n : Nat) (s : σ) : List α :=
  (q.answers n s).filterMap q.told?

/-- whatever is told from here on is told from there on, and the other way round -/
structure SameTold (s t : σ) : Prop where
  there : ∀ n, ∃ m, q.told n s <+: q.told m t
  here : ∀ n, ∃ m, q.told n t <+: q.told m s

/-- calls are made until an answer is told -/
inductive Settles : σ → α → σ → Prop where
  | told {s t : σ} {a b : α} (hcall : q.call s = (a, t)) (h : q.told? a = some b) : Settles s b t
  | again {s t u : σ} {a b : α} (hcall : q.call s = (a, t)) (h : q.told? a = none) (hmore : Settles t b u) :
      Settles s b u

/-- on the way from here to there, these answers are told -/
def Tells (s : σ) (l : List α) (t : σ) : Prop :=
  ∀ n, ∃ m, q.told m s = l ++ q.told n t

variable {q}

theorem told_succ_of_none {s t : σ} {a : α} (hcall : q.call s = (a, t)) (h : q.told? a = none) (n : Nat) :
    q.told (n + 1) s = q.told n t := by
  rw [told, answers, hcall, List.filterMap_cons_none h, told]

theorem told_succ_of_some {s t : σ} {a b : α} (hcall : q.call s = (a, t)) (h : q.told? a = some b) (n : Nat) :
    q.told (n + 1) s = b :: q.told n t := by
  rw [told, answers, hcall, List.filterMap_cons_some h, told]

theorem told_succ (n : Nat) (s : σ) : q.told n s <+: q.told (n + 1) s := by
  induction n generalizing s with
  | zero => exact List.nil_prefix
  | succ n ih =>
    rcases hcall : q.call s with ⟨a, t⟩
    cases h : q.told? a with
    | none =>
      rw [told_succ_of_none hcall h, told_succ_of_none hcall h]
      exact ih t
    | some b =>
      rw [told_succ_of_some hcall h, told_succ_of_some hcall h]
      exact List.cons_prefix_cons.2 ⟨rfl, ih t⟩

theorem told_le {m n : Nat} (h : m ≤ n) (s : σ) : q.told m s <+: q.told n s := by
  induction h with
  | refl => exact List.prefix_refl _
  | step _ ih => exact ih.trans (told_succ _ s)

/-- what is told in one place is the same however many calls are looked at -/
theorem told_unique {k m n : Nat} {s : σ} {x y : α} (hx : (q.told m s)[k]? = some x) (hy : (q.told n s)[k]? = some y) :
    x = y := by
  have along : ∀ {m n : Nat} {x y : α}, m ≤ n → (q.told m s)[k]? = some x → (q.told n s)[k]? = some y → x = y := by
    intro m n x y hmn hx hy
    obtain ⟨hk, -⟩ := List.getElem?_eq_some_iff.1 hx
    obtain ⟨more, hmore⟩ := told_le (q := q) hmn s
    rw [← hmore, List.getElem?_append_left hk, hx] at hy
    exact Option.some.inj hy
  rcases Nat.le_total m n with hmn | hnm
  · exact along hmn hx hy
  · exact (along hnm hy hx).symm

/-- calls that are answered alike, and that keep a relation, tell the same -/
theorem told_congr (q q' : Inquiry σ α) (R : σ → σ → Prop) (hview : q.told? = q'.told?)
    (hcall : ∀ s t, R s t → (q.call s).1 = (q'.call t).1 ∧ R (q.call s).2 (q'.call t).2) {s t : σ} (h : R s t) (n : Nat) :
    q.told n s = q'.told n t := by
  have hanswers : q.answers n s = q'.answers n t := by
    induction n generalizing s t with
    | zero => rfl
    | succ n ih =>
      obtain ⟨hanswer, hnext⟩ := hcall s t h
      rw [answers, answers, hanswer, ih hnext]
  rw [told, told, hanswers, hview]

namespace SameTold

variable {s t u : σ}

theorem of_eq (h : ∀ n, q.told n s = q.told n t) : q.SameTold s t where
  there n := ⟨n, h n ▸ List.prefix_refl _⟩
  here n := ⟨n, h n ▸ List.prefix_refl _⟩

theorem symm (h : q.SameTold s t) : q.SameTold t s :=
  ⟨h.here, h.there⟩

theorem trans (h : q.SameTold s t) (k : q.SameTold t u) : q.SameTold s u where
  there n := by
    obtain ⟨m, hm⟩ := h.there n
    obtain ⟨l, hl⟩ := k.there m
    exact ⟨l, hm.trans hl⟩
  here n := by
    obtain ⟨m, hm⟩ := k.here n
    obtain ⟨l, hl⟩ := h.here m
    exact ⟨l, hm.trans hl⟩

/-- what is told may also be told by others -/
theorem transport {q' : Inquiry σ α} {s' t' : σ} (h : q.SameTold s t) (hs : ∀ n, q.told n s = q'.told n s')
    (ht : ∀ n, q.told n t = q'.told n t') : q'.SameTold s' t' where
  there n := by
    obtain ⟨m, hm⟩ := h.there n
    exact ⟨m, by rwa [hs, ht] at hm⟩
  here n := by
    obtain ⟨m, hm⟩ := h.here n
    exact ⟨m, by rwa [hs, ht] at hm⟩

/-- nothing is lost with a call whose answer is kept back -/
theorem of_kept {a : α} (hcall : q.call s = (a, t)) (h : q.told? a = none) : q.SameTold s t where
  there n := by
    refine ⟨n, ?_⟩
    rw [← told_succ_of_none hcall h]
    exact told_succ n s
  here n := ⟨n + 1, told_succ_of_none hcall h n ▸ List.prefix_refl _⟩

/-- where the next calls both tell something, it is the same, and the same is told after it -/
theorem of_told {s' t' : σ} {a b x y : α} (h : q.SameTold s t) (hs : q.call s = (a, s')) (hx : q.told? a = some x)
    (ht : q.call t = (b, t')) (hy : q.told? b = some y) : x = y ∧ q.SameTold s' t' := by
  -- one call more on either side, whose answer is the first one of both lists
  have along : ∀ {s s' t t' : σ} {a b x y : α}, q.call s = (a, s') → q.told? a = some x → q.call t = (b, t') →
      q.told? b = some y → (∀ n, ∃ m, q.told n s <+: q.told m t) → x = y ∧ ∀ n, ∃ m, q.told n s' <+: q.told m t' := by
    intro s s' t t' a b x y hs hx ht hy h
    have hcons : ∀ n, ∃ m, x :: q.told n s' <+: y :: q.told m t' := by
      intro n
      obtain ⟨m, hm⟩ := h (n + 1)
      refine ⟨m, ?_⟩
      rw [← told_succ_of_some hs hx, ← told_succ_of_some ht hy]
      exact hm.trans (told_succ m t)
    refine ⟨?_, fun n => ?_⟩
    · obtain ⟨m, hm⟩ := hcons 0
      exact (List.cons_prefix_cons.1 hm).1
    · obtain ⟨m, hm⟩ := hcons n
      exact ⟨m, (List.cons_prefix_cons.1 hm).2⟩
  obtain ⟨hxy, hthere⟩ := along hs hx ht hy h.there
  obtain ⟨-, hhere⟩ := along ht hy hs hx h.here
  exact ⟨hxy, hthere, hhere⟩

end SameTold

/-- **The first answer told.** Where the same is told, calls settle on the same answer, and the same is told after it. -/
theorem Settles.same {s s' t t' : σ} {x y : α} (hs : q.Settles s x s') (ht : q.Settles t y t') (h : q.SameTold s t) :
    x = y ∧ q.SameTold s' t' := by
  induction hs with
  | again hcall hnone hmore ih => exact ih ((SameTold.of_kept hcall hnone).symm.trans h)
  | told hcall hsome =>
    induction ht with
    | again hcall' hnone hmore ih => exact ih (h.trans (.of_kept hcall' hnone))
    | told hcall' hsome' => exact h.of_told hcall hsome hcall' hsome'

/-- what calls change until they settle, where a call changes nothing unless its answer is told -/
theorem Settles.changes {γ : Type} (g : σ → γ) (f : α → γ → γ)
    (hcall : ∀ s, g (q.call s).2 = (q.told? (q.call s).1).elim (g s) (f · (g s))) {s t : σ} {x : α}
    (h : q.Settles s x t) : g t = f x (g s) := by
  induction h with
  | @told s t a x hs hsome =>
    have hnext := hcall s
    rw [hs, hsome] at hnext
    exact hnext
  | @again s t u a x hs hnone hmore ih =>
    have hnext := hcall s
    rw [hs, hnone] at hnext
    rw [ih, hnext]
    rfl

/-- what no call changes is kept until they settle -/
theorem Settles.keeps {γ : Type} (g : σ → γ) (hcall : ∀ s, g (q.call s).2 = g s) {s t : σ} {x : α}
    (h : q.Settles s x t) : g t = g s := by
  apply h.changes g fun _ old => old
  intro s
  rw [hcall]
  cases q.told? (q.call s).1 <;> rfl

theorem Settles.tells {s t : σ} {x : α} (h : q.Settles s x t) : q.Tells s [x] t := by
  intro n
  induction h with
  | told hcall hsome => exact ⟨n + 1, told_succ_of_some hcall hsome n⟩
  | again hcall hnone hmore ih =>
    obtain ⟨m, hm⟩ := ih
    exact ⟨m + 1, by rw [told_succ_of_none hcall hnone, hm]⟩

theorem Settles.exists_told {s t : σ} {x : α} (h : q.Settles s x t) : ∃ a, q.told? a = some x := by
  induction h with
  | told hcall hsome => exact ⟨_, hsome⟩
  | again hcall hnone hmore ih => exact ih

theorem Tells.of_eq {s t : σ} (h : ∀ n, q.told n s = q.told n t) : q.Tells s [] t :=
  fun n => ⟨n, h n⟩

theorem Tells.trans {s t u : σ} {k l : List α} (h : q.Tells s k t) (h' : q.Tells t l u) : q.Tells s (k ++ l) u := by
  intro n
  obtain ⟨m, hm⟩ := h' n
  obtain ⟨i, hi⟩ := h m
  exact ⟨i, by rw [hi, hm, List.append_assoc]⟩

end Inquiry

/-! ## The three channels -/

/-- what is told of the answer to a read: nothing of one that was interrupted, and an exhausted input in one flavour -/
def ReadAnswer.told? : ReadAnswer → Option ReadAnswer
  | .failed f =>
    if f.kind = .interrupted then none else if f.kind = .unexpectedEof then some .ended else some (.failed f)
  | answer => some answer

theorem ReadAnswer.told?_ne_eof {a : ReadAnswer} {f : Failure} (h : a.told? = some (.failed f)) :
    f.kind ≠ .unexpectedEof := by
  rcases a with b | _ | g
  · cases h
  · cases h
  · simp only [told?] at h
    split at h
    · cases h
    · split at h
      · cases h
      · next hg =>
        cases h
        exact hg

/-- what is told of the answer to a write: nothing of one that was interrupted -/
def WriteAnswer.told? : WriteAnswer → Option WriteAnswer
  | .failed f => if f.kind = .interrupted then none else some (.failed f)
  | answer => some answer

namespace Streams

/-- reads -/
def reading : Inquiry Streams ReadAnswer :=
  ⟨read, ReadAnswer.told?⟩

/-- writes of a byte -/
def writing (b : UInt8) : Inquiry Streams WriteAnswer :=
  ⟨write b, WriteAnswer.told?⟩

/-- flushes, whose answers are all told, the interrupted ones too -/
def flushing : Inquiry Streams FlushAnswer :=
  ⟨flush, some⟩

/-- as much has come in and gone out so far, and from now on the channels tell the same -/
structure Alike (s t : Streams) : Prop where
  reads : reading.SameTold s t
  writes : ∀ b, (writing b).SameTold s t
  flushes : flushing.SameTold s t
  out : s.out = t.out
  consumed : s.consumed = t.consumed

/-! ## What a channel tells depends on it alone -/

theorem told_reading_congr {s t : Streams} (hscript : s.script = t.script) (hreads : s.reads = t.reads) (n : Nat) :
    reading.told n s = reading.told n t := by
  refine Inquiry.told_congr reading reading (fun s t => s.script = t.script ∧ s.reads = t.reads) rfl ?_
    ⟨hscript, hreads⟩ n
  rintro s t ⟨hscript, hreads⟩
  simp only [reading, read, hscript, hreads]
  cases t.reads.fault? with
  | some f => exact ⟨rfl, rfl, rfl⟩
  | none => rcases t.script with _ | ⟨_ | _ | _, rest⟩ <;> exact ⟨rfl, rfl, rfl⟩

/-- a write is answered without regard to the byte -/
theorem told_writing_congr {s t : Streams} (b c : UInt8) (h : s.writes = t.writes) (n : Nat) :
    (writing b).told n s = (writing c).told n t := by
  refine Inquiry.told_congr (writing b) (writing c) (fun s t => s.writes = t.writes) rfl ?_ h n
  intro s t h
  simp only [writing, write, h]
  rcases t.writes.fault? with _ | _ | f <;> exact ⟨rfl, rfl⟩

theorem told_flushing_congr {s t : Streams} (h : s.flushes = t.flushes) (n : Nat) :
    flushing.told n s = flushing.told n t := by
  refine Inquiry.told_congr flushing flushing (fun s t => s.flushes = t.flushes) rfl ?_ h n
  intro s t h
  simp only [flushing, flush, h]
  cases t.flushes.fault? <;> exact ⟨rfl, rfl⟩

/-! ## What is done until an answer is told -/

/-- reads leave the other channels and the output alone, and count the byte told -/
theorem settled_reading {s t : Streams} {x : ReadAnswer} (h : reading.Settles s x t) :
    t.writes = s.writes ∧ t.flushes = s.flushes ∧ t.out = s.out ∧
      t.consumed = s.consumed + x.byte?.toList.length := by
  have hcall : ∀ s : Streams, s.read.2.writes = s.writes ∧ s.read.2.flushes = s.flushes ∧ s.read.2.out = s.out := by
    intro s
    obtain ⟨-, rest, -, -, heffect⟩ := s.read_effect
    rw [heffect]
    exact ⟨rfl, rfl, rfl⟩
  have hcount : ∀ s : Streams, s.read.2.consumed =
      (ReadAnswer.told? s.read.1).elim s.consumed fun x => s.consumed + x.byte?.toList.length := by
    intro s
    obtain ⟨-, rest, -, -, heffect⟩ := s.read_effect
    rw [heffect]
    rcases s.read.1 with b | _ | f
    · rfl
    · rfl
    · -- a failure brings no byte, in whatever way it is told
      simp only [ReadAnswer.told?]
      split
      · rfl
      · split <;> rfl
  exact ⟨h.keeps Streams.writes fun s => (hcall s).1, h.keeps Streams.flushes fun s => (hcall s).2.1,
    h.keeps Streams.out fun s => (hcall s).2.2,
    h.changes Streams.consumed (fun x n => n + x.byte?.toList.length) hcount⟩

/-- writes leave the other channels and the input alone, and add the byte to the output if it was accepted -/
theorem settled_writing {s t : Streams} {b : UInt8} {x : WriteAnswer} (h : (writing b).Settles s x t) :
    t.script = s.script ∧ t.reads = s.reads ∧ t.flushes = s.flushes ∧ t.consumed = s.consumed ∧
      t.out = s.out ++ ((Call.write b x).accepted?).toArray := by
  have hcall : ∀ s : Streams, (s.write b).2.script = s.script ∧ (s.write b).2.reads = s.reads ∧
      (s.write b).2.flushes = s.flushes ∧ (s.write b).2.consumed = s.consumed := by
    intro s
    rw [s.write_effect b]
    exact ⟨rfl, rfl, rfl, rfl⟩
  have hout : ∀ s : Streams, (s.write b).2.out =
      (WriteAnswer.told? (s.write b).1).elim s.out fun x => s.out ++ ((Call.write b x).accepted?).toArray := by
    intro s
    rw [s.write_effect b]
    rcases (s.write b).1 with _ | _ | f
    · rfl
    · rfl
    · simp only [WriteAnswer.told?]
      split
      · exact Array.append_empty
      · rfl
  exact ⟨h.keeps Streams.script fun s => (hcall s).1, h.keeps Streams.reads fun s => (hcall s).2.1,
    h.keeps Streams.flushes fun s => (hcall s).2.2.1, h.keeps Streams.consumed fun s => (hcall s).2.2.2,
    h.changes Streams.out (fun x out => out ++ ((Call.write b x).accepted?).toArray) hout⟩

namespace Alike

variable {s s' t t' : Streams}

theorem settled_read {x y : ReadAnswer} (h : s.Alike t) (hs : reading.Settles s x s') (ht : reading.Settles t y t') :
    x = y ∧ s'.Alike t' := by
  obtain ⟨rfl, hreads⟩ := hs.same ht h.reads
  obtain ⟨hwrites, hflushes, hout, hconsumed⟩ := settled_reading hs
  obtain ⟨hwrites', hflushes', hout', hconsumed'⟩ := settled_reading ht
  refine ⟨rfl, hreads, fun b => ?_, ?_, ?_, ?_⟩
  · exact (h.writes b).transport (told_writing_congr b b hwrites.symm) (told_writing_congr b b hwrites'.symm)
  · exact h.flushes.transport (told_flushing_congr hflushes.symm) (told_flushing_congr hflushes'.symm)
  · rw [hout, hout', h.out]
  · rw [hconsumed, hconsumed', h.consumed]

theorem settled_write {b : UInt8} {x y : WriteAnswer} (h : s.Alike t) (hs : (writing b).Settles s x s')
    (ht : (writing b).Settles t y t') : x = y ∧ s'.Alike t' := by
  obtain ⟨rfl, hwrites⟩ := hs.same ht (h.writes b)
  obtain ⟨hscript, hreads, hflushes, hconsumed, hout⟩ := settled_writing hs
  obtain ⟨hscript', hreads', hflushes', hconsumed', hout'⟩ := settled_writing ht
  refine ⟨rfl, ?_, fun c => ?_, ?_, ?_, ?_⟩
  · exact h.reads.transport (told_reading_congr hscript.symm hreads.symm) (told_reading_congr hscript'.symm hreads'.symm)
  · exact hwrites.transport (told_writing_congr b c rfl) (told_writing_congr b c rfl)
  · exact h.flushes.transport (told_flushing_congr hflushes.symm) (told_flushing_congr hflushes'.symm)
  · rw [hout, hout', h.out]
  · rw [hconsumed, hconsumed', h.consumed]

/-- whatever a flush is answered is told -/
theorem flushed (h : s.Alike t) : s.flush.1 = t.flush.1 ∧ s.flush.2.Alike t.flush.2 := by
  obtain ⟨hanswer, hflushes⟩ := h.flushes.of_told rfl rfl rfl rfl
  have hs := s.flush_effect
  have ht := t.flush_effect
  refine ⟨hanswer, ?_, fun b => ?_, hflushes, ?_, ?_⟩
  · exact h.reads.transport (told_reading_congr (by rw [hs]) (by rw [hs])) (told_reading_congr (by rw [ht]) (by rw [ht]))
  · exact (h.writes b).transport (told_writing_congr b b (by rw [hs])) (told_writing_congr b b (by rw [ht]))
  · rw [hs, ht]
    exact h.out
  · rw [hs, ht]
    exact h.consumed

end Alike

end Streams

/-! ## Stores -/

namespace Store

/-- **A read settles** on the first answer that is told, and that is what comes of it. -/
theorem readByte_settles (s : Store) : ∃ x, Streams.reading.Settles s.streams x s.readByte.2.streams ∧
    s.readByte.1 = x.toResult ∧ s.readByte.2.tape = s.tape := by
  fun_induction readByte s with
  | case1 s b t h => exact ⟨.byte b, .told (read_streams h) rfl, rfl, (made_of_read h).2⟩
  | case2 s t h => exact ⟨.ended, .told (read_streams h) rfl, rfl, (made_of_read h).2⟩
  | case3 s f t h hf ih =>
    obtain ⟨x, hsettles, hresult, htape⟩ := ih
    exact ⟨x, .again (read_streams h) (if_pos hf) hsettles, hresult, htape.trans (made_of_read h).2⟩
  | case4 s f t h hf hf' =>
    have htold : ReadAnswer.told? (.failed f) = some .ended := by rw [ReadAnswer.told?, if_neg hf, if_pos hf']
    exact ⟨.ended, .told (read_streams h) htold, rfl, (made_of_read h).2⟩
  | case5 s f t h hf hf' =>
    have htold : ReadAnswer.told? (.failed f) = some (.failed f) := by rw [ReadAnswer.told?, if_neg hf, if_neg hf']
    exact ⟨.failed f, .told (read_streams h) htold, (if_neg hf').symm, (made_of_read h).2⟩

/-- **Handing over a byte settles** on the first answer that is told, and that is what comes of it. -/
theorem pushByte_settles (b : UInt8) (s : Store) : ∃ x,
    (Streams.writing b).Settles s.streams x (s.pushByte b).2.streams ∧ (s.pushByte b).1 = x.toResult := by
  fun_induction pushByte b s with
  | case1 s t h => exact ⟨.accepted, .told (write_streams h) rfl, rfl⟩
  | case2 s t h => exact ⟨.refused, .told (write_streams h) rfl, rfl⟩
  | case3 s f t h hf ih =>
    obtain ⟨x, hsettles, hresult⟩ := ih
    exact ⟨x, .again (write_streams h) (if_pos hf) hsettles, hresult⟩
  | case4 s f t h hf => exact ⟨.failed f, .told (write_streams h) (if_neg hf), rfl⟩

/-- the same tape, on streams that are alike -/
structure Alike (s t : Store) : Prop where
  tape : s.tape = t.tape
  streams : s.streams.Alike t.streams

/-- the same result, in stores that are alike -/
inductive SameResult {ρ : Type} : ρ × Store → ρ × Store → Prop where
  | intro (r : ρ) {s t : Store} (h : s.Alike t) : SameResult (r, s) (r, t)

namespace Alike

variable {s t : Store}

theorem current (h : s.Alike t) : s.current = t.current :=
  congrArg Tape.current h.tape

theorem withTape (h : s.Alike t) {f g : Tape} (htape : f = g) : Alike { s with tape := f } { t with tape := g } :=
  ⟨htape, h.streams⟩

theorem sameResult {ρ : Type} {p q : ρ × Store} (hresult : p.1 = q.1) (h : p.2.Alike q.2) : SameResult p q := by
  obtain ⟨r, u⟩ := p
  obtain ⟨r', v⟩ := q
  cases hresult
  exact .intro r h

theorem readByte (h : s.Alike t) : SameResult s.readByte t.readByte := by
  obtain ⟨x, hs, hresult, htape⟩ := s.readByte_settles
  obtain ⟨y, ht, hresult', htape'⟩ := t.readByte_settles
  obtain ⟨rfl, hstreams⟩ := h.streams.settled_read hs ht
  apply sameResult
  · rw [hresult, hresult']
  · exact ⟨by rw [htape, htape', h.tape], hstreams⟩

theorem pushByte (h : s.Alike t) (b : UInt8) : SameResult (s.pushByte b) (t.pushByte b) := by
  obtain ⟨x, hs, hresult⟩ := s.pushByte_settles b
  obtain ⟨y, ht, hresult'⟩ := t.pushByte_settles b
  obtain ⟨rfl, hstreams⟩ := h.streams.settled_write hs ht
  apply sameResult
  · rw [hresult, hresult']
  · exact ⟨by rw [pushByte_tape, pushByte_tape, h.tape], hstreams⟩

theorem flush (h : s.Alike t) : SameResult s.flush t.flush := by
  obtain ⟨hanswer, hstreams⟩ := h.streams.flushed
  rw [flush_eq, flush_eq, hanswer]
  exact .intro _ ⟨h.tape, hstreams⟩

theorem writeByte (h : s.Alike t) (b : UInt8) : SameResult (s.writeByte b) (t.writeByte b) := by
  have hpush := h.pushByte b
  unfold Store.writeByte
  generalize s.pushByte b = p, t.pushByte b = q at hpush ⊢
  cases hpush with
  | @intro r u v hpushed =>
    cases r with
    | error e => exact .intro _ hpushed
    | ok =>
      have hflush := hpushed.flush
      simp only
      generalize u.flush = p, v.flush = q at hflush ⊢
      cases hflush with
      | intro a hflushed => cases a <;> exact .intro _ hflushed

end Alike

end Store

/-- **An instruction on streams that are alike** has the same result, and leaves them alike. -/
theorem Op.act_alike (o : Op) {s t : Store} (h : s.Alike t) : Store.SameResult (o.act s) (o.act t) := by
  cases o with
  | incr => exact .intro _ (h.withTape (by rw [h.tape]))
  | decr => exact .intro _ (h.withTape (by rw [h.tape]))
  | next => exact .intro _ (h.withTape (by rw [h.tape]))
  | prev => exact .intro _ (h.withTape (by rw [h.tape]))
  | print =>
    simp only [act, h.current]
    exact h.writeByte t.current
  | read =>
    have hread := h.readByte
    unfold act
    generalize s.readByte = p, t.readByte = q at hread ⊢
    cases hread with
    | intro r hread =>
      rcases r with e | b
      · cases e <;> exact .intro _ hread
      · exact .intro _ (hread.withTape (by rw [hread.tape]))

/-! ## Walks -/

namespace Walk

/-- walks at the same place, or with the same result, on stores that are alike -/
inductive Alike : Walk → Walk → Prop where
  | going (code : Code) (frames : List Frame) {s t : Store} (h : s.Alike t) :
      Alike (.going code frames s) (.going code frames t)
  | ended (r : Except RunError Unit) {s t : Store} (h : s.Alike t) : Alike (.ended r s) (.ended r t)

theorem Alike.store {w v : Walk} (h : w.Alike v) : w.store.Alike v.store := by
  cases h with
  | going code frames h => exact h
  | ended r h => exact h

/-- walks that are alike are over at the same time -/
theorem Alike.ended_iff {w v : Walk} (h : w.Alike v) (r : Except RunError Unit) :
    (∃ s, w = .ended r s) ↔ ∃ t, v = .ended r t := by
  cases h with
  | going code frames h => simp
  | ended q h => simp

variable {token : Token}

theorem test_alike {s t : Store} (h : s.Alike t) (hs : s.signals.reason? token = none)
    (ht : t.signals.reason? token = none) (body rest : Code) (frames : List Frame) :
    Alike (test token body rest frames s) (test token body rest frames t) := by
  unfold test
  rw [h.current, hs, ht]
  split
  · exact .going rest frames h
  · exact .going body _ h

theorem perform_alike {s t : Store} (h : s.Alike t) (o : Op) (rest : Code) (frames : List Frame) :
    Alike (perform o rest frames s) (perform o rest frames t) := by
  have hact := o.act_alike h
  unfold perform
  generalize o.act s = p, o.act t = q at hact ⊢
  cases hact with
  | intro r h =>
    cases r with
    | error e => exact .ended _ h
    | ok => exact .going rest frames h

/-- **One step.** -/
theorem step_alike {w v : Walk} (h : w.Alike v) (hw : w.store.signals.reason? token = none)
    (hv : v.store.signals.reason? token = none) : (w.step token).Alike (v.step token) := by
  cases h with
  | ended r h => exact .ended r h
  | going code frames h =>
    simp only [store] at hw hv
    cases frames with
    | nil =>
      cases code with
      | nil => exact .ended _ h
      | op o rest =>
        simp only [step, hw, hv]
        exact perform_alike h o rest []
      | loop body rest =>
        simp only [step, hw, hv]
        exact test_alike h hw hv body rest []
    | cons f frames =>
      cases code with
      | nil => exact test_alike h hw hv f.body f.rest frames
      | op o rest => exact perform_alike h o rest (f :: frames)
      | loop body rest => exact test_alike h hw hv body rest (f :: frames)

/-- **Any number of steps.** -/
theorem after_alike {w v : Walk} (h : w.Alike v) (hw : w.Unsignalled token) (hv : v.Unsignalled token) (n : Nat) :
    (w.after token n).Alike (v.after token n) := by
  induction n with
  | zero => exact h
  | succ n ih => exact step_alike ih (hw n) (hv n)

/-! ## What the reads of a walk are told -/

/-- how many reads are carried out in so many steps -/
def readsIn (token : Token) (w : Walk) (n : Nat) : Nat :=
  (w.exchanges token n).countP (·.1 == .read)

end Walk

/-- writing a byte leaves the input alone -/
theorem Store.writeByte_input (b : UInt8) (s : Store) :
    (s.writeByte b).2.streams.script = s.streams.script ∧ (s.writeByte b).2.streams.reads = s.streams.reads := by
  obtain ⟨x, hsettles, -⟩ := s.pushByte_settles b
  obtain ⟨hscript, hreads, -⟩ := Streams.settled_writing hsettles
  rcases hpush : s.pushByte b with ⟨e | _, t⟩
  · rw [writeByte_of_error (by rw [hpush])]
    exact ⟨hscript, hreads⟩
  · rw [hpush] at hscript hreads
    have hwrite : (s.writeByte b).2 = t.flush.2 := writeByte_of_ok hpush rfl
    rw [hwrite, flush_eq, Streams.flush_effect]
    exact ⟨hscript, hreads⟩

/-- an instruction is told the next answer of the input if it is a read, and none if it is not -/
theorem Op.act_tells (o : Op) (s : Store) :
    ∃ l, l.length = (if o = .read then 1 else 0) ∧ Streams.reading.Tells s.streams l (o.act s).2.streams := by
  cases o with
  | incr => exact ⟨[], rfl, .of_eq fun _ => rfl⟩
  | decr => exact ⟨[], rfl, .of_eq fun _ => rfl⟩
  | next => exact ⟨[], rfl, .of_eq fun _ => rfl⟩
  | prev => exact ⟨[], rfl, .of_eq fun _ => rfl⟩
  | print =>
    obtain ⟨hscript, hreads⟩ := s.writeByte_input s.current
    exact ⟨[], rfl, .of_eq (Streams.told_reading_congr hscript.symm hreads.symm)⟩
  | read =>
    obtain ⟨x, hsettles, -⟩ := s.readByte_settles
    rw [read_act_store]
    exact ⟨[x], rfl, hsettles.tells⟩

namespace Walk

variable {token : Token}

theorem step_tells (token : Token) (w : Walk) : ∃ l, l.length = (w.exchange? token).toList.countP (·.1 == .read) ∧
    Streams.reading.Tells w.store.streams l (w.step token).store.streams := by
  rcases w.step_cases token with ⟨o, rest, frames, s, rfl, hperforms, hstep⟩ | ⟨hperforms, hidle⟩
  · obtain ⟨l, hlength, htells⟩ := o.act_tells s
    rw [hstep, perform_store, exchange?, hperforms]
    refine ⟨l, ?_, htells⟩
    rw [hlength]
    cases o <;> rfl
  · rw [hidle.store, exchange?, hperforms]
    exact ⟨[], rfl, .of_eq fun _ => rfl⟩

/-- **The reads of a walk are told the answers of the input in order**, one each. -/
theorem after_tells (token : Token) (w : Walk) (n : Nat) : ∃ l, l.length = w.readsIn token n ∧
    Streams.reading.Tells w.store.streams l (w.after token n).store.streams := by
  induction n with
  | zero => exact ⟨[], rfl, .of_eq fun _ => rfl⟩
  | succ n ih =>
    obtain ⟨l, hlength, htells⟩ := ih
    obtain ⟨more, hmore, htold⟩ := step_tells token (w.after token n)
    refine ⟨l ++ more, ?_, htells.trans htold⟩
    rw [List.length_append, hlength, hmore, readsIn, readsIn, exchanges, List.countP_append]

/-- what a step makes of the answer that its read is told -/
def Takes (w v : Walk) : ReadAnswer → Prop
  | .byte b => v.store.tape = w.store.tape.put b ∧ v.result? = none
  | .ended => v.store.tape = w.store.tape ∧ v.result? = none
  | .failed f => v.store.tape = w.store.tape ∧ v.result? = some (.error (.failure f))

/-- a step that carries out a read takes the first answer that is told -/
theorem step_takes {w : Walk} (h : w.performs? token = some .read) : ∃ x,
    Streams.reading.Settles w.store.streams x (w.step token).store.streams ∧ w.Takes (w.step token) x := by
  rcases w.step_cases token with ⟨o, rest, frames, s, rfl, hperforms, hstep⟩ | ⟨hnone, -⟩
  · obtain rfl : o = .read := Option.some.inj (hperforms.symm.trans h)
    obtain ⟨x, hsettles, hresult, htape⟩ := s.readByte_settles
    obtain ⟨a, ha⟩ := hsettles.exists_told
    refine ⟨x, ?_, ?_⟩
    · rw [hstep, perform_store, Op.read_act_store]
      exact hsettles
    · rw [hstep]
      unfold perform
      simp only [Op.act]
      generalize s.readByte = p at hresult htape ⊢
      obtain ⟨r, t⟩ := p
      simp only at hresult htape
      cases x with
      | byte b =>
        subst hresult
        exact ⟨congrArg (·.put b) htape, rfl⟩
      | ended =>
        subst hresult
        exact ⟨htape, rfl⟩
      | failed f =>
        -- an exhausted input is told in the other flavour
        have heof : f.kind ≠ .unexpectedEof := ReadAnswer.told?_ne_eof ha
        rw [ReadAnswer.toResult, if_neg heof] at hresult
        subst hresult
        exact ⟨htape, rfl⟩
  · rw [hnone] at h
    cases h

end Walk

/-! ## Channels without faults -/

/-- where no fault is left to meet, the next call meets none, and none is left after it -/
theorem Channel.fault?_of_pending {Fault : Type} {c : Channel Fault} (h : c.pending = 0) :
    c.fault? = none ∧ c.count.pending = 0 := by
  constructor
  · cases hfault : c.fault? with
    | none => rfl
    | some f =>
      have hlt := c.pending_count_lt hfault
      omega
  · have hle := c.pending_count_le
    omega

namespace Streams

theorem read_of_nil {s : Streams} (hfault : s.reads.fault? = none) (hscript : s.script = []) :
    ∃ t, s.read = (.ended, t) ∧ t.script = [] ∧ t.reads = s.reads.count := by
  rw [read, hfault, hscript]
  exact ⟨_, rfl, rfl, rfl⟩

theorem read_of_cons {s : Streams} {a : ReadAnswer} {rest : Script} (hfault : s.reads.fault? = none)
    (hscript : s.script = a :: rest) : ∃ t, s.read = (a, t) ∧ t.script = rest ∧ t.reads = s.reads.count := by
  rw [read, hfault, hscript]
  rcases a with b | _ | f
  · exact ⟨_, rfl, rfl, rfl⟩
  · exact ⟨_, rfl, rfl, rfl⟩
  · exact ⟨_, rfl, rfl, rfl⟩

theorem write_of_fault?_none {s : Streams} (b : UInt8) (hfault : s.writes.fault? = none) :
    ∃ t, s.write b = (.accepted, t) ∧ t.writes = s.writes.count := by
  rw [write, hfault]
  exact ⟨_, rfl, rfl⟩

/-- a source that is out of answers goes on telling the end of the input -/
theorem told_of_nil {s : Streams} (h : s.reads.pending = 0) (hscript : s.script = []) (n : Nat) :
    reading.told n s = List.replicate n .ended := by
  induction n generalizing s with
  | zero => rfl
  | succ n ih =>
    obtain ⟨hfault, hpending⟩ := Channel.fault?_of_pending h
    obtain ⟨t, hread, hrest, hreads⟩ := read_of_nil hfault hscript
    rw [← hreads] at hpending
    rw [List.replicate_succ, ← ih hpending hrest]
    exact Inquiry.told_succ_of_some hread rfl n

/-- a source without faults tells its script, and then the end of the input again and again -/
theorem told_of_script {s : Streams} (h : s.reads.pending = 0) (n : Nat) :
    reading.told (s.script.length + n) s = s.script.filterMap ReadAnswer.told? ++ List.replicate n .ended := by
  generalize hscript : s.script = script
  induction script generalizing s with
  | nil =>
    rw [List.length_nil, Nat.zero_add]
    exact told_of_nil h hscript n
  | cons a rest ih =>
    obtain ⟨hfault, hpending⟩ := Channel.fault?_of_pending h
    obtain ⟨t, hread, hrest, hreads⟩ := read_of_cons hfault hscript
    rw [← hreads] at hpending
    have hlength : (a :: rest).length + n = rest.length + n + 1 := Nat.succ_add rest.length n
    rw [hlength]
    cases htold : a.told? with
    | none =>
      rw [List.filterMap_cons_none htold, ← ih hpending hrest]
      exact Inquiry.told_succ_of_none hread htold _
    | some x =>
      rw [List.filterMap_cons_some htold, List.cons_append, ← ih hpending hrest]
      exact Inquiry.told_succ_of_some hread htold _

/-- sources without faults tell the same if their scripts do -/
theorem sameTold_of_scripts {s t : Streams} (hs : s.reads.pending = 0) (ht : t.reads.pending = 0)
    (h : s.script.filterMap ReadAnswer.told? = t.script.filterMap ReadAnswer.told?) : reading.SameTold s t := by
  have along : ∀ {s t : Streams}, s.reads.pending = 0 → t.reads.pending = 0 →
      s.script.filterMap ReadAnswer.told? = t.script.filterMap ReadAnswer.told? →
      ∀ n, ∃ m, reading.told n s <+: reading.told m t := by
    intro s t hs ht h n
    refine ⟨t.script.length + n, ?_⟩
    rw [told_of_script ht, ← h, ← told_of_script hs]
    exact Inquiry.told_le (Nat.le_add_left n _) s
  exact ⟨along hs ht h, along ht hs h.symm⟩

/-- a sink without faults accepts whatever is written -/
theorem told_writing_of_pending {s : Streams} (h : s.writes.pending = 0) (b : UInt8) (n : Nat) :
    (writing b).told n s = List.replicate n .accepted := by
  induction n generalizing s with
  | zero => rfl
  | succ n ih =>
    obtain ⟨hfault, hpending⟩ := Channel.fault?_of_pending h
    obtain ⟨t, hwrite, hwrites⟩ := write_of_fault?_none b hfault
    rw [← hwrites] at hpending
    rw [List.replicate_succ, ← ih hpending]
    exact Inquiry.told_succ_of_some hwrite rfl n

end Streams

/-! ## Runs -/

namespace Interpreter

/-- runs with the same result that leave the same status, tape, output and count of bytes consumed -/
structure Finished.SameOutcome (f g : Finished) : Prop where
  result : f.result = g.result
  status : f.interpreter.status = g.interpreter.status
  tape : f.interpreter.tape = g.interpreter.tape
  out : f.interpreter.streams.out = g.interpreter.streams.out
  consumed : f.interpreter.streams.consumed = g.interpreter.streams.consumed

/-- **A program sees of its streams what is told of them.** Take two runs of a program on the same tape and on streams
that tell the same, no signal being raised in either: interrupted reads and writes may be anywhere and any number of
times, and an exhausted input may be reported in either flavour. If one of the runs comes back, so does the other, and
they have the same outcome. Each read of a run takes the next answer told of its input: the cell is left as it is at the
end of the input, and it is no more than one answer, so a later read takes the byte that may have come behind it. -/
theorem run_depends_on_told (code : Code) (tape : Tape) {a b : Streams} (sa sb : Signals) (token : Token)
    (h : a.Alike b) (ha : (Walk.start code ⟨tape, a, sa⟩).Unsignalled token)
    (hb : (Walk.start code ⟨tape, b, sb⟩).Unsignalled token) :
    ((∃ f, (new tape a).Returns code token sa f) ↔ ∃ g, (new tape b).Returns code token sb g) ∧
      (∀ f g, (new tape a).Returns code token sa f → (new tape b).Returns code token sb g → f.SameOutcome g) ∧
      ∀ n, let w := Walk.start code ⟨tape, a, sa⟩
        (w.after token n).performs? token = some .read →
          (∃ m x, (Streams.reading.told m a)[w.readsIn token n]? = some x) ∧
            ∀ m x, (Streams.reading.told m a)[w.readsIn token n]? = some x →
              (w.after token n).Takes (w.after token (n + 1)) x := by
  have hstart : (Walk.start code ⟨tape, a, sa⟩).Alike (Walk.start code ⟨tape, b, sb⟩) := .going code [] ⟨rfl, h⟩
  have hafter := Walk.after_alike hstart ha hb
  refine ⟨?_, ?_, ?_⟩
  · constructor
    · rintro ⟨f, hf⟩
      obtain ⟨r, t, ⟨n, hend⟩, -⟩ := returns_new_iff.1 hf
      obtain ⟨u, hu⟩ := ((hafter n).ended_iff r).1 ⟨t, hend⟩
      exact ⟨_, returns_new_iff.2 ⟨r, u, ⟨n, hu⟩, rfl⟩⟩
    · rintro ⟨g, hg⟩
      obtain ⟨r, u, ⟨n, hend⟩, -⟩ := returns_new_iff.1 hg
      obtain ⟨t, ht⟩ := ((hafter n).ended_iff r).2 ⟨u, hend⟩
      exact ⟨_, returns_new_iff.2 ⟨r, t, ⟨n, ht⟩, rfl⟩⟩
  · intro f g hf hg
    obtain ⟨r, t, ⟨n, hend⟩, rfl⟩ := returns_new_iff.1 hf
    obtain ⟨q, u, hu, rfl⟩ := returns_new_iff.1 hg
    obtain ⟨v, hv⟩ := ((hafter n).ended_iff r).1 ⟨t, hend⟩
    obtain ⟨rfl, rfl⟩ := hu.unique ⟨n, hv⟩
    have halike := (hafter n).store
    rw [hend, hv] at halike
    exact ⟨rfl, rfl, halike.tape, halike.streams.out, halike.streams.consumed⟩
  · intro n w hread
    obtain ⟨l, hlength, htells⟩ := w.after_tells token n
    obtain ⟨x, hsettles, htakes⟩ := Walk.step_takes hread
    obtain ⟨m, hm⟩ := htells.trans hsettles.tells 0
    have htold : Streams.reading.told m a = l ++ [x] := by
      rw [← List.append_nil (l ++ [x])]
      exact hm
    have hplace : (Streams.reading.told m a)[w.readsIn token n]? = some x := by
      rw [htold, ← hlength]
      exact List.getElem?_concat_length
    refine ⟨⟨m, x, hplace⟩, fun m' y hy => ?_⟩
    obtain rfl := Inquiry.told_unique hplace hy
    exact htakes

/-- one input ends and goes on with a byte; the other one is interrupted before each of these answers and reports the end
in the other flavour, and its output is interrupted once -/
theorem run_depends_on_told_late_byte :
    let wait : Failure := { kind := .interrupted }
    let eof : Failure := { kind := .unexpectedEof }
    let code : Code := .op .read (.op .read (.op .print .nil))
    let tape := Tape.blank.put 7
    let a : Streams := { script := [.ended, .byte 65] }
    let b : Streams := { script := [.failed wait, .failed eof, .failed wait, .byte 65],
                         writes := { faults := [(0, some wait)] } }
    let w := Walk.start code ⟨tape, a, ⟨#[none]⟩⟩
    a.Alike b ∧
      (∃ f g, (new tape a).Returns code ⟨0⟩ ⟨#[none]⟩ f ∧ (new tape b).Returns code ⟨0⟩ ⟨#[none]⟩ g ∧
        f.SameOutcome g ∧ g.interpreter.streams.out = #[65]) ∧
      w.performs? ⟨0⟩ = some .read ∧ (w.after ⟨0⟩ 1).store.tape = tape ∧
      (w.after ⟨0⟩ 1).performs? ⟨0⟩ = some .read ∧ (w.after ⟨0⟩ 2).store.tape = tape.put 65 := by
  intro wait eof code tape a b w
  have halike : a.Alike b := by
    refine ⟨Streams.sameTold_of_scripts rfl rfl rfl, fun c => ?_, ?_, rfl, rfl⟩
    · -- the first write to `b` is interrupted, and no write fails after it
      have hkept : (Streams.writing c).SameTold b (b.write c).2 := .of_kept rfl rfl
      have hfree : (Streams.writing c).SameTold a (b.write c).2 := by
        apply Inquiry.SameTold.of_eq
        intro n
        rw [Streams.told_writing_of_pending rfl, Streams.told_writing_of_pending rfl]
      exact hfree.trans hkept.symm
    · have hflushes : a.flushes = b.flushes := rfl
      exact .of_eq (Streams.told_flushing_congr hflushes)
  have ha : w.Unsignalled ⟨0⟩ := Walk.unsignalled_of_unalarmed rfl (by decide)
  have hb : (Walk.start code ⟨tape, b, ⟨#[none]⟩⟩).Unsignalled ⟨0⟩ := Walk.unsignalled_of_unalarmed rfl (by decide)
  obtain ⟨hreturns, hsame, hreads⟩ := run_depends_on_told code tape ⟨#[none]⟩ ⟨#[none]⟩ ⟨0⟩ halike ha hb
  have hfirst : (w.after ⟨0⟩ 0).performs? ⟨0⟩ = some .read := by decide +kernel
  have hsecond : (w.after ⟨0⟩ 1).performs? ⟨0⟩ = some .read := by decide +kernel
  have hend : (Streams.reading.told 2 a)[w.readsIn ⟨0⟩ 0]? = some .ended := by decide +kernel
  have hlate : (Streams.reading.told 2 a)[w.readsIn ⟨0⟩ 1]? = some (.byte 65) := by decide +kernel
  have hkept := ((hreads 0 hfirst).2 2 .ended hend).1
  have htaken := ((hreads 1 hsecond).2 2 (.byte 65) hlate).1
  have hrun : (match (new tape a).run 4 code ⟨0⟩ ⟨#[none]⟩ with
      | some f => f.interpreter.streams.out == #[65]
      | none => false) = true := by
    decide +kernel
  refine ⟨halike, ?_, hfirst, hkept, hsecond, ?_⟩
  · split at hrun
    · next f hf =>
      have hreturned : (new tape a).Returns code ⟨0⟩ ⟨#[none]⟩ f := ⟨4, hf⟩
      obtain ⟨g, hg⟩ := hreturns.1 ⟨f, hreturned⟩
      have hfg := hsame f g hreturned hg
      refine ⟨f, g, hreturned, hg, hfg, ?_⟩
      rw [← hfg.out]
      exact eq_of_beq hrun
    · cases hrun
  · rw [htaken, hkept]
    rfl

end Interpreter

end RingTape
