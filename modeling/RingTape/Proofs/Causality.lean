/-
What a run can know. A call is asked for when the calls before it have been answered, and what a run does by then
depends on these answers and on the reasons given to its signal by then: not on answers that are still to come, and not
on input that is still unread.

- `Walk.Begins`: calls that a walk begins with
- `Walk.AnsweredAlike`: the first calls of a walk are answered alike on another store
- `AnsweredAlike.symm`, `AnsweredAlike.begins_iff`, `AnsweredAlike.next_iff`: the walks make them both, and ask for the
  same call behind them
- `Store.withInput`, `Store.withScript`: the same store with other input
- `Walk.after_withScript`: what stands behind the input read so far plays no part
- `Walk.after_withInput`: a program without reads does not look at its input
- `run_depends_on_answers`: the same for runs
-/
import Mathlib.Data.List.Induction
import RingTape.Proofs.Cancellation
import RingTape.Proofs.Replay

namespace RingTape

namespace Walk

variable {token : Token} {w : Walk} {t : Store} {k n : Nat} {calls : List Call}

/-! ## Walks that are answered alike -/

/-- the calls of the walk begin with these -/
def Begins (token : Token) (w : Walk) (calls : List Call) : Prop :=
  w.Trace token (w.store.trace ++ calls)

/-- the calls made in so many steps -/
def callsIn (token : Token) (w : Walk) (n : Nat) : List Call :=
  (w.after token n).store.trace.drop w.store.trace.length

/-- the first `k` calls of the walk, or all of them if they are fewer, are answered by another store as they are by its
own, and the signal is raised alike before the first and after each of them -/
def AnsweredAlike (token : Token) (w : Walk) (t : Store) (k : Nat) : Prop :=
  ∀ calls, calls.length ≤ k → w.Begins token calls → w.store.Agree token t calls

theorem Asks.begins (h : Asks token w n calls) : w.Begins token calls :=
  ⟨n, h.trace ▸ List.prefix_refl _⟩

theorem Asks.callsIn (h : Asks token w n calls) : w.callsIn token n = calls := by
  rw [Walk.callsIn, h.trace, List.drop_left]

theorem begins_nil (token : Token) (w : Walk) : w.Begins token [] :=
  ⟨0, by rw [List.append_nil]; exact List.prefix_refl _⟩

theorem Begins.exists_asks (h : w.Begins token calls) : ∃ n more, Asks token w n (calls ++ more) := by
  obtain ⟨n, hn⟩ := h
  obtain ⟨all, hall⟩ := w.after_asks token n
  rw [hall.trace, List.prefix_append_right_inj] at hn
  obtain ⟨more, rfl⟩ := hn
  exact ⟨n, more, hall⟩

theorem Begins.shorter {more : List Call} (h : w.Begins token (calls ++ more)) : w.Begins token calls := by
  obtain ⟨n, hn⟩ := h
  refine ⟨n, List.IsPrefix.trans ?_ hn⟩
  rw [List.prefix_append_right_inj]
  exact List.prefix_append calls more

theorem Begins.answers (h : w.Begins token calls) : w.store.Answers calls := by
  obtain ⟨n, more, hall⟩ := h.exists_asks
  exact ((Store.answers_append _ calls more).1 hall.answers).1

/-- calls answered alike are followed by calls that ask the same -/
theorem Begins.next {c : Call} (h : w.Begins token (calls ++ [c])) (htape : t.tape = w.store.tape)
    (hagree : w.store.Agree token t calls) : ∃ d, d.asked = c.asked ∧ (w.on t).Begins token (calls ++ [d]) := by
  obtain ⟨n, more, hall⟩ := h.exists_asks
  rw [List.append_assoc, List.singleton_append] at hall
  obtain ⟨d, hasked, htrace⟩ := hall.next t calls more c htape rfl hagree
  refine ⟨d, hasked, n, ?_⟩
  rw [store_on, ← List.append_assoc]
  exact htrace

/-- calls answered alike that one walk makes, so does the other -/
theorem AnsweredAlike.begins (h : w.AnsweredAlike token t k) (htape : t.tape = w.store.tape) (hk : calls.length ≤ k)
    (hw : w.Begins token calls) : (w.on t).Begins token calls := by
  rcases calls.eq_nil_or_concat with rfl | ⟨before, c, rfl⟩
  · exact begins_nil token _
  · rw [List.concat_eq_append] at hk hw ⊢
    have hall := h _ hk hw
    obtain ⟨d, hasked, hd⟩ := hw.next htape ((Store.agree_append before [c]).1 hall).1
    have hown := hd.answers
    rw [store_on] at hown
    obtain rfl := (hall.answers hw.answers).unique hown hasked.symm
    exact hd

theorem AnsweredAlike.begins_iff (h : w.AnsweredAlike token t k) (htape : t.tape = w.store.tape)
    (hk : calls.length ≤ k) : w.Begins token calls ↔ (w.on t).Begins token calls := by
  refine ⟨h.begins htape hk, ?_⟩
  -- on the number of calls: behind calls that both walks make, both ask for the same one
  induction calls using List.reverseRecOn with
  | nil => exact fun _ => begins_nil token w
  | append_singleton before d ih =>
    intro hd
    have hbefore : before.length ≤ k := by
      rw [List.length_append] at hk
      exact Nat.le_of_add_right_le hk
    have hagree := h before hbefore (ih hbefore hd.shorter)
    have hback : w.store.tape = (w.on t).store.tape := by rw [store_on, htape]
    obtain ⟨c, hasked, hc⟩ := hd.next hback (by rw [store_on]; exact hagree.symm)
    rw [on_on, on_store] at hc
    have hsame := h.begins htape (by rwa [List.length_append] at hk ⊢) hc
    obtain rfl := hd.answers.unique hsame.answers hasked.symm
    exact hc

theorem AnsweredAlike.symm (h : w.AnsweredAlike token t k) (htape : t.tape = w.store.tape) :
    (w.on t).AnsweredAlike token w.store k := by
  intro calls hk hcalls
  rw [store_on]
  exact (h calls hk ((h.begins_iff htape hk).2 hcalls)).symm

/-- **The next call.** Behind calls that are answered alike both walks ask for the same call, or neither for any. -/
theorem AnsweredAlike.next_iff (h : w.AnsweredAlike token t k) (htape : t.tape = w.store.tape)
    (hk : calls.length ≤ k) (asked : CallKind × Option UInt8) :
    (∃ c, c.asked = asked ∧ w.Begins token (calls ++ [c])) ↔
      ∃ d, d.asked = asked ∧ (w.on t).Begins token (calls ++ [d]) := by
  have along : ∀ {w : Walk} {t : Store}, w.AnsweredAlike token t k → t.tape = w.store.tape →
      (∃ c, c.asked = asked ∧ w.Begins token (calls ++ [c])) →
        ∃ d, d.asked = asked ∧ (w.on t).Begins token (calls ++ [d]) := by
    rintro w t h htape ⟨c, rfl, hc⟩
    exact hc.next htape (h calls hk hc.shorter)
  refine ⟨along h htape, fun hd => ?_⟩
  have hback : w.store.tape = (w.on t).store.tape := by rw [store_on, htape]
  have hown := along (h.symm htape) hback hd
  rwa [on_on, on_store] at hown

/-- walks are answered alike if one stretch of calls, of that length, is -/
theorem answeredAlike_of_begins (hbegins : w.Begins token calls) (hagree : w.store.Agree token t calls) :
    w.AnsweredAlike token t calls.length := by
  intro short hlength hshort
  have hprefix : short <+: calls := by
    rcases hshort.comparable hbegins with h | h
    · rwa [List.prefix_append_right_inj] at h
    · rw [List.prefix_append_right_inj] at h
      exact h.eq_of_length_le hlength ▸ List.prefix_refl calls
  obtain ⟨more, rfl⟩ := hprefix
  exact ((Store.agree_append short more).1 hagree).1

end Walk

/-! ## Other input -/

namespace Streams

/-- the same streams with another input -/
def withInput (script : Script) (reads : Channel Failure) (s : Streams) : Streams :=
  { s with script := script, reads := reads }

theorem write_withInput (script : Script) (reads : Channel Failure) (b : UInt8) (s : Streams) :
    (s.withInput script reads).write b = ((s.write b).1, (s.write b).2.withInput script reads) := by
  have hfault : (s.withInput script reads).writes.fault? = s.writes.fault? := rfl
  rw [write, write, hfault]
  rcases s.writes.fault? with _ | _ | f <;> rfl

theorem flush_withInput (script : Script) (reads : Channel Failure) (s : Streams) :
    (s.withInput script reads).flush = (s.flush.1, s.flush.2.withInput script reads) := by
  have hfault : (s.withInput script reads).flushes.fault? = s.flushes.fault? := rfl
  rw [flush, flush, hfault]
  cases s.flushes.fault? <;> rfl

/-- a fault leaves the script alone, whatever it is -/
theorem read_withInput_of_fault {s : Streams} {f : Failure} (hfault : s.reads.fault? = some f) (script : Script) :
    (s.withInput script s.reads).read = (s.read.1, s.read.2.withInput script s.read.2.reads) := by
  have hsame : (s.withInput script s.reads).reads.fault? = some f := hfault
  rw [read, read, hsame, hfault]
  rfl

/-- a read takes the first answer, whatever stands behind it -/
theorem read_withInput_of_cons {s : Streams} {a : ReadAnswer} {rest : Script} (hfault : s.reads.fault? = none)
    (hscript : s.script = a :: rest) (script : Script) :
    (s.withInput (a :: script) s.reads).read = (s.read.1, s.read.2.withInput script s.read.2.reads) ∧
      s.read.2.script = rest := by
  have hsame : (s.withInput (a :: script) s.reads).reads.fault? = none := hfault
  have hother : (s.withInput (a :: script) s.reads).script = a :: script := rfl
  rw [read, read, hsame, hfault, hother, hscript]
  rcases a with b | _ | f
  · exact ⟨rfl, rfl⟩
  · exact ⟨rfl, rfl⟩
  · exact ⟨rfl, rfl⟩

end Streams

namespace Store

/-- the same store with another input -/
def withInput (script : Script) (reads : Channel Failure) (s : Store) : Store :=
  { s with streams := s.streams.withInput script reads }

/-- the same store with another script, and as many reads made -/
def withScript (script : Script) (s : Store) : Store :=
  s.withInput script s.streams.reads

/-- a call that is no read does not look at the input -/
theorem make_withInput {c : Call} (h : c.kind ≠ .read) (script : Script) (reads : Channel Failure) (s : Store) :
    (s.withInput script reads).make c = ((s.make c).1, (s.make c).2.withInput script reads) := by
  cases c with
  | read a => exact absurd rfl h
  | write b a =>
    have halarm := alarm_signals_congr (s := s.withInput script reads) (t := s) rfl rfl s.streams.writes.reasons
    have hwrite : (s.withInput script reads).streams.write b =
        ((s.streams.write b).1, (s.streams.write b).2.withInput script reads) :=
      s.streams.write_withInput script reads b
    have hreasons : (s.withInput script reads).streams.writes.reasons = s.streams.writes.reasons := rfl
    simp only [make, write_eq, hreasons, halarm, hwrite]
    rfl
  | flush a =>
    have halarm := alarm_signals_congr (s := s.withInput script reads) (t := s) rfl rfl s.streams.flushes.reasons
    have hflush : (s.withInput script reads).streams.flush =
        (s.streams.flush.1, s.streams.flush.2.withInput script reads) := s.streams.flush_withInput script reads
    have hreasons : (s.withInput script reads).streams.flushes.reasons = s.streams.flushes.reasons := rfl
    simp only [make, flush_eq, hreasons, halarm, hflush]
    rfl

/-- calls among which there is no read do not look at the input -/
theorem replay_withInput (token : Token) (script : Script) (reads : Channel Failure) {s : Store} {calls : List Call}
    (h : ∀ c ∈ calls, c.kind ≠ .read) : s.Agree token (s.withInput script reads) calls ∧
      (s.withInput script reads).replay calls = (s.replay calls).withInput script reads := by
  induction calls generalizing s with
  | nil => exact ⟨rfl, rfl⟩
  | cons c rest ih =>
    obtain ⟨hc, hrest⟩ := List.forall_mem_cons.1 h
    rw [Agree, replay, make_withInput hc]
    obtain ⟨hagree, hreplay⟩ := ih (s := (s.make c).2) hrest
    exact ⟨⟨rfl, rfl, hagree⟩, hreplay⟩

/-- a call for a byte on another script that is read alike -/
theorem make_read_withScript {s : Store} {a : ReadAnswer} {script rest : Script}
    (h : (s.streams.withInput script s.streams.reads).read =
      (s.streams.read.1, s.streams.read.2.withInput rest s.streams.read.2.reads)) :
    (s.withScript script).make (.read a) = ((s.make (.read a)).1, (s.make (.read a)).2.withScript rest) := by
  have halarm := alarm_signals_congr (s := s.withScript script) (t := s) rfl rfl s.streams.reads.reasons
  have hreasons : (s.withScript script).streams.reads.reasons = s.streams.reads.reasons := rfl
  have hread : (s.withScript script).streams.read = _ := h
  simp only [make, read_eq, hreasons, halarm, hread]
  rfl

/-- a call takes at most one answer of the script, and does not look at what stands behind it -/
theorem make_withScript {s : Store} {c : Call} {x y : Script} (hscript : s.streams.script = x ++ y)
    (hleft : y <:+ (s.make c).2.streams.script) (hend : y = [] → (s.make c).1 ≠ .read .ended) :
    ∃ later, (s.make c).2.streams.script = later ++ y ∧
      ∀ z, (s.withScript (x ++ z)).make c = ((s.make c).1, (s.make c).2.withScript (later ++ z)) := by
  cases c with
  | write b a =>
    have heffect := Streams.write_effect b s.streams
    refine ⟨x, ?_, fun z => ?_⟩
    · simp only [make, write_eq, heffect, hscript]
    · rw [withScript, make_withInput (by simp [Call.kind])]
      simp only [make, write_eq, heffect, withScript]
  | flush a =>
    have heffect := Streams.flush_effect s.streams
    refine ⟨x, ?_, fun z => ?_⟩
    · simp only [make, flush_eq, heffect, hscript]
    · rw [withScript, make_withInput (by simp [Call.kind])]
      simp only [make, flush_eq, heffect, withScript]
  | read a =>
    cases hfault : s.streams.reads.fault? with
    | some f =>
      refine ⟨x, ?_, fun z => make_read_withScript (Streams.read_withInput_of_fault hfault _)⟩
      simp only [make, read_eq, Streams.read, hfault, hscript]
    | none =>
      cases x with
      | nil =>
        -- the call would take an answer of `y`, or meet the end of the script behind it
        rw [List.nil_append] at hscript
        cases y with
        | nil =>
          refine absurd ?_ (hend rfl)
          simp only [make, read_eq, Streams.read, hfault, hscript]
        | cons b rest =>
          have hrest := (Streams.read_withInput_of_cons hfault hscript []).2
          have hshort := hleft.length_le
          simp only [make, read_eq, hrest, List.length_cons] at hshort
          omega
      | cons b later =>
        rw [List.cons_append] at hscript
        refine ⟨later, ?_, fun z => make_read_withScript (Streams.read_withInput_of_cons hfault hscript _).1⟩
        have hrest := (Streams.read_withInput_of_cons hfault hscript []).2
        simp only [make, read_eq, hrest]

/-- **Input behind the input that calls have used.** It plays no part in them, unless they have met the end of it. -/
theorem replay_withScript (token : Token) {s : Store} {calls : List Call} {x y : Script} (h : s.Answers calls)
    (hscript : s.streams.script = x ++ y) (hleft : (s.replay calls).streams.script = y)
    (hend : y = [] → .read .ended ∉ calls) (z : Script) : s.Agree token (s.withScript (x ++ z)) calls ∧
      (s.withScript (x ++ z)).replay calls = (s.replay calls).withScript z := by
  induction calls generalizing s x with
  | nil =>
    obtain rfl : x = [] := List.append_left_eq_self.1 (hscript.symm.trans hleft)
    exact ⟨rfl, rfl⟩
  | cons c rest ih =>
    obtain ⟨hc, hrest⟩ := h
    obtain ⟨used, hused, -⟩ := hrest.made.script
    have hsuffix : y <:+ (s.make c).2.streams.script := by
      rw [hused, ← hleft]
      exact List.suffix_append used _
    have hfirst : y = [] → (s.make c).1 ≠ .read .ended := by
      intro hy hread
      rw [hc] at hread
      exact hend hy (by rw [hread]; exact List.mem_cons_self)
    obtain ⟨later, hlater, hmake⟩ := make_withScript hscript hsuffix hfirst
    obtain ⟨hagree, hreplay⟩ := ih hrest hlater hleft fun hy hmem => hend hy (List.mem_cons_of_mem c hmem)
    rw [Agree, replay, hmake]
    exact ⟨⟨rfl, rfl, hagree⟩, hreplay⟩

end Store

namespace Walk

variable {token : Token} {w : Walk} {n : Nat}

/-- the walk with another input -/
def withInput (script : Script) (reads : Channel Failure) (w : Walk) : Walk :=
  w.on (w.store.withInput script reads)

/-- the walk with another script, and as many reads made -/
def withScript (script : Script) (w : Walk) : Walk :=
  w.on (w.store.withScript script)

/-- **Input that is still unread plays no part.** With something else in its place, the walk comes to the same point. -/
theorem after_withScript {x y : Script} (hscript : w.store.streams.script = x ++ y)
    (hleft : (w.after token n).store.streams.script = y) (hend : y = [] → .read .ended ∉ w.callsIn token n)
    (z : Script) : (w.withScript (x ++ z)).after token n = (w.after token n).withScript z := by
  obtain ⟨calls, hcalls⟩ := w.after_asks token n
  rw [hcalls.callsIn] at hend
  have hstore := hcalls.store_after
  rw [hstore] at hleft
  obtain ⟨hagree, hreplay⟩ := Store.replay_withScript token hcalls.answers hscript hleft hend z
  rw [withScript, hcalls.same (w.store.withScript (x ++ z)) rfl hagree, hreplay, withScript]
  generalize (w.after token n).store.tape = tape at hstore ⊢
  rw [hstore]
  rfl

/-! ## Programs without reads -/

/-- nothing of the program that is left, and no loop around the point reached, holds the instruction -/
def Lacks (o : Op) : Walk → Prop
  | .going code frames _ =>
    .op o ∉ code.symbols ∧ ∀ f ∈ frames, .op o ∉ f.body.symbols ∧ .op o ∉ f.rest.symbols
  | .ended .. => True

theorem test_lacks {o : Op} {body rest : Code} {frames : List Frame} {s : Store} (hbody : .op o ∉ body.symbols)
    (hrest : .op o ∉ rest.symbols) (hframes : ∀ f ∈ frames, .op o ∉ f.body.symbols ∧ .op o ∉ f.rest.symbols) :
    (test token body rest frames s).Lacks o := by
  rw [test]
  split
  · exact ⟨hrest, hframes⟩
  · cases s.signals.reason? token with
    | none => exact ⟨hbody, List.forall_mem_cons.2 ⟨⟨hbody, hrest⟩, hframes⟩⟩
    | some why => trivial

theorem perform_lacks {o p : Op} {rest : Code} {frames : List Frame} {s : Store} (hrest : .op o ∉ rest.symbols)
    (hframes : ∀ f ∈ frames, .op o ∉ f.body.symbols ∧ .op o ∉ f.rest.symbols) :
    (perform p rest frames s).Lacks o := by
  rw [perform]
  rcases p.act s with ⟨_ | _, t⟩
  · trivial
  · exact ⟨hrest, hframes⟩

theorem step_lacks {o : Op} (h : w.Lacks o) : (w.step token).Lacks o := by
  have hop : ∀ {p : Op} {rest : Code}, .op o ∉ (Code.op p rest).symbols → .op o ∉ rest.symbols :=
    fun hp hrest => hp (List.mem_cons_of_mem _ hrest)
  have hloop : ∀ {body rest : Code}, .op o ∉ (Code.loop body rest).symbols →
      .op o ∉ body.symbols ∧ .op o ∉ rest.symbols := by
    intro body rest hnot
    simpa [Code.symbols] using hnot
  rcases w with ⟨_ | ⟨p, rest⟩ | ⟨body, rest⟩, _ | ⟨f, frames⟩, s⟩ | ⟨r, s⟩
  · trivial
  · obtain ⟨⟨hbody, hrest⟩, hframes⟩ := List.forall_mem_cons.1 h.2
    exact test_lacks hbody hrest hframes
  · simp only [step]
    cases s.signals.reason? token with
    | none => exact perform_lacks (hop h.1) h.2
    | some why => trivial
  · exact perform_lacks (hop h.1) h.2
  · simp only [step]
    cases s.signals.reason? token with
    | none => exact test_lacks (hloop h.1).1 (hloop h.1).2 h.2
    | some why => trivial
  · exact test_lacks (hloop h.1).1 (hloop h.1).2 h.2
  · trivial

theorem after_lacks {o : Op} (h : w.Lacks o) (n : Nat) : (w.after token n).Lacks o := by
  induction n with
  | zero => exact h
  | succ n ih => exact step_lacks ih

/-- an instruction that is carried out is one that the program holds -/
theorem performs?_ne {o p : Op} (h : w.Lacks o) (hp : w.performs? token = some p) : p ≠ o := by
  rintro rfl
  rcases w.step_cases token with ⟨q, rest, frames, s, rfl, hperforms, -⟩ | ⟨hnone, -⟩
  · obtain rfl := Option.some.inj (hperforms.symm.trans hp)
    exact h.1 List.mem_cons_self
  · rw [hnone] at hp
    cases hp

theorem exchanges_ne {o : Op} (h : w.Lacks o) (n : Nat) : ∀ i ∈ w.exchanges token n, i.1 ≠ o := by
  induction n with
  | zero => exact List.forall_mem_nil _
  | succ n ih =>
    intro i hi
    rcases List.mem_append.1 hi with hi | hi
    · exact ih i hi
    · rw [Option.mem_toList, exchange?] at hi
      cases hp : (w.after token n).performs? token with
      | none =>
        rw [hp] at hi
        cases hi
      | some p =>
        simp only [hp, Option.ite_none_right_eq_some, Option.some.injEq] at hi
        obtain ⟨-, rfl⟩ := hi
        exact performs?_ne (after_lacks h n) hp

/-- calls of blocks are calls of the instructions of the blocks -/
theorem flatten_kind {o : Op} {exchanges : List (Op × UInt8)} {blocks : List (List Call)}
    (h : List.Forall₂ (fun i calls => Block i.1 i.2 calls) exchanges blocks) (hne : ∀ i ∈ exchanges, i.1 ≠ o) :
    ∀ c ∈ blocks.flatten, c.kind.op ≠ o := by
  induction h with
  | nil => exact List.forall_mem_nil _
  | cons hblock hrest ih =>
    obtain ⟨hi, hmore⟩ := List.forall_mem_cons.1 hne
    intro c hc
    rcases List.mem_append.1 hc with hc | hc
    · rw [hblock.op_kind c hc]
      exact hi
    · exact ih hmore c hc

/-- the calls of a walk are calls of the stream instructions that its program holds -/
theorem callsIn_kind {o : Op} (h : w.Lacks o) (hw : w.failure? = none) (n : Nat) :
    ∀ c ∈ w.callsIn token n, c.kind.op ≠ o := by
  obtain ⟨blocks, hblocks, hmade, -⟩ := w.after_calls token hw n
  rw [callsIn, hmade.trace, List.drop_left]
  exact flatten_kind hblocks (exchanges_ne h n)

/-- **A program without reads does not look at its input.** With any other input it does the same, it makes no call for
a byte and consumes nothing. -/
theorem after_withInput (h : w.Lacks .read) (hw : w.failure? = none) (n : Nat) :
    (w.after token n).store.streams.consumed = w.store.streams.consumed ∧
      ∀ script reads, (w.withInput script reads).after token n = (w.after token n).withInput script reads := by
  obtain ⟨calls, hcalls⟩ := w.after_asks token n
  have hstore := hcalls.store_after
  have hkind : ∀ c ∈ calls, c.kind ≠ .read := by
    intro c hc hread
    rw [← hcalls.callsIn] at hc
    exact callsIn_kind h hw n c hc (by rw [hread]; rfl)
  have hsilent : calls.filterMap Call.delivered? = [] := by
    rw [List.filterMap_eq_nil_iff]
    intro c hc
    cases c with
    | read a => exact absurd rfl (hkind _ hc)
    | write b a => rfl
    | flush a => rfl
  constructor
  · have hconsumed := hcalls.answers.made.consumed
    rw [hsilent] at hconsumed
    rw [hstore]
    exact hconsumed
  · intro script reads
    obtain ⟨hagree, hreplay⟩ := Store.replay_withInput token script reads (s := w.store) hkind
    rw [withInput, hcalls.same (w.store.withInput script reads) rfl hagree, hreplay, withInput]
    generalize (w.after token n).store.tape = tape at hstore ⊢
    rw [hstore]
    rfl

end Walk

/-! ## Runs -/

/-- on both streams the same has happened so far -/
structure Streams.SameSoFar (a b : Streams) : Prop where
  out : a.out = b.out
  consumed : a.consumed = b.consumed
  trace : a.trace = b.trace

theorem Streams.SameSoFar.symm {a b : Streams} (h : a.SameSoFar b) : b.SameSoFar a :=
  ⟨h.out.symm, h.consumed.symm, h.trace.symm⟩

/-- and the same has happened after the same calls -/
theorem Streams.SameSoFar.made {s s' t t' : Store} {calls : List Call} (h : s.streams.SameSoFar s'.streams)
    (hs : s.Made t calls) (ht : s'.Made t' calls) : t.streams.SameSoFar t'.streams where
  out := by
    apply Array.toList_inj.1
    rw [hs.out, ht.out, h.out]
  consumed := by rw [hs.consumed, ht.consumed, h.consumed]
  trace := by
    have htraces : t.trace = t'.trace := by
      rw [hs.trace, ht.trace, Store.trace, Store.trace, h.trace]
    exact Array.toList_inj.1 htraces

namespace Interpreter

/-- a run that comes back after calls that are answered alike comes back in the same way, after as many steps -/
theorem run_of_answeredAlike {code : Code} {tape : Tape} {a b : Streams} {sa sb : Signals} {token : Token} {k n : Nat}
    (hsofar : a.SameSoFar b) (h : (Walk.start code ⟨tape, a, sa⟩).AnsweredAlike token ⟨tape, b, sb⟩ k) {f : Finished}
    (hf : (new tape a).run n code token sa = some f) (hk : f.interpreter.streams.trace.size ≤ a.trace.size + k) :
    ∃ g, (new tape b).run n code token sb = some g ∧ f.SameEnd g := by
  rw [run_new, settle_eq_some_iff] at hf
  obtain ⟨r, t, hend, rfl⟩ := hf
  obtain ⟨calls, hcalls⟩ := (Walk.start code ⟨tape, a, sa⟩).after_asks token n
  have hmade : Store.Made ⟨tape, a, sa⟩ t calls := by
    have hafter := hcalls.made
    rwa [hend] at hafter
  have hlength : calls.length ≤ k := by
    have hsize := congrArg List.length hmade.trace
    simp only [List.length_append, Store.trace, Array.length_toList] at hsize
    simp only [Finished.ofEnd] at hk
    omega
  have hagree := h calls hlength hcalls.begins
  have hother := hcalls.same ⟨tape, b, sb⟩ rfl hagree
  rw [hend] at hother
  have hsame := hsofar.made hmade ((hagree.answers hcalls.answers).made.withTape t.tape)
  have hback := (settle_eq_some_iff _ _).2 ⟨r, _, hother, rfl⟩
  exact ⟨_, (run_new n tape b code token sb).trans hback, rfl, rfl, rfl, hsame.out, hsame.consumed, hsame.trace⟩

/-- the same for a run that comes back after any number of steps -/
theorem returns_of_answeredAlike {code : Code} {tape : Tape} {a b : Streams} {sa sb : Signals} {token : Token} {k : Nat}
    (hsofar : a.SameSoFar b) (h : (Walk.start code ⟨tape, a, sa⟩).AnsweredAlike token ⟨tape, b, sb⟩ k) {f : Finished}
    (hf : (new tape a).Returns code token sa f) (hk : f.interpreter.streams.trace.size ≤ a.trace.size + k) :
    ∃ g, (new tape b).Returns code token sb g ∧ f.SameEnd g := by
  obtain ⟨n, hn⟩ := hf
  obtain ⟨g, hg, hsame⟩ := run_of_answeredAlike hsofar h hn hk
  exact ⟨g, ⟨n, hg⟩, hsame⟩

/-- **What a run does depends on the answers that it has been given.** Take two runs of a program on the same tape, and
any streams and signals that answer its first `k` calls alike and raise the signal alike by then. They make the same
calls with the same answers up to the `k`-th, and behind them both ask for the same call or neither for any; if one of
them comes back after no more calls than these, so does the other, and both end in the same way.

In particular a run does not depend on input that it has not read: put anything else in its place, and after so many
steps the walk is where it was, with what was put there still to be read. And a program without reads does the same
whatever its input is, makes no call for a byte, and consumes nothing. -/
theorem run_depends_on_answers (code : Code) (tape : Tape) (token : Token) :
    (∀ (a b : Streams) (sa sb : Signals) (k : Nat), a.SameSoFar b →
      let w := Walk.start code ⟨tape, a, sa⟩
      let v := Walk.start code ⟨tape, b, sb⟩
      w.AnsweredAlike token v.store k →
        (∀ calls, calls.length ≤ k → (w.Begins token calls ↔ v.Begins token calls)) ∧
          (∀ calls asked, calls.length ≤ k → ((∃ c, c.asked = asked ∧ w.Begins token (calls ++ [c])) ↔
            ∃ d, d.asked = asked ∧ v.Begins token (calls ++ [d]))) ∧
          (∀ f, (new tape a).Returns code token sa f → f.interpreter.streams.trace.size ≤ a.trace.size + k →
            ∃ g, (new tape b).Returns code token sb g ∧ f.SameEnd g) ∧
          ∀ g, (new tape b).Returns code token sb g → g.interpreter.streams.trace.size ≤ b.trace.size + k →
            ∃ f, (new tape a).Returns code token sa f ∧ g.SameEnd f) ∧
    (∀ (a : Streams) (signals : Signals) (n : Nat) (x y : Script), a.script = x ++ y →
      let w := Walk.start code ⟨tape, a, signals⟩
      (w.after token n).store.streams.script = y → (y = [] → .read .ended ∉ w.callsIn token n) →
        ∀ z, (Walk.start code ⟨tape, { a with script := x ++ z }, signals⟩).after token n =
          (w.after token n).withScript z) ∧
    (.op .read ∉ code.symbols → ∀ (a : Streams) (signals : Signals) (n : Nat),
      let w := Walk.start code ⟨tape, a, signals⟩
      (∀ c ∈ w.callsIn token n, c.kind ≠ .read) ∧ (w.after token n).store.streams.consumed = a.consumed ∧
        ∀ script reads, (Walk.start code ⟨tape, { a with script := script, reads := reads }, signals⟩).after token n =
          (w.after token n).withInput script reads) := by
  refine ⟨?_, ?_, ?_⟩
  · intro a b sa sb k hsofar w v h
    have hback : v.AnsweredAlike token w.store k := h.symm rfl
    exact ⟨fun calls hk => h.begins_iff rfl hk, fun calls asked hk => h.next_iff rfl hk asked,
      fun f hf hk => returns_of_answeredAlike hsofar h hf hk,
      fun g hg hk => returns_of_answeredAlike hsofar.symm hback hg hk⟩
  · intro a signals n x y hscript w hleft hend z
    exact Walk.after_withScript (w := w) hscript hleft hend z
  · intro hnone a signals n w
    have hlacks : w.Lacks .read := ⟨hnone, List.forall_mem_nil _⟩
    refine ⟨fun c hc hread => Walk.callsIn_kind hlacks rfl n c hc (by rw [hread]; rfl), ?_⟩
    exact Walk.after_withInput hlacks rfl n

/-- one input holds a byte more, the other fails in its place and raises the signal there: the first program does not
come to know, nor does it matter to it what else stands there; the second program knows nothing of either input -/
theorem run_depends_on_answers_first_byte :
    let code : Code := .op .read (.op .print .nil)
    let silent : Code := .op .incr (.op .print .nil)
    let a : Streams := { script := [.byte 65, .byte 66] }
    let b : Streams := { script := [.byte 65, .failed { kind := .other }],
                         reads := { alarms := [(1, "stop")] }, alarmed := some ⟨0⟩ }
    let w := Walk.start code ⟨.blank, a, ⟨#[none]⟩⟩
    let calls : List Call := [.read (.byte 65), .write 65 .accepted, .flush .done]
    w.AnsweredAlike ⟨0⟩ ⟨.blank, b, ⟨#[none]⟩⟩ 3 ∧ w.Begins ⟨0⟩ calls ∧
      (Walk.start code ⟨.blank, b, ⟨#[none]⟩⟩).Begins ⟨0⟩ calls ∧
      (∃ f g, (new .blank a).Returns code ⟨0⟩ ⟨#[none]⟩ f ∧ (new .blank b).Returns code ⟨0⟩ ⟨#[none]⟩ g ∧
        f.SameEnd g ∧ g.interpreter.streams.out = #[65]) ∧
      (∀ z, (Walk.start code ⟨.blank, { a with script := .byte 65 :: z }, ⟨#[none]⟩⟩).after ⟨0⟩ 3 =
        (w.after ⟨0⟩ 3).withScript z) ∧
      ∀ script reads, (Walk.start silent ⟨.blank, { a with script := script, reads := reads }, ⟨#[none]⟩⟩).after ⟨0⟩ 3 =
        ((Walk.start silent ⟨.blank, a, ⟨#[none]⟩⟩).after ⟨0⟩ 3).withInput script reads := by
  intro code silent a b w calls
  have htrace : (w.after ⟨0⟩ 3).store.trace = calls := by decide +kernel
  have hbegins : w.Begins ⟨0⟩ calls := ⟨3, by rw [htrace]; exact List.prefix_refl _⟩
  have halike : w.AnsweredAlike ⟨0⟩ ⟨.blank, b, ⟨#[none]⟩⟩ 3 :=
    Walk.answeredAlike_of_begins hbegins ⟨rfl, rfl, rfl, rfl, rfl, rfl, rfl⟩
  obtain ⟨hanswers, hunread, -⟩ := run_depends_on_answers code .blank ⟨0⟩
  obtain ⟨hcalls, -, hreturns, -⟩ := hanswers a b ⟨#[none]⟩ ⟨#[none]⟩ 3 ⟨rfl, rfl, rfl⟩ halike
  obtain ⟨-, -, hsilent⟩ := run_depends_on_answers silent .blank ⟨0⟩
  have hrun : (match (new .blank a).run 3 code ⟨0⟩ ⟨#[none]⟩ with
      | some f => f.interpreter.streams.out == #[65] && f.interpreter.streams.trace.size == 3
      | none => false) = true := by
    decide +kernel
  have hleft : (w.after ⟨0⟩ 3).store.streams.script = [.byte 66] := by decide +kernel
  refine ⟨halike, hbegins, (hcalls calls (by decide)).1 hbegins, ?_, ?_, ?_⟩
  · split at hrun
    · next f hf =>
      rw [Bool.and_eq_true] at hrun
      obtain ⟨g, hg, hsame⟩ := hreturns f ⟨3, hf⟩ (by rw [eq_of_beq hrun.2]; decide)
      exact ⟨f, g, ⟨3, hf⟩, hg, hsame, hsame.out.symm.trans (eq_of_beq hrun.1)⟩
    · cases hrun
  · exact hunread a ⟨#[none]⟩ 3 [.byte 65] [.byte 66] rfl hleft (by simp)
  · exact (hsilent (by decide) a ⟨#[none]⟩ 3).2.2

end Interpreter

end RingTape
