/-
The walk over the tree and the flat machine on the text go in step. A point of the walk is a sequence inside the loops
of its frames; it is a position in the text, the one at which the symbols of that sequence begin.

- `opens_symbols`, `closes_take_le`, `opens_take_le`: the brackets of a program match, no part of it closes more than it
  opens, and none leaves more loops open than the program is nested deep
- `past_eq`, `back_eq`: the jumps of the flat machine lead behind the loop and to the start of its body
- `Position`: the position that belongs to a point of the walk
- `Matches.step`: one step of both keeps walk and machine at the same point, with the same store
- `run_iff_flat_ends`: a parsed program runs as the flat machine does on the instructions of its source
-/
import RingTape.Flat
import RingTape.Proofs.Rendering
import RingTape.Proofs.Runs

namespace RingTape

/-! ## Brackets of a program -/

namespace Code

theorem opens_symbols (c : Code) : c.symbols.count .opens = c.symbols.count .closes := by
  induction c with
  | nil => rfl
  | op o rest ih => simpa [symbols] using ih
  | loop body rest ihb ihr =>
    simp [symbols, List.count_append]
    omega

theorem closes_take_le (c : Code) (n : Nat) :
    (c.symbols.take n).count .closes ≤ (c.symbols.take n).count .opens := by
  induction c generalizing n with
  | nil => simp [symbols]
  | op o rest ih =>
    cases n with
    | zero => simp
    | succ n => simpa [symbols] using ih n
  | loop body rest ihb ihr =>
    cases n with
    | zero => simp
    | succ n =>
      have hb := ihb n
      have htotal := body.opens_symbols
      rw [symbols, List.take_succ_cons, List.take_append, List.count_cons, List.count_cons, List.count_append,
        List.count_append]
      by_cases hn : n ≤ body.symbols.length
      · have : n - body.symbols.length = 0 := by omega
        rw [this]
        simp
        omega
      · obtain ⟨m, hm⟩ : ∃ m, n - body.symbols.length = m + 1 := ⟨n - body.symbols.length - 1, by omega⟩
        have hr := ihr m
        rw [hm, List.take_succ_cons, List.take_of_length_le (by omega)]
        simp
        omega

/-- a part of a program never leaves more loops open than the program is nested deep -/
theorem opens_take_le (c : Code) (n : Nat) :
    (c.symbols.take n).count .opens ≤ (c.symbols.take n).count .closes + c.nesting := by
  induction c generalizing n with
  | nil => simp [symbols]
  | op o rest ih =>
    cases n with
    | zero => simp
    | succ n => simpa [symbols, nesting] using ih n
  | loop body rest ihb ihr =>
    cases n with
    | zero => simp
    | succ n =>
      have hb := ihb n
      have htotal := body.opens_symbols
      have hbody : body.nesting + 1 ≤ (loop body rest).nesting := Nat.le_max_left _ _
      have hrest : rest.nesting ≤ (loop body rest).nesting := Nat.le_max_right _ _
      rw [symbols, List.take_succ_cons, List.take_append, List.count_cons, List.count_cons, List.count_append,
        List.count_append]
      by_cases hn : n ≤ body.symbols.length
      · rw [Nat.sub_eq_zero_of_le hn]
        simp
        omega
      · obtain ⟨m, hm⟩ := Nat.exists_eq_add_of_lt (Nat.lt_of_not_le hn)
        have hr := ihr m
        rw [show n - body.symbols.length = m + 1 by omega, List.take_succ_cons, List.take_of_length_le (by omega)]
        simp
        omega

end Code

/-! ## The jumps -/

namespace Flat

/-- the last number below a bound that has a property is found by going down from the bound -/
theorem find?_reverse_range {P : Nat → Bool} {i n : Nat} (hi : i < n) (hP : P i)
    (hlater : ∀ j, i < j → j < n → ¬ P j) : (List.range n).reverse.find? P = some i := by
  induction n with
  | zero => omega
  | succ n ih =>
    rw [List.range_succ, List.reverse_append, List.reverse_singleton, List.singleton_append, List.find?_cons]
    by_cases hn : i = n
    · subst hn
      rw [hP]
    · have hnot := hlater n (by omega) (by omega)
      rw [Bool.eq_false_iff.2 hnot]
      exact ih (by omega) fun j hij hjn => hlater j hij (by omega)

/-- a text with a loop in it: what stands before the loop leaves `d` loops open -/
structure LoopAt (p : List Symbol) (front : List Symbol) (body : Code) (back : List Symbol) (d : Nat) : Prop where
  text : p = front ++ .opens :: (body.symbols ++ .closes :: back)
  open_ : front.count .opens = front.count .closes + d

variable {p front back : List Symbol} {body : Code} {d : Nat}

theorem depth_front (h : LoopAt p front body back d) : depth p front.length = d := by
  have := h.open_
  rw [depth, h.text, List.take_left]
  omega

/-- inside the loop there is always one loop more around a position than before it -/
theorem lt_depth_inside (h : LoopAt p front body back d) (n : Nat) (hn : n ≤ body.symbols.length) :
    d < depth p (front.length + 1 + n) := by
  have hopen := h.open_
  have hbody := body.closes_take_le n
  rw [depth, h.text, Nat.add_assoc, List.take_length_add_append, Nat.add_comm 1 n, List.take_succ_cons,
    List.take_append_of_le_length hn]
  simp
  omega

theorem depth_inside_end (h : LoopAt p front body back d) :
    depth p (front.length + 1 + body.symbols.length) = d + 1 := by
  have hopen := h.open_
  have htotal := body.opens_symbols
  rw [depth, h.text, Nat.add_assoc, List.take_length_add_append, Nat.add_comm 1, List.take_succ_cons,
    List.take_left]
  simp
  omega

theorem depth_behind (h : LoopAt p front body back d) :
    depth p (front.length + 1 + body.symbols.length + 1) = d := by
  have hopen := h.open_
  have htotal := body.opens_symbols
  have hlen : front.length + 1 + body.symbols.length + 1 = front.length + (body.symbols.length + 1 + 1) := by omega
  rw [depth, h.text, hlen, List.take_length_add_append, List.take_succ_cons, List.take_length_add_append]
  simp
  omega

/-- the jump over a loop leads just behind it -/
theorem past_eq (h : LoopAt p front body back d) :
    past p front.length = front.length + 1 + body.symbols.length + 1 := by
  have hlen := congrArg List.length h.text
  simp only [List.length_append, List.length_cons] at hlen
  have hfind : (List.range' (front.length + 1) (p.length - front.length)).find?
      (fun j => depth p j ≤ depth p front.length) = some (front.length + 1 + body.symbols.length + 1) := by
    rw [List.find?_range'_eq_some, depth_front h, depth_behind h]
    refine ⟨by simp, List.mem_range'_1.2 ⟨by omega, by omega⟩, fun j hj hj' => ?_⟩
    have := lt_depth_inside h (j - (front.length + 1)) (by omega)
    rw [show front.length + 1 + (j - (front.length + 1)) = j by omega] at this
    simpa using this
  rw [past, hfind]
  rfl

/-- the jump back from the end of a loop leads to the start of its body -/
theorem back_eq (h : LoopAt p front body back d) :
    Flat.back p (front.length + 1 + body.symbols.length) = front.length + 1 := by
  have hfind : (List.range (front.length + 1 + body.symbols.length)).reverse.find?
      (fun i => depth p i < depth p (front.length + 1 + body.symbols.length)) = some front.length := by
    rw [depth_inside_end h]
    refine find?_reverse_range (by omega) (by simp [depth_front h]) fun j hj hj' => ?_
    have := lt_depth_inside h (j - (front.length + 1)) (by omega)
    rw [show front.length + 1 + (j - (front.length + 1)) = j by omega] at this
    simp
    omega
  rw [Flat.back, hfind]
  rfl

end Flat

/-! ## Points of the walk and positions in the text -/

/-- the symbols that follow the sequence in hand: the end of each loop around it, and what comes after that loop -/
def Frame.following : List Frame → List Symbol
  | [] => []
  | f :: frames => .closes :: (f.rest.symbols ++ following frames)

/-- the position at which the symbols of a sequence begin, inside the loops of the frames -/
inductive Position (whole : Code) : Code → List Frame → Nat → Prop
  | outside (done code : Code) (h : whole = done ++ code) : Position whole code [] done.symbols.length
  | inside {f : Frame} {frames : List Frame} {k : Nat} (done code : Code)
      (hk : Position whole (.loop f.body f.rest) frames k) (h : f.body = done ++ code) :
      Position whole code (f :: frames) (k + 1 + done.symbols.length)

namespace Position

variable {whole code body rest : Code} {frames : List Frame} {f : Frame} {i : Nat}

/-- what the text holds at a place: the symbols of the sequence, and as many open loops before it as there are frames -/
theorem text (h : Position whole code frames i) :
    ∃ front, whole.symbols = front ++ (code.symbols ++ Frame.following frames) ∧ front.length = i ∧
      front.count .opens = front.count .closes + frames.length := by
  induction h with
  | outside done code h =>
    refine ⟨done.symbols, ?_, rfl, by simpa using done.opens_symbols⟩
    simp [h, Frame.following]
  | @inside f frames k done code hk h ih =>
    obtain ⟨front, htext, hlen, hopen⟩ := ih
    have htotal := done.opens_symbols
    refine ⟨front ++ .opens :: done.symbols, ?_, ?_, ?_⟩
    · simp [htext, Code.symbols, h, Frame.following]
    · simp only [List.length_append, List.length_cons]
      omega
    · simp
      omega

theorem depth_eq (h : Position whole code frames i) : Flat.depth whole.symbols i = frames.length := by
  obtain ⟨front, htext, rfl, hopen⟩ := h.text
  rw [Flat.depth, htext, List.take_left]
  omega

/-- the symbol at a place is the first one of the sequence, or else the end of the innermost loop -/
theorem getElem?_eq (h : Position whole code frames i) :
    whole.symbols[i]? = (code.symbols ++ Frame.following frames)[0]? := by
  obtain ⟨front, htext, rfl, -⟩ := h.text
  rw [htext, List.getElem?_append_right (Nat.le_refl _), Nat.sub_self]

/-- the place of a loop is the position of a loop in the text -/
theorem loopAt (h : Position whole (.loop body rest) frames i) :
    ∃ front back, Flat.LoopAt whole.symbols front body back frames.length ∧ front.length = i := by
  obtain ⟨front, htext, hlen, hopen⟩ := h.text
  refine ⟨front, rest.symbols ++ Frame.following frames, ⟨?_, hopen⟩, hlen⟩
  simp [htext, Code.symbols]

/-- behind a part of the sequence stands the rest of it -/
theorem advance (d : Code) (h : Position whole (d ++ code) frames i) :
    Position whole code frames (i + d.symbols.length) := by
  generalize hc : d ++ code = both at h
  cases h with
  | outside done _ h =>
    have hmore : whole = done ++ d ++ code := by rw [h, Code.append_assoc, hc]
    simpa using Position.outside (done ++ d) code hmore
  | inside done _ hk h =>
    rename_i f frames k
    have hmore : f.body = done ++ d ++ code := by rw [h, Code.append_assoc, hc]
    simpa [Nat.add_assoc] using Position.inside (done ++ d) code hk hmore

theorem op {o : Op} (h : Position whole (.op o rest) frames i) : Position whole rest frames (i + 1) :=
  advance (.op o .nil) h

/-- behind the bracket that closes a loop -/
theorem past (h : Position whole (.loop body rest) frames i) :
    Position whole rest frames (Flat.past whole.symbols i) := by
  obtain ⟨front, back, hloop, rfl⟩ := h.loopAt
  have hlen : (Code.loop body .nil).symbols.length = 1 + body.symbols.length + 1 := by
    simp [Code.symbols]
    omega
  have hadv := advance (.loop body .nil) h
  rw [hlen, ← Nat.add_assoc, ← Nat.add_assoc] at hadv
  rwa [Flat.past_eq hloop]

/-- at the start of a loop's body -/
theorem enter (h : Position whole (.loop body rest) frames i) : Position whole body (⟨body, rest⟩ :: frames) (i + 1) :=
  Position.inside .nil body h rfl

/-- at the end of a loop's body the position is that of the closing bracket, with the loop itself some way before it -/
theorem leave (h : Position whole .nil (f :: frames) i) :
    ∃ k, Position whole (.loop f.body f.rest) frames k ∧ i = k + 1 + f.body.symbols.length := by
  cases h with
  | inside done _ hk h =>
    rw [Code.append_nil] at h
    exact ⟨_, hk, by rw [h]⟩

theorem again (h : Position whole .nil (f :: frames) i) :
    Position whole f.body (f :: frames) (Flat.back whole.symbols i) := by
  obtain ⟨k, hk, rfl⟩ := h.leave
  obtain ⟨front, back, hloop, rfl⟩ := hk.loopAt
  rw [Flat.back_eq hloop]
  exact hk.enter

theorem behind (h : Position whole .nil (f :: frames) i) : Position whole f.rest frames (i + 1) := by
  obtain ⟨k, hk, rfl⟩ := h.leave
  obtain ⟨front, back, hloop, rfl⟩ := hk.loopAt
  rw [← Flat.past_eq hloop]
  exact hk.past

end Position

/-! ## In step -/

/-- walk and machine stand at the same point with the same store, or have ended in the same way -/
inductive Matches (whole : Code) : Walk → Flat → Prop
  | going {code : Code} {frames : List Frame} {i : Nat} (h : Position whole code frames i) (s : Store) :
      Matches whole (.going code frames s) (.going i s)
  | ended (r : Except RunError Unit) (s : Store) : Matches whole (.ended r s) (.ended r s)

namespace Matches

variable {whole code body rest : Code} {frames : List Frame} {f : Frame} {i : Nat}

/-- both look at the signal before they go on -/
theorem checked {w : Walk} {m : Flat} (token : Token) (s : Store) (h : Matches whole w m) :
    Matches whole
      (match s.signals.reason? token with
        | some why => .ended (.error (.cancelled why)) s
        | none => w)
      (Flat.unlessRaised token s m) := by
  rw [Flat.unlessRaised]
  cases s.signals.reason? token with
  | none => exact h
  | some why => exact .ended _ s

theorem perform_op {o : Op} (token : Token) (s : Store) (h : Position whole (.op o rest) frames i) :
    Matches whole (Walk.perform o rest frames s) (Flat.perform whole.symbols token i s (.op o)) := by
  rw [Walk.perform, Flat.perform]
  rcases o.act s with ⟨_ | _, t⟩
  · exact .ended _ t
  · exact .going h.op t

theorem perform_opens (token : Token) (s : Store) (h : Position whole (.loop body rest) frames i) :
    Matches whole (Walk.test token body rest frames s) (Flat.perform whole.symbols token i s .opens) := by
  rw [Walk.test, Flat.perform]
  split
  · exact .going h.past s
  · exact checked token s (.going h.enter s)

theorem perform_closes (token : Token) (s : Store) (h : Position whole .nil (f :: frames) i) :
    Matches whole (Walk.test token f.body f.rest frames s) (Flat.perform whole.symbols token i s .closes) := by
  rw [Walk.test, Flat.perform]
  split
  · exact .going h.behind s
  · exact checked token s (.going h.again s)

/-- **One step.** Walk and machine at the same point are at the same point one step later. -/
theorem step (token : Token) {w : Walk} {m : Flat} (h : Matches whole w m) :
    Matches whole (w.step token) (m.step whole.symbols token) := by
  cases h with
  | ended r s => exact .ended r s
  | @going code frames i h s =>
    have hget := h.getElem?_eq
    have hdepth := h.depth_eq
    rw [Flat.step, hget]
    -- the machine is outside all loops exactly when the walk has no frame
    cases frames with
    | nil =>
      cases code with
      | nil => exact .ended _ s
      | op o rest =>
        simp only [Code.symbols, List.cons_append, List.getElem?_cons_zero, hdepth, List.length_nil, if_pos]
        exact checked token s (perform_op token s h)
      | loop body rest =>
        simp only [Code.symbols, List.cons_append, List.getElem?_cons_zero, hdepth, List.length_nil, if_pos]
        exact checked token s (perform_opens token s h)
    | cons f frames =>
      have hin : Flat.depth whole.symbols i ≠ 0 := by rw [hdepth]; simp
      cases code with
      | nil =>
        simp only [Code.symbols, Frame.following, List.nil_append, List.getElem?_cons_zero, if_neg hin]
        exact perform_closes token s h
      | op o rest =>
        simp only [Code.symbols, List.cons_append, List.getElem?_cons_zero, if_neg hin]
        exact perform_op token s h
      | loop body rest =>
        simp only [Code.symbols, List.cons_append, List.getElem?_cons_zero, if_neg hin]
        exact perform_opens token s h

theorem start (code : Code) (s : Store) : Matches code (Walk.start code s) (Flat.start s) :=
  .going (Position.outside .nil code rfl) s

/-- **Every number of steps.** The two stay at the same point however long they go on. -/
theorem after (token : Token) (n : Nat) {w : Walk} {m : Flat} (h : Matches whole w m) :
    Matches whole (w.after token n) (m.after whole.symbols token n) :=
  repeat_related (fun _ _ => step token) h n

theorem ends_iff (token : Token) {w : Walk} {m : Flat} (h : Matches whole w m) (r : Except RunError Unit)
    (t : Store) : w.Ends token r t ↔ m.Ends whole.symbols token r t := by
  constructor
  · rintro ⟨n, hn⟩
    have := h.after token n
    rw [hn] at this
    refine ⟨n, ?_⟩
    generalize m.after whole.symbols token n = m' at this
    cases this
    rfl
  · rintro ⟨n, hn⟩
    have := h.after token n
    rw [hn] at this
    refine ⟨n, ?_⟩
    generalize w.after token n = w' at this
    cases this
    rfl

end Matches

/-- the store of the flat machine at the point reached -/
def Flat.store : Flat → Store
  | .going _ s => s
  | .ended _ s => s

theorem Matches.store_eq {whole : Code} {w : Walk} {m : Flat} (h : Matches whole w m) : w.store = m.store := by
  cases h <;> rfl

/-- **Running a parsed program is running the flat machine on its text.** On every tape and every pair of streams and
under every set of signals, the run of the program comes back if and only if the flat machine on the instructions of
the source comes to an end, and then with the same result, tape, streams and signals. Step by step both have made the
same calls, also when neither ever ends. -/
theorem run_iff_flat_ends {source : Script} {code : Code} (h : Code.parse source = .ok code) (tape : Tape)
    (streams : Streams) (signals : Signals) (token : Token) :
    (∀ f, (Interpreter.new tape streams).Returns code token signals f ↔
      ∃ r t, (Flat.start ⟨tape, streams, signals⟩).Ends (instructions source.data) token r t ∧
        f = .ofEnd r t) ∧
    (∀ n, ((Walk.start code ⟨tape, streams, signals⟩).after token n).store =
      ((Flat.start ⟨tape, streams, signals⟩).after (instructions source.data) token n).store) := by
  obtain ⟨-, -, hsym⟩ := (Code.parse_eq_ok_iff_symbols source code).1 h
  have hstart := Matches.start code ⟨tape, streams, signals⟩
  rw [← hsym]
  refine ⟨?_, fun n => (hstart.after token n).store_eq⟩
  intro f
  rw [Interpreter.returns_new_iff]
  constructor
  · rintro ⟨r, t, hend, rfl⟩
    exact ⟨r, t, (hstart.ends_iff token r t).1 hend, rfl⟩
  · rintro ⟨r, t, hend, rfl⟩
    exact ⟨r, t, (hstart.ends_iff token r t).2 hend, rfl⟩

/-- a program with a loop inside a loop, which writes the byte it has read, carries it to the last cell and writes it
again from there -/
theorem run_iff_flat_ends_countdown :
    let source := Script.ofBytes [0x2b, 0x5b, 0x2c, 0x2e, 0x5b, 0x2d, 0x3c, 0x2b, 0x3e, 0x5d, 0x5d, 0x3c, 0x2e]
    let carrying : Code := .op .decr (.op .prev (.op .incr (.op .next .nil)))
    let code : Code := .op .incr (.loop (.op .read (.op .print (.loop carrying .nil))) (.op .prev (.op .print .nil)))
    let streams : Streams := { script := [.byte 2] }
    let calls : Array Call := #[.read (.byte 2), .write 2 .accepted, .flush .done, .write 2 .accepted, .flush .done]
    Code.parse source = .ok code ∧
      ∃ t, (Flat.start ⟨.blank, streams, {}⟩).Ends (instructions source.data) ⟨0⟩ (.ok ()) t ∧
        (Interpreter.new .blank streams).Returns code ⟨0⟩ {} (.ofEnd (.ok ()) t) ∧
        t.streams.trace = calls ∧ t.tape.pointer = 255 ∧ t.tape.nonzero = [(255, 2)] := by
  intro source carrying code streams calls
  have hparse : Code.parse source = .ok code :=
    (Code.parse_eq_ok_iff_symbols source code).2 ⟨by decide, by decide, by decide⟩
  have hrun : (match (Flat.start ⟨.blank, streams, {}⟩).after (instructions source.data) ⟨0⟩ 19 with
      | .ended (.ok ()) t => t.streams.trace == calls && t.tape.pointer == 255 && t.tape.nonzero == [(255, 2)]
      | _ => false) = true := by
    decide +kernel
  split at hrun
  · next t hn =>
    have hend : (Flat.start ⟨.blank, streams, {}⟩).Ends (instructions source.data) ⟨0⟩ (.ok ()) t := ⟨19, hn⟩
    simp only [Bool.and_eq_true, beq_iff_eq] at hrun
    obtain ⟨⟨htrace, hpointer⟩, hcells⟩ := hrun
    have hreturns := ((run_iff_flat_ends hparse .blank streams {} ⟨0⟩).1 _).2 ⟨_, t, hend, rfl⟩
    exact ⟨hparse, t, hend, hreturns, htrace, hpointer, hcells⟩
  · cases hrun

end RingTape
