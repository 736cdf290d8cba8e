/-
Loops that multiply. A loop around instructions that make no calls and bring the pointer back to where it was does the
same to the ring in each iteration: it adds a fixed amount to each cell, told by its distance from the pointer. So the
number of iterations is the least one that brings the cell under the pointer to zero, and there may be none.

- `Op.moves`, `Op.adds`, `displacement`, `netChange`: what a sequence of such instructions comes to
- `Tape.plus`: amounts added to all cells, by their distance from the pointer
- `Walk.beginsIteration`, `Walk.iterations`: the iterations of loops that a walk begins
- `Walk.Stretch`: a part of a walk that stays inside a loop
- `stretch_straight`: a walk over the instructions of a body
- `stretch_rounds`: one iteration after another, as long as the cell is not zero at the tests
- `Walk.Passes`: the walk comes past a loop
- `balanced_loop`: where a loop comes to its end, after how many iterations, and what it has done to the ring
-/
import Mathlib.Data.Int.GCD
import Mathlib.Data.Nat.Find
import Mathlib.Data.Nat.Prime.Basic
import RingTape.Proofs.Compositionality

namespace RingTape

/-! ## Sequences of instructions -/

/-- how far an instruction moves the pointer -/
def Op.moves (o : Op) : UInt8 :=
  match o.turns? with
  | some (.pointer, k) => k
  | _ => 0

/-- how much an instruction adds to the cell under the pointer -/
def Op.adds (o : Op) : UInt8 :=
  match o.turns? with
  | some (.cell, k) => k
  | _ => 0

/-- how far a sequence of instructions moves the pointer -/
def displacement : List Op → UInt8
  | [] => 0
  | o :: rest => o.moves + displacement rest

/-- how much a sequence of instructions adds to the cell at a distance from where it starts -/
def netChange : List Op → UInt8 → UInt8
  | [], _ => 0
  | o :: rest, j => (if j = 0 then o.adds else 0) + netChange rest (j - o.moves)

/-- a program without loops -/
def Code.straight : List Op → Code
  | [] => .nil
  | o :: rest => .op o (straight rest)

namespace Tape

variable (t : Tape)

/-- the tape with an amount added to each cell, told by the distance of the cell from the pointer -/
def plus (change : UInt8 → UInt8) : Tape :=
  { t with cells := t.cells.mapIdx fun i v => v + change (UInt8.ofNat i - t.pointer) }

@[simp] theorem pointer_plus (change : UInt8 → UInt8) : (t.plus change).pointer = t.pointer := rfl

theorem cell_plus (change : UInt8 → UInt8) (i : UInt8) :
    (t.plus change).cell i = t.cell i + change (i - t.pointer) := by
  rw [cell_eq_getElem _ _ i.toNat_lt, cell_eq_getElem _ _ i.toNat_lt]
  simp [plus]

@[simp] theorem cell_turned_pointer (k i : UInt8) : (t.turned k .pointer).cell i = t.cell i := rfl

@[simp] theorem pointer_turned_pointer (k : UInt8) : (t.turned k .pointer).pointer = t.pointer + k := rfl

theorem plus_zero : (t.plus fun _ => 0) = t := by
  apply ext_cell
  · intro i
    simp [cell_plus]
  · rfl

theorem plus_plus (a b : UInt8 → UInt8) : (t.plus a).plus b = t.plus fun j => a j + b j := by
  apply ext_cell
  · intro i
    simp [cell_plus, UInt8.add_assoc]
  · rfl

/-- amounts are added before or behind a move, at distances that differ by it -/
theorem plus_turned (k : UInt8) (b : UInt8 → UInt8) :
    (t.turned k .pointer).plus b = (t.plus fun j => b (j - k)).turned k .pointer := by
  apply ext_cell
  · intro i
    have hdistance : i - (t.pointer + k) = i - t.pointer - k := by grind
    simp [cell_plus, hdistance]
  · rfl

theorem turned_cell (k : UInt8) : t.turned k .cell = t.plus fun j => if j = 0 then k else 0 := by
  apply ext_cell
  · intro i
    have hhere : i - t.pointer = 0 ↔ i = t.pointer := by grind
    rw [turned, cell_put, cell_plus]
    by_cases h : i = t.pointer
    · rw [if_pos h, if_pos (hhere.2 h), h, current]
    · rw [if_neg h, if_neg fun h' => h (hhere.1 h'), UInt8.add_zero]
  · rfl

end Tape

/-- an instruction that makes no calls adds to the cell under the pointer and moves the pointer -/
theorem Op.act_of_mem {o : Op} (ho : o ∈ [.incr, .decr, .next, .prev]) (s : Store) :
    o.act s = (.ok (),
      { s with tape := (s.tape.plus fun j => if j = 0 then o.adds else 0).turned o.moves .pointer }) := by
  obtain ⟨d, k, hturns⟩ := Code.Vain.turns_of_round ho
  obtain ⟨hsilent, hstore⟩ := act_of_turns hturns s
  obtain ⟨hok, -⟩ := act_silent hsilent s
  refine Prod.ext hok (hstore.trans ?_)
  cases d with
  | cell => simp [moves, adds, hturns, Tape.turned_cell, Tape.turned_zero]
  | pointer => simp [moves, adds, hturns, Tape.plus_zero]

/-- the store with its tape after so many iterations of a loop that adds these amounts in each of them -/
def Store.multiplied (s : Store) (change : UInt8 → UInt8) (n : Nat) : Store :=
  { s with tape := s.tape.plus fun j => UInt8.ofNat n * change j }

namespace Store

variable (s : Store) (change : UInt8 → UInt8) (n : Nat)

theorem current_multiplied : (s.multiplied change n).current = s.current + UInt8.ofNat n * change 0 := by
  simp [multiplied, current, Tape.current, Tape.cell_plus]

theorem multiplied_zero : s.multiplied change 0 = s := by
  simp [multiplied, Tape.plus_zero]

/-- one iteration more -/
theorem multiplied_succ :
    { s.multiplied change n with tape := (s.multiplied change n).tape.plus change } = s.multiplied change (n + 1) := by
  have hchange : ∀ j, UInt8.ofNat n * change j + change j = UInt8.ofNat (n + 1) * change j := by
    intro j
    rw [UInt8.add_comm, Tape.turns_succ]
  simp only [multiplied, Tape.plus_plus, hchange]

end Store

namespace Walk

variable {token : Token}

/-! ## Iterations -/

/-- the next step begins an iteration of a loop -/
def beginsIteration (token : Token) : Walk → Bool
  | .going (.loop ..) _ s => s.current != 0 && (s.signals.reason? token).isNone
  | .going .nil (_ :: _) s => s.current != 0 && (s.signals.reason? token).isNone
  | _ => false

/-- the number of iterations of loops that are begun in so many steps -/
def iterations (token : Token) (w : Walk) : Nat → Nat
  | 0 => 0
  | n + 1 => (if w.beginsIteration token then 1 else 0) + iterations token (w.step token) n

theorem iterations_add (w : Walk) (m n : Nat) :
    w.iterations token (m + n) = w.iterations token m + (w.after token m).iterations token n := by
  induction m generalizing w with
  | zero => simp [iterations, after, Nat.repeat]
  | succ m ih =>
    rw [Nat.succ_add, iterations, iterations, ih, after_succ, Nat.add_assoc]

/-- the walk is in the body of a loop, outside the loops of the body -/
def InBody (f : Frame) (frames : List Frame) : Walk → Prop
  | .going _ around _ => around = f :: frames
  | .ended .. => False

/-- a part of a walk, so many steps long, that stays in the body of a loop and begins so many iterations -/
structure Stretch (token : Token) (f : Frame) (frames : List Frame) (w v : Walk) (steps iterations : Nat) : Prop where
  after : w.after token steps = v
  iterations : w.iterations token steps = iterations
  inside : ∀ k, 0 < k → k ≤ steps → (w.after token k).InBody f frames

namespace Stretch

variable {f : Frame} {frames : List Frame} {u v w : Walk} {k m n i j : Nat}

theorem refl (w : Walk) : Stretch token f frames w w 0 0 :=
  ⟨rfl, rfl, fun k hpos hk => by omega⟩

theorem single (hstep : w.step token = v) (hv : v.InBody f frames) :
    Stretch token f frames w v 1 (if w.beginsIteration token then 1 else 0) := by
  have hone : w.after token 1 = v := hstep
  refine ⟨hone, rfl, fun k hpos hk => ?_⟩
  obtain rfl : k = 1 := by omega
  rw [hone]
  exact hv

/-- one more iteration -/
theorem entered {s : Store} (hstep : w.step token = .going f.body (f :: frames) s)
    (hbegins : w.beginsIteration token = true) : Stretch token f frames w (.going f.body (f :: frames) s) 1 1 := by
  have hone := single hstep rfl
  rwa [if_pos hbegins] at hone

theorem trans (h : Stretch token f frames u v m i) (h' : Stretch token f frames v w n j) :
    Stretch token f frames u w (m + n) (i + j) := by
  refine ⟨?_, ?_, ?_⟩
  · rw [after_add, h.after, h'.after]
  · rw [iterations_add, h.after, h.iterations, h'.iterations]
  · intro k hpos hk
    by_cases hle : k ≤ m
    · exact h.inside k hpos hle
    · obtain ⟨l, rfl⟩ := Nat.exists_eq_add_of_le (Nat.le_of_not_le hle)
      rw [after_add, h.after]
      exact h'.inside l (by omega) (by omega)

end Stretch

/-! ## The body of a loop -/

/-- **The instructions of a body.** They begin no iteration, add to the cells what they come to, and move the pointer. -/
theorem stretch_straight {ops : List Op} (hops : ∀ o ∈ ops, o ∈ [.incr, .decr, .next, .prev]) (f : Frame)
    (frames : List Frame) (s : Store) :
    Stretch token f frames (.going (.straight ops) (f :: frames) s)
      (.going .nil (f :: frames)
        { s with tape := (s.tape.plus (netChange ops)).turned (displacement ops) .pointer }) ops.length 0 := by
  induction ops generalizing s with
  | nil =>
    have hsame : (s.tape.plus (netChange [])).turned (displacement []) .pointer = s.tape := by
      have hchange : netChange [] = fun _ => 0 := rfl
      rw [hchange, Tape.plus_zero, displacement, Tape.turned_zero]
    rw [hsame]
    exact .refl _
  | cons o rest ih =>
    have hact := Op.act_of_mem (hops o List.mem_cons_self) s
    have hrest := ih (fun p hp => hops p (List.mem_cons_of_mem o hp)) (o.act s).2
    have hstep : step token (.going (.straight (o :: rest)) (f :: frames) s) =
        .going (.straight rest) (f :: frames) (o.act s).2 := by
      simp only [Code.straight, step, perform, hact]
    have htape : (((o.act s).2.tape.plus (netChange rest)).turned (displacement rest) .pointer) =
        (s.tape.plus (netChange (o :: rest))).turned (displacement (o :: rest)) .pointer := by
      rw [hact, Tape.plus_turned, Tape.plus_plus, Tape.turned_turned]
      rfl
    rw [htape, hact] at hrest
    rw [hact] at hstep
    rw [List.length_cons, Nat.add_comm]
    exact (Stretch.single hstep rfl).trans hrest

/-! ## A loop and its iterations -/

variable {body : List Op} {rest : Code} {frames : List Frame} {s t : Store}

theorem step_loop {code : Code} (hs : s.signals.reason? token = none) :
    step token (.going (.loop code rest) frames s) = test token code rest frames s := by
  cases frames with
  | nil => simp only [step, hs]
  | cons f frames => rfl

/-- the walk comes past the loop that it stands in front of, after so many iterations, and is in its body until then -/
def Passes (token : Token) (body rest : Code) (frames : List Frame) (s t : Store) (n : Nat) : Prop :=
  ∃ m, (going (.loop body rest) frames s).after token m = .going rest frames t ∧
    (going (.loop body rest) frames s).iterations token m = n ∧
    ∀ k, 0 < k → k < m → ((going (.loop body rest) frames s).after token k).InBody ⟨body, rest⟩ frames

/-- **One iteration** on a ring to which some have added adds once more. -/
theorem stretch_iteration (hbody : ∀ o ∈ body, o ∈ [.incr, .decr, .next, .prev]) (hplace : displacement body = 0)
    (s : Store) (n : Nat) (f : Frame) (frames : List Frame) :
    Stretch token f frames (.going (.straight body) (f :: frames) (s.multiplied (netChange body) n))
      (.going .nil (f :: frames) (s.multiplied (netChange body) (n + 1))) body.length 0 := by
  have hadded : Stretch token _ _ _ _ _ _ := stretch_straight hbody f frames (s.multiplied (netChange body) n)
  rwa [hplace, Tape.turned_zero, Store.multiplied_succ] at hadded

/-- **One iteration after another.** As long as the cell is not zero at the tests, one more is begun. -/
theorem stretch_rounds (hbody : ∀ o ∈ body, o ∈ [.incr, .decr, .next, .prev]) (hplace : displacement body = 0)
    (hs : s.signals.reason? token = none) (n : Nat) (hcell : ∀ k ≤ n, (s.multiplied (netChange body) k).current ≠ 0) :
    Stretch token ⟨.straight body, rest⟩ frames (.going (.loop (.straight body) rest) frames s)
      (.going (.straight body) (⟨.straight body, rest⟩ :: frames) (s.multiplied (netChange body) n))
      (1 + n * (body.length + 1)) (n + 1) := by
  induction n with
  | zero =>
    have hfirst := hcell 0 (Nat.le_refl 0)
    rw [Store.multiplied_zero] at hfirst ⊢
    have hstep : step token (.going (.loop (.straight body) rest) frames s) =
        .going (.straight body) (⟨.straight body, rest⟩ :: frames) s :=
      (step_loop hs).trans (test_of_nonzero hfirst hs)
    have hbegins : beginsIteration token (.going (.loop (.straight body) rest) frames s) = true := by
      simp [beginsIteration, hs, hfirst]
    rw [Nat.zero_mul]
    exact Stretch.entered hstep hbegins
  | succ n ih =>
    have hnext := hcell (n + 1) (Nat.le_refl _)
    have hquiet : (s.multiplied (netChange body) (n + 1)).signals.reason? token = none := hs
    have hbefore := (ih fun k hk => hcell k (Nat.le_succ_of_le hk)).trans
      (stretch_iteration hbody hplace s n ⟨.straight body, rest⟩ frames)
    have hstep : step token (.going .nil (⟨.straight body, rest⟩ :: frames) (s.multiplied (netChange body) (n + 1))) =
        .going (.straight body) (⟨.straight body, rest⟩ :: frames) (s.multiplied (netChange body) (n + 1)) :=
      test_of_nonzero hnext hquiet
    have hbegins : beginsIteration token
        (.going .nil (⟨.straight body, rest⟩ :: frames) (s.multiplied (netChange body) (n + 1))) = true := by
      simp [beginsIteration, hquiet, hnext]
    have hsteps : 1 + n * (body.length + 1) + body.length + 1 = 1 + (n + 1) * (body.length + 1) := by
      rw [Nat.succ_mul]
      omega
    rw [← hsteps]
    exact hbefore.trans (Stretch.entered hstep hbegins)

/-- a zero cell at a test ends the loop -/
theorem passes_of_stretch {f : Frame} {w : Walk} {m n : Nat} (hw : w = .going (.loop f.body f.rest) frames s)
    (h : Stretch token f frames w (.going .nil (f :: frames) t) m n) (hzero : t.current = 0) :
    Passes token f.body f.rest frames s t n := by
  subst hw
  refine ⟨m + 1, ?_, ?_, fun k hpos hk => h.inside k hpos (by omega)⟩
  · rw [after_add, h.after]
    exact test_of_zero hzero
  · rw [iterations_add, h.after, h.iterations]
    simp [iterations, beginsIteration, hzero]

/-- **The end of a loop** comes at the first test that finds the cell zero. -/
theorem passes_of_least (hbody : ∀ o ∈ body, o ∈ [.incr, .decr, .next, .prev]) (hplace : displacement body = 0)
    (hs : s.signals.reason? token = none) {n : Nat} (hzero : (s.multiplied (netChange body) n).current = 0)
    (hleast : ∀ k < n, (s.multiplied (netChange body) k).current ≠ 0) :
    Passes token (.straight body) rest frames s (s.multiplied (netChange body) n) n := by
  cases n with
  | zero =>
    rw [Store.multiplied_zero] at hzero ⊢
    refine ⟨1, ?_, ?_, fun k hpos hk => by omega⟩
    · exact (step_loop hs).trans (test_of_zero hzero)
    · simp [iterations, beginsIteration, hzero]
  | succ n =>
    have hrounds := (stretch_rounds hbody hplace hs n fun k hk => hleast k (by omega)).trans
      (stretch_iteration hbody hplace s n ⟨.straight body, rest⟩ frames)
    exact passes_of_stretch rfl hrounds hzero

/-- **A loop without an end.** If no test finds the cell zero, the walk stays in the loop. -/
theorem inBody_of_nonzero (hbody : ∀ o ∈ body, o ∈ [.incr, .decr, .next, .prev]) (hplace : displacement body = 0)
    (hs : s.signals.reason? token = none) (hcell : ∀ k, (s.multiplied (netChange body) k).current ≠ 0) (k : Nat) :
    ((going (.loop (.straight body) rest) frames s).after token (k + 1)).InBody ⟨.straight body, rest⟩ frames := by
  have hlong : k + 1 ≤ 1 + k * (body.length + 1) := by
    have hle : k ≤ k * (body.length + 1) := Nat.le_mul_of_pos_right k (Nat.succ_pos _)
    omega
  exact (stretch_rounds hbody hplace hs k fun j _ => hcell j).inside (k + 1) (Nat.succ_pos k) hlong

end Walk

/-! ## When the cell comes to zero -/

/-- a cell is counted down to zero in as many iterations as its value says -/
theorem counted_down (v : UInt8) : v + UInt8.ofNat v.toNat * -1 = 0 ∧ ∀ k < v.toNat, v + UInt8.ofNat k * -1 ≠ 0 := by
  refine ⟨?_, ?_⟩
  · rw [UInt8.ofNat_toNat]
    grind
  · intro k hk hzero
    have hsame : UInt8.ofNat k = v := by grind
    have hlt : k < 256 := Nat.lt_trans hk v.toNat_lt
    rw [← hsame, UInt8.toNat_ofNat'] at hk
    omega

/-- an odd amount added often enough brings every cell to zero -/
theorem exists_zero_of_odd {d : UInt8} (hd : d.toNat % 2 = 1) (v : UInt8) : ∃ n, v + UInt8.ofNat n * d = 0 := by
  have hcoprime : Nat.Coprime d.toNat 256 := by
    have hodd : Nat.Coprime d.toNat 2 := Nat.coprime_two_right.2 (Nat.odd_iff.2 hd)
    exact Nat.Coprime.pow_right 8 hodd
  obtain ⟨m, -, hm⟩ := Nat.exists_mul_mod_eq_one_of_coprime hcoprime (by omega)
  have hinverse : d * UInt8.ofNat m = 1 := by
    apply UInt8.toNat_inj.1
    rw [UInt8.toNat_mul, UInt8.toNat_ofNat', Nat.mul_mod_mod]
    exact hm
  refine ⟨(-v * UInt8.ofNat m).toNat, ?_⟩
  calc v + UInt8.ofNat (-v * UInt8.ofNat m).toNat * d
      = v + -v * UInt8.ofNat m * d := by rw [UInt8.ofNat_toNat]
    _ = v + -v * (d * UInt8.ofNat m) := by rw [UInt8.mul_assoc, UInt8.mul_comm d]
    _ = v + -v := by rw [hinverse, UInt8.mul_one]
    _ = 0 := UInt8.add_right_neg v

namespace Walk

/-- **Balanced loops multiply.** Let the body of a loop be any sequence of the four instructions that make no calls, and
let it bring the pointer back. If so many times what the body adds to the cell under the pointer brings that cell to
zero, then, wherever the loop stands and the signal is not raised, the walk comes past the loop after the least such
number of iterations; the pointer is where it was, each cell has got so many times what the body adds to it, and no call
has been made. If there is no such number, the walk never leaves the loop. So a loop that takes one from the cell in each
iteration is passed after as many iterations as the value of the cell says, and one that adds an odd amount is always
passed. -/
theorem balanced_loop {body : List Op} (hbody : ∀ o ∈ body, o ∈ [.incr, .decr, .next, .prev])
    (hplace : displacement body = 0) (rest : Code) (frames : List Frame) (token : Token) (s : Store)
    (hs : s.signals.reason? token = none) :
    ((∃ n, s.current + UInt8.ofNat n * netChange body 0 = 0) →
      ∃ n t, s.current + UInt8.ofNat n * netChange body 0 = 0 ∧
        (∀ k < n, s.current + UInt8.ofNat k * netChange body 0 ≠ 0) ∧
        Passes token (.straight body) rest frames s t n ∧ t.tape.pointer = s.tape.pointer ∧
        (∀ j, t.tape.cell (s.tape.pointer + j) =
          s.tape.cell (s.tape.pointer + j) + UInt8.ofNat n * netChange body j) ∧
        t.streams = s.streams ∧ t.signals = s.signals) ∧
    ((∀ n, s.current + UInt8.ofNat n * netChange body 0 ≠ 0) →
      ∀ k, ((going (.loop (.straight body) rest) frames s).after token (k + 1)).InBody ⟨.straight body, rest⟩ frames) ∧
    (netChange body 0 = -1 → ∃ t, Passes token (.straight body) rest frames s t s.current.toNat) ∧
    ((netChange body 0).toNat % 2 = 1 → ∃ n t, Passes token (.straight body) rest frames s t n) := by
  have hcurrent := s.current_multiplied (netChange body)
  have hends : ∀ n, s.current + UInt8.ofNat n * netChange body 0 = 0 →
      (∀ k < n, s.current + UInt8.ofNat k * netChange body 0 ≠ 0) →
      Passes token (.straight body) rest frames s (s.multiplied (netChange body) n) n := by
    intro n hzero hleast
    refine passes_of_least hbody hplace hs ((hcurrent n).trans hzero) fun k hk => ?_
    rw [hcurrent]
    exact hleast k hk
  have hleast : ∀ hex : ∃ n, s.current + UInt8.ofNat n * netChange body 0 = 0,
      ∀ k < Nat.find hex, s.current + UInt8.ofNat k * netChange body 0 ≠ 0 :=
    fun hex k hk => Nat.find_min hex hk
  refine ⟨?_, ?_, ?_, ?_⟩
  · intro hex
    have hpass := hends _ (Nat.find_spec hex) (hleast hex)
    refine ⟨Nat.find hex, _, Nat.find_spec hex, hleast hex, hpass, rfl, ?_, rfl, rfl⟩
    intro j
    have hdistance : s.tape.pointer + j - s.tape.pointer = j := by grind
    rw [Store.multiplied, Tape.cell_plus, hdistance]
  · intro hnone k
    refine inBody_of_nonzero hbody hplace hs (fun j => ?_) k
    rw [hcurrent]
    exact hnone j
  · intro hone
    obtain ⟨hzero, hbefore⟩ := counted_down s.current
    rw [← hone] at hzero hbefore
    exact ⟨_, hends _ hzero hbefore⟩
  · intro hodd
    have hex := exists_zero_of_odd hodd s.current
    exact ⟨_, _, hends _ (Nat.find_spec hex) (hleast hex)⟩

/-- three times two by a loop in a loop: it is passed after three iterations, and the next cell holds six; but a loop
that goes up in twos from one is never left -/
theorem balanced_loop_three_times_two :
    let body : List Op := [.decr, .next, .incr, .incr, .prev]
    let twos : List Op := [.incr, .incr]
    let frames : List Frame := [⟨.loop (.straight body) .nil, .nil⟩]
    let s : Store := ⟨Tape.blank.put 3, {}, ⟨#[none]⟩⟩
    let odd : Store := ⟨Tape.blank.put 1, {}, ⟨#[none]⟩⟩
    (∃ t, Passes ⟨0⟩ (.straight body) .nil frames s t 3 ∧ t.tape.cell 0 = 0 ∧ t.tape.cell 1 = 6 ∧
      t.streams.trace = #[]) ∧
      ∀ k, ((going (.loop (.straight twos) .nil) [] odd).after ⟨0⟩ (k + 1)).InBody ⟨.straight twos, .nil⟩ [] := by
  intro body twos frames s odd
  have hbody : ∀ o ∈ body, o ∈ [.incr, .decr, .next, .prev] := by decide
  have htwos : ∀ o ∈ twos, o ∈ [.incr, .decr, .next, .prev] := by decide
  obtain ⟨hpassed, -, -, -⟩ := balanced_loop hbody (by decide) .nil frames ⟨0⟩ s (by decide)
  obtain ⟨-, hforever, -, -⟩ := balanced_loop htwos (by decide) .nil [] ⟨0⟩ odd (by decide)
  have hsolved : s.current + UInt8.ofNat 3 * netChange body 0 = 0 := by decide
  have hsooner : ∀ k < 3, s.current + UInt8.ofNat k * netChange body 0 ≠ 0 := by decide
  have hnever : ∀ n, odd.current + UInt8.ofNat n * netChange twos 0 ≠ 0 := by
    have hparity : ∀ x : UInt8, 1 + x * 2 ≠ 0 := by
      intro x h
      have hmod := congrArg UInt8.toNat h
      simp only [UInt8.toNat_add, UInt8.toNat_mul, UInt8.toNat_ofNat] at hmod
      omega
    exact fun n => hparity (UInt8.ofNat n)
  obtain ⟨n, t, hzero, hleast, hpass, -, hcells, hstreams, -⟩ := hpassed ⟨3, hsolved⟩
  obtain rfl : n = 3 := by
    refine Nat.le_antisymm (Nat.not_lt.1 fun hlt => hleast 3 hlt hsolved) (Nat.not_lt.1 fun hlt => ?_)
    exact hsooner n hlt hzero
  have hcounter : t.tape.cell 0 = _ := hcells 0
  have hproduct : t.tape.cell 1 = _ := hcells 1
  exact ⟨⟨t, hpass, hcounter.trans (by decide), hproduct.trans (by decide), by rw [hstreams]⟩, hforever hnever⟩

end Walk

end RingTape
