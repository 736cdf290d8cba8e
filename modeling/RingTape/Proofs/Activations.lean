/-
How deep calls go. The parser calls itself for each loop that it comes to, and to execute a loop is to execute the nodes
of its body. Neither goes on without a bound: the parser is told how many loops are around a sequence and stops before
there are more than 1024, and a program that has been read has no more loops than that around any of its nodes.

- `Code.traced`: `sequence` with the calls that it makes; `traced_snd`: it reads the same
- `Code.Entered`, `traced_entered`: what stands before a call when it is entered, and what the call is told of it
- `Code.Nested`, `Nested.nesting_le`: nodes in each other's bodies, of which there are not many
- `Walk.Moment`: what the runs of a program can come to in any environment
- `Walk.underWay`, `Within.nested`, `Within.activations_le`: the nodes that are being executed, in each other's bodies
- `recursion_is_bounded`: the depths that the parser is told of, and the nodes that are being executed at once
- `Walk.after_encased`: so many loops can be executed at once as there are around a node
-/
import RingTape.Proofs.Aftermath
import RingTape.Proofs.LoopBodies

namespace RingTape

/-! ## The calls of the parser -/

namespace Code

open Script Brackets

/-- a call that reads a sequence, as it is entered -/
structure Activation where
  /-- the number of loops around the sequence -/
  depth : Nat
  /-- the offset reached in the source -/
  offset : Nat
  /-- what has not been looked at -/
  left : Script
  deriving DecidableEq, Repr

/-- `sequence`, with the calls that it makes for the loops of its source, those within others included, in the order in
which they are entered -/
def traced (whole : Script) (opened : Option Nat) (depth offset : Nat) (done : Code) (source : Script)
    (hs : source <:+ whole) : List Activation × Except ParseError (Block whole) :=
  match source with
  | [] =>
    match opened with
    | some bracket => ([], .error (.unclosed bracket))
    | none => ([], .ok ⟨done.reverse, offset, [], List.nil_suffix⟩)
  | .ended :: rest =>
    match opened with
    | some bracket => ([], .error (.unclosed bracket))
    | none => ([], .ok ⟨done.reverse, offset, rest, (List.suffix_cons _ _).trans hs⟩)
  | .failed f :: rest =>
    if f.kind = .interrupted then
      traced whole opened depth offset done rest ((List.suffix_cons _ _).trans hs)
    else ([], .error (.unreadable f))
  | .byte b :: rest =>
    have hr : rest <:+ whole := (List.suffix_cons _ _).trans hs
    match Symbol.ofByte? b with
    | none => traced whole opened depth (offset + 1) done rest hr
    | some (.op o) => traced whole opened depth (offset + 1) (.op o done) rest hr
    | some .opens =>
      if depth = maxNesting then ([], .error (.tooDeep offset maxNesting))
      else
        match traced rest (some offset) (depth + 1) (offset + 1) .nil rest (List.suffix_refl _) with
        | (inner, .error e) => (⟨depth + 1, offset + 1, rest⟩ :: inner, .error e)
        | (inner, .ok body) =>
          let behind := traced whole opened depth body.offset (.loop body.code done) body.rest
            (body.rest_suffix.trans hr)
          (⟨depth + 1, offset + 1, rest⟩ :: (inner ++ behind.1), behind.2)
    | some .closes =>
      match opened with
      | some _ => ([], .ok ⟨done.reverse, offset + 1, rest, hr⟩)
      | none => ([], .error (.unopened offset))
termination_by source.length
decreasing_by
  all_goals simp_wf
  have := body.rest_suffix.length_le
  omega

/-- the calls made to read a program from a source, the first of them for its top level -/
def activations (source : Script) : List Activation :=
  ⟨0, 0, source⟩ :: (traced source none 0 0 .nil source (List.suffix_refl _)).1

/-- **The same is read.** -/
theorem traced_snd (whole : Script) (opened : Option Nat) (depth offset : Nat) (done : Code) (source : Script)
    (hs : source <:+ whole) :
    (traced whole opened depth offset done source hs).2 = sequence whole opened depth offset done source hs := by
  fun_induction traced whole opened depth offset done source hs with
  | case1 | case2 | case3 | case4 => simp only [sequence]
  | case5 whole opened depth offset done f rest hs hf _ ih => rw [ih, sequence, if_pos hf]
  | case6 whole opened depth offset done f rest hs hf => rw [sequence, if_neg hf]
  | case7 whole opened depth offset done x rest hs hr hx _ ih =>
    rw [sequence.eq_def]
    simp only [hx, ih]
  | case8 whole opened depth offset done x rest hs hr o hx _ ih =>
    rw [sequence.eq_def]
    simp only [hx, ih]
  | case9 whole opened offset done x rest hs hr hx =>
    rw [sequence.eq_def]
    simp only [hx, if_true]
  | case10 whole opened depth offset done x rest hs hr hx hdeep inner e he _ ih =>
    rw [he] at ih
    rw [sequence.eq_def]
    simp only [hx, if_neg hdeep, ← ih]
  | case11 whole opened depth offset done x rest hs hr hx hdeep inner body hbody behind _ ih ih' =>
    rw [hbody] at ih
    rw [sequence.eq_def]
    simp only [hx, if_neg hdeep, ← ih]
    exact ih'
  | case12 whole depth offset done x rest hs hr hx | case13 whole depth offset done x rest hs hr hx =>
    simp only [sequence, hx]

/-- a call is entered while a sequence is read from an offset on, inside `depth` loops: what has been looked at before
it are bytes and interrupted calls, these close no loop that they do not open, they leave as many loops open as the call
is told of beyond the `depth`, and it is told of no more than there may be -/
def Entered (depth offset : Nat) (source : Script) (call : Activation) : Prop :=
  ∃ front : Script, source = front ++ call.left ∧ front.Flows ∧ call.offset = offset + front.data.length ∧
    (∀ i, 0 ≤ loopsOpen front.data i) ∧ (call.depth : Int) = depth + loopsOpen front.data front.data.length ∧
    call.depth ≤ maxNesting

namespace Entered

variable {depth offset : Nat} {source rest before : Script} {call : Activation} {c : Code} {x : UInt8}

/-- a call for the sequence itself -/
theorem here (hd : depth ≤ maxNesting) : Entered depth offset source ⟨depth, offset, source⟩ := by
  have hnone : ∀ i, loopsOpen [] i = 0 := by simp [loopsOpen]
  exact ⟨[], rfl, trivial, rfl, fun i => (hnone i).ge, by simp [data, hnone], hd⟩

/-- the same behind a program -/
theorem behind (hheld : before.Holds c) (h : Entered depth (offset + before.data.length) source call) :
    Entered depth offset (before ++ source) call := by
  obtain ⟨front, hsource, hflows, hoffset, hnonneg, hdepth, hle⟩ := h
  have hw : Balanced c.nesting before.data := balanced_of_symbols hheld.symbols
  have hdata := hheld.flows.data_append front
  refine ⟨before ++ front, ?_, hheld.flows.append hflows, ?_, ?_, ?_, hle⟩
  · rw [hsource, List.append_assoc]
  · rw [hoffset, hdata, List.length_append, Nat.add_assoc]
  · rw [hdata]
    exact nonneg_behind hw hnonneg
  · rw [hdata, List.length_append, hw.loopsOpen_behind, hdepth]

/-- the same in the body of a loop -/
theorem inside (hx : Symbol.ofByte? x = some .opens) (h : Entered (depth + 1) (offset + 1) rest call) :
    Entered depth offset (.byte x :: rest) call := by
  obtain ⟨front, hsource, hflows, hoffset, hnonneg, hdepth, hle⟩ := h
  obtain rfl : Symbol.opens.byte = x := Symbol.byte_of_ofByte? hx
  refine ⟨.byte Symbol.opens.byte :: front, ?_, hflows, ?_, nonneg_cons_opens hnonneg, ?_, hle⟩
  · rw [hsource, List.cons_append]
  · rw [hoffset, data, List.length_cons]
    omega
  · rw [data, List.length_cons, loopsOpen_cons_opens, hdepth]
    omega

end Entered

/-- **What each call finds.** -/
theorem traced_entered {whole : Script} {opened : Option Nat} {depth offset : Nat} {done : Code} {source : Script}
    {hs : source <:+ whole} (hd : depth ≤ maxNesting) :
    ∀ call ∈ (traced whole opened depth offset done source hs).1, Entered depth offset source call := by
  fun_induction traced whole opened depth offset done source hs with
  | case1 | case2 | case3 | case4 | case6 | case9 | case12 | case13 => simp
  | case5 whole opened depth offset done f rest hs hf _ ih =>
    have hheld : Holds [.failed f] .nil := Holds.nil.interrupted hf
    intro call hcall
    exact Entered.behind hheld (by simpa [data, hf] using ih hd call hcall)
  | case7 whole opened depth offset done x rest hs hr hx _ ih =>
    have hheld : Holds [.byte x] .nil := Holds.nil.comment hx
    intro call hcall
    exact Entered.behind hheld (ih hd call hcall)
  | case8 whole opened depth offset done x rest hs hr o hx _ ih =>
    have hheld : Holds [.byte x] (.op o .nil) := Holds.nil.op hx
    intro call hcall
    exact Entered.behind hheld (ih hd call hcall)
  | case10 whole opened depth offset done x rest hs hr hx hdeep inner e he _ ih =>
    rw [he] at ih
    -- the test has let the call through, and the limit was not passed before: it is kept in the body as well
    have hd' : depth + 1 ≤ maxNesting := by omega
    intro call hcall
    rcases List.mem_cons.1 hcall with rfl | hcall
    · exact (Entered.here hd').inside hx
    · exact (ih hd' call hcall).inside hx
  | case11 whole opened depth offset done x rest hs hr hx hdeep inner body hbody behind _ ih ih' =>
    have hread := traced_snd rest (some offset) (depth + 1) (offset + 1) .nil rest (List.suffix_refl _)
    rw [hbody] at ih hread
    have hd' : depth + 1 ≤ maxNesting := by omega
    obtain ⟨before, hbefore, hheld, -, hoffset⟩ := (sequence_ok rfl hd' hread.symm).loop hx
    intro call hcall
    rcases List.mem_cons.1 hcall with rfl | hcall
    · exact (Entered.here hd').inside hx
    rcases List.mem_append.1 hcall with hcall | hcall
    · exact (ih hd' call hcall).inside hx
    · rw [hbefore]
      exact Entered.behind hheld (hoffset ▸ ih' hd call hcall)

/-- every call made to read a program -/
theorem activations_entered (source : Script) : ∀ call ∈ activations source, Entered 0 0 source call := by
  intro call hcall
  rcases List.mem_cons.1 hcall with rfl | hcall
  · exact Entered.here (Nat.zero_le _)
  · exact traced_entered (Nat.zero_le _) call hcall

end Code

/-! ## Nodes in each other's bodies -/

/-- the largest number of loops around any point of a node -/
def Node.nesting : Node → Nat
  | .op _ => 0
  | .loop body => body.nesting + 1

namespace Code

theorem nesting_of_mem_nodes {c : Code} {node : Node} (h : node ∈ c.nodes) : node.nesting ≤ c.nesting := by
  induction c with
  | nil => cases h
  | op o rest ih =>
    rw [nodes_op] at h
    rcases List.mem_cons.1 h with rfl | h
    · exact Nat.zero_le _
    · exact ih h
  | loop body rest _ ih =>
    rw [nodes_loop] at h
    rw [nesting]
    rcases List.mem_cons.1 h with rfl | h
    · exact Nat.le_max_left _ _
    · exact (ih h).trans (Nat.le_max_right _ _)

/-- nodes of a program, the last of them one of its top level and each other one in the body of the loop behind it -/
inductive Nested (whole : Code) : List Node → Prop where
  | none : Nested whole []
  | top {node : Node} (h : node ∈ whole.nodes) : Nested whole [node]
  | inside {node : Node} {body : Code} {outer : List Node} (h : node ∈ body.nodes)
      (hloop : Nested whole (.loop body :: outer)) : Nested whole (node :: .loop body :: outer)

/-- each node has one loop less in it than the one behind it may have -/
theorem Nested.nesting_le {whole : Code} {node : Node} {outer : List Node} (h : Nested whole (node :: outer)) :
    node.nesting + outer.length ≤ whole.nesting := by
  generalize hnodes : node :: outer = nodes at h
  induction h generalizing node outer with
  | none => cases hnodes
  | top h =>
    cases hnodes
    exact nesting_of_mem_nodes h
  | inside h _ ih =>
    cases hnodes
    have hbody := nesting_of_mem_nodes h
    have hloop := ih rfl
    rw [Node.nesting] at hloop
    rw [List.length_cons]
    omega

/-- the programs that there are: what has been read from a source, the empty one, and copies -/
inductive Obtained : Code → Prop where
  | read {source : Script} {code : Code} (h : parse source = .ok code) : Obtained code
  | empty : Obtained .nil
  | copy {code : Code} (h : Obtained code) : Obtained code

theorem Obtained.nesting_le {code : Code} (h : Obtained code) : code.nesting ≤ maxNesting := by
  induction h with
  | read h => exact ((parse_eq_ok_iff_symbols _ _).1 h).2.1
  | empty => exact Nat.zero_le _
  | copy _ ih => exact ih

end Code

/-! ## The nodes that are being executed -/

/-- the loops around a place, and each node of the sequence there with them -/
theorem Position.nested {whole code : Code} {frames : List Frame} {i : Nat} (h : Position whole code frames i) :
    whole.Nested (frames.map fun f => .loop f.body) ∧
      ∀ node ∈ code.nodes, whole.Nested (node :: frames.map fun f => .loop f.body) := by
  induction h with
  | outside done code h =>
    refine ⟨.none, fun node hnode => .top ?_⟩
    rw [h, Code.nodes_append]
    exact List.mem_append_right _ hnode
  | @inside f frames k done code _ h ih =>
    have hloop : whole.Nested (.loop f.body :: frames.map fun f => .loop f.body) :=
      ih.2 (.loop f.body) (by rw [Code.nodes_loop]; exact List.mem_cons_self)
    refine ⟨hloop, fun node hnode => .inside ?_ hloop⟩
    rw [h, Code.nodes_append]
    exact List.mem_append_right _ hnode

namespace Walk

/-- the nodes that are being executed, innermost first: the one that the walk is in front of, and the loops that it is
inside of -/
def underWay : Walk → List Node
  | .going code frames _ => code.nodes.head?.toList ++ frames.map fun f => .loop f.body
  | .ended .. => []

/-- one node at most is executed in each of the sequences that are being walked -/
theorem length_underWay_le (w : Walk) : w.underWay.length ≤ w.activations := by
  cases w with
  | ended r s => exact Nat.le_refl 0
  | going code frames s =>
    rw [underWay, activations, List.length_append, List.length_map]
    cases code.nodes.head? with
    | none => simp
    | some node => simp [Nat.add_comm]

variable {whole code : Code} {token : Token} {w : Walk}

theorem Within.nested (h : w.Within whole) : whole.Nested w.underWay := by
  cases w with
  | ended r s => exact .none
  | going code frames s =>
    obtain ⟨i, hi⟩ := h
    rw [underWay]
    cases hnode : code.nodes.head? with
    | none => exact hi.nested.1
    | some node => exact hi.nested.2 node (List.mem_of_head? hnode)

theorem Within.activations_le (h : w.Within whole) : w.activations ≤ whole.nesting + 1 := by
  cases w with
  | ended r s => exact Nat.zero_le _
  | going code frames s =>
    obtain ⟨i, hi⟩ := h
    rw [activations]
    cases frames with
    | nil => exact Nat.succ_le_succ (Nat.zero_le _)
    | cons f frames =>
      have hloop := hi.nested.1.nesting_le
      rw [Node.nesting, List.length_map] at hloop
      rw [List.length_cons]
      omega

/-- the same walk in a store that has become another one -/
def inStore (t : Store) : Walk → Walk
  | .going code frames _ => .going code frames t
  | .ended r _ => .ended r t

/-- what the runs of a program can come to in any environment: they start in any store, they go on step by step, and
at any time the store may have become another one -/
inductive Moment (code : Code) (token : Token) : Walk → Prop where
  | start (s : Store) : Moment code token (start code s)
  | step {w : Walk} (h : Moment code token w) : Moment code token (w.step token)
  | outside {w : Walk} (t : Store) (h : Moment code token w) : Moment code token (w.inStore t)

namespace Moment

theorem within (h : Moment code token w) : w.Within code := by
  induction h with
  | start s => exact start_within code s
  | step _ ih => exact step_within ih
  | @outside w t _ ih =>
    cases w with
    | going code frames s => exact ih
    | ended r s => trivial

theorem after (h : Moment code token w) (n : Nat) : Moment code token (w.after token n) := by
  induction n with
  | zero => exact h
  | succ n ih => exact ih.step

end Moment

end Walk

/-! ## Both bounds -/

/-- so many loops around a program, each of them all there is in the next one -/
def Code.encased : Nat → Code → Code
  | 0, body => body
  | n + 1, body => .loop (encased n body) .nil

theorem Code.nesting_encased (n : Nat) (body : Code) : (encased n body).nesting = body.nesting + n := by
  induction n with
  | zero => rfl
  | succ n ih =>
    rw [encased, nesting, ih]
    exact Nat.max_eq_left (Nat.zero_le _)

/-- as long as the cell is not zero, so many loops are entered one after the other, and all of them are executed -/
theorem Walk.after_encased {token : Token} {s : Store} (hr : s.signals.reason? token = none) (hc : s.current ≠ 0)
    (body : Code) (n : Nat) (frames : List Frame) : ∃ more : List Frame, more.length = n ∧
      (going (.encased n body) frames s).after token n = .going body (more ++ frames) s := by
  induction n generalizing frames with
  | zero => exact ⟨[], rfl, rfl⟩
  | succ n ih =>
    obtain ⟨more, hlen, hmore⟩ := ih (⟨.encased n body, .nil⟩ :: frames)
    refine ⟨more ++ [⟨.encased n body, .nil⟩], by simp [hlen], ?_⟩
    have hstep : (going (.encased (n + 1) body) frames s).step token =
        .going (.encased n body) (⟨.encased n body, .nil⟩ :: frames) s := by
      cases frames <;> simp only [Code.encased, step, test, hr, if_neg hc]
    rw [after_succ, hstep, hmore, List.append_assoc]
    rfl

open Brackets in
/-- **Recursion is bounded.** Whatever is read, accepted or not, each call of the parser is told exactly how many loops
are open behind what has been looked at before it, and never more than 1024, so the limit cannot be passed without being
met. And however a program has been obtained, at no moment of its runs, whatever goes on around them and whether they
end or not, are more than 1025 nodes being executed at once, each of them in the body of the next one. -/
theorem recursion_is_bounded :
    (∀ source : Script, ∀ call ∈ Code.activations source, ∃ front : Script,
      source = front ++ call.left ∧ front.Flows ∧ call.offset = front.data.length ∧
        (∀ i, 0 ≤ loopsOpen front.data i) ∧ (call.depth : Int) = loopsOpen front.data front.data.length ∧
        call.depth ≤ 1024) ∧
    ∀ code : Code, code.Obtained → ∀ (token : Token) (w : Walk), w.Moment code token →
      code.Nested w.underWay ∧ w.underWay.length ≤ 1025 := by
  constructor
  · intro source call hcall
    obtain ⟨front, hsource, hflows, hoffset, hnonneg, hdepth, hle⟩ := Code.activations_entered source call hcall
    exact ⟨front, hsource, hflows, by omega, hnonneg, by omega, hle⟩
  · intro code hcode token w hw
    refine ⟨hw.within.nested, ?_⟩
    calc w.underWay.length
        ≤ w.activations := w.length_underWay_le
      _ ≤ code.nesting + 1 := hw.within.activations_le
      _ ≤ 1025 := Nat.succ_le_succ hcode.nesting_le

/-- a source that fails in its second loop, and 1024 loops around one instruction, which is reached -/
theorem recursion_is_bounded_reached :
    let source : Script :=
      [.byte 0x5b, .byte 0x2b, .failed { kind := .interrupted }, .byte 0x5b, .failed { kind := .brokenPipe }]
    let inner : Code.Activation := ⟨2, 3, [.failed { kind := .brokenPipe }]⟩
    let deep : Code := .encased 1024 (.op .incr .nil)
    inner ∈ Code.activations source ∧ Code.parse source = .error (.unreadable { kind := .brokenPipe }) ∧
      (∃ front : Script, source = front ++ inner.left ∧ 3 = front.data.length ∧
        (2 : Int) = Brackets.loopsOpen front.data front.data.length) ∧
      deep.Obtained ∧ ∃ w : Walk, w.Moment deep ⟨0⟩ ∧ w.underWay.length = 1025 ∧ w.underWay.length ≤ 1025 := by
  intro source inner deep
  have hinner : inner ∈ Code.activations source := by decide +kernel
  have hfails : Code.parse source = .error (.unreadable { kind := .brokenPipe }) := by
    rw [Code.parse_eq_scan]
    rfl
  obtain ⟨front, hfront, -, hoffset, -, hdepth, -⟩ := recursion_is_bounded.1 source inner hinner
  have hdeep : deep.Obtained := by
    have hread : Code.parse (.ofBytes deep.render) = .ok deep := by
      rw [Code.parse_eq_ok_iff_symbols, Script.data_ofBytes, Code.instructions_render, Code.nesting_encased]
      exact ⟨Script.failure?_ofBytes _, Nat.le_refl _, rfl⟩
    exact .read hread
  let s : Store := ⟨Tape.blank.put 1, {}, {}⟩
  have hraised : s.signals.reason? ⟨0⟩ = none := rfl
  have hone : s.current ≠ 0 := by
    rw [Store.current, Tape.current_put]
    decide
  obtain ⟨more, hlen, hmore⟩ := Walk.after_encased hraised hone (.op .incr .nil) 1024 []
  have hw : ((Walk.start deep s).after ⟨0⟩ 1024).Moment deep ⟨0⟩ := (Walk.Moment.start s).after 1024
  rw [Walk.start, hmore] at hw
  obtain ⟨-, hle⟩ := recursion_is_bounded.2 deep hdeep _ _ hw
  refine ⟨hinner, hfails, ⟨front, hfront, hoffset, hdepth⟩, hdeep, _, hw, ?_, hle⟩
  simp [Walk.underWay, hlen]

end RingTape
