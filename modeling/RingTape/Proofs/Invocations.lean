/-
Which command lines load which program. Arguments are looked at one by one, from left to right, and only those that do
not look like flags, and all that stand behind the first separator, can name a program. A line that does not name exactly
one, or gives a flag that is not known or two that exclude each other, loads nothing. A line that announces what is to be
done and names one program loads just that one, whatever its name looks like, and runs it, under a limit or without one,
or shows it.

- `Argument.Lettered`, `Argument.Spelled`: arguments shaped like flags
- `Argument.classify_eq_positional_iff`: all others but the separator are positional
- `Arguments.given`: what a line gives, its mistakes included; `sorts_of_split` says what the split makes of it
- `Arguments.Unfit`: lines that name not one program, or that give flags they must not give
- `Purpose`, `Arguments.Announces`: what is done with a program, and the flags that announce it, a `Numeral` among them
- `Purpose.ComesTo`: what is reported then, told by the walk of the program under its limit and by its tree
- `Command.report_eq_some_iff`: the command reports just that
- `Arguments.Stands`: the lines on which a path stands with some flags
- `Command.lines_and_programs`: what is loaded on lines of either kind, and what is reported
-/
import Mathlib
import RingTape.CommandLine.Command
import RingTape.Proofs.TimeLimits

namespace RingTape

/-- what a result with something done to it comes from -/
theorem exists_of_map_eq_ok {ε α β : Type} {f : α → β} {r : Except ε α} {b : β} (h : r.map f = .ok b) :
    ∃ a, r = .ok a ∧ f a = b := by
  cases r with
  | error e => cases h
  | ok a => exact ⟨a, rfl, Except.ok.inj h⟩

namespace Argument

/-! ## The look of an argument -/

/-- an argument that is a dash and characters of which the first is no dash and the others are no blanks -/
def Lettered (s : String) : Prop :=
  ∃ c rest, s.toList = '-' :: c :: rest ∧ c ≠ '-' ∧ ∀ x ∈ rest, Blank.isBlank x = false

/-- whether a text is a name without blanks, perhaps with an equals sign and a value on one line behind it -/
def Names (cs : List Char) : Prop :=
  ∃ name value, cs = name ++ value ∧ name ≠ [] ∧ (∀ x ∈ name, Blank.isBlank x = false) ∧
    (value = [] ∨ ∃ v, value = '=' :: v ∧ v ≠ [] ∧ '\n' ∉ v)

/-- an argument that is two dashes and a name, perhaps with a value -/
def Spelled (s : String) : Prop :=
  ∃ rest, s.toList = '-' :: '-' :: rest ∧ Names rest

/-- an argument that is not shaped like a flag, nor the separator -/
structure Bare (s : String) : Prop where
  notSeparator : s ≠ "--"
  notLettered : ¬ Lettered s
  notSpelled : ¬ Spelled s

theorem splitEquals_none {cs : List Char} (h : '=' ∉ cs) : splitEquals cs = (cs, none) := by
  have hall : ∀ c ∈ cs, (c != '=') = true := by
    intro c hc
    rw [bne_iff_ne]
    rintro rfl
    exact h hc
  have hrest : cs.dropWhile (· != '=') = [] := List.dropWhile_eq_nil_iff.2 hall
  rw [splitEquals, hrest]

theorem splitEquals_some {name : List Char} (h : '=' ∉ name) (value : List Char) :
    splitEquals (name ++ '=' :: value) = (name, some value) := by
  have hall : ∀ c ∈ name, (c != '=') = true := by
    intro c hc
    rw [bne_iff_ne]
    rintro rfl
    exact h hc
  rw [splitEquals, List.dropWhile_append_of_pos hall, List.takeWhile_append_of_pos hall]
  simp

/-- a text has no equals sign, or a first one -/
theorem splitEquals_cases (cs : List Char) : '=' ∉ cs ∧ splitEquals cs = (cs, none) ∨
    ∃ name value, cs = name ++ '=' :: value ∧ '=' ∉ name ∧ splitEquals cs = (name, some value) := by
  by_cases h : '=' ∈ cs
  · obtain ⟨name, value, rfl, hname⟩ := List.eq_append_cons_of_mem h
    exact Or.inr ⟨name, value, rfl, hname, splitEquals_some hname value⟩
  · exact Or.inl ⟨h, splitEquals_none h⟩

theorem isBlank_newline : Blank.isBlank '\n' = true := by decide

/-- the first equals sign stands in the name or behind it; what follows it is a value on one line, too -/
theorem splitEquals_of_value {name v : List Char} (hname : ∀ x ∈ name, Blank.isBlank x = false) (hv : v ≠ [])
    (hline : '\n' ∉ v) : ∃ before after, splitEquals (name ++ '=' :: v) = (before, some after) ∧ before ⊆ name ∧
      after ≠ [] ∧ '\n' ∉ after := by
  obtain ⟨hnone, -⟩ | ⟨before, after, rfl, hbefore, -⟩ := splitEquals_cases name
  · exact ⟨name, v, splitEquals_some hnone v, List.Subset.refl _, hv, hline⟩
  · -- the line end could only stand in the name, which has no blanks, or in the value
    refine ⟨before, after ++ '=' :: v, ?_, List.subset_append_left _ _, by simp, ?_⟩
    · rw [List.append_assoc, List.cons_append, splitEquals_some hbefore]
    · intro hmem
      rcases List.mem_append.1 hmem with hmem | hmem
      · have hplain := hname '\n' (by simp [hmem])
        rw [isBlank_newline] at hplain
        cases hplain
      · rcases List.mem_cons.1 hmem with heq | hmem
        · exact absurd heq (by decide)
        · exact hline hmem

theorem spellsFlag_iff (cs : List Char) : spellsFlag cs = true ↔ Names cs := by
  cases cs with
  | nil =>
    refine iff_of_false Bool.false_ne_true ?_
    rintro ⟨name, value, hcs, hname, -⟩
    exact hname (List.append_eq_nil_iff.1 hcs.symm).1
  | cons c rest =>
    by_cases hblank : (c :: rest).any Blank.isBlank = true
    · rw [spellsFlag, if_pos hblank]
      constructor
      · intro h
        obtain ⟨-, hsplit⟩ | ⟨name, value, rfl, -, hsplit⟩ := splitEquals_cases rest
        · rw [hsplit] at h
          cases h
        · simp only [hsplit, Bool.and_eq_true, Bool.not_eq_true', List.any_eq_false, List.isEmpty_eq_false_iff] at h
          obtain ⟨⟨hname, hvalue⟩, hline⟩ := h
          refine ⟨c :: name, '=' :: value, rfl, List.cons_ne_nil c name, fun x hx => ?_,
            Or.inr ⟨value, rfl, hvalue, fun hmem => ?_⟩⟩
          · exact Bool.eq_false_iff.2 (hname x hx)
          · exact hline _ hmem (beq_self_eq_true '\n')
      · rintro ⟨name, value, hcs, hname, hplain, rfl | ⟨v, rfl, hv, hline⟩⟩
        · obtain ⟨x, hx, hxblank⟩ := List.any_eq_true.1 hblank
          rw [hcs, List.append_nil] at hx
          rw [hplain x hx] at hxblank
          cases hxblank
        · obtain ⟨d, more, rfl⟩ := List.exists_cons_of_ne_nil hname
          rw [List.cons_append, List.cons.injEq] at hcs
          obtain ⟨rfl, rfl⟩ := hcs
          rw [List.forall_mem_cons] at hplain
          obtain ⟨before, after, hsplit, hbefore, hafter, hnewline⟩ := splitEquals_of_value hplain.2 hv hline
          simp only [hsplit, Bool.and_eq_true, Bool.not_eq_true', List.any_eq_false, List.isEmpty_eq_false_iff,
            Bool.not_eq_true, List.forall_mem_cons]
          refine ⟨⟨⟨hplain.1, fun x hx => hplain.2 x (hbefore hx)⟩, hafter⟩, fun x hx => ?_⟩
          rw [beq_eq_false_iff_ne]
          rintro rfl
          exact hnewline hx
    · rw [spellsFlag, if_neg hblank]
      refine iff_of_true rfl ⟨c :: rest, [], (List.append_nil _).symm, List.cons_ne_nil c rest, ?_, Or.inl rfl⟩
      simpa using hblank

/-! ### Two dashes, one dash, none -/

theorem classify_separator : classify "--" = .separator := rfl

theorem classify_dashes {s : String} {rest : List Char} (hs : s.toList = '-' :: '-' :: rest) (hrest : rest ≠ []) :
    classify s = if spellsFlag rest then
      .long ("--" ++ String.ofList (splitEquals rest).1) ((splitEquals rest).2.map String.ofList)
    else .positional s := by
  obtain ⟨c, more, rfl⟩ := List.exists_cons_of_ne_nil hrest
  rw [classify, hs]
  rfl

theorem classify_dash {s : String} {c : Char} {rest : List Char} (hs : s.toList = '-' :: c :: rest) (hc : c ≠ '-') :
    classify s = if rest.any Blank.isBlank then .positional s else .letters (c :: rest) := by
  unfold classify
  split
  · next heq =>
    rw [hs] at heq
    cases heq
    exact absurd rfl hc
  · next heq =>
    rw [hs] at heq
    cases heq
    exact absurd rfl hc
  · next heq =>
    rw [hs] at heq
    cases heq
    rfl
  · next hnot => exact absurd hs (hnot c rest)

theorem classify_word {s : String} (hs : ∀ c rest, s.toList ≠ '-' :: c :: rest) : classify s = .positional s := by
  unfold classify
  split
  · next heq => exact absurd heq (hs _ _)
  · next heq => exact absurd heq (hs _ _)
  · next heq => exact absurd heq (hs _ _)
  · rfl

theorem bare_dashes_iff {s : String} {rest : List Char} (hs : s.toList = '-' :: '-' :: rest) :
    Bare s ↔ rest ≠ [] ∧ ¬ Names rest := by
  have hspelled : Spelled s ↔ Names rest := by simp [Spelled, hs]
  have hseparator : s = "--" ↔ rest = [] := by
    rw [← String.toList_inj, hs]
    simp
  constructor
  · exact fun h => ⟨fun hrest => h.notSeparator (hseparator.2 hrest), fun hnames => h.notSpelled (hspelled.2 hnames)⟩
  · rintro ⟨hrest, hnames⟩
    refine ⟨fun h => hrest (hseparator.1 h), ?_, fun h => hnames (hspelled.1 h)⟩
    rintro ⟨c, more, heq, hc, -⟩
    rw [hs] at heq
    cases heq
    exact hc rfl

theorem bare_dash_iff {s : String} {c : Char} {rest : List Char} (hs : s.toList = '-' :: c :: rest) (hc : c ≠ '-') :
    Bare s ↔ rest.any Blank.isBlank = true := by
  constructor
  · intro h
    cases hany : rest.any Blank.isBlank with
    | true => rfl
    | false =>
      have hplain : ∀ x ∈ rest, Blank.isBlank x = false := by simpa using hany
      exact absurd ⟨c, rest, hs, hc, hplain⟩ h.notLettered
  · intro hany
    obtain ⟨x, hx, hblank⟩ := List.any_eq_true.1 hany
    refine ⟨?_, ?_, ?_⟩
    · rintro rfl
      cases hs
      exact hc rfl
    · rintro ⟨d, more, heq, -, hplain⟩
      rw [hs] at heq
      cases heq
      rw [hplain x hx] at hblank
      cases hblank
    · rintro ⟨more, heq, -⟩
      rw [hs] at heq
      cases heq
      exact hc rfl

theorem bare_word {s : String} (hs : ∀ c rest, s.toList ≠ '-' :: c :: rest) : Bare s where
  notSeparator := by
    rintro rfl
    exact hs '-' [] rfl
  notLettered := fun ⟨c, rest, heq, _⟩ => hs c rest heq
  notSpelled := fun ⟨rest, heq, _⟩ => hs '-' rest heq

/-- **Positional arguments.** They are the ones that are not shaped like flags, the separator aside. -/
theorem classify_eq_positional_iff (s : String) : classify s = .positional s ↔ Bare s := by
  by_cases hdash : ∃ c rest, s.toList = '-' :: c :: rest
  · obtain ⟨c, rest, hs⟩ := hdash
    by_cases hc : c = '-'
    · subst hc
      rw [bare_dashes_iff hs, ← spellsFlag_iff]
      by_cases hrest : rest = []
      · obtain rfl : s = "--" := String.toList_inj.1 (by rw [hs, hrest]; rfl)
        simp [classify_separator, hrest]
      · rw [classify_dashes hs hrest]
        simp [hrest]
    · rw [bare_dash_iff hs hc, classify_dash hs hc]
      simp
  · have hword : ∀ c rest, s.toList ≠ '-' :: c :: rest := fun c rest hs => hdash ⟨c, rest, hs⟩
    exact iff_of_true (classify_word hword) (bare_word hword)


end Argument

/-! ## What a line gives -/

/-- what an argument gives -/
inductive Given where
  /-- a flag of the command, perhaps with a value -/
  | flag (f : Flag) (value : Option String)
  /-- something that is spelled as a flag and is none -/
  | unknown (spelling : String)
  | positional (text : String)
  deriving DecidableEq, Repr

namespace Given

/-- the flag and its value -/
def flag? : Given → Option (Flag × Option String)
  | flag f value => some (f, value)
  | _ => none

/-- the positional argument -/
def positional? : Given → Option String
  | positional text => some text
  | _ => none

/-- what a letter behind a dash gives -/
def ofLetter (c : Char) : Given :=
  match Flag.ofLetter? c with
  | some f => flag f none
  | none => unknown ("-".push c)

end Given

namespace Arguments

/-- what a line gives, from left to right. Unlike the split it goes on behind a mistake, be it a flag that is not known, a
value that a flag does not take or one that is missing. -/
def given : List String → List Given
  | [] => []
  | s :: rest =>
    match Argument.classify s with
    | .separator => rest.map .positional
    | .positional p => .positional p :: given rest
    | .letters cs => cs.map Given.ofLetter ++ given rest
    | .long name value =>
      match Flag.ofLong? name with
      | none => .unknown name :: given rest
      | some f =>
        if f.takesValue then
          match value, rest with
          | some v, rest => .flag f (some v) :: given rest
          | none, v :: rest => .flag f (some v) :: given rest
          | none, [] => [.flag f none]
        else .flag f value :: given rest

/-- flags and positional arguments as given, without a flag that is not known -/
structure Sorts (a : Arguments) (gs : List Given) : Prop where
  flags : gs.filterMap Given.flag? = a.flags
  positionals : gs.filterMap Given.positional? = a.positionals
  known : ∀ spelling, .unknown spelling ∉ gs

namespace Sorts

variable {a : Arguments} {gs : List Given}

theorem rest (texts : List String) : Sorts ⟨[], texts⟩ (texts.map .positional) where
  flags := by simp [List.filterMap_map, Function.comp_def, Given.flag?]
  positionals := by simp [List.filterMap_map, Function.comp_def, Given.positional?]
  known := by simp

theorem addPositional (h : a.Sorts gs) (p : String) : (a.addPositional p).Sorts (.positional p :: gs) where
  flags := (List.filterMap_cons_none rfl).trans h.flags
  positionals := by simp [Given.positional?, h.positionals, Arguments.addPositional]
  known := by simp [h.known]

theorem addFlags (h : a.Sorts gs) (fs : List (Flag × Option String)) :
    (a.addFlags fs).Sorts (fs.map (fun f => .flag f.1 f.2) ++ gs) where
  flags := by simp [List.filterMap_map, Function.comp_def, Given.flag?, h.flags, Arguments.addFlags]
  positionals := by simp [List.filterMap_map, Function.comp_def, Given.positional?, h.positionals, Arguments.addFlags]
  known := by simp [h.known]

end Sorts

/-- known letters give their flags -/
theorem map_ofLetter {cs : List Char} {fs : List (Flag × Option String)} (h : ofLetters cs = .ok fs) :
    cs.map Given.ofLetter = fs.map fun f => .flag f.1 f.2 := by
  induction cs generalizing fs with
  | nil =>
    cases h
    rfl
  | cons c rest ih =>
    rw [ofLetters] at h
    cases hc : Flag.ofLetter? c with
    | none => simp [hc] at h
    | some f =>
      simp only [hc] at h
      obtain ⟨more, hmore, rfl⟩ := exists_of_map_eq_ok h
      simp [ih hmore, Given.ofLetter, hc]

/-- **The split sorts what a line gives.** -/
theorem sorts_of_split {args : List String} {a : Arguments} (h : split args = .ok a) : a.Sorts (given args) := by
  induction args using split.induct generalizing a with
  | case1 =>
    cases h
    exact Sorts.rest []
  | case2 s rest hlook =>
    rw [split, hlook] at h
    rw [given, hlook]
    cases h
    exact Sorts.rest rest
  | case3 s rest p hlook ih =>
    rw [split, hlook] at h
    rw [given, hlook]
    obtain ⟨b, hb, rfl⟩ := exists_of_map_eq_ok h
    exact (ih hb).addPositional p
  | case4 s rest cs hlook e hletters =>
    simp only [split, hlook, hletters] at h
    cases h
  | case5 s rest cs hlook fs hletters ih =>
    simp only [split, hlook, hletters] at h
    simp only [given, hlook, map_ofLetter hletters]
    obtain ⟨b, hb, rfl⟩ := exists_of_map_eq_ok h
    exact (ih hb).addFlags fs
  | case6 s rest name value hlook hname =>
    simp only [split, hlook, hname] at h
    cases h
  | case7 s name f hname htakes v rest hlook ih =>
    simp only [split, hlook, hname, htakes, if_true] at h
    simp only [given, hlook, hname, htakes, if_true]
    obtain ⟨b, hb, rfl⟩ := exists_of_map_eq_ok h
    exact (ih hb).addFlags [(f, some v)]
  | case8 s name f hname htakes v rest hlook ih =>
    simp only [split, hlook, hname, htakes, if_true] at h
    simp only [given, hlook, hname, htakes, if_true]
    obtain ⟨b, hb, rfl⟩ := exists_of_map_eq_ok h
    exact (ih hb).addFlags [(f, some v)]
  | case9 s name f hname htakes hlook =>
    simp only [split, hlook, hname, htakes, if_true] at h
    cases h
  | case10 s rest name f hname htakes v hlook =>
    simp only [split, hlook, hname, htakes] at h
    cases h
  | case11 s rest name f hname htakes hlook ih =>
    simp only [split, hlook, hname, htakes] at h
    simp only [given, hlook, hname, htakes]
    obtain ⟨b, hb, rfl⟩ := exists_of_map_eq_ok h
    exact (ih hb).addFlags [(f, none)]

/-! ## Lines that load nothing -/

/-- what a line must not give: more or less than one positional argument, a flag that is not known, or two flags of which
one shows the program and the other limits its run -/
def Unfit (gs : List Given) : Prop :=
  (gs.filterMap Given.positional?).length ≠ 1 ∨ (∃ spelling, .unknown spelling ∈ gs) ∨
    ∃ v w, .flag .ast v ∈ gs ∧ .flag .timeout w ∈ gs

/-- besides a request for help, the forms have one positional argument and at most one flag -/
theorem fit_cases {a : Arguments} {i : Invocation} (h : a.fit = .ok i) :
    i = .help ∨ a.positionals.length = 1 ∧ a.flags.length ≤ 1 := by
  unfold fit at h
  split at h
  · cases h
    exact Or.inl rfl
  · next hflags hpositionals => exact Or.inr (by simp [hflags, hpositionals])
  · next hflags hpositionals => exact Or.inr (by simp [hflags, hpositionals])
  · next hflags hpositionals => exact Or.inr (by simp [hflags, hpositionals])
  · cases h

/-- **Lines that must not be are refused, or they ask for help.** -/
theorem refused_of_unfit {args : List String} (h : Unfit (given args)) :
    (∃ e, Invocation.ofArguments args = .error e) ∨ Invocation.ofArguments args = .ok .help := by
  rcases hsplit : split args with e | a
  · exact Or.inl ⟨e, by rw [Invocation.ofArguments, hsplit]⟩
  · have hsorts := sorts_of_split hsplit
    have hfit : Invocation.ofArguments args = a.fit := by rw [Invocation.ofArguments, hsplit]
    rw [hfit]
    rcases hform : a.fit with e | i
    · exact Or.inl ⟨e, rfl⟩
    · rcases fit_cases hform with rfl | ⟨hone, hflags⟩
      · exact Or.inr rfl
      · obtain hcount | ⟨spelling, hspelling⟩ | ⟨v, w, hv, hw⟩ := h
        · rw [hsorts.positionals] at hcount
          exact absurd hone hcount
        · exact absurd hspelling (hsorts.known spelling)
        · have hast : (.ast, v) ∈ a.flags := hsorts.flags ▸ List.mem_filterMap.2 ⟨_, hv, rfl⟩
          have htimeout : (.timeout, w) ∈ a.flags := hsorts.flags ▸ List.mem_filterMap.2 ⟨_, hw, rfl⟩
          -- a form has no room for two different flags
          match hlist : a.flags, hflags with
          | [], _ =>
            rw [hlist] at hast
            cases hast
          | [f], _ =>
            rw [hlist, List.mem_singleton] at hast htimeout
            cases hast.trans htimeout.symm

end Arguments

/-! ## Lines that load a program -/

/-- what is done with a program -/
inductive Purpose where
  /-- it is shown -/
  | tree
  /-- it is run, with a limit in milliseconds if there is one -/
  | run (limit : Option Nat)
  deriving DecidableEq, Repr

/-- what is asked for if this is done with the program at a path -/
def Purpose.invocation (path : String) : Purpose → Invocation
  | tree => .tree path
  | run limit => .run limit path

/-- what the command reports if this is done with a program, whose run then reads so much input -/
def Purpose.report (steps : Nat) (around : Surroundings) (code : Code) (input : Script) : Purpose → Option Report
  | tree => some (Command.ofTree around code)
  | run limit => Command.runProgram steps around limit code input

/-- what the run of a program starts from: a blank tape, so much input, an output that may be a full device, whose first
flush fails, and a signal that is not raised -/
def Command.outset (full : Bool) (input : Script) : Store where
  tape := .blank
  streams := { script := input, flushes := { faults := if full then [(0, .storageFull)] else [] } }
  signals := ⟨#[none]⟩

/-- what is reported in the end if this is done with a program whose run reads so much input -/
inductive Purpose.ComesTo (steps : Nat) (full : Bool) (code : Code) (input : Script) : Purpose → Report → Prop where
  /-- the tree stands on standard output, spread over lines -/
  | shown (hfull : full = false) :
      ComesTo steps full code input .tree ⟨0, (code.dump.text .pretty ++ "\n").toUTF8.data, ""⟩
  /-- nothing can be printed -/
  | unshown (hfull : full = true) :
      ComesTo steps full code input .tree
        ⟨101, #[], "failed printing to stdout: No space left on device (os error 28)\n"⟩
  /-- a run is completed -/
  | completed {limit : Option Nat} {t : Store}
      (hend : (Walk.start code (Command.outset full input)).EndsUnder ⟨0⟩ steps limit (.ok ()) t) :
      ComesTo steps full code input (.run limit) ⟨0, if full then #[] else t.streams.out, ""⟩
  /-- a run ends with an error -/
  | stopped {limit : Option Nat} {e : RunError} {t : Store}
      (hend : (Walk.start code (Command.outset full input)).EndsUnder ⟨0⟩ steps limit (.error e) t) :
      ComesTo steps full code input (.run limit) ⟨1, if full then #[] else t.streams.out,
        s!"Error occurred while running program: {withCause e.message e.cause?}\n"⟩

/-- a number below two to the power of 64 and its decimal digits, perhaps with zeros before them -/
structure Numeral (digits : String) (n : Nat) : Prop where
  nonempty : digits.toList ≠ []
  isDigit : ∀ c ∈ digits.toList, c.isDigit = true
  value : Nat.ofDigitChars 10 digits.toList 0 = n
  small : n < 2 ^ 64

namespace Numeral

variable {digits : String} {n : Nat}

/-- the digits of a number without zeros before them -/
theorem ofNat (h : n < 2 ^ 64) : Numeral (toString n) n := by
  have hdigits : (toString n).toList = Nat.toDigits 10 n := Nat.toList_repr
  refine ⟨?_, ?_, ?_, h⟩
  · rw [hdigits]
    exact Nat.toDigits_ne_nil
  · rw [hdigits]
    exact fun c hc => Nat.isDigit_of_mem_toDigits (by decide) (by decide) hc
  · rw [hdigits]
    exact Nat.ofDigitChars_toDigits (by decide) (by decide)

theorem digit?_of_isDigit {c : Char} (h : c.isDigit = true) : Decimal.digit? c = some (c.toNat - '0'.toNat) := by
  simp only [Char.isDigit, Bool.and_eq_true, decide_eq_true_eq] at h
  exact if_pos ⟨h.1, h.2⟩

theorem digitsFrom_eq {cs : List Char} (h : ∀ c ∈ cs, c.isDigit = true) (n : Nat) :
    Decimal.digitsFrom n cs = some (Nat.ofDigitChars 10 cs n) := by
  induction cs generalizing n with
  | nil => rfl
  | cons c rest ih =>
    rw [List.forall_mem_cons] at h
    rw [Decimal.digitsFrom, digit?_of_isDigit h.1, Nat.ofDigitChars_cons]
    exact ih h.2 _

theorem isBlank_of_isDigit {c : Char} (h : c.isDigit = true) : Blank.isBlank c = false := by
  simp only [Char.isDigit, Bool.and_eq_true, decide_eq_true_eq] at h
  have hleast : 48 ≤ c.toNat := h.1
  have hgreatest : c.toNat ≤ 57 := h.2
  simp [Blank.isBlank]
  omega

/-- such digits are the value of a time limit -/
theorem readTimeout (h : Numeral digits n) : Arguments.readTimeout digits = .ok n := by
  obtain ⟨c, rest, hdigits⟩ := List.exists_cons_of_ne_nil h.nonempty
  have hfirst : c.isDigit = true := h.isDigit c (by rw [hdigits]; exact List.mem_cons_self)
  have hplus : c ≠ '+' := by
    rintro rfl
    cases hfirst
  have hvalue : Decimal.digits? digits.toList = some n := by
    rw [hdigits, Decimal.digits?, ← hdigits, digitsFrom_eq h.isDigit, h.value]
  have hread : Decimal.read? Arguments.timeoutBound digits = some n := by
    have hsmall : n < Arguments.timeoutBound := h.small
    unfold Decimal.read?
    dsimp only
    split
    · next heq =>
      rw [hdigits] at heq
      exact absurd (List.cons.inj heq).1 hplus
    · rw [hvalue]
      simp [hsmall]
  rw [Arguments.readTimeout, if_neg, hread]
  simp [hdigits, isBlank_of_isDigit hfirst]

end Numeral

namespace Arguments

/-- the flags that announce what is done with a program -/
inductive Announces : List String → Purpose → Prop
  | plain : Announces [] (.run none)
  | limited {digits : String} {n : Nat} (h : Numeral digits n) : Announces ["--timeout=" ++ digits] (.run (some n))
  | limitedApart {digits : String} {n : Nat} (h : Numeral digits n) : Announces ["--timeout", digits] (.run (some n))
  | shown : Announces ["--ast"] .tree

/-- the lines on which a path stands with some flags: behind the separator, or, if it is not shaped like a flag, as it is -/
inductive Stands (flags : List String) (path : String) : List String → Prop
  | separated : Stands flags path (flags ++ ["--", path])
  | behind (h : Argument.Bare path) : Stands flags path (flags ++ [path])
  | before (h : Argument.Bare path) : Stands flags path (path :: flags)

theorem map_addFlags_nil (r : Except ArgumentError Arguments) : r.map (addFlags []) = r := by
  cases r <;> rfl

/-- a flag with a value, of those that have one -/
theorem split_valued {s v : String} {f : Flag} (hlook : Argument.classify s = .long f.long (some v))
    (htakes : f.takesValue = true) (rest : List String) :
    split (s :: rest) = (split rest).map (addFlags [(f, some v)]) := by
  simp only [split, hlook, Flag.ofLong?_long, htakes, if_true]

theorem split_valuedApart {s : String} {f : Flag} (hlook : Argument.classify s = .long f.long none)
    (htakes : f.takesValue = true) (v : String) (rest : List String) :
    split (s :: v :: rest) = (split rest).map (addFlags [(f, some v)]) := by
  simp only [split, hlook, Flag.ofLong?_long, htakes, if_true]

theorem split_unvalued {s : String} {f : Flag} (hlook : Argument.classify s = .long f.long none)
    (htakes : f.takesValue = false) (rest : List String) :
    split (s :: rest) = (split rest).map (addFlags [(f, none)]) := by
  simp only [split, hlook, Flag.ofLong?_long, htakes, Bool.false_eq_true, if_false]

theorem split_bare {path : String} (h : Argument.Bare path) (rest : List String) :
    split (path :: rest) = (split rest).map (addPositional path) := by
  rw [split, (Argument.classify_eq_positional_iff path).2 h]

theorem classify_timeout {digits : String} {n : Nat} (h : Numeral digits n) :
    Argument.classify ("--timeout=" ++ digits) = .long Flag.timeout.long (some digits) := by
  let name : List Char := ['t', 'i', 'm', 'e', 'o', 'u', 't']
  have hchars : ("--timeout=" ++ digits).toList = '-' :: '-' :: (name ++ '=' :: digits.toList) := by
    rw [String.toList_append]
    rfl
  have hnames : Argument.Names (name ++ '=' :: digits.toList) := by
    have hplain : name.all (fun x => !Blank.isBlank x) = true := by decide
    refine ⟨name, _, rfl, List.cons_ne_nil _ _, ?_, Or.inr ⟨_, rfl, h.nonempty, fun hline => ?_⟩⟩
    · simpa using hplain
    · cases h.isDigit _ hline
  rw [Argument.classify_dashes hchars (by simp), if_pos ((Argument.spellsFlag_iff _).2 hnames),
    Argument.splitEquals_some (by decide), Option.map_some, String.ofList_toList]
  rfl

/-- **What announces a purpose.** These flags are split off whatever stands behind them, and they fit the form for the
purpose with any path. -/
theorem Announces.split {flags : List String} {purpose : Purpose} (h : Announces flags purpose) :
    ∃ fs, (∀ rest, split (flags ++ rest) = (split rest).map (addFlags fs)) ∧
      ∀ path, fit ⟨fs, [path]⟩ = .ok (purpose.invocation path) := by
  cases h with
  | plain => exact ⟨[], fun rest => (map_addFlags_nil _).symm, fun path => rfl⟩
  | limited h =>
    refine ⟨_, split_valued (classify_timeout h) rfl, fun path => ?_⟩
    simp [fit, h.readTimeout, Except.map, Purpose.invocation]
  | limitedApart h =>
    refine ⟨_, split_valuedApart (f := .timeout) rfl rfl _, fun path => ?_⟩
    simp [fit, h.readTimeout, Except.map, Purpose.invocation]
  | shown => exact ⟨_, split_unvalued (f := .ast) rfl rfl, fun path => rfl⟩

/-- **What a line asks for** on which a path stands with flags that announce a purpose. -/
theorem ofArguments_of_stands {flags args : List String} {purpose : Purpose} {path : String}
    (hflags : Announces flags purpose) (h : Stands flags path args) :
    Invocation.ofArguments args = .ok (purpose.invocation path) := by
  obtain ⟨fs, hsplit, hfit⟩ := hflags.split
  have hargs : split args = .ok ⟨fs, [path]⟩ := by
    cases h with
    | separated =>
      rw [hsplit, split, Argument.classify_separator]
      simp [Except.map, addFlags]
    | behind hbare =>
      rw [hsplit, split_bare hbare]
      simp [Except.map, addFlags, addPositional, split]
    | before hbare =>
      have hsplit := hsplit []
      rw [List.append_nil] at hsplit
      rw [split_bare hbare, hsplit]
      simp [Except.map, addFlags, addPositional, split]
  rw [Invocation.ofArguments, hargs]
  exact hfit path

end Arguments

namespace Command

/-- where the program at a path comes from: standard input, or what is opened at the path -/
def sourceOf (around : Surroundings) (path : String) : Except Failure Entry :=
  if path = "-" then .ok around.input else around.files.openPath path

theorem execute_of_invocation {args : List String} {purpose : Purpose} {path : String}
    (h : Invocation.ofArguments args = .ok (purpose.invocation path)) (steps : Nat) (around : Surroundings) :
    execute steps around args = match load around path with
      | .error e => some (loadFailed e)
      | .ok (code, input) => purpose.report steps around code input := by
  unfold execute
  rw [h]
  cases purpose <;> rfl

/-- what is reported of the program at a path if something is to be done with it -/
theorem execute_of_purpose {args : List String} {purpose : Purpose} {path : String}
    (h : Invocation.ofArguments args = .ok (purpose.invocation path)) (steps : Nat) (around : Surroundings) :
    execute steps around args = match sourceOf around path with
      | .error f => some (loadFailed (.unopened path f))
      | .ok source => match Code.parsePart source.script with
        | .error e => some (loadFailed (.unparsed e))
        | .ok (code, rest) => purpose.report steps around code (if path = "-" then rest else around.input.script) := by
  rw [execute_of_invocation h, load, sourceOf]
  by_cases hpath : path = "-"
  · simp only [if_pos hpath]
    cases Code.parsePart around.input.script <;> rfl
  · simp only [if_neg hpath]
    cases around.files.openPath path with
    | error f => rfl
    | ok source =>
      simp only [Code.parse]
      cases Code.parsePart source.script <;> rfl

/-- a program is run from its outset, with a timer on its signal if there is a limit -/
theorem runProgram_eq_some_iff (steps : Nat) (around : Surroundings) (limit : Option Nat) (code : Code) (input : Script)
    (report : Report) : runProgram steps around limit code input = some report ↔
      ∃ r t, (Walk.start code (outset around.full input)).EndsUnder ⟨0⟩ steps limit r t ∧
        ofRun r (arriving around t.streams.out) = report := by
  have hrun : runProgram steps around limit code input =
      ((Interpreter.settle ((Clock.limiting ⟨0⟩ limit).drive steps ⟨0⟩ (.start code (outset around.full input))).2).map
        fun f => ofRun f.result (arriving around f.interpreter.streams.out)) := by
    cases limit <;> exact Option.map_map _ _ _
  rw [hrun]
  simp only [Option.map_eq_some_iff, Interpreter.settle_eq_some_iff, Clock.drive_limiting_iff]
  constructor
  · rintro ⟨f, ⟨r, t, hend, rfl⟩, hreport⟩
    exact ⟨r, t, hend, hreport⟩
  · rintro ⟨r, t, hend, hreport⟩
    exact ⟨_, ⟨r, t, hend, rfl⟩, hreport⟩

/-- **What a purpose comes to.** -/
theorem report_eq_some_iff (purpose : Purpose) (steps : Nat) (around : Surroundings) (code : Code) (input : Script)
    (report : Report) :
    purpose.report steps around code input = some report ↔ purpose.ComesTo steps around.full code input report := by
  cases purpose with
  | tree =>
    rw [Purpose.report, Option.some.injEq, ofTree]
    constructor
    · rintro rfl
      cases around.full with
      | false => exact .shown rfl
      | true => exact .unshown rfl
    · rintro (hfull | hfull)
      · rw [hfull]
        rfl
      · rw [hfull]
        rfl
  | run limit =>
    rw [Purpose.report, runProgram_eq_some_iff]
    constructor
    · rintro ⟨r, t, hend, rfl⟩
      cases r with
      | ok u => exact .completed hend
      | error e => exact .stopped hend
    · rintro (_ | _ | hend | hend)
      · exact ⟨_, _, hend, rfl⟩
      · exact ⟨_, _, hend, rfl⟩

/-- a program that is shown, or run under a limit, comes to something -/
theorem exists_comesTo {purpose : Purpose} (h : purpose ≠ .run none) (full : Bool) (code : Code) (input : Script) :
    ∃ enough, ∀ steps, enough ≤ steps → ∃ report, purpose.ComesTo steps full code input report := by
  match purpose with
  | .tree =>
    refine ⟨0, fun steps _ => ?_⟩
    cases full with
    | false => exact ⟨_, .shown rfl⟩
    | true => exact ⟨_, .unshown rfl⟩
  | .run none => exact absurd rfl h
  | .run (some ms) =>
    refine ⟨max (Walk.allowed ms) (code.size + 1), fun steps hsteps => ?_⟩
    obtain ⟨r, t, hend⟩ := Walk.ends_under_limit (Walk.start_within code (outset full input)) rfl Nat.one_pos hsteps
    cases r with
    | ok u => exact ⟨_, .completed hend⟩
    | error e => exact ⟨_, .stopped hend⟩

/-- a run that is completed in so few steps that no limit finds it going -/
theorem comesTo_of_completed {code : Code} {input : Script} {limit : Option Nat} {k steps : Nat} {out : Array UInt8}
    (hresult : ((Walk.start code (outset false input)).after ⟨0⟩ k).result? = some (.ok ()))
    (hout : ((Walk.start code (outset false input)).after ⟨0⟩ k).store.streams.out = out)
    (hallowed : ∀ ms, limit = some ms → k ≤ Walk.allowed ms) (hk : k ≤ steps) :
    (Purpose.run limit).ComesTo steps false code input ⟨0, out, ""⟩ := by
  subst hout
  cases hend : (Walk.start code (outset false input)).after ⟨0⟩ k with
  | going more frames s =>
    rw [hend] at hresult
    cases hresult
  | ended r t =>
    rw [hend] at hresult
    cases hresult
    cases limit with
    | none => exact .completed (.unlimited hk hend)
    | some ms => exact .completed (.early hk (hallowed ms rfl) hend)

/-- a program that prints a one and then idles is stopped by any limit -/
theorem comesTo_of_idle (input : Script) {ms steps : Nat} (hsteps : Walk.allowed ms ≤ steps) :
    (Purpose.run (some ms)).ComesTo steps false (.op .incr (.op .print (.loop .nil .nil))) input
      ⟨1, #[1], s!"Error occurred while running program: cancelled: timed out after {ms}ms" ++ "\n"⟩ := by
  let s : Store := (Op.incr.act (outset false input)).2
  let t : Store := { s with streams := (s.streams.write 1).2.flush.2 }
  have hincr : Op.incr.act (outset false input) = (.ok (), s) := rfl
  have hprint : Op.print.act s = (.ok (), t) := by
    rw [Op.act, Store.writeByte, Store.pushByte]
    rfl
  -- two steps lead to the loop, and the limit finds the run in it
  have hloop : (Walk.start (.op .incr (.op .print (.loop .nil .nil))) (outset false input)).after ⟨0⟩ 2 =
      .start (.loop .nil .nil) t := by
    rw [Walk.after_succ, Walk.step_of_act ⟨0⟩ rfl hincr]
    exact Walk.step_of_act ⟨0⟩ rfl hprint
  have hcell : (Tape.blank.put (Tape.blank.current + 1)).current ≠ 0 := by decide +kernel
  exact .stopped (Walk.idle_ends_under_limit hloop hcell rfl Nat.one_pos (Nat.le_add_right_of_le (by decide)) hsteps)

/-- **Which lines load which program.** A line that does not give exactly one positional argument, or gives a flag that
is not known, or both the flag that shows the program and the one that limits its run, is refused or asks for help: it
leaves a report behind that does not depend on the files and on standard input, and no step is made for it. A path that
stands on a line with flags that announce a purpose is the path of the program, behind the separator whatever it looks
like, and without it if it is not shaped like a flag. The program is read from standard input if its path is a single
dash, and else from what is opened at the path. If it can be read, it is run or shown, as announced, and what is reported
is what that comes to; unless it is run without a limit, there is a report in the end. -/
theorem lines_and_programs :
    (∀ args, Arguments.Unfit (Arguments.given args) →
      (∃ e, Invocation.ofArguments args = .error e ∧
        ∀ steps around, execute steps around args = some ⟨1, #[], e.report⟩) ∨
      Invocation.ofArguments args = .ok .help ∧ ∀ steps around, execute steps around args =
        some ⟨0, if around.full then #[] else (Usage.help ++ "\n").toUTF8.data, ""⟩) ∧
    ∀ flags purpose path args, Arguments.Announces flags purpose → Arguments.Stands flags path args →
      Invocation.ofArguments args = .ok (purpose.invocation path) ∧
      ∀ around,
        (∀ f, sourceOf around path = .error f → ∀ steps, execute steps around args = some ⟨1, #[],
          s!"Error occurred while loading program: Could not open file {path}: {f.text}\n"⟩) ∧
        ∀ source, sourceOf around path = .ok source →
          (∀ e, Code.parsePart source.script = .error e → ∀ steps, execute steps around args = some ⟨1, #[],
            s!"Error occurred while loading program: Could not parse program: {withCause e.message e.cause?}\n"⟩) ∧
          ∀ code rest, Code.parsePart source.script = .ok (code, rest) →
            let input := if path = "-" then rest else around.input.script
            (∀ steps report, execute steps around args = some report ↔
              purpose.ComesTo steps around.full code input report) ∧
            (purpose ≠ .run none → ∃ enough, ∀ steps, enough ≤ steps → ∃ report,
              execute steps around args = some report) := by
  refine ⟨fun args h => ?_, fun flags purpose path args hflags h => ?_⟩
  · rcases Arguments.refused_of_unfit h with ⟨e, he⟩ | hhelp
    · exact Or.inl ⟨e, he, fun steps around => by rw [execute, he]; rfl⟩
    · exact Or.inr ⟨hhelp, fun steps around => by rw [execute, hhelp]; rfl⟩
  have hasked := Arguments.ofArguments_of_stands hflags h
  have hexecute := execute_of_purpose hasked
  refine ⟨hasked, fun around => ⟨fun f hsource steps => ?_, fun source hsource => ⟨fun e he steps => ?_, ?_⟩⟩⟩
  · simp only [hexecute, hsource]
    rfl
  · simp only [hexecute, hsource, he]
    rfl
  · intro code rest hcode input
    have hreport : ∀ steps, execute steps around args = purpose.report steps around code input := by
      intro steps
      simp only [hexecute, hsource, hcode]
      rfl
    refine ⟨fun steps report => ?_, fun hpurpose => ?_⟩
    · rw [hreport, report_eq_some_iff]
    · simp only [hreport, report_eq_some_iff]
      exact exists_comesTo hpurpose around.full code input

/-- a line with two flags that exclude each other; paths spelled as flags behind a limit that has zeros before it, one of
them that of a program that prints and then idles; standard input and the greatest limit behind it; the separator as a
path; and a program that is shown, at a path with a blank in it -/
theorem lines_and_programs_paths_like_flags :
    let around (path : String) (bytes input : List UInt8) (full : Bool) : Surroundings :=
      ⟨.ofPaths [(path, .file bytes)], .file input, full⟩
    (Arguments.Unfit (Arguments.given ["--ast", "--timeout=5", "p"]) ∧ ∀ steps around,
      execute steps around ["--ast", "--timeout=5", "p"] = some ⟨1, #[], ArgumentError.misfit.report⟩) ∧
    (Numeral "007" 7 ∧
      Invocation.ofArguments ["--timeout", "007", "--", "--ast"] = .ok (.run (some 7) "--ast") ∧
      ∀ steps, 1410000 ≤ steps →
        execute steps (around "-h" [0x2b, 0x2e, 0x5b, 0x5d] [] false) ["--timeout", "007", "--", "-h"] =
          some ⟨1, #[1], "Error occurred while running program: cancelled: timed out after 7ms\n"⟩) ∧
    (Numeral "18446744073709551615" 18446744073709551615 ∧ Argument.Bare "-" ∧ ∀ steps, 3 ≤ steps →
      execute steps (around "p" [] [0x2b, 0x2e] false) ["-", "--timeout=18446744073709551615"] =
        some ⟨0, #[1], ""⟩) ∧
    (∀ steps, 3 ≤ steps → execute steps (around "--" [0x2c, 0x2e] [65] false) ["--", "--"] = some ⟨0, #[65], ""⟩) ∧
    ∀ steps, execute steps (around "a b" [0x2b] [] false) ["--ast", "--", "a b"] =
        some ⟨0, "Ast \x7b\n    data: [\n        Incr,\n    ],\n\x7d\n".toUTF8.data, ""⟩ ∧
      execute steps (around "a b" [0x2b] [] true) ["--ast", "--", "a b"] =
        some ⟨101, #[], "failed printing to stdout: No space left on device (os error 28)\n"⟩ := by
  intro around
  obtain ⟨hrefused, hasked⟩ := lines_and_programs
  refine ⟨?_, ?_, ?_, ?_, ?_⟩
  · have hunfit : Arguments.Unfit (Arguments.given ["--ast", "--timeout=5", "p"]) :=
      Or.inr (Or.inr ⟨none, some "5", by decide +kernel, by decide +kernel⟩)
    have hmisfit : Invocation.ofArguments ["--ast", "--timeout=5", "p"] = .error .misfit := by decide +kernel
    rcases hrefused _ hunfit with ⟨e, he, hreport⟩ | ⟨hhelp, -⟩
    · cases hmisfit.symm.trans he
      exact ⟨hunfit, hreport⟩
    · cases hmisfit.symm.trans hhelp
  · have hdigits : "007".toList.all Char.isDigit = true := by decide
    have hseven : Numeral "007" 7 := ⟨by decide, List.all_eq_true.1 hdigits, by decide, by decide⟩
    have hfile : (Directory.ofPaths [("-h", .file [0x2b, 0x2e, 0x5b, 0x5d])]).openPath "-h" =
        .ok (.file [0x2b, 0x2e, 0x5b, 0x5d]) := by cbv
    have hcode : Code.parsePart (.ofBytes [0x2b, 0x2e, 0x5b, 0x5d]) =
        .ok (.op .incr (.op .print (.loop .nil .nil)), []) := by decide +kernel
    obtain ⟨-, hreports⟩ := hasked _ _ "-h" _ (.limitedApart hseven) .separated
    obtain ⟨hiff, -⟩ := ((hreports (around "-h" _ [] false)).2 _ hfile).2 _ _ hcode
    exact ⟨hseven, (hasked _ _ _ _ (.limitedApart hseven) .separated).1,
      fun steps hsteps => (hiff steps _).2 (comesTo_of_idle [] hsteps)⟩
  · have hgreatest : Numeral "18446744073709551615" 18446744073709551615 := by
      have hdigits : toString 18446744073709551615 = "18446744073709551615" := by decide +kernel
      rw [← hdigits]
      exact .ofNat (by decide)
    have hdash : Argument.Bare "-" := (Argument.classify_eq_positional_iff "-").1 rfl
    have hcode : Code.parsePart (.ofBytes [0x2b, 0x2e]) = .ok (.op .incr (.op .print .nil), []) := by decide +kernel
    obtain ⟨-, hreports⟩ := hasked _ _ "-" _ (.limited hgreatest) (.before hdash)
    obtain ⟨hiff, -⟩ := ((hreports (around "p" [] [0x2b, 0x2e] false)).2 _ rfl).2 _ _ hcode
    refine ⟨hgreatest, hdash, fun steps hsteps => (hiff steps _).2 ?_⟩
    exact comesTo_of_completed (by decide +kernel) (by decide +kernel) (fun ms _ => Nat.le_add_right_of_le (by decide))
      hsteps
  · have hfile : (Directory.ofPaths [("--", .file [0x2c, 0x2e])]).openPath "--" = .ok (.file [0x2c, 0x2e]) := by cbv
    have hcode : Code.parsePart (.ofBytes [0x2c, 0x2e]) = .ok (.op .read (.op .print .nil), []) := by decide +kernel
    obtain ⟨-, hreports⟩ := hasked _ _ "--" _ .plain .separated
    obtain ⟨hiff, -⟩ := ((hreports (around "--" _ [65] false)).2 _ hfile).2 _ _ hcode
    refine fun steps hsteps => (hiff steps _).2 ?_
    exact comesTo_of_completed (by decide +kernel) (by decide +kernel) (fun ms hms => by cases hms) hsteps
  · have hfile : (Directory.ofPaths [("a b", .file [0x2b])]).openPath "a b" = .ok (.file [0x2b]) := by cbv
    have hcode : Code.parsePart (.ofBytes [0x2b]) = .ok (.op .incr .nil, []) := by decide +kernel
    have hdump : (Code.op .incr .nil).dump.text .pretty = "Ast \x7b\n    data: [\n        Incr,\n    ],\n\x7d" := by
      decide +kernel
    obtain ⟨-, hreports⟩ := hasked _ _ "a b" _ .shown .separated
    have hiff : ∀ full, _ := fun full => (((hreports (around "a b" _ [] full)).2 _ hfile).2 _ _ hcode).1
    have hshown : ∀ steps, Purpose.ComesTo steps false (.op .incr .nil) [] .tree _ := fun steps => .shown rfl
    rw [hdump] at hshown
    exact fun steps => ⟨(hiff false steps _).2 (hshown steps), (hiff true steps _).2 (.unshown rfl)⟩

end Command

end RingTape
