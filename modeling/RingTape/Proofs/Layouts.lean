/-
The two layouts of a dump. The dump of a program can be read back from its text, whatever the layout: each operation and
each bracket of a loop has a character of its own in it. The layouts differ in nothing but blanks, line ends and the
commas behind last entries.

- `Dump.spelled?`, `Dump.spells`: the symbols that a text spells
- `Code.spells_dump`: the dump of a program spells the symbols of the program, in either layout and at any depth
- `Code.symbols_injective`: which no other program has
- `Dump.squeezed`, `Dump.withoutTrailing`: a text without blanks and line ends, and one without the commas before closing
  brackets
- `Dump.Agrees`: a dump whose layouts come to the same so; what the combinators make of such dumps is one of them
- `Code.dump_lossless`: the layouts of the dump of a program agree, and each of them determines the program
-/
import RingTape.Code.Dump
import RingTape.CommandLine.Command

namespace RingTape

namespace Dump

/-! ## Texts of groups -/

theorem toList_indent (depth : Nat) : (indent depth).toList = List.replicate (4 * depth) ' ' := by
  rw [indent, String.pushn]
  induction 4 * depth with
  | zero => rfl
  | succ n ih => rw [Nat.repeat, String.toList_push, ih, List.replicate_succ']

/-- the lines of the entries of a group -/
theorem toList_lines (entries : List Dump) (depth : Nat) (before : String) :
    (entries.foldl (fun s d => s ++ indent depth ++ d .pretty depth ++ ",\n") before).toList =
      before.toList ++ entries.flatMap fun d => (indent depth).toList ++ (d .pretty depth).toList ++ [',', '\n'] := by
  induction entries generalizing before with
  | nil => simp
  | cons d rest ih => simp [ih]

theorem toList_compact (opening pad closing : String) (entries : List Dump) (depth : Nat) :
    (group opening pad closing entries none .compact depth).toList =
      opening.toList ++ pad.toList ++ [',', ' '].intercalate (entries.map fun d => (d .compact depth).toList) ++
        pad.toList ++ closing.toList := by
  simp [group, Function.comp_def]

theorem toList_pretty (opening pad closing : String) (entries : List Dump) (depth : Nat) :
    (group opening pad closing entries none .pretty depth).toList =
      opening.toList ++ '\n' :: (entries.flatMap fun d =>
          (indent (depth + 1)).toList ++ (d .pretty (depth + 1)).toList ++ [',', '\n']) ++
        (indent depth).toList ++ closing.toList := by
  simp [group, toList_lines]

/-! ## Reading a dump -/

/-- the symbol that a character of a dump stands for: each name has one that stands in no other name and in none of the
labels, and a loop has its round brackets -/
def spelled? : Char → Option Symbol
  | 'I' => some (.op .incr)
  | 'D' => some (.op .decr)
  | 'N' => some (.op .next)
  | 'v' => some (.op .prev)
  | 'i' => some (.op .print)
  | 'R' => some (.op .read)
  | '(' => some .opens
  | ')' => some .closes
  | _ => none

/-- the symbols that a text spells -/
def spells (text : String) : List Symbol :=
  text.toList.filterMap spelled?

@[simp] theorem spells_append (s t : String) : spells (s ++ t) = spells s ++ spells t := by
  simp [spells]

/-- the depth of the lines that the entries of a group stand on -/
def entryDepth : Layout → Nat → Nat
  | .compact, depth => depth
  | .pretty, depth => depth + 1

theorem filterMap_intercalate {α β : Type} {f : α → Option β} {separator : List α}
    (h : separator.filterMap f = []) (texts : List (List α)) :
    (separator.intercalate texts).filterMap f = texts.flatMap (·.filterMap f) := by
  induction texts with
  | nil => rfl
  | cons text rest ih =>
    cases rest with
    | nil => simp
    | cons next more => rw [List.intercalate_cons_cons]; simp [h, ih]

/-- a group spells what its entries do, between its brackets -/
theorem spells_group {pad : String} (hpad : spells pad = []) (opening closing : String) (entries : List Dump)
    (layout : Layout) (depth : Nat) :
    spells (group opening pad closing entries none layout depth) =
      spells opening ++ (entries.flatMap fun d => spells (d layout (entryDepth layout depth))) ++ spells closing := by
  cases layout with
  | compact =>
    have hseparator : [',', ' '].filterMap spelled? = [] := by decide
    rw [spells] at hpad
    rw [spells, toList_compact]
    simp [filterMap_intercalate hseparator, hpad, List.flatMap_map, spells, entryDepth]
  | pretty =>
    have hblank : ∀ depth, (indent depth).toList.filterMap spelled? = [] := by
      intro depth
      rw [toList_indent]
      exact List.filterMap_replicate_of_none rfl
    have hend : spelled? '\n' = none := rfl
    have hcomma : spelled? ',' = none := rfl
    rw [spells, toList_pretty]
    simp [List.filterMap_flatMap, hblank, hend, hcomma, spells, entryDepth]

/-! ## Layouts without blanks -/

/-- a character that is neither a blank nor a line end -/
def isInk (c : Char) : Bool :=
  c != ' ' && c != '\n'

/-- the characters of a text without blanks and line ends -/
def squeezed (text : String) : List Char :=
  text.toList.filter isInk

/-- the brackets that close something -/
def closers : List Char := [')', ']', '\x7d']

/-- the text without the commas that stand before a closing bracket -/
def withoutTrailing : List Char → List Char
  | [] => []
  | c :: rest =>
    if c = ',' ∧ rest.head?.any closers.contains then withoutTrailing rest else c :: withoutTrailing rest

theorem squeezed_append (s t : String) : squeezed (s ++ t) = squeezed s ++ squeezed t := by
  simp [squeezed]

theorem squeezed_indent (depth : Nat) : squeezed (indent depth) = [] := by
  rw [squeezed, toList_indent, List.filter_replicate]
  rfl

theorem squeezed_pretty (opening pad closing : String) (entries : List Dump) (depth : Nat) :
    squeezed (group opening pad closing entries none .pretty depth) =
      squeezed opening ++ ((entries.flatMap fun d => squeezed (d .pretty (depth + 1)) ++ [',']) ++ squeezed closing) := by
  have hindent : ∀ depth, (indent depth).toList.filter isInk = [] := squeezed_indent
  have hcomma : isInk ',' = true := rfl
  have hend : isInk '\n' = false := rfl
  rw [squeezed, toList_pretty]
  simp [List.filter_flatMap, hindent, hcomma, hend, squeezed]

theorem squeezed_compact {pad : String} (hpad : squeezed pad = []) (opening closing : String) (entries : List Dump)
    (depth : Nat) : squeezed (group opening pad closing entries none .compact depth) =
      squeezed opening ++ ([','].intercalate (entries.map fun d => squeezed (d .compact depth)) ++ squeezed closing) := by
  have hjoin : ∀ texts : List (List Char),
      ([',', ' '].intercalate texts).filter isInk = [','].intercalate (texts.map (·.filter isInk)) := by
    intro texts
    induction texts with
    | nil => rfl
    | cons text rest ih =>
      cases rest with
      | nil => simp
      | cons next more =>
        rw [List.intercalate_cons_cons, List.filter_append, List.filter_append, ih]
        simp only [List.map_cons, List.intercalate_cons_cons]
        rfl
  rw [squeezed] at hpad
  rw [squeezed, toList_compact]
  simp [hjoin, hpad, squeezed, Function.comp_def]

/-! ## Commas -/

/-- a text that neither begins with a closing bracket nor ends in a comma -/
structure Bounded (text : List Char) : Prop where
  begins : ∃ first ∈ text.head?, first ∉ closers
  ends : text.getLast? ≠ some ','

/-- in front of more text, nothing changes for the commas of a text that does not end in one -/
theorem withoutTrailing_append {a : List Char} (h : a.getLast? ≠ some ',') (b : List Char) :
    withoutTrailing (a ++ b) = withoutTrailing a ++ withoutTrailing b := by
  induction a with
  | nil => rfl
  | cons c rest ih =>
    cases rest with
    | nil =>
      have hc : c ≠ ',' := by
        rintro rfl
        exact h rfl
      rw [List.singleton_append, withoutTrailing, withoutTrailing, if_neg fun hcomma => hc hcomma.1,
        if_neg fun hcomma => hc hcomma.1]
      rfl
    | cons d more =>
      have hhead : ((d :: more) ++ b).head? = (d :: more).head? := rfl
      rw [List.getLast?_cons_cons] at h
      rw [List.cons_append, withoutTrailing, withoutTrailing, hhead, ih h]
      split <;> rfl

/-- a comma stays in front of a text that does not begin with a closing bracket -/
theorem withoutTrailing_comma {a : List Char} (h : Bounded a) (b : List Char) :
    withoutTrailing (',' :: (a ++ b)) = ',' :: withoutTrailing (a ++ b) := by
  obtain ⟨first, hfirst, hopen⟩ := h.begins
  have hhead : (a ++ b).head? = some first := by
    rw [List.head?_append, hfirst]
    rfl
  rw [withoutTrailing, hhead, if_neg]
  rintro ⟨-, hcloser⟩
  exact hopen (List.contains_iff_mem.1 hcloser)

theorem Bounded.append {a b : List Char} (ha : Bounded a) (hb : b ≠ []) (hends : b.getLast? ≠ some ',') :
    Bounded (a ++ b) where
  begins := by
    obtain ⟨first, hfirst, hopen⟩ := ha.begins
    refine ⟨first, ?_, hopen⟩
    rw [List.head?_append, hfirst]
    rfl
  ends := by
    rw [List.getLast?_append, List.getLast?_eq_some_getLast hb]
    rwa [List.getLast?_eq_some_getLast hb] at hends

/-- the layouts of a dump are the same but for blanks, line ends and the commas behind last entries -/
structure Agrees (d : Dump) : Prop where
  same : ∀ m n, withoutTrailing (squeezed (d .pretty m)) = squeezed (d .compact n)
  bounded : ∀ m, Bounded (squeezed (d .pretty m))

/-- entries with a comma behind each of them, and a closing bracket behind the last comma -/
theorem withoutTrailing_entries {entries : List Dump} (hentries : ∀ d ∈ entries, d.Agrees) (hne : entries ≠ [])
    (m n : Nat) {closer : Char} (hcloser : closer ∈ closers) :
    withoutTrailing ((entries.flatMap fun d => squeezed (d .pretty m) ++ [',']) ++ [closer]) =
      [','].intercalate (entries.map fun d => squeezed (d .compact n)) ++ [closer] := by
  induction entries with
  | nil => exact absurd rfl hne
  | cons d rest ih =>
    obtain ⟨hsame, hbounded⟩ := hentries d List.mem_cons_self
    cases rest with
    | nil =>
      have hlast : withoutTrailing [',', closer] = [closer] := by
        simp [withoutTrailing, hcloser]
      simp only [List.flatMap_cons, List.flatMap_nil, List.append_nil, List.append_assoc, List.map_cons, List.map_nil,
        List.intercalate_singleton, List.singleton_append]
      rw [withoutTrailing_append (hbounded m).ends, hlast, hsame m n]
    | cons e more =>
      have hrest := ih (fun x hx => hentries x (List.mem_cons_of_mem d hx)) (List.cons_ne_nil e more)
      have he := (hentries e (by simp)).bounded m
      simp only [List.flatMap_cons, List.map_cons, List.append_assoc, List.cons_append, List.nil_append,
        List.intercalate_cons_cons] at hrest ⊢
      rw [withoutTrailing_append (hbounded m).ends, withoutTrailing_comma he, hrest, hsame m n]

/-! ## The combinators -/

/-- a text that has no commas to lose -/
structure Steady (text : String) : Prop where
  same : withoutTrailing (squeezed text) = squeezed text
  bounded : Bounded (squeezed text)

namespace Agrees

theorem atom {text : String} (h : Steady text) : (Dump.atom text).Agrees :=
  ⟨fun _ _ => h.same, fun _ => h.bounded⟩

/-- a label in front of a dump -/
theorem labelled {label : String} {d : Dump} (hlabel : Steady (label ++ ": ")) (hd : d.Agrees) :
    (Dump.labelled label d).Agrees where
  same m n := by
    rw [Dump.labelled, Dump.labelled, squeezed_append (label ++ ": "), squeezed_append (label ++ ": "),
      withoutTrailing_append hlabel.bounded.ends, hlabel.same, hd.same m n]
  bounded m := by
    obtain ⟨⟨first, hfirst, -⟩, hends⟩ := hd.bounded m
    rw [Dump.labelled, squeezed_append (label ++ ": ")]
    refine hlabel.bounded.append ?_ hends
    rintro hnil
    rw [hnil] at hfirst
    cases hfirst

theorem group {opening pad closing : String} {closer : Char} {entries : List Dump} (hopening : Steady opening)
    (hpad : squeezed pad = []) (hclosing : squeezed closing = [closer]) (hcloser : closer ∈ closers)
    (hentries : ∀ d ∈ entries, d.Agrees) (hne : entries ≠ []) : (group opening pad closing entries none).Agrees where
  same m n := by
    rw [squeezed_pretty, squeezed_compact hpad, hclosing, withoutTrailing_append hopening.bounded.ends,
      withoutTrailing_entries hentries hne (m + 1) n hcloser, hopening.same]
  bounded m := by
    have hcomma : closer ≠ ',' := by
      rintro rfl
      exact absurd hcloser (by decide)
    rw [squeezed_pretty, hclosing]
    refine hopening.bounded.append (by simp) ?_
    rw [List.getLast?_concat]
    exact fun heq => hcomma (Option.some.inj heq)

end Agrees

end Dump

/-! ## Dumps of programs -/

namespace Dump

theorem spells_name (o : Op) : spells o.name = [.op o] := by
  cases o <;> decide

theorem steady_name (o : Op) : Steady o.name where
  same := by cases o <;> decide
  bounded := by cases o <;> exact ⟨⟨_, rfl, by decide⟩, by decide⟩

theorem spells_list (entries : List Dump) (layout : Layout) (depth : Nat) :
    spells (list entries layout depth) = entries.flatMap fun d => spells (d layout (entryDepth layout depth)) := by
  cases entries with
  | nil =>
    have hempty : spells "[]" = [] := by decide
    exact hempty
  | cons d rest =>
    have hbrackets : spells "[" = [] ∧ spells "]" = [] := by decide
    rw [list, spells_group rfl, hbrackets.1, hbrackets.2]
    simp

theorem spells_tuple (name : String) (d : Dump) (layout : Layout) (depth : Nat) :
    spells (tuple name d layout depth) =
      spells name ++ .opens :: (spells (d layout (entryDepth layout depth)) ++ [.closes]) := by
  have hbrackets : spells "(" = [.opens] ∧ spells ")" = [.closes] := by decide
  rw [tuple, spells_group rfl, spells_append, hbrackets.1, hbrackets.2]
  simp

theorem Agrees.list {entries : List Dump} (h : ∀ d ∈ entries, d.Agrees) : (list entries).Agrees := by
  cases entries with
  | nil =>
    have hempty : Steady "[]" := ⟨by decide, ⟨_, rfl, by decide⟩, by decide⟩
    exact .atom hempty
  | cons d rest =>
    have hopening : Steady "[" := ⟨by decide, ⟨_, rfl, by decide⟩, by decide⟩
    have hclosing : squeezed "]" = [']'] := by decide
    exact .group hopening rfl hclosing (by decide) h (List.cons_ne_nil d rest)

end Dump

namespace Code

/-- **What a dump spells.** The symbols of the program, whatever the layout and the depth. -/
theorem spells_dumps (c : Code) (layout : Layout) (depth : Nat) :
    (c.dumps.flatMap fun d => Dump.spells (d layout depth)) = c.symbols := by
  induction c generalizing depth with
  | nil => rfl
  | op o rest ih =>
    have hname : Dump.spells (Dump.atom o.name layout depth) = [.op o] := Dump.spells_name o
    rw [dumps_op, List.flatMap_cons, hname, ih, symbols]
    rfl
  | loop body rest ihb ihr =>
    have hname : Dump.spells "Loop" = [] := by decide
    rw [dumps_loop, List.flatMap_cons, Dump.spells_tuple, Dump.spells_list, hname, ihb, ihr, symbols]
    simp

theorem spells_dump (c : Code) (layout : Layout) (depth : Nat) : Dump.spells (c.dump layout depth) = c.symbols := by
  have hpad : Dump.spells " " = [] := by decide
  have hopening : Dump.spells ("Ast" ++ " \x7b") = [] := by decide
  have hlabel : Dump.spells ("data" ++ ": ") = [] := by decide
  have hclosing : Dump.spells "\x7d" = [] := by decide
  rw [dump, Dump.record, Dump.spells_group hpad, hopening, hclosing]
  simp only [List.map_cons, List.map_nil, List.flatMap_cons, List.flatMap_nil, Dump.labelled,
    Dump.spells_append _ (Dump.list _ _ _), hlabel, Dump.spells_list, spells_dumps, List.append_nil, List.nil_append]

/-- sequences whose symbols begin a text, up to its end or to the bracket behind them, are the same -/
theorem symbols_append_inj {c d : Code} {x y : List Symbol} (hx : ∀ s ∈ x.head?, s = .closes)
    (hy : ∀ s ∈ y.head?, s = .closes) (h : c.symbols ++ x = d.symbols ++ y) : c = d ∧ x = y := by
  induction c generalizing d x y with
  | nil =>
    cases d with
    | nil => exact ⟨rfl, h⟩
    | op o rest => cases hx (.op o) (by rw [symbols, List.nil_append] at h; rw [h]; rfl)
    | loop body rest => cases hx .opens (by rw [symbols, List.nil_append] at h; rw [h]; rfl)
  | op o rest ih =>
    cases d with
    | nil => cases hy (.op o) (by rw [symbols, symbols, List.nil_append] at h; rw [← h]; rfl)
    | op p other =>
      injection h with hop hrest
      cases hop
      obtain ⟨rfl, hxy⟩ := ih hx hy hrest
      exact ⟨rfl, hxy⟩
    | loop body other => cases h
  | loop body rest ihb ihr =>
    cases d with
    | nil => cases hy .opens (by rw [symbols, symbols, List.nil_append] at h; rw [← h]; rfl)
    | op o other => cases h
    | loop body' other =>
      simp only [symbols, List.cons_append, List.append_assoc, List.cons.injEq, true_and] at h
      obtain ⟨rfl, hbehind⟩ := ihb (by simp) (by simp) h
      injection hbehind with hcloses hrest
      obtain ⟨rfl, hxy⟩ := ihr hx hy hrest
      exact ⟨rfl, hxy⟩

theorem symbols_injective : Function.Injective symbols := by
  intro c d h
  exact (symbols_append_inj (x := []) (y := []) (by simp) (by simp) (by simpa using h)).1

theorem agrees_dumps (c : Code) : ∀ d ∈ c.dumps, d.Agrees := by
  induction c with
  | nil => exact List.forall_mem_nil _
  | op o rest ih =>
    rw [dumps_op]
    exact List.forall_mem_cons.2 ⟨.atom (Dump.steady_name o), ih⟩
  | loop body rest ihb ihr =>
    have hopening : Dump.Steady ("Loop" ++ "(") := ⟨by decide, ⟨_, rfl, by decide⟩, by decide⟩
    have hclosing : Dump.squeezed ")" = [')'] := by decide
    rw [dumps_loop]
    refine List.forall_mem_cons.2 ⟨?_, ihr⟩
    exact .group hopening rfl hclosing (by decide) (List.forall_mem_singleton.2 (.list ihb)) (List.cons_ne_nil _ _)

/-- **The layouts of a dump agree.** -/
theorem agrees_dump (c : Code) : c.dump.Agrees := by
  have hopening : Dump.Steady ("Ast" ++ " \x7b") := ⟨by decide, ⟨_, rfl, by decide⟩, by decide⟩
  have hlabel : Dump.Steady ("data" ++ ": ") := ⟨by decide, ⟨_, rfl, by decide⟩, by decide⟩
  have hclosing : Dump.squeezed "\x7d" = ['\x7d'] := by decide
  refine .group hopening (by decide) hclosing (by decide) ?_ (List.cons_ne_nil _ _)
  exact List.forall_mem_singleton.2 (.labelled hlabel (.list c.agrees_dumps))

/-- **A dump keeps the program.** The text of the dump of a program determines the program, in the compact layout and in
the pretty one, and so does what the command leaves behind when it shows the program. The two layouts differ only in
blanks, line ends and commas before closing brackets: without them, they are the same text. -/
theorem dump_lossless :
    (∀ layout, Function.Injective fun c : Code => c.dump.text layout) ∧
    (∀ c : Code, Dump.withoutTrailing (Dump.squeezed (c.dump.text .pretty)) = Dump.squeezed (c.dump.text .compact)) ∧
    ∀ files input, Function.Injective (Command.ofTree ⟨files, input, false⟩) := by
  have htext : ∀ layout, Function.Injective fun c : Code => c.dump.text layout := by
    intro layout c d h
    have hspells := congrArg Dump.spells h
    simp only [Dump.text, spells_dump] at hspells
    exact symbols_injective hspells
  refine ⟨htext, fun c => c.agrees_dump.same 0 0, fun files input c d h => ?_⟩
  -- the bytes on standard output are those of the text
  have hbytes : Command.bytesOf (c.dump.text .pretty ++ "\n") = Command.bytesOf (d.dump.text .pretty ++ "\n") :=
    congrArg Report.output h
  have hsame : c.dump.text .pretty ++ "\n" = d.dump.text .pretty ++ "\n" :=
    String.toByteArray_inj.1 (ByteArray.ext hbytes)
  have hchars := congrArg String.toList hsame
  rw [String.toList_append, String.toList_append, List.append_left_inj, String.toList_inj] at hchars
  exact htext .pretty hchars

example : Dump.withoutTrailing (Dump.squeezed ((loop (op .decr .nil) nil).dump.text .pretty)) =
    "Ast\x7bdata:[Loop([Decr])]\x7d".toList := by
  decide

end Code

end RingTape
