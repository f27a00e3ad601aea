import SheetLint.Proofs.HexColor
import SheetLint.Proofs.Rendering

/-!
# Colors of rendered declarations

A declaration of a color is one whose name ends like that of a color.  So the numeric colors on a
line of declarations can be read off the names and the values that were written.

Main results:

- Definition `Declared.color?` is the value of a declaration of some kind of color, and
  `Declaration.pieceValue?_of_colon` says that nothing else is taken for one.
- Theorem `Declared.splitOn_renderBare` lists the pieces of a line of declarations.
- Theorem `Declared.literals_renderBare` reads the numeric colors off such a line.
-/

namespace SheetLint

/-! ## Joined and terminated texts -/

namespace Text

/-- Texts with a separator between them are the first one, and the others behind the separator. -/
theorem intercalate_cons_eq_append (between first : List Char) (rest : List (List Char)) :
    between.intercalate (first :: rest) = first ++ rest.flatMap fun text => between ++ text := by
  induction rest generalizing first with
  | nil => simp
  | cons second rest ih =>
    rw [List.intercalate_cons_cons, ih, List.flatMap_cons, List.append_assoc, List.append_assoc]

/-- Texts that end with a separator each are cut into themselves. -/
theorem splitOn_terminated {separator : Char} {rows : List (List Char)}
    (hrows : ∀ row ∈ rows, separator ∉ row) (rest : List Char) :
    ((rows.flatMap fun row => row ++ [separator]) ++ rest).splitOn separator =
      rows ++ rest.splitOn separator := by
  induction rows with
  | nil => rfl
  | cons row rows ih =>
    rw [List.forall_mem_cons] at hrows
    rw [List.flatMap_cons, List.append_assoc, List.append_assoc, List.singleton_append,
      List.splitOn_append_cons_self_of_not_mem hrows.1, ih hrows.2, List.cons_append]

end Text

/-! ## Pieces with one colon -/

namespace Declaration

/-- What the names of colors end with. -/
def colorWord : List Char :=
  "color".toList

theorem label_eq : label = colorWord ++ [':'] := rfl

theorem behindLabel?_eq_none {text : List Char} (hlabel : ¬ label <:+: text) :
    behindLabel? text = none := by
  rw [behindLabel?, Option.map_eq_none_iff, List.find?_eq_none]
  intro tail htail hbegins
  rw [List.isPrefixOf_iff_prefix] at hbegins
  exact hlabel (hbegins.isInfix.trans ((List.mem_tails tail text).mp htail).isInfix)

/-- With one colon in it, a piece has a value exactly if the name in front of the colon ends like
that of a color. -/
theorem pieceValue?_of_colon {name value : List Char} (hname : ':' ∉ name) (hvalue : ':' ∉ value) :
    pieceValue? (name ++ ':' :: ' ' :: value) =
      if colorWord <:+ name then some (Text.trim value) else none := by
  split
  next hword =>
    rcases hword with ⟨front, rfl⟩
    have hfront : ':' ∉ front := fun h => hname (List.mem_append_left _ h)
    have htext : front ++ colorWord ++ ':' :: ' ' :: value = front ++ (label ++ ' ' :: value) := by
      simp [label_eq]
    have htrim : Text.trim (' ' :: value) = Text.trim value :=
      Text.trim_append_of_all_blank (List.forall_mem_singleton.mpr rfl) value
    rw [pieceValue?, htext, behindLabel?_append hfront, Option.bind_some,
      if_neg (List.cons_ne_nil _ _), htrim]
  next hword =>
    have hlabel : ¬ label <:+: name ++ ':' :: ' ' :: value := by
      rintro ⟨before, after, htext⟩
      have hcolon : (before ++ colorWord) ++ ':' :: after = name ++ ':' :: ' ' :: value := by
        rw [← htext]
        simp [label_eq]
      have hclean : ':' ∉ ' ' :: value := by simp [hvalue]
      rcases (List.append_cons_inj_of_notMem hname hclean).mp hcolon.symm with ⟨rfl, -⟩
      exact hword (List.suffix_append before colorWord)
    rw [pieceValue?, behindLabel?_eq_none hlabel, Option.bind_none]

end Declaration

/-! ## Lines of declarations -/

namespace Declared

open Declaration (colorWord pieceValue?)

variable {d : Declared} {ds : List Declared}

/-- The value of a declaration of some kind of color. -/
def color? (d : Declared) : Option (List Char) :=
  if colorWord <:+ d.name then some (Text.trim d.value) else none

/-- A declaration on one line, with nothing in its value that ends a name or a block. -/
structure IsPlain (d : Declared) : Prop where
  braces : d.IsBraceFree
  line : d.IsOneLine
  colon : ':' ∉ d.value

theorem isPlain_of_clean {d : Declared} (hname : '\n' ∉ d.name)
    (hvalue : ∀ c ∈ ['\n', '{', '}', ':'], c ∉ d.value) : d.IsPlain where
  braces := ⟨hvalue '{' (by decide), hvalue '}' (by decide)⟩
  line := ⟨hname, hvalue '\n' (by decide)⟩
  colon := hvalue ':' (by decide)

theorem pieceValue?_statement (hd : d.IsPlain) : pieceValue? d.statement = d.color? :=
  Declaration.pieceValue?_of_colon d.name_clean.2.1 hd.colon

theorem pieceValue?_blank_statement (hd : d.IsPlain) :
    pieceValue? (' ' :: d.statement) = d.color? := by
  have hname : ':' ∉ ' ' :: d.name := by simp [d.name_clean.2.1]
  have hword : colorWord <:+ ' ' :: d.name ↔ colorWord <:+ d.name := by
    rw [List.suffix_cons_iff, or_iff_right]
    intro hwhole
    exact absurd (List.head_eq_of_cons_eq hwhole) (by decide)
  have hvalue := Declaration.pieceValue?_of_colon hname hd.colon
  simp only [hword] at hvalue
  exact hvalue

theorem renderBare_cons (d : Declared) (rest : List Declared) :
    renderBare (d :: rest) = d.render ++ rest.flatMap fun e => ' ' :: e.render := by
  rw [renderBare, List.map_cons, Text.intercalate_cons_eq_append, List.flatMap_map]
  rfl

theorem renderBare_singleton (d : Declared) : renderBare [d] = d.render :=
  List.intercalate_singleton

/-- The pieces of a line of declarations are the statements, with a blank in front of each but the
first one, and what stands behind the last semicolon. -/
theorem splitOn_renderBare (d : Declared) (rest : List Declared) :
    (renderBare (d :: rest)).splitOn ';' =
      d.statement :: (rest.map fun e => ' ' :: e.statement) ++ [[]] := by
  have hrows : ∀ row ∈ d.statement :: rest.map (fun e => ' ' :: e.statement), ';' ∉ row := by
    rw [List.forall_mem_cons, List.forall_mem_map]
    exact ⟨d.not_mem_statement, fun e _ => by simp [e.not_mem_statement]⟩
  have htext : renderBare (d :: rest) =
      (d.statement :: rest.map fun e => ' ' :: e.statement).flatMap (fun row => row ++ [';']) ++
        [] := by
    rw [renderBare_cons, List.append_nil, List.flatMap_cons, List.flatMap_map]
    rfl
  rw [htext, Text.splitOn_terminated hrows]
  rfl

/-- The numeric colors on a line of declarations are those among the values of its colors. -/
theorem literals_renderBare (hds : ∀ d ∈ ds, d.IsPlain) :
    Line.literals (renderBare ds) =
      (ds.filterMap color?).filter fun value => ColorName.IsLiteral value := by
  rw [Line.literals, Declaration.map_text_colorValues]
  congr 1
  cases ds with
  | nil => rfl
  | cons d rest =>
    rw [List.forall_mem_cons] at hds
    have hrest : (rest.map fun e => ' ' :: e.statement).filterMap pieceValue? =
        rest.filterMap color? := by
      rw [List.filterMap_map]
      exact List.filterMap_congr fun e he => pieceValue?_blank_statement (hds.2 e he)
    have hlast : [[]].filterMap pieceValue? = [] := rfl
    rw [Slice.detached, splitOn_renderBare, List.filterMap_append, hlast, List.append_nil,
      List.filterMap_cons, List.filterMap_cons, pieceValue?_statement hds.1, hrest]

end Declared

end SheetLint
