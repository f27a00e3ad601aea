import Mathlib.Data.Bool.AllAny
import SheetLint.Proofs.DeclaredColors
import SheetLint.Proofs.FindingLines
import SheetLint.Proofs.Headlines

/-!
# Stylesheets made of blocks

A block that is written over several lines has its selector and the opening brace on the first
one, declarations on lines of their own, the closing brace on the last one and an empty line
behind it.  In a stylesheet made of such blocks each selector is quoted with the block in front of
it, and the rules about lines have something to say only about the lines of declarations.

Main results:

- Definition `Text.IsSolid`: nothing is trimmed off a text.
- Structure `Block` with its text, and definition `Block.sheet`, a stylesheet made of blocks.
- Theorem `Block.selectorTexts_sheet` says what is quoted of each block.
- Theorem `Block.map_headline_issues_sheet` gives the headlines of such a stylesheet; the rules
  about lines speak of declarations only.
-/

namespace SheetLint

/-! ## Solid texts -/

namespace Text

/-- A text with no blank at either end, and not an empty one. -/
def IsSolid (text : List Char) : Prop :=
  (∃ c ∈ text.head?, isBlank c = false) ∧ ∃ c ∈ text.getLast?, isBlank c = false

instance : DecidablePred IsSolid := fun _ =>
  @instDecidableAnd _ _ (Option.decidableExistsMem _) (Option.decidableExistsMem _)

namespace IsSolid

variable {first last text before after : List Char}

theorem ne_nil (h : IsSolid text) : text ≠ [] := by
  rintro rfl
  rcases h.1 with ⟨c, hc, -⟩
  cases hc

/-- A text is solid if there are no blanks in it. -/
theorem of_forall (hne : text ≠ []) (htext : ∀ c ∈ text, isBlank c = false) : IsSolid text :=
  ⟨⟨text.head hne, List.head?_eq_some_head hne, htext _ (List.head_mem hne)⟩,
    text.getLast hne, List.getLast?_eq_some_getLast hne, htext _ (List.getLast_mem hne)⟩

/-- What stands between two solid texts does not matter. -/
theorem append (hfirst : IsSolid first) (hlast : IsSolid last) (middle : List Char) :
    IsSolid (first ++ middle ++ last) := by
  constructor
  · rw [List.append_assoc, List.head?_append_of_ne_nil _ hfirst.ne_nil]
    exact hfirst.1
  · rw [List.getLast?_append_of_ne_nil _ hlast.ne_nil]
    exact hlast.2

/-- Only the blanks around a solid text are trimmed. -/
theorem trim_eq (h : IsSolid text) (hbefore : ∀ c ∈ before, isBlank c = true)
    (hafter : ∀ c ∈ after, isBlank c = true) : trim (before ++ text ++ after) = text := by
  rcases h with ⟨⟨c, hhead, hc⟩, d, hlast, hd⟩
  have hend : trimEnd text = text := by
    rcases List.getLast?_eq_some_iff.mp hlast with ⟨front, rfl⟩
    rw [trimEnd_append_cons hd, trimEnd_nil]
  have hstart : trimStart text = text := by
    rcases List.head?_eq_some_iff.mp hhead with ⟨back, rfl⟩
    rw [trimStart, List.dropWhile_cons_of_neg (by rw [hc]; decide)]
  rw [List.append_assoc, trim_append_of_all_blank hbefore, trim,
    trimEnd_append_of_all_blank hafter, hend, hstart]

theorem trim_self (h : IsSolid text) : trim text = text := by
  have htrim := h.trim_eq (List.forall_mem_nil _) (List.forall_mem_nil _)
  rwa [List.nil_append, List.append_nil] at htrim

end IsSolid

/-- Texts that begin with a lead and end with a separator each have both between them. -/
theorem flatMap_terminated (lead : List Char) (separator : Char) {texts : List (List Char)}
    (htexts : texts ≠ []) :
    (texts.flatMap fun text => lead ++ text ++ [separator]) =
      lead ++ (separator :: lead).intercalate texts ++ [separator] := by
  induction texts with
  | nil => exact absurd rfl htexts
  | cons first rest ih =>
    cases rest with
    | nil => simp
    | cons second rest =>
      rw [List.flatMap_cons, ih (List.cons_ne_nil second rest), List.intercalate_cons_cons]
      simp

end Text

/-! ## Blocks -/

/-- A block over several lines: a trimmed selector without any punctuation of blocks, and lines of
at least one declaration each. -/
structure Block where
  selector : List Char
  lines : List (List Declared)
  selector_solid : Text.IsSolid selector
  selector_clean : ∀ c ∈ selector, c ∉ ['\n', '{', '}', ':', ';']
  lines_ne_nil : lines ≠ []
  line_ne_nil : ∀ ds ∈ lines, ds ≠ []
  line_plain : ∀ ds ∈ lines, ∀ d ∈ ds, d.IsPlain

namespace Declared

variable {ds : List Declared}

/-- A line of declarations ends with a semicolon, and a name or a colon is at its beginning. -/
theorem isSolid_renderBare (hds : ds ≠ []) : Text.IsSolid (renderBare ds) := by
  constructor
  · cases ds with
    | nil => exact absurd rfl hds
    | cons d rest =>
      cases hname : d.name with
      | nil => exact ⟨':', by simp [renderBare_cons, render, statement, hname], by decide⟩
      | cons c name =>
        have hhead : c ∈ (Text.trim d.name).head? := by rw [d.trim_name, hname]; rfl
        exact ⟨c, by simp [renderBare_cons, render, statement, hname],
          Text.not_isBlank_of_mem_head?_trim hhead⟩
  · rw [renderBare_eq hds, List.getLast?_concat]
    exact ⟨';', rfl, by decide⟩

theorem brace_not_mem_renderBare (hds : ds ≠ []) (hplain : ∀ d ∈ ds, d.IsPlain) :
    '{' ∉ renderBare ds := by
  have hbraces := braces_not_mem_bare fun d hd => (hplain d hd).braces
  simp [renderBare_eq hds, hbraces.1]

end Declared

namespace Block

open Declared (renderBare)

variable (b : Block) (blocks : Nat → Block)

/-- The lines of declarations. -/
def statements : List (List Char) :=
  b.lines.map renderBare

/-- What stands behind the opening brace. -/
def back : List Char :=
  ['\n'] ++ (b.statements.flatMap fun line => [' ', ' '] ++ line ++ ['\n']) ++ ['}', '\n', '\n']

/-- The text of a block. -/
def text : List Char :=
  b.selector ++ ' ' :: '{' :: b.back

/-- The lines of a block, from the selector to the empty line behind it. -/
def rows : List (List Char) :=
  [b.selector ++ [' ', '{']] ++ (b.statements.map fun line => [' ', ' '] ++ line) ++ [['}'], []]

/-- What a block puts in front of the next selector. -/
def carried : List Char :=
  ['\n', ' ', ' '].intercalate b.statements ++ ['\n', '}', '\n', '\n']

/-- The first blocks of a sequence, one behind the other. -/
def sheet (n : Nat) : List Char :=
  (List.range n).flatMap fun i => (blocks i).text

/-- What is quoted of each block: its selector behind what the block in front of it puts there. -/
def quoted : Nat → List Char
  | 0 => (blocks 0).selector
  | i + 1 => (blocks i).carried ++ (blocks (i + 1)).selector

theorem sheet_succ (n : Nat) :
    sheet blocks (n + 1) = (blocks 0).text ++ sheet (fun i => blocks (i + 1)) n := by
  rw [sheet, List.range_succ_eq_map, List.flatMap_cons, List.flatMap_map]
  rfl

/-! ## Selectors -/

theorem brace_not_mem_selector : '{' ∉ b.selector :=
  fun h => b.selector_clean '{' h (by decide)

theorem brace_not_mem_back : '{' ∉ b.back := by
  have hlines : ∀ ds ∈ b.lines, '{' ∉ renderBare ds := fun ds hds =>
    Declared.brace_not_mem_renderBare (b.line_ne_nil ds hds) (b.line_plain ds hds)
  simpa [back, statements] using hlines

/-- What is in front of a brace is the selector and what was left behind the brace before it. -/
def beforeSelector (front : List Char) (blocks : Nat → Block) : Nat → List Char
  | 0 => front
  | i + 1 => (blocks i).back

theorem dropLast_splitOn_sheet {front : List Char} (hfront : '{' ∉ front) (n : Nat) :
    ((front ++ sheet blocks n).splitOn '{').dropLast =
      (List.range n).map fun i =>
        beforeSelector front blocks i ++ (blocks i).selector ++ [' '] := by
  induction n generalizing front blocks with
  | zero =>
    have hnone : front ++ sheet blocks 0 = front := List.append_nil front
    rw [hnone, List.splitOn_eq_singleton hfront]
    rfl
  | succ n ih =>
    have htext : front ++ sheet blocks (n + 1) =
        (front ++ (blocks 0).selector ++ [' ']) ++
          '{' :: ((blocks 0).back ++ sheet (fun i => blocks (i + 1)) n) := by
      simp [sheet_succ, text]
    have hclean : '{' ∉ front ++ (blocks 0).selector ++ [' '] := by
      simp [hfront, (blocks 0).brace_not_mem_selector]
    rw [htext, List.splitOn_append_cons_self_of_not_mem hclean,
      List.dropLast_cons_of_ne_nil (List.splitOn_ne_nil _ _), ih _ (blocks 0).brace_not_mem_back,
      List.range_succ_eq_map, List.map_cons, List.map_map]
    congr 1
    apply List.map_congr_left
    intro i _
    cases i <;> rfl

theorem statements_ne_nil : b.statements ≠ [] :=
  mt List.map_eq_nil_iff.mp b.lines_ne_nil

theorem back_eq : b.back = ['\n', ' ', ' '] ++ b.carried := by
  rw [back, Text.flatMap_terminated [' ', ' '] '\n' b.statements_ne_nil, carried]
  simp only [List.append_assoc, List.cons_append, List.nil_append]

theorem isSolid_of_mem_statements {line : List Char} (hline : line ∈ b.statements) :
    Text.IsSolid line := by
  rcases List.mem_map.mp hline with ⟨ds, hds, rfl⟩
  exact Declared.isSolid_renderBare (b.line_ne_nil ds hds)

theorem isSolid_carried_append (next : Block) : Text.IsSolid (b.carried ++ next.selector) := by
  rcases List.exists_cons_of_ne_nil b.statements_ne_nil with ⟨line, rest, hlines⟩
  have hsolid : Text.IsSolid line := b.isSolid_of_mem_statements (by simp [hlines])
  rw [carried, hlines, Text.intercalate_cons_eq_append, List.append_assoc line]
  exact hsolid.append next.selector_solid _

/-- The selectors of a stylesheet made of blocks. -/
theorem selectorTexts_sheet (n : Nat) :
    Stylesheet.selectorTexts (sheet blocks n) = (List.range n).map (quoted blocks) := by
  have hspace : ∀ c ∈ [' '], Text.isBlank c = true := List.forall_mem_singleton.mpr rfl
  have hfront : ∀ c ∈ ['\n', ' ', ' '], Text.isBlank c = true :=
    List.all_eq_true.mp rfl
  have hpieces := dropLast_splitOn_sheet blocks (List.not_mem_nil) n
  rw [List.nil_append] at hpieces
  rw [Stylesheet.selectorTexts, hpieces, List.filter_eq_self.mpr, List.map_map]
  · apply List.map_congr_left
    intro i _
    cases i with
    | zero => exact (blocks 0).selector_solid.trim_eq (List.forall_mem_nil _) hspace
    | succ i =>
      have hsolid := (blocks i).isSolid_carried_append (blocks (i + 1))
      rw [Function.comp_apply, beforeSelector, back_eq, List.append_assoc ['\n', ' ', ' '],
        hsolid.trim_eq hfront hspace]
      rfl
  · intro piece hpiece
    rcases List.mem_map.mp hpiece with ⟨i, _, rfl⟩
    simp

/-! ## Lines -/

theorem text_eq_rows : b.text = b.rows.flatMap fun row => row ++ ['\n'] := by
  simp [text, back, rows, List.flatMap_map]

theorem break_not_mem_rows : ∀ row ∈ b.rows, '\n' ∉ row := by
  have hselector : '\n' ∉ b.selector := fun h => b.selector_clean '\n' h (by decide)
  have hlines : ∀ line ∈ b.statements, '\n' ∉ line := by
    rw [statements, List.forall_mem_map]
    exact fun ds hds => Declared.not_mem_renderBare fun d hd => (b.line_plain ds hds d hd).line
  rw [rows, List.forall_mem_append, List.forall_mem_append, List.forall_mem_singleton,
    List.forall_mem_map]
  refine ⟨⟨by simp [hselector], fun line hline => ?_⟩, by decide⟩
  simpa using hlines line hline

theorem map_trim_rows :
    b.rows.map Text.trim = [b.selector ++ [' ', '{']] ++ b.statements ++ [['}'], []] := by
  have hopening : Text.trim (b.selector ++ [' ', '{']) = b.selector ++ [' ', '{'] := by
    have hbrace : Text.IsSolid ['{'] := by decide
    have hsolid := b.selector_solid.append hbrace [' ']
    rw [List.append_assoc] at hsolid
    exact hsolid.trim_self
  have hstatements : (b.statements.map fun line => [' ', ' '] ++ line).map Text.trim =
      b.statements := by
    rw [List.map_map]
    conv_rhs => rw [← List.map_id b.statements]
    apply List.map_congr_left
    intro line hline
    rw [Function.comp_apply, Text.trim_append_of_all_blank (List.all_eq_true.mp rfl),
      (b.isSolid_of_mem_statements hline).trim_self, id]
  rw [rows, List.map_append, List.map_append, List.map_singleton, hopening, hstatements]
  rfl

/-- The lines of a stylesheet made of blocks. -/
theorem lineTexts_sheet (n : Nat) :
    Stylesheet.lineTexts (sheet blocks n) =
      ((List.range n).flatMap fun i => (blocks i).rows.map Text.trim) ++ [[]] := by
  have htext : sheet blocks n =
      ((List.range n).flatMap fun i => (blocks i).rows).flatMap (fun row => row ++ ['\n']) ++
        [] := by
    rw [List.append_nil, List.flatMap_assoc, sheet]
    exact congrArg (List.range n).flatMap (funext fun i => (blocks i).text_eq_rows)
  have hrows : ∀ row ∈ (List.range n).flatMap fun i => (blocks i).rows, '\n' ∉ row := by
    intro row hrow
    rcases List.mem_flatMap.mp hrow with ⟨i, _, hrow⟩
    exact (blocks i).break_not_mem_rows row hrow
  rw [Stylesheet.lineTexts, htext, Text.splitOn_terminated hrows, List.map_append, List.map_flatMap]
  rfl

end Block

/-! ## What is said about lines -/

/-- A line that ends with its only brace, an opening one, has the empty name only. -/
theorem Declaration.names_of_opening {front : List Char} (hopen : '{' ∉ front)
    (hclose : '}' ∉ front) : names (front ++ ['{']) = [[]] := by
  have hstart : bodyStart (front ++ ['{']) = front.length + 1 := bodyStart_of_brace hopen []
  have hstop : bodyStop (front ++ ['{']) = front.length := by
    rw [bodyStop_of_not_mem (by simp [hclose]), List.length_append, List.length_singleton,
      Nat.add_sub_cancel]
  have hempty : ¬ front.length + 1 < front.length := by omega
  rw [names, map_text_propertyNames, body, Slice.detached, hstart, hstop, if_neg hempty]
  rfl

/-- A line without a colon has no colors. -/
theorem Line.literals_of_not_mem {line : List Char} (hcolon : ':' ∉ line) (hclean : ';' ∉ line) :
    literals line = [] := by
  have hlabel : ¬ Declaration.label <:+: line := fun h => hcolon (h.subset (by decide))
  have hnone : Declaration.pieceValue? line = none := by
    rw [Declaration.pieceValue?, Declaration.behindLabel?_eq_none hlabel, Option.bind_none]
  rw [literals, Declaration.map_text_colorValues, Slice.detached, List.splitOn_eq_singleton hclean,
    List.filterMap_cons, hnone]
  rfl

namespace Rule

/-- A rule is silent about a text if it says nothing about it under any number. -/
def IsSilentAbout (rule : Rule) (text : List Char) : Prop :=
  ∀ number, rule.headlines number text = []

variable {rule : Rule}

theorem isSilentAbout_opening (hlines : ¬ rule.IsAboutSelectors) (b : Block) :
    rule.IsSilentAbout (b.selector ++ [' ', '{']) := by
  have hclean (c : Char) (hc : c ∈ ['\n', '{', '}', ':', ';']) (hspace : c ≠ ' ') :
      c ∉ b.selector ++ [' '] := by
    rw [List.mem_append, List.mem_singleton]
    exact fun h => h.elim (fun hmem => b.selector_clean c hmem hc) hspace
  have hopen := hclean '{' (by decide) (by decide)
  have hclose := hclean '}' (by decide) (by decide)
  have hcolon := hclean ':' (by decide) (by decide)
  have hsemicolon := hclean ';' (by decide) (by decide)
  intro number
  rw [List.append_cons]
  cases rule with
  | selectorNaming => exact absurd trivial hlines
  | lowSpecificity => exact absurd trivial hlines
  | propertyOrder =>
    simp only [headlines, Declaration.names_of_opening hopen hclose]
    split <;> rfl
  | colorNaming =>
    rw [headlines, Line.literals_of_not_mem (by simpa using hcolon) (by simpa using hsemicolon)]
    rfl

theorem isSilentAbout_closing (hlines : ¬ rule.IsAboutSelectors) : rule.IsSilentAbout ['}'] := by
  intro number
  cases rule with
  | selectorNaming => exact absurd trivial hlines
  | lowSpecificity => exact absurd trivial hlines
  | propertyOrder => rfl
  | colorNaming => rfl

theorem isSilentAbout_nil (hlines : ¬ rule.IsAboutSelectors) : rule.IsSilentAbout [] := by
  intro number
  cases rule with
  | selectorNaming => exact absurd trivial hlines
  | lowSpecificity => exact absurd trivial hlines
  | propertyOrder => rfl
  | colorNaming => rfl

end Rule

namespace Declared

variable {d : Declared} {ds : List Declared}

/-- About a line of declarations, the rule about the order gives the advice on the names. -/
theorem headlines_propertyOrder (hds : ds ≠ []) (hplain : ∀ d ∈ ds, d.IsPlain) (number : Nat) :
    Rule.propertyOrder.headlines number (renderBare ds) =
      (PropertyOrder.advice (ds.map name)).map fun pair =>
        .misordered number pair.1 pair.2 := by
  have hbraces : ∀ d ∈ ds, d.IsBraceFree := fun d hd => (hplain d hd).braces
  have hhead := head?_trim_renderBare hbraces
  rw [(isSolid_renderBare hds).trim_self] at hhead
  rw [Rule.headlines, if_neg hhead, names_renderBare hds hbraces]

/-- The rule about colors names the numeric ones among the values of colors. -/
theorem headlines_colorNaming (hplain : ∀ d ∈ ds, d.IsPlain) (number : Nat) :
    Rule.colorNaming.headlines number (renderBare ds) =
      ((ds.filterMap color?).filter fun value => ColorName.IsLiteral value).map fun value =>
        .unnamedColor number value := by
  rw [Rule.headlines, literals_renderBare hplain]

/-- There is nothing to say about a single declaration that is not one of a color. -/
theorem isSilentAbout_singleton {rule : Rule} (hlines : ¬ rule.IsAboutSelectors) (hd : d.IsPlain)
    (hname : ¬ Declaration.colorWord <:+ d.name) : rule.IsSilentAbout (renderBare [d]) := by
  have hplain : ∀ e ∈ [d], e.IsPlain := List.forall_mem_singleton.mpr hd
  have hcolor : d.color? = none := if_neg hname
  intro number
  cases rule with
  | selectorNaming => exact absurd trivial hlines
  | lowSpecificity => exact absurd trivial hlines
  | propertyOrder => rw [headlines_propertyOrder (List.cons_ne_nil d []) hplain]; rfl
  | colorNaming => rw [headlines_colorNaming hplain, List.filterMap_cons, hcolor]; rfl

end Declared

/-- Nothing is said about lines that the rule is silent about. -/
theorem Rule.flatten_mapIdx_of_silent {rule : Rule} {lines : List (List Char)}
    (hsilent : ∀ line ∈ lines, rule.IsSilentAbout line) (number : Nat → Nat) :
    (lines.mapIdx fun j line => rule.headlines (number j) line).flatten = [] := by
  rw [List.flatten_eq_nil_iff]
  intro said hsaid
  rcases List.mem_mapIdx.mp hsaid with ⟨j, hj, rfl⟩
  exact hsilent _ (List.getElem_mem hj) _

/-- What is read off numbered rows in groups of one length is read off group by group. -/
theorem flatten_mapIdx_flatMap_range {α β : Type} {rows : Nat → List α} {size : Nat}
    (hsize : ∀ i, (rows i).length = size) (read : Nat → α → List β) (n : Nat) :
    (((List.range n).flatMap rows).mapIdx read).flatten =
      (List.range n).flatMap fun i => ((rows i).mapIdx fun j => read (size * i + j)).flatten := by
  have hlength (k : Nat) : ((List.range k).flatMap rows).length = size * k := by
    rw [List.length_flatMap]
    simp [hsize, Nat.mul_comm]
  induction n with
  | zero => rfl
  | succ n ih =>
    rw [List.range_succ, List.flatMap_append, List.mapIdx_append, List.flatten_append, ih,
      List.flatMap_append, List.flatMap_singleton, List.flatMap_singleton, hlength]
    simp only [Nat.add_comm]

namespace Block

variable {rule : Rule} {blocks : Nat → Block}

/-- The rules about selectors speak of what is quoted of each block. -/
theorem headlines_selectors_sheet (n : Nat) :
    ((Stylesheet.selectorTexts (sheet blocks n)).mapIdx fun k selector =>
        rule.headlines (k + 1) selector).flatten =
      (List.range n).flatMap fun i => rule.headlines (i + 1) (quoted blocks i) := by
  rw [selectorTexts_sheet, List.flatMap_def]
  congr 1
  apply List.ext_getElem
  · simp
  · intro k hk hk'
    simp

/-- If each block has so many lines of declarations, then the rules about lines speak of these
lines only, and of each of them under its number. -/
theorem headlines_lines_sheet (hlines : ¬ rule.IsAboutSelectors) {size : Nat}
    (hsize : ∀ i, (blocks i).lines.length = size) (n : Nat) :
    ((Stylesheet.lineTexts (sheet blocks n)).mapIdx fun k line =>
        rule.headlines (k + 1) line).flatten =
      (List.range n).flatMap fun i =>
        ((blocks i).statements.mapIdx fun j line =>
          rule.headlines ((size + 3) * i + j + 2) line).flatten := by
  have hrows (i : Nat) : ((blocks i).rows.map Text.trim).length = size + 3 := by
    simp [rows, statements, hsize]
  rw [lineTexts_sheet, List.mapIdx_append, List.flatten_append,
    flatten_mapIdx_flatMap_range hrows, List.mapIdx_singleton, List.flatten_singleton,
    Rule.isSilentAbout_nil hlines, List.append_nil]
  congr 1
  funext i
  rw [map_trim_rows, List.mapIdx_append, List.mapIdx_append, List.flatten_append,
    List.flatten_append, List.mapIdx_singleton, List.flatten_singleton,
    Rule.isSilentAbout_opening hlines, List.nil_append, List.mapIdx_cons, List.mapIdx_singleton,
    List.flatten_cons, List.flatten_singleton, Rule.isSilentAbout_closing hlines,
    Rule.isSilentAbout_nil hlines, List.append_nil, List.append_nil]
  rfl

/-- The headlines of a stylesheet made of blocks with so many lines of declarations each. -/
theorem map_headline_issues_sheet {size : Nat} (hsize : ∀ i, (blocks i).lines.length = size)
    (n : Nat) :
    (Analysis.ofText (sheet blocks n)).issues.map Issue.headline =
      ((List.range n).flatMap fun i => Rule.selectorNaming.headlines (i + 1) (quoted blocks i)) ++
      ((List.range n).flatMap fun i => Rule.lowSpecificity.headlines (i + 1) (quoted blocks i)) ++
      ((List.range n).flatMap fun i =>
        ((blocks i).statements.mapIdx fun j line =>
          Rule.propertyOrder.headlines ((size + 3) * i + j + 2) line).flatten) ++
      ((List.range n).flatMap fun i =>
        ((blocks i).statements.mapIdx fun j line =>
          Rule.colorNaming.headlines ((size + 3) * i + j + 2) line).flatten) := by
  rw [Analysis.map_headline_issues, Rule.all, List.flatMap_cons, List.flatMap_cons,
    List.flatMap_cons, List.flatMap_singleton, Rule.subjects, Rule.subjects, Rule.subjects,
    Rule.subjects, headlines_selectors_sheet, headlines_selectors_sheet,
    headlines_lines_sheet id hsize, headlines_lines_sheet id hsize]
  simp only [List.append_assoc]

end Block

end SheetLint
