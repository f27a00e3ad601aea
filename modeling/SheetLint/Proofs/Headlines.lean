import SheetLint.Proofs.HexColor
import SheetLint.Proofs.PropertyNames

/-!
# Headlines

What a reader takes from an issue is the rule, the number and the message.  All three can be read
off the texts that the rules look at: the trimmed pieces in front of the opening braces, and the
trimmed pieces between the line breaks.

Main results:

- Structure `Headline` with `Issue.headline`, what a reader takes from an issue.
- Definition `Rule.subjects` lists the texts that a rule looks at, and `Rule.headlines` what it
  says about one of them.
- Theorem `Rule.map_headline_check` gives the headlines of a rule, and
  `Analysis.map_headline_issues` those of the default analysis of every text.
-/

namespace SheetLint

/-- The id of a rule, the number of a location and a message. -/
structure Headline where
  ruleId : String
  number : Option Nat
  message : String
  deriving DecidableEq, Repr

/-- What a reader takes from an issue. -/
def Issue.headline (issue : Issue) : Headline :=
  ⟨issue.ruleId, issue.location.map Location.line, issue.message⟩

/-- What a reader is to take from a finding. -/
def Finding.headline (f : Finding) : Headline :=
  ⟨f.rule.id, some f.line, f.message⟩

namespace Headline

/-- A selector does not follow the convention. -/
def invalidSelector (number : Nat) (text : List Char) : Headline :=
  let quoted := String.ofList text
  ⟨Rule.selectorNaming.id, some number, s!"Invalid selector at line {number}: \"{quoted}\"."⟩

/-- A selector has a low score. -/
def lowSpecificity (number : Nat) (text : List Char) (score : Int) : Headline :=
  let quoted := String.ofList text
  ⟨Rule.lowSpecificity.id, some number,
    s!"Low specificity at line {number}: \"{quoted}\" has a specificity of {score}."⟩

/-- One property is to be declared before another one. -/
def misordered (number : Nat) (next current : List Char) : Headline :=
  let first := String.ofList next
  let second := String.ofList current
  ⟨Rule.propertyOrder.id, some number,
    s!"Line {number}: The property \"{first}\" should be declared before \"{second}\"."⟩

/-- A color is a number. -/
def unnamedColor (number : Nat) (value : List Char) : Headline :=
  let color := String.ofList value
  ⟨Rule.colorNaming.id, some number,
    s!"Line {number}: Hex color \"{color}\" should have a descriptive name."⟩

end Headline

/-! ## Single selectors and lines -/

namespace Rule

/-- What a rule says about one text under a number. -/
def headlines (rule : Rule) (number : Nat) (text : List Char) : List Headline :=
  match rule with
  | .selectorNaming =>
    if BlockName.isValid text then [] else [.invalidSelector number text]
  | .lowSpecificity =>
    let specificity := Specificity.ofText text
    if specificity.isLow then [.lowSpecificity number text specificity.score.toInt] else []
  | .propertyOrder =>
    if text.head? = some '}' then []
    else (PropertyOrder.advice (Declaration.names text)).map fun pair =>
      .misordered number pair.1 pair.2
  | .colorNaming => (Line.literals text).map fun value => .unnamedColor number value

/-- A selector with a character that has no place in a name is reported. -/
theorem headlines_naming_of_mem {text : List Char} {c : Char} (hc : c ∈ text)
    (hlower : c.isLower = false) (helement : c ≠ '_') (hmodifier : c ≠ '-') (number : Nat) :
    selectorNaming.headlines number text = [.invalidSelector number text] :=
  if_neg fun hvalid => BlockName.not_mem_of_isValid hvalid hlower helement hmodifier hc

end Rule

namespace Selector

variable (s : Selector)

theorem map_headline_namingFinding? :
    (s.namingFinding?.toList.map Finding.headline) =
      Rule.selectorNaming.headlines s.ordinal s.slice.text := by
  rw [namingFinding?, Rule.headlines]
  split <;> rfl

theorem map_headline_specificityFinding? :
    (s.specificityFinding?.toList.map Finding.headline) =
      Rule.lowSpecificity.headlines s.ordinal s.slice.text := by
  simp only [specificityFinding?, Rule.headlines]
  split <;> rfl

end Selector

namespace Line

variable (l : Line)

theorem map_headline_orderFindings :
    l.orderFindings.map Finding.headline =
      Rule.propertyOrder.headlines l.number l.slice.text := by
  rw [Rule.headlines]
  split
  next hbrace =>
    rw [orderFindings, if_pos hbrace]
    rfl
  next hbrace =>
    rw [orderFindings_eq_map hbrace, ← Declaration.names_text, PropertyOrder.advice,
      PropertyOrder.neighbours_map, List.filter_map, List.map_map, List.map_map, List.map_map]
    rfl

theorem map_headline_colorFindings :
    l.colorFindings.map Finding.headline = Rule.colorNaming.headlines l.number l.slice.text := by
  rw [Rule.headlines, literals_text, colorFindings_eq_map, List.map_map, List.map_map]
  rfl

end Line

/-! ## Whole texts -/

namespace Stylesheet

/-- The texts of the selectors of a text. -/
def selectorTexts (text : List Char) : List (List Char) :=
  ((text.splitOn '{').dropLast.filter fun piece => piece ≠ []).map Text.trim

/-- The texts of the lines of a text. -/
def lineTexts (text : List Char) : List (List Char) :=
  (text.splitOn '\n').map Text.trim

theorem numbered_selectorTexts (text : List Char) :
    ((ofText text).selectors.map fun s => (s.ordinal, s.slice.text)) =
      (selectorTexts text).mapIdx fun k subject => (k + 1, subject) := by
  rw [numbered_selectors, selectorTexts, mapIdx_map]

theorem numbered_lineTexts (text : List Char) :
    ((ofText text).lines.map fun l => (l.number, l.slice.text)) =
      (lineTexts text).mapIdx fun k subject => (k + 1, subject) := by
  rw [text_lines, lineTexts, mapIdx_map]

end Stylesheet

/-- What is read off numbered items is read off their numbers and texts. -/
theorem flatMap_of_numbered {α β : Type} {items : List α} {number : α → Nat}
    {textOf : α → List Char} {texts : List (List Char)} {find : α → List β}
    (read : Nat → List Char → List β)
    (hnumbered : (items.map fun item => (number item, textOf item)) =
      texts.mapIdx fun k text => (k + 1, text))
    (hfind : ∀ item, find item = read (number item) (textOf item)) :
    items.flatMap find = (texts.mapIdx fun k text => read (k + 1) text).flatten := by
  have hread : items.flatMap find =
      (items.map fun item => (number item, textOf item)).flatMap fun p => read p.1 p.2 := by
    rw [List.flatMap_map, funext hfind]
  rw [hread, hnumbered, List.flatMap_def]
  congr 1
  apply List.ext_getElem
  · simp
  · intro k hk hk'
    simp

namespace Rule

/-- The texts that a rule looks at. -/
def subjects : Rule → List Char → List (List Char)
  | .selectorNaming => Stylesheet.selectorTexts
  | .lowSpecificity => Stylesheet.selectorTexts
  | .propertyOrder => Stylesheet.lineTexts
  | .colorNaming => Stylesheet.lineTexts

/-- An issue says what its finding says, as every finding has a place. -/
theorem map_headline_toIssue (rule : Rule) (text : List Char) :
    (rule.check (Stylesheet.ofText text)).map Issue.headline =
      (rule.findings (Stylesheet.ofText text)).map Finding.headline := by
  rw [check, List.map_map]
  apply List.map_congr_left
  intro f hf
  rcases location_of_mem_findings hf with ⟨l, hlocation, -⟩
  have hissue : f.toIssue.location = some l := hlocation
  have hline : l.line = f.line := (Prod.mk.inj (Finding.map_location hlocation)).1
  rw [Function.comp_apply, Issue.headline, hissue, Option.map_some, hline]
  rfl

/-- What a rule reports for a text is what it says about each of its subjects. -/
theorem map_headline_check (rule : Rule) (text : List Char) :
    (rule.check (Stylesheet.ofText text)).map Issue.headline =
      ((rule.subjects text).mapIdx fun k subject => rule.headlines (k + 1) subject).flatten := by
  rw [map_headline_toIssue]
  cases rule with
  | selectorNaming =>
    rw [findings, List.filterMap_eq_flatMap_toList, List.map_flatMap]
    exact flatMap_of_numbered selectorNaming.headlines (Stylesheet.numbered_selectorTexts text)
      Selector.map_headline_namingFinding?
  | lowSpecificity =>
    rw [findings, List.filterMap_eq_flatMap_toList, List.map_flatMap]
    exact flatMap_of_numbered lowSpecificity.headlines (Stylesheet.numbered_selectorTexts text)
      Selector.map_headline_specificityFinding?
  | propertyOrder =>
    rw [findings, List.map_flatMap]
    exact flatMap_of_numbered propertyOrder.headlines (Stylesheet.numbered_lineTexts text)
      Line.map_headline_orderFindings
  | colorNaming =>
    rw [findings, List.map_flatMap]
    exact flatMap_of_numbered colorNaming.headlines (Stylesheet.numbered_lineTexts text)
      Line.map_headline_colorFindings

end Rule

/-- What the default analysis says about a text, rule by rule and subject by subject. -/
theorem Analysis.map_headline_issues (text : List Char) :
    (ofText text).issues.map Issue.headline =
      Rule.all.flatMap fun rule =>
        ((rule.subjects text).mapIdx fun k subject => rule.headlines (k + 1) subject).flatten := by
  rw [issues_ofText, List.map_flatMap]
  exact congrArg (Rule.all.flatMap ·) (funext fun rule => Rule.map_headline_check rule text)

end SheetLint
