import SheetLint.Convention.BlockName
import SheetLint.Convention.ColorName
import SheetLint.Convention.PropertyOrder
import SheetLint.Rule.Finding
import SheetLint.Stylesheet.Basic

/-!
# Checking a stylesheet

Two rules look at each selector by itself, and two at each line by itself.

Main results:

- Definition `Rule.findings` runs a rule over a stylesheet, and `Rule.check` words
  what it found, in document order.
- Theorem `Rule.rule_of_mem_findings` says that every finding is one of the rule that
  was run.
-/

namespace SheetLint

/-! ## Single selectors and lines -/

namespace Selector

/-- The finding about a selector that spells no block name. -/
def namingFinding? (s : Selector) : Option Finding :=
  if BlockName.isValid s.slice.text then none else some (.invalidSelector s)

/-- The finding about a selector with a low score. -/
def specificityFinding? (s : Selector) : Option Finding :=
  let specificity := Specificity.ofText s.slice.text
  if specificity.isLow then some (.lowSpecificity s specificity.score) else none

end Selector

namespace Line

/-- The findings about neighbouring declarations in the wrong order.  A line that begins
with a closing brace is left out. -/
def orderFindings (l : Line) : List Finding :=
  if l.slice.text.head? = some '}' then []
  else
    (PropertyOrder.neighbours (Declaration.propertyNames l.slice)).filterMap fun (current, next) =>
      if PropertyOrder.isMisordered current.text next.text then
        some (.misordered l.number next current)
      else none

/-- The findings about numeric colors without a descriptive word. -/
def colorFindings (l : Line) : List Finding :=
  (Declaration.colorValues l.slice).filterMap fun value =>
    if ColorName.isHexColor value.text && !ColorName.isDescriptive value.text then
      some (.unnamedColor l.number value)
    else none

end Line

/-! ## Whole stylesheets -/

namespace Rule

/-- What a rule finds in a stylesheet, in document order. -/
def findings (sheet : Stylesheet) : Rule → List Finding
  | .selectorNaming => sheet.selectors.filterMap Selector.namingFinding?
  | .lowSpecificity => sheet.selectors.filterMap Selector.specificityFinding?
  | .propertyOrder => sheet.lines.flatMap Line.orderFindings
  | .colorNaming => sheet.lines.flatMap Line.colorFindings

/-- The issues that a rule reports for a stylesheet. -/
def check (rule : Rule) (sheet : Stylesheet) : List Issue :=
  (rule.findings sheet).map Finding.toIssue

/-- A rule finds nothing but what it looks for. -/
theorem rule_of_mem_findings {sheet : Stylesheet} {r : Rule} {f : Finding}
    (h : f ∈ r.findings sheet) : f.rule = r := by
  cases r
  case selectorNaming =>
    obtain ⟨s, _, found⟩ := List.mem_filterMap.mp h
    simp only [Selector.namingFinding?] at found
    split at found <;> cases found
    rfl
  case lowSpecificity =>
    obtain ⟨s, _, found⟩ := List.mem_filterMap.mp h
    simp only [Selector.specificityFinding?] at found
    split at found <;> cases found
    rfl
  case propertyOrder =>
    obtain ⟨l, _, found⟩ := List.mem_flatMap.mp h
    simp only [Line.orderFindings] at found
    split at found
    · cases found
    · obtain ⟨pair, _, found⟩ := List.mem_filterMap.mp found
      split at found <;> cases found
      rfl
  case colorNaming =>
    obtain ⟨l, _, found⟩ := List.mem_flatMap.mp h
    obtain ⟨value, _, found⟩ := List.mem_filterMap.mp found
    split at found <;> cases found
    rfl

/-- Every issue of a rule bears the severity, category and id of that rule. -/
theorem stamp_of_mem_check {sheet : Stylesheet} {r : Rule} {i : Issue} (h : i ∈ r.check sheet) :
    i.severity = r.severity ∧ i.category = r.category ∧ i.ruleId = r.id := by
  obtain ⟨f, member, rfl⟩ := List.mem_map.mp h
  simp [rule_of_mem_findings member]

end Rule

end SheetLint
