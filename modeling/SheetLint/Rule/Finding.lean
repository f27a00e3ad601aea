import SheetLint.Convention.Specificity
import SheetLint.Issue
import SheetLint.Rule.Basic
import SheetLint.Stylesheet.Selector

/-!
# Findings

A finding holds what a rule found, before it is put into words.

Main results:

- Type `Finding` has one constructor for each rule.
- Definition `Finding.toIssue` words a finding; the severity, the category and the id
  of the issue are those of the rule.
-/

namespace SheetLint

/-! ## What rules find -/

/-- A broken convention with the text that breaks it. -/
inductive Finding where
  | invalidSelector (selector : Selector)
  | lowSpecificity (selector : Selector) (score : Int64)
  | misordered (line : Nat) (next current : Slice)
  | unnamedColor (line : Nat) (value : Slice)
  deriving DecidableEq, Repr

namespace Finding

/-- The rule behind a finding. -/
def rule : Finding → Rule
  | .invalidSelector _ => .selectorNaming
  | .lowSpecificity _ _ => .lowSpecificity
  | .misordered _ _ _ => .propertyOrder
  | .unnamedColor _ _ => .colorNaming

/-- The number that a finding is reported under: the ordinal of its selector, or the
number of its line. -/
def line : Finding → Nat
  | .invalidSelector selector => selector.ordinal
  | .lowSpecificity selector _ => selector.ordinal
  | .misordered line _ _ => line
  | .unnamedColor line _ => line

/-- The text that a finding points at. -/
def slice : Finding → Slice
  | .invalidSelector selector => selector.slice
  | .lowSpecificity selector _ => selector.slice
  | .misordered _ next _ => next
  | .unnamedColor _ value => value

/-! ## Wording -/

/-- The message of a finding. -/
def message : Finding → String
  | .invalidSelector ⟨ordinal, slice⟩ =>
    let text := slice.toString
    s!"Invalid selector at line {ordinal}: \"{text}\"."
  | .lowSpecificity ⟨ordinal, slice⟩ score =>
    let text := slice.toString
    let value := score.toInt
    s!"Low specificity at line {ordinal}: \"{text}\" has a specificity of {value}."
  | .misordered line next current =>
    let first := next.toString
    let second := current.toString
    s!"Line {line}: The property \"{first}\" should be declared before \"{second}\"."
  | .unnamedColor line value =>
    let text := value.toString
    s!"Line {line}: Hex color \"{text}\" should have a descriptive name."

/-- The proposed change, if there is one. -/
def suggestedFix : Finding → Option String
  | .misordered _ next current =>
    let first := next.toString
    let second := current.toString
    some s!"Move \"{first}\" in front of \"{second}\""
  | _ => none

/-- The place of a finding, if its text lies in the stylesheet. -/
def location (f : Finding) : Option Location :=
  Location.ofSlice? f.line f.slice

/-- The issue reported for a finding. -/
def toIssue (f : Finding) : Issue :=
  ⟨f.rule.severity, f.rule.category, f.message, f.location, f.rule.id, f.suggestedFix⟩

@[simp]
theorem toIssue_severity (f : Finding) : f.toIssue.severity = f.rule.severity := rfl

@[simp]
theorem toIssue_category (f : Finding) : f.toIssue.category = f.rule.category := rfl

@[simp]
theorem toIssue_ruleId (f : Finding) : f.toIssue.ruleId = f.rule.id := rfl

end Finding

end SheetLint
