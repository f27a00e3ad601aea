import SheetLint.Config
import SheetLint.Feedback
import SheetLint.Log
import SheetLint.Rule.Check

/-!
# Analysis

The rules are run over a stylesheet one after the other, as a configuration wants it.

Main results:

- Definition `Config.runRules` runs the rules with a record of each of them, and
  `Config.lint` refuses an invalid configuration first.
- Structure `Analysis` keeps the stylesheet with its issues and records;
  `Analysis.ofText` makes one by default, and `Config.analyse` by a configuration
  that is not refused.
-/

namespace SheetLint

namespace Config

/-! ## Running the rules -/

/-- The issues of a rule that a configuration keeps. -/
def kept (c : Config) (sheet : Stylesheet) (rule : Rule) : List Issue :=
  (rule.check sheet).filter fun issue => c.reports issue.severity

/-- A limit is reached when there is one and there are as many issues. -/
def isFull (c : Config) (issues : List Issue) : Bool :=
  0 < c.maxIssues && c.maxIssues ≤ issues.length

/-- Run rules behind those that gave `issues` already.  The run ends with the rule that
reaches the limit, whose record still counts all its issues. -/
def runFrom (c : Config) (sheet : Stylesheet) (issues : List Issue) :
    List Rule → List Issue × List Event
  | [] => (issues, [])
  | rule :: rest =>
    if c.isEnabled rule.id then
      let added := c.kept sheet rule
      let event := Event.ruleReported rule added.length
      let issues := issues ++ added
      if c.isFull issues then (issues.take c.maxIssues, [event])
      else
        let (issues, events) := runFrom c sheet issues rest
        (issues, event :: events)
    else
      let (issues, events) := runFrom c sheet issues rest
      (issues, .ruleSkipped rule :: events)

/-- Run all rules. -/
def runRules (c : Config) (sheet : Stylesheet) : List Issue × List Event :=
  c.runFrom sheet [] Rule.all

/-- The issues of a stylesheet, unless the configuration mentions an unknown rule. -/
def lint (c : Config) (sheet : Stylesheet) : Except Error (List Issue) :=
  match c.validate with
  | .error e => .error e
  | .ok () => .ok (c.runRules sheet).1

end Config

/-! ## Analyses -/

/-- A stylesheet with its issues and with what was recorded on the way. -/
structure Analysis where
  sheet : Stylesheet
  issues : List Issue
  events : List Event
  deriving DecidableEq, Repr

namespace Analysis

/-- Run all rules over a text, whatever rules the configuration mentions. -/
def run (c : Config) (text : List Char) : Analysis :=
  let sheet := Stylesheet.ofText text
  let (issues, events) := c.runRules sheet
  ⟨sheet, issues,
    events ++ [.analysed sheet.selectors.length sheet.lines.length issues.length]⟩

/-- The analysis of a text with the initial configuration. -/
def ofText (text : List Char) : Analysis :=
  run Config.initial text

/-- Some convention is broken. -/
def hasIssues (a : Analysis) : Bool :=
  !a.issues.isEmpty

/-- The messages of the issues, in reporting order. -/
def findings (a : Analysis) : List String :=
  a.issues.map Issue.message

/-- The issues of a category, in reporting order. -/
def inCategory (a : Analysis) (category : Category) : List Issue :=
  a.issues.filter fun issue => issue.category = category

/-- The feedback of an analysis. -/
def feedback (a : Analysis) : Feedback :=
  ⟨a.findings⟩

end Analysis

namespace Config

/-! ## Configured analyses -/

/-- The analysis of a text, unless the configuration mentions an unknown rule. -/
def analyse (c : Config) (text : List Char) : Except Error Analysis :=
  match c.validate with
  | .error e => .error e
  | .ok () => .ok (Analysis.run c text)

/-- The initial configuration is never refused. -/
theorem analyse_initial (text : List Char) : initial.analyse text = .ok (Analysis.ofText text) :=
  rfl

end Config

end SheetLint
