import SheetLint.Category
import SheetLint.Severity

/-!
# Rules

The built-in rules and how they are presented to a user.

Main results:

- Type `Rule` with the list `Rule.all` of all rules, in reporting order.
- Definition `Rule.ofId?` finds a rule by its id, and `Rule.ofId?_eq_some_iff`
  says that it finds exactly the rule of that id.
-/

namespace SheetLint

/-- A built-in rule. -/
inductive Rule where
  | selectorNaming
  | lowSpecificity
  | propertyOrder
  | colorNaming
  deriving DecidableEq, Repr

namespace Rule

/-! ## The registry -/

/-- Every rule, in the order in which they run and report. -/
def all : List Rule :=
  [.selectorNaming, .lowSpecificity, .propertyOrder, .colorNaming]

/-- The name by which a user turns a rule on or off. -/
def id : Rule → String
  | .selectorNaming => "selector-naming"
  | .lowSpecificity => "low-specificity"
  | .propertyOrder => "property-order"
  | .colorNaming => "color-naming"

/-- The title of a rule. -/
def title : Rule → String
  | .selectorNaming => "Selector Naming"
  | .lowSpecificity => "Low Specificity"
  | .propertyOrder => "Property Order"
  | .colorNaming => "Color Naming"

/-- What a rule asks for. -/
def description : Rule → String
  | .selectorNaming =>
    "Selectors should follow the lowercase block__element--modifier convention"
  | .lowSpecificity => "Selectors should score at least 10 on the specificity estimate"
  | .propertyOrder => "Declarations on one line should follow the canonical property order"
  | .colorNaming => "Hex colors should carry a descriptive name"

/-- The severity of the issues that a rule reports. -/
def severity : Rule → Severity
  | .selectorNaming => .warning
  | .lowSpecificity => .info
  | .propertyOrder => .hint
  | .colorNaming => .hint

/-- The category of the issues that a rule reports. -/
def category : Rule → Category
  | .selectorNaming => .selectorNaming
  | .lowSpecificity => .specificity
  | .propertyOrder => .propertyOrder
  | .colorNaming => .colorNaming

/-! ## Look-up -/

/-- The rule of an id. -/
def ofId? (text : String) : Option Rule :=
  all.find? fun rule => rule.id = text

/-- The rules of a category, in reporting order. -/
def inCategory (category : Category) : List Rule :=
  all.filter fun rule => rule.category = category

@[simp]
theorem mem_all (r : Rule) : r ∈ all := by
  cases r <;> decide

/-- Different rules have different ids. -/
theorem id_inj {first second : Rule} : first.id = second.id ↔ first = second := by
  cases first <;> cases second <;> decide

/-- Looking up an id finds the rule that has it. -/
theorem ofId?_eq_some_iff {text : String} {r : Rule} : ofId? text = some r ↔ r.id = text := by
  constructor
  · intro found
    simpa using List.find?_some found
  · rintro rfl
    cases r <;> decide

/-- Each category has one rule. -/
theorem inCategory_category (r : Rule) : inCategory r.category = [r] := by
  cases r <;> decide

end Rule

end SheetLint
