/-!
# Issue categories

Main results:

- Type `Category` groups issues by the convention that is broken, and
  `Category.all` lists the groups in reporting order.
-/

namespace SheetLint

/-- The convention that an issue is about. -/
inductive Category where
  | selectorNaming
  | specificity
  | propertyOrder
  | colorNaming
  deriving DecidableEq, Repr

namespace Category

/-- Every category, in reporting order. -/
def all : List Category :=
  [.selectorNaming, .specificity, .propertyOrder, .colorNaming]

/-- The name of a category. -/
def name : Category → String
  | .selectorNaming => "selector-naming"
  | .specificity => "specificity"
  | .propertyOrder => "property-order"
  | .colorNaming => "color-naming"

/-- The category of a name. -/
def ofName? (text : String) : Option Category :=
  all.find? fun category => category.name = text

@[simp]
theorem mem_all (c : Category) : c ∈ all := by
  cases c <;> decide

/-- Every category is found by its name. -/
theorem ofName?_name (c : Category) : ofName? c.name = some c := by
  cases c <;> decide

end Category

end SheetLint
