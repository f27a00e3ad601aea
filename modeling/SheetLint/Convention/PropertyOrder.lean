/-!
# The order of properties

Properties belong to groups, and the groups have a canonical order.

Main results:

- Definition `canonicalOrder` is the order, and `canonicalIndex?` the place of a
  property in it.
- Definition `isMisordered` tells whether two neighbouring declarations stand in the
  wrong order.
-/

namespace SheetLint.PropertyOrder

/-! ## The canonical order -/

/-- The canonical order.  An entry that ends in `-*` stands for the group in front of it. -/
def canonicalOrder : List String :=
  ["position", "top", "right", "bottom", "left", "display", "flex", "flex-*", "grid", "grid-*",
    "box-sizing", "width", "height", "margin", "margin-*", "padding", "padding-*", "border",
    "border-*", "background", "background-*", "color", "font", "font-*", "text-*", "transition",
    "transition-*", "transform", "transform-*", "animation", "animation-*", "opacity", "z-index",
    "cursor", "overflow", "overflow-*", "box-shadow", "outline", "outline-*", "list-style",
    "list-style-*", "table-layout", "caption-side", "quotes", "counter-*", "resize",
    "user-select", "nav-*"]

/-- The group of a property: its name up to the first hyphen. -/
def group (name : List Char) : List Char :=
  name.takeWhile (· != '-')

/-- What ends the entry of a whole group. -/
def wildcard : List Char := ['-', '*']

/-- An entry covers a group when it is the name of the group, alone or with a wildcard. -/
def covers (entry group : List Char) : Bool :=
  entry == group || entry == group ++ wildcard

/-- The place of a property: that of the first entry that covers its group. -/
def canonicalIndex? (name : List Char) : Option Nat :=
  canonicalOrder.findIdx? fun entry => covers entry.toList (group name)

/-! ## Neighbours -/

/-- The neighbouring pairs of a list, from left to right. -/
def neighbours {α : Type} (items : List α) : List (α × α) :=
  items.zip items.tail

/-- Two neighbours are misordered when both have a place and the second one comes
earlier.  A property without a place is never compared. -/
def isMisordered (current next : List Char) : Bool :=
  match canonicalIndex? current, canonicalIndex? next with
  | some place, some nextPlace => decide (nextPlace < place)
  | _, _ => false

/-- The place of a property depends on its group alone. -/
theorem canonicalIndex?_congr {first second : List Char} (h : group first = group second) :
    canonicalIndex? first = canonicalIndex? second := by
  simp [canonicalIndex?, h]

end SheetLint.PropertyOrder
