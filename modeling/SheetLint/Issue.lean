import SheetLint.Category
import SheetLint.Json
import SheetLint.Severity
import SheetLint.Text.Slice

/-!
# Issues

An issue is what a user is told about one place of a stylesheet.

Main results:

- Structures `Location` and `Issue`, with the span of a location kept as text.
- Definition `Issue.toJson` lists the fields of an issue in report order and leaves
  out an absent location or fix.
-/

namespace SheetLint

/-! ## Locations -/

/-- The place that an issue is about: the number shown in its message, the byte
offset of the text in question, and that text. -/
structure Location where
  line : Nat
  offset : Nat
  span : List Char
  deriving DecidableEq, Repr

namespace Location

/-- The number of bytes of the text in question. -/
def byteLength (l : Location) : Nat :=
  Text.byteLength l.span

/-- The place of a slice, if it lies in the stylesheet. -/
def ofSlice? (line : Nat) (s : Slice) : Option Location :=
  s.start.map fun offset => ⟨line, offset, s.text⟩

/-- The fields of a location. -/
def toJson (l : Location) : Json :=
  .object [("line", .number l.line), ("offset", .number l.offset),
    ("span", .string (String.ofList l.span))]

end Location

/-! ## Issues -/

/-- One reported issue. -/
structure Issue where
  severity : Severity
  category : Category
  message : String
  location : Option Location
  ruleId : String
  suggestedFix : Option String
  deriving DecidableEq, Repr

namespace Issue

/-- The fields of an issue, in report order. -/
def toJson (i : Issue) : Json :=
  .object <|
    [("severity", .string i.severity.name), ("category", .string i.category.name),
      ("message", .string i.message)] ++
    (i.location.map fun l => ("location", l.toJson)).toList ++
    [("rule_id", .string i.ruleId)] ++
    (i.suggestedFix.map fun fix => ("suggested_fix", Json.string fix)).toList

/-- The compact text of an issue. -/
def render (i : Issue) : String :=
  String.ofList i.toJson.render

/-- The compact text of a list of issues. -/
def renderAll (issues : List Issue) : String :=
  String.ofList (Json.array (issues.map toJson)).render

end Issue

end SheetLint
