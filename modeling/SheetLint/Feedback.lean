import SheetLint.Json

/-!
# Feedback

The findings of an analysis as they are shown to a user.

Main results:

- Structure `Feedback` with the texts of the findings.
- Definition `Feedback.display` puts one finding under the other, or gives the success
  message when there is none.
-/

namespace SheetLint

/-- The texts of the findings, in reporting order. -/
structure Feedback where
  findings : List String
  deriving DecidableEq, Repr

namespace Feedback

/-- What is shown when nothing was found. -/
def successMessage : String := "No issues found!"

/-- Nothing was found. -/
def isSuccess (f : Feedback) : Bool :=
  f.findings.isEmpty

/-- The number of findings. -/
def size (f : Feedback) : Nat :=
  f.findings.length

/-- The text shown to a user. -/
def display (f : Feedback) : String :=
  if f.isSuccess then successMessage else String.intercalate "\n" f.findings

/-- The fields of feedback. -/
def toJson (f : Feedback) : Json :=
  .object [("findings", .array (f.findings.map Json.string))]

@[simp]
theorem isSuccess_iff (f : Feedback) : f.isSuccess ↔ f.findings = [] :=
  List.isEmpty_iff

end Feedback

end SheetLint
