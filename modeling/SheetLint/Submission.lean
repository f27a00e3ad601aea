import SheetLint.Analysis
import SheetLint.Sample.Starter

/-!
# Submissions

A user edits a document and a stylesheet side by side.  Only the stylesheet is analysed.

Main results:

- Structure `Submission` with the edits of both texts.
- Definition `Submission.validate` gives fresh feedback, and `validate_congr` says that
  the document has no part in it.
-/

namespace SheetLint

/-- The two texts that a user edits. -/
structure Submission where
  html : String
  css : String
  deriving DecidableEq, Repr

namespace Submission

/-! ## Editing -/

/-- Both texts empty. -/
def empty : Submission :=
  ⟨"", ""⟩

/-- What an editing session begins with. -/
def starter : Submission :=
  ⟨Sample.starterDocument, Sample.starterStylesheet⟩

/-- A stylesheet with an empty document. -/
def ofCss (css : String) : Submission :=
  ⟨"", css⟩

/-- Text added behind the document. -/
def appendHtml (s : Submission) (text : String) : Submission :=
  { s with html := s.html ++ text }

/-- Text added behind the stylesheet. -/
def appendCss (s : Submission) (text : String) : Submission :=
  { s with css := s.css ++ text }

/-- Text put in front of the stylesheet. -/
def prependCss (s : Submission) (text : String) : Submission :=
  { s with css := text ++ s.css }

/-- A non-empty text replaced wherever it stands in the stylesheet, from left to right. -/
def replaceCss (s : Submission) (target replacement : String) : Submission :=
  { s with css := s.css.replace target replacement }

/-! ## Validating -/

/-- Feedback on the stylesheet. -/
def validate (s : Submission) : Feedback :=
  (Analysis.ofText s.css.toList).feedback

/-- Submissions with the same stylesheet get the same feedback. -/
theorem validate_congr {first second : Submission} (h : first.css = second.css) :
    first.validate = second.validate := by
  rw [validate, validate, h]

end Submission

end SheetLint
