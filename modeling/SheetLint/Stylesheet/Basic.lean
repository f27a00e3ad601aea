import SheetLint.Stylesheet.Declaration
import SheetLint.Stylesheet.Selector

/-!
# Stylesheets

The two flat views of a stylesheet that the rules work on: its selectors and its
lines.

Main results:

- Definition `Stylesheet.ofText` builds both views; it never fails.
-/

namespace SheetLint

/-! ## Lines -/

/-- A trimmed line with its number, counted from 1. -/
structure Line where
  number : Nat
  slice : Slice
  deriving DecidableEq, Repr

namespace Line

/-- The trimmed slices numbered from `first` on. -/
def enumerate (first : Nat) (slices : List Slice) : List Line :=
  (slices.zipIdx first).map fun (slice, number) => ⟨number, slice.trim⟩

/-- The lines of a document.  A document without a line break is one line, even if it
is empty. -/
def ofSlice (s : Slice) : List Line :=
  enumerate 1 (s.split '\n')

end Line

/-! ## Stylesheets -/

/-- A stylesheet with its selectors and its lines, both in document order. -/
structure Stylesheet where
  source : Slice
  selectors : List Selector
  lines : List Line
  deriving DecidableEq, Repr

namespace Stylesheet

/-- The views of a text. -/
def ofText (text : List Char) : Stylesheet :=
  let source := Slice.whole text
  ⟨source, Selector.ofSlice source, Line.ofSlice source⟩

/-- A stylesheet is empty when its text is. -/
def isEmpty (sheet : Stylesheet) : Bool :=
  sheet.source.text.isEmpty

/-- The number of bytes of a stylesheet. -/
def byteLength (sheet : Stylesheet) : Nat :=
  sheet.source.byteLength

end Stylesheet

end SheetLint
