import SheetLint.Text.Utf8

/-!
# Text of an input

An input is a list of bytes.  Its text is the decoded bytes without the byte order
mark that an editor may have put in front of them.

Main results:

- Definition `stripMark` removes one leading byte order mark and no other.
- Definition `Source.ofBytes` decodes an input and keeps what was mended on the way.
- Theorems `stripMark_mark` and `stripMark_of_head?_ne` give both outcomes.
-/

namespace SheetLint

/-! ## The byte order mark -/

namespace Text

/-- The byte order mark. -/
def mark : Char := '\uFEFF'

/-- The text behind one leading byte order mark, and whether there was one. -/
def stripMark (text : List Char) : List Char × Bool :=
  match text with
  | [] => ([], false)
  | c :: rest => if c = mark then (rest, true) else (c :: rest, false)

/-- One mark is removed; a second one stays. -/
@[simp]
theorem stripMark_mark (text : List Char) : stripMark (mark :: text) = (text, true) := by
  simp [stripMark]

/-- Text that does not begin with a mark is left alone. -/
theorem stripMark_of_head?_ne {text : List Char} (h : text.head? ≠ some mark) :
    stripMark text = (text, false) := by
  cases text with
  | nil => rfl
  | cons c rest => simp_all [stripMark]

end Text

/-! ## Inputs -/

/-- The text of an input, the number of replacement characters that mending it left, and
whether it began with a byte order mark. -/
structure Source where
  text : List Char
  replaced : Nat
  marked : Bool
  deriving DecidableEq, Repr

/-- Decode an input and take off its byte order mark. -/
def Source.ofBytes (bytes : List UInt8) : Source :=
  let recovered := Utf8.Recovered.ofBytes bytes
  let (text, marked) := Text.stripMark recovered.text
  ⟨text, recovered.replaced, marked⟩

/-- A text that is known already has nothing to mend. -/
def Source.ofText (text : List Char) : Source :=
  ⟨text, 0, false⟩

end SheetLint
