import SheetLint.Text.Slice

/-!
# Declarations on a line

Declarations are read one trimmed line at a time, whether or not the line holds the
selector and the braces of its block too.

Main results:

- Definition `Declaration.body` cuts out the part of a line between its braces.
- Definition `Declaration.propertyNames` lists the names declared there.
- Definition `Declaration.colorValues` lists the values of color declarations
  anywhere on the line; by `scanColors_skip` each search begins behind the last value.
-/

namespace SheetLint.Declaration

/-! ## The body of a line -/

/-- The number of characters up to the first opening brace and with it; none without
such a brace. -/
def bodyStart (line : List Char) : Nat :=
  if '{' ∈ line then (line.takeWhile (· != '{')).length + 1 else 0

/-- The number of characters in front of the last closing brace, or in front of the last
character if no brace closes. -/
def bodyStop (line : List Char) : Nat :=
  if '}' ∈ line then (line.reverse.dropWhile (· != '}')).length - 1 else line.length - 1

/-- The part of a line between its first opening and its last closing brace.  Without
an opening brace it begins with the line, and without a closing one only the last
character is left out; where nothing stands between the two ends, it is empty and lies
nowhere on the line. -/
def body (line : Slice) : Slice :=
  if bodyStart line.text < bodyStop line.text then
    (line.take (bodyStop line.text)).drop (bodyStart line.text)
  else Slice.detached []

/-! ## Property names -/

/-- The name in one declaration: the trimmed text in front of its first colon. -/
def propertyName (declaration : Slice) : Slice :=
  (declaration.trim.takeWhile (· != ':')).trim

/-- The property names declared on a line, in order; an empty declaration has the empty
name. -/
def propertyNames (line : Slice) : List Slice :=
  ((body line).trim.split ';').map propertyName

@[simp]
theorem length_propertyNames (line : Slice) :
    (propertyNames line).length = (body line).trim.text.count ';' + 1 := by
  simp [propertyNames]

/-! ## Color values -/

/-- What a color declaration begins with.  The first label also ends the name of any
other property that is called some kind of color. -/
def colorLabels : List (List Char) :=
  ["color:".toList, "background-color:".toList]

/-- The lengths of the label and of the value at the beginning of a text, if a color
declaration with a non-empty value begins there.  The value ends in front of the next
semicolon. -/
def colorExtent? (text : List Char) : Option (Nat × Nat) :=
  match colorLabels.find? fun label => label.isPrefixOf text with
  | none => none
  | some label =>
    let value := (text.drop label.length).takeWhile (· != ';')
    if value.isEmpty then none else some (label.length, value.length)

/-- The trimmed color values of a text that begins at `start`, leaving out its first
`skip` characters, which belong to a declaration found already. -/
def scanColors (start : Option Nat) (skip : Nat) : List Char → List Slice
  | [] => []
  | c :: rest =>
    let next := Slice.advance c.utf8Size start
    match skip with
    | skip + 1 => scanColors next skip rest
    | 0 =>
      match colorExtent? (c :: rest) with
      | none => scanColors next 0 rest
      | some (label, value) =>
        (((Slice.mk (c :: rest) start).drop label).take value).trim ::
          scanColors next (label + value - 1) rest

/-- Leaving characters out is the same as searching behind them. -/
theorem scanColors_skip (start : Option Nat) (skip : Nat) (text : List Char) :
    scanColors start skip text =
      scanColors (Slice.advance (Text.byteLength (text.take skip)) start) 0 (text.drop skip) := by
  induction text generalizing start skip with
  | nil => simp [scanColors]
  | cons c rest ih =>
    cases skip with
    | zero => simp
    | succ skip =>
      simp only [scanColors, List.take_succ_cons, List.drop_succ_cons, Text.byteLength_cons]
      rw [ih, Slice.advance_advance]

/-- The values of the color declarations on a line, from left to right; the search goes
on behind each value. -/
def colorValues (line : Slice) : List Slice :=
  scanColors line.start 0 line.text

end SheetLint.Declaration
