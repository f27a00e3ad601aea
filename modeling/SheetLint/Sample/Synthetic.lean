import SheetLint.Text.Numeral

/-!
# Synthetic stylesheets

Stylesheets of any number of blocks, for measuring and for testing.

Main results:

- Definition `Synthetic.text` writes a stylesheet of tidy or of faulty blocks.
- Definition `Synthetic.block` is the text of one block, which its index makes different
  from the others.
-/

namespace SheetLint.Sample

/-- What kind of blocks a synthetic stylesheet is made of. -/
inductive Complexity where
  | simple
  | withIssues
  deriving DecidableEq, Repr

/-- A stylesheet of so many blocks of one kind. -/
structure Synthetic where
  complexity : Complexity
  blocks : Nat
  deriving DecidableEq, Repr

namespace Synthetic

/-! ## Blocks -/

/-- The lines of a block: a selector, and the declaration lines in braces. -/
def blockText (selector : String) (lines : List String) : String :=
  selector ++ " \x7b\n" ++ String.join (lines.map fun line => "  " ++ line ++ "\n") ++ "\x7d\n\n"

/-- A tidy block follows every convention but the one on specificity.  A faulty one has an
id and a class in its selector, two declarations on one line in the wrong order, and a
numeric color. -/
def block (complexity : Complexity) (index : Nat) : String :=
  match complexity with
  | .simple =>
    let name := String.ofList (Numeral.letters index)
    blockText s!"card__item--{name}"
      ["position: relative;", "display: block;", s!"padding: {index}px;"]
  | .withIssues =>
    let color := String.ofList (Numeral.lowerHex 6 index)
    blockText s!"#item-{index} .title"
      ["display: block;", s!"color: #{color}; margin: 0;"]

/-! ## Stylesheets -/

/-- The text of a synthetic stylesheet. -/
def text (s : Synthetic) : String :=
  String.join ((List.range s.blocks).map (block s.complexity))

end Synthetic

end SheetLint.Sample
