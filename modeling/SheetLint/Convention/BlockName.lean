/-!
# Block names

The naming convention for selectors: a block, perhaps one of its elements, perhaps a
modifier, each a word of lowercase ASCII letters, as in `card__title--active`.

Main results:

- Structure `BlockName` with its spelling `BlockName.spell`.
- Definition `BlockName.read?` reads a selector as a block name, and
  `BlockName.isValid` tells whether it is one.
- Theorem `BlockName.spell_of_read?` says that a selector read as a block name is
  the spelling of it.
-/

namespace SheetLint

/-- A block with an element and a modifier, where they are given. -/
structure BlockName where
  block : List Char
  element : Option (List Char)
  modifier : Option (List Char)
  deriving DecidableEq, Repr

namespace BlockName

/-! ## Spelling -/

/-- What stands in front of an element. -/
def elementMark : List Char := ['_', '_']

/-- What stands in front of a modifier. -/
def modifierMark : List Char := ['-', '-']

/-- An optional part behind its mark. -/
def spellPart (mark : List Char) : Option (List Char) → List Char
  | none => []
  | some word => mark ++ word

/-- The spelling of a block name. -/
def spell (n : BlockName) : List Char :=
  n.block ++ spellPart elementMark n.element ++ spellPart modifierMark n.modifier

/-! ## Reading -/

/-- The word behind a mark and the text behind that word; a mark without a word is left
unread. -/
def readPart (mark text : List Char) : Option (List Char) × List Char :=
  let behind := text.drop mark.length
  if mark.isPrefixOf text ∧ behind.takeWhile Char.isLower ≠ [] then
    (some (behind.takeWhile Char.isLower), behind.dropWhile Char.isLower)
  else (none, text)

/-- The block name that a text spells, if it spells one. -/
def read? (text : List Char) : Option BlockName :=
  let block := text.takeWhile Char.isLower
  let (element, behindElement) := readPart elementMark (text.dropWhile Char.isLower)
  let (modifier, rest) := readPart modifierMark behindElement
  if block ≠ [] ∧ rest = [] then some ⟨block, element, modifier⟩ else none

/-- A selector follows the convention when it spells a block name. -/
def isValid (selector : List Char) : Bool :=
  (read? selector).isSome

/-! ## What was read is what was spelled -/

/-- Reading a part takes nothing away. -/
theorem spellPart_readPart (mark text : List Char) :
    spellPart mark (readPart mark text).1 ++ (readPart mark text).2 = text := by
  simp only [readPart]
  split
  next h =>
    simp only [List.isPrefixOf_iff_prefix] at h
    obtain ⟨⟨behind, rfl⟩, _⟩ := h
    simp [spellPart, List.takeWhile_append_dropWhile]
  next => rfl

/-- A text read as a block name is the spelling of that name. -/
theorem spell_of_read? {text : List Char} {n : BlockName} (h : read? text = some n) :
    n.spell = text := by
  simp only [read?] at h
  split at h
  next complete =>
    obtain rfl := Option.some.inj h
    have modifier := spellPart_readPart modifierMark
      (readPart elementMark (text.dropWhile Char.isLower)).2
    have element := spellPart_readPart elementMark (text.dropWhile Char.isLower)
    rw [complete.2, List.append_nil] at modifier
    rw [spell, modifier, List.append_assoc, element, List.takeWhile_append_dropWhile]
  next => contradiction

end BlockName

end SheetLint
