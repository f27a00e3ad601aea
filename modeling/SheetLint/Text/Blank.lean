/-!
# White space and trimming

Text is a list of characters.  This module fixes which characters are blank,
by the Unicode White_Space property, and how a text is trimmed.

Main results:

- Definition `isBlank` is the White_Space property, and `isBlank_of_isWhitespace`
  says that it holds of every character that is white space to the core library.
- Definitions `trimStart`, `trimEnd` and `trim` drop the blanks at the two ends;
  `trim_nil` and `trimEnd_append_of_all_blank` are the equations about blank text.
-/

namespace SheetLint.Text

/-! ## The White_Space property -/

/-- The ranges of code points with the White_Space property, both ends included. -/
def blankRanges : List (Nat × Nat) :=
  [(0x9, 0xD), (0x20, 0x20), (0x85, 0x85), (0xA0, 0xA0), (0x1680, 0x1680),
    (0x2000, 0x200A), (0x2028, 0x2029), (0x202F, 0x202F), (0x205F, 0x205F),
    (0x3000, 0x3000)]

/-- A character is blank when its code point lies in one of the ranges. -/
def isBlank (c : Char) : Bool :=
  blankRanges.any fun (low, high) => decide (low ≤ c.toNat) && decide (c.toNat ≤ high)

/-- Every white space character of the core library is blank. -/
theorem isBlank_of_isWhitespace {c : Char} (h : c.isWhitespace) : isBlank c := by
  simp only [Char.isWhitespace, Bool.or_eq_true, decide_eq_true_eq] at h
  rcases h with ((h | h) | h) | h <;> subst h <;> decide

/-! ## Trimming -/

/-- The text without the blanks it begins with. -/
def trimStart (text : List Char) : List Char :=
  text.dropWhile isBlank

/-- The text without the blanks it ends with. -/
def trimEnd (text : List Char) : List Char :=
  (text.reverse.dropWhile isBlank).reverse

/-- The text without the blanks at either end. -/
def trim (text : List Char) : List Char :=
  trimStart (trimEnd text)

@[simp]
theorem trimStart_nil : trimStart [] = [] := rfl

@[simp]
theorem trimEnd_nil : trimEnd [] = [] := rfl

@[simp]
theorem trim_nil : trim [] = [] := rfl

/-- Blanks put behind a text are trimmed with it. -/
theorem trimEnd_append_of_all_blank {blanks : List Char} (h : ∀ c ∈ blanks, isBlank c)
    (text : List Char) : trimEnd (text ++ blanks) = trimEnd text := by
  have reversed : ∀ c ∈ blanks.reverse, isBlank c := fun c member => h c (by simpa using member)
  simp [trimEnd, List.dropWhile_append_of_pos reversed]

/-- A trimmed end is what stands in front of some blanks. -/
theorem trimEnd_append_blanks (text : List Char) :
    trimEnd text ++ (text.reverse.takeWhile isBlank).reverse = text := by
  rw [trimEnd, ← List.reverse_append, List.takeWhile_append_dropWhile, List.reverse_reverse]

end SheetLint.Text
