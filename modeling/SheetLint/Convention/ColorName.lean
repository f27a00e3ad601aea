/-!
# Color names

A color value written as a number in hexadecimal says nothing about its use; one that
holds a descriptive word does.

Main results:

- Definition `isHexColor` recognises numeric colors.
- Definition `isDescriptive` tells whether a value holds one of `descriptiveTokens`.
-/

namespace SheetLint.ColorName

/-! ## Numeric colors -/

/-- The digits of hexadecimal numbers, in either case. -/
def isHexDigit (c : Char) : Bool :=
  c.isDigit || (decide ('a' ≤ c) && decide (c ≤ 'f')) || (decide ('A' ≤ c) && decide (c ≤ 'F'))

/-- A numeric color is `#` with three or six hexadecimal digits behind it and nothing
else. -/
def isHexColor : List Char → Bool
  | [] => false
  | c :: digits => c = '#' && (digits.length = 3 || digits.length = 6) && digits.all isHexDigit

/-! ## Descriptive words -/

/-- The words that make a color name descriptive. -/
def descriptiveTokens : List String :=
  ["red", "green", "blue", "yellow", "orange", "purple", "black", "white", "gray", "light",
    "dark", "primary", "secondary", "success", "danger", "warning", "info"]

/-- Whether a word stands somewhere in a text. -/
def occursIn (word : List Char) : List Char → Bool
  | [] => word.isEmpty
  | c :: rest => word.isPrefixOf (c :: rest) || occursIn word rest

/-- A value is descriptive when a descriptive word stands in it, its first `#` left out. -/
def isDescriptive (value : List Char) : Bool :=
  descriptiveTokens.any fun token => occursIn token.toList (value.erase '#')

/-- A word occurs in a text exactly when it is a contiguous part of it. -/
theorem occursIn_iff_infix {word text : List Char} : occursIn word text ↔ word <:+: text := by
  induction text with
  | nil => simp [occursIn]
  | cons c rest ih =>
    simp [occursIn, ih, List.infix_cons_iff, List.isPrefixOf_iff_prefix]

end SheetLint.ColorName
