/-!
# Specificity estimates

A rough estimate of how specific a selector is, made from three counts over its
characters.

Main results:

- Structure `Specificity` with the counts, and `Specificity.ofText` that takes them.
- Definition `Specificity.score` weighs the counts, and `Specificity.isLow`
  compares the score with `lowThreshold`.
- Definition `Specificity.score?` weighs them where overflow is an error.
- Theorem `Specificity.countWords_append` says how words of two texts add up.
-/

namespace SheetLint

/-- The number of `#`, of `.` and of words in a selector. -/
structure Specificity where
  ids : Nat
  classes : Nat
  words : Nat
  deriving DecidableEq, Repr

namespace Specificity

/-! ## Counting -/

/-- The number of words that begin in a text, a word being a run of ASCII letters; `inside`
says whether a word is under way in front of the text. -/
def countWords (inside : Bool) : List Char → Nat
  | [] => 0
  | c :: rest =>
    if c.isAlpha then
      if inside then countWords true rest else countWords true rest + 1
    else countWords false rest

/-- The counts of a selector. -/
def ofText (text : List Char) : Specificity :=
  ⟨text.count '#', text.count '.', countWords false text⟩

/-- Whether a word is under way behind a text. -/
def endsInside (inside : Bool) (text : List Char) : Bool :=
  (text.getLast?.map Char.isAlpha).getD inside

/-- The words that begin in two texts one behind the other. -/
theorem countWords_append (inside : Bool) (first second : List Char) :
    countWords inside (first ++ second) =
      countWords inside first + countWords (endsInside inside first) second := by
  induction first generalizing inside with
  | nil => simp [countWords, endsInside]
  | cons c rest ih =>
    have last : endsInside inside (c :: rest) = endsInside c.isAlpha rest := by
      simp only [endsInside, List.getLast?_cons]
      cases rest.getLast? <;> rfl
    rw [last]
    cases alpha : c.isAlpha <;> cases inside <;> simp [countWords, alpha, ih]
    omega

/-! ## Scores -/

/-- Scores below this one are low. -/
def lowThreshold : Int64 := 10

/-- A hundred for each id, ten for each class, and one for each word less the number of
classes, in 64-bit arithmetic that wraps around. -/
def score (s : Specificity) : Int64 :=
  let ids := Int64.ofNat s.ids
  let classes := Int64.ofNat s.classes
  let words := Int64.ofNat s.words
  ids * 100 + classes * 10 + (words - classes)

/-- A selector is low when its score is below the threshold. -/
def isLow (s : Specificity) : Bool :=
  s.score < lowThreshold

/-- An integer in 64 bits, if it fits. -/
def checked (n : Int) : Option Int64 :=
  if (Int64.ofInt n).toInt = n then some (Int64.ofInt n) else none

/-- The score in arithmetic that checks for overflow: there is none if a product, a sum or a
difference does not fit into 64 bits. -/
def score? (s : Specificity) : Option Int64 := do
  let ids := Int64.ofNat s.ids
  let classes := Int64.ofNat s.classes
  let words := Int64.ofNat s.words
  let hundreds ← checked (ids.toInt * 100)
  let tens ← checked (classes.toInt * 10)
  let front ← checked (hundreds.toInt + tens.toInt)
  let back ← checked (words.toInt - classes.toInt)
  checked (front.toInt + back.toInt)

end Specificity

end SheetLint
