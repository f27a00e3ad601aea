import SheetLint.Proofs.ScoreRange
import SheetLint.Proofs.SelectorScan
import SheetLint.Rule.Check

/-!
# Scores of longer texts

A selector carries the block in front of it, and what it carries is scored with it.  Carried
text never lowers a score, although it may take a word away and every class counts against
the words, for a class counts ten times as much for the score.  So where the score of a text does
not overflow, that of a part of it does not either.

Main results:

- Theorem `Specificity.score_le_of_part` says that a part of a text never scores higher, and
  `Specificity.isLow_eq_false_of_part` that a text is not low if a part of it is not.
- Theorem `Specificity.exists_score?_le_of_part` says the same where overflow is checked.
- Theorem `Specificity.score_of_parts` says how the counts of two texts add up, and what this
  means for the selectors of a stylesheet.
-/

namespace SheetLint

namespace Specificity

open Text (byteLength trim)

/-! ## Scores of parts -/

theorem weight_le_of_part {part text : List Char} (hpart : part <:+: text) :
    (ofText part).weight ≤ (ofText text).weight :=
  (within_of_part hpart).weight_le

/-- A part of a text never scores higher than the text. -/
theorem score_le_of_part {part text : List Char} (hpart : part <:+: text)
    (hfits : (ofText text).weight < 2 ^ 63) : (ofText part).score ≤ (ofText text).score := by
  have hweight := weight_le_of_part hpart
  rw [Int64.le_iff_toInt_le, toInt_score hfits, toInt_score (Nat.lt_of_le_of_lt hweight hfits)]
  exact Int.ofNat_le.mpr hweight

/-- A text is not low if a part of it is not. -/
theorem isLow_eq_false_of_part {part text : List Char} (hpart : part <:+: text)
    (hfits : (ofText text).weight < 2 ^ 63) (hnot : (ofText part).isLow = false) :
    (ofText text).isLow = false := by
  have hweight := weight_le_of_part hpart
  rw [← Bool.not_eq_true, isLow_iff (Nat.lt_of_le_of_lt hweight hfits)] at hnot
  rw [← Bool.not_eq_true, isLow_iff hfits]
  omega

/-! ## Checked scores of parts -/

section

variable {text : List Char} (hheld : byteLength text < 2 ^ 63)

include hheld

theorem counts_lt : (ofText text).ids + (ofText text).classes + (ofText text).words < 2 ^ 63 :=
  Nat.lt_of_le_of_lt (counts_le_byteLength false text) hheld

theorem weight_lt_of_score? {high : Int64} (hhigh : (ofText text).score? = some high) :
    (ofText text).weight < 2 ^ 63 :=
  ((score?_eq_some_iff (counts_lt hheld)).mp hhigh).2.1

theorem exists_score?_le_of_part {part : List Char} (hpart : part <:+: text) {high : Int64}
    (hhigh : (ofText text).score? = some high) :
    ∃ low, (ofText part).score? = some low ∧ low ≤ high :=
  (within_of_part hpart).exists_score?_le (counts_lt hheld) hhigh

end

/-- Where nothing overflows, a checked score is computed. -/
theorem score?_ofText {text : List Char} (hshort : 100 * byteLength text ≤ 2 ^ 63 - 1) :
    (ofText text).score? = some (ofText text).score := by
  have hcounts : (ofText text).ids + (ofText text).classes + (ofText text).words ≤
      byteLength text := counts_le_byteLength false text
  exact score?_of_lt (by omega)

/-! ## Selectors with what they carry -/

/-- What is carried does not bring a report on a selector. -/
theorem specificityFinding?_eq_none {s : Selector} {own : List Char} (hown : own <:+: s.slice.text)
    (hfits : (ofText s.slice.text).weight < 2 ^ 63) (hnot : (ofText own).isLow = false) :
    s.specificityFinding? = none := by
  have hhigh := isLow_eq_false_of_part hown hfits hnot
  simp [Selector.specificityFinding?, hhigh]

/-- Two texts count as much together as apart, but for the word that runs from one into the other,
and the blanks around a text do not count.  A part of a text never weighs more than the text.  So
where the score of a text is checked and does not overflow, a part of it has a checked score as
well, which is no higher, and the text is not low if the part is not.  No text held in memory has
2^63 bytes, and up to a hundredth of that, which is more than a machine can address, nothing
overflows.  Where the score is not checked, the weight has to fit into 64 bits.  So whatever is
carried into a selector in front of its own text, its score is no lower for it, and it is not
reported if its own text would not be. -/
theorem score_of_parts :
    (∀ first second : List Char,
      (ofText (first ++ second)).ids = (ofText first).ids + (ofText second).ids ∧
      (ofText (first ++ second)).classes = (ofText first).classes + (ofText second).classes ∧
      (ofText (first ++ second)).words + joined first second =
        (ofText first).words + (ofText second).words) ∧
    (∀ text : List Char, ofText (trim text) = ofText text) ∧
    (∀ text : List Char, byteLength text < 2 ^ 63 →
      (∀ score, (ofText text).score? = some score → score = (ofText text).score) ∧
      (100 * byteLength text ≤ 2 ^ 63 - 1 →
        (ofText text).score? = some (ofText text).score)) ∧
    (∀ part text : List Char, part <:+: text →
      (byteLength text < 2 ^ 63 → ∀ high, (ofText text).score? = some high →
        (∃ low, (ofText part).score? = some low ∧ low ≤ high) ∧
        ((ofText part).isLow = false → (ofText text).isLow = false)) ∧
      (ofText part).weight ≤ (ofText text).weight ∧
      ((ofText text).weight < 2 ^ 63 →
        (ofText part).score ≤ (ofText text).score ∧
        ((ofText part).isLow = false → (ofText text).isLow = false))) ∧
    (∀ text : List Char, (ofText text).score = Int64.ofNat (ofText text).weight ∧
      (ofText text).weight ≤ 100 * byteLength text) ∧
    ∀ document : List Char, ∀ s ∈ (Stylesheet.ofText document).selectors,
      ∀ carried own : List Char, s.slice.text = carried ++ own →
        (byteLength s.slice.text < 2 ^ 63 → ∀ high, (ofText s.slice.text).score? = some high →
          (∃ low, (ofText (trim own)).score? = some low ∧ low ≤ high) ∧
          ((ofText (trim own)).isLow = false → s.specificityFinding? = none)) ∧
        ((ofText s.slice.text).weight < 2 ^ 63 →
          (ofText (trim own)).score ≤ (ofText s.slice.text).score ∧
          ((ofText (trim own)).isLow = false → s.specificityFinding? = none)) := by
  refine ⟨fun first second => ?_, ofText_trim, fun text hheld => ⟨?_, score?_ofText⟩, ?_,
    fun text => ⟨score_eq_ofNat (ofText text), weight_le_byteLength text⟩, ?_⟩
  · exact ⟨List.count_append, List.count_append, words_append first second⟩
  · exact fun score hscore => eq_score_of_score? (counts_lt hheld) hscore
  · intro part text hpart
    refine ⟨fun hheld high hhigh => ⟨exists_score?_le_of_part hheld hpart hhigh, ?_⟩,
      weight_le_of_part hpart, fun hfits => ⟨score_le_of_part hpart hfits, ?_⟩⟩
    · exact isLow_eq_false_of_part hpart (weight_lt_of_score? hheld hhigh)
    · exact isLow_eq_false_of_part hpart hfits
  · intro document s hs carried own htext
    have hown : own <:+: s.slice.text := by
      rw [htext]
      exact (List.suffix_append carried own).isInfix
    rw [ofText_trim]
    refine ⟨fun hheld high hhigh => ⟨exists_score?_le_of_part hheld hown hhigh, ?_⟩,
      fun hfits => ⟨score_le_of_part hown hfits, specificityFinding?_eq_none hown hfits⟩⟩
    exact specificityFinding?_eq_none hown (weight_lt_of_score? hheld hhigh)

/-- A selector that carries the end of the block in front of it. -/
theorem score_of_parts_of_second_selector :
    let document := "#a \x7bb: c\x7d .d \x7b".toList
    let s : Selector := ⟨2, ⟨"b: c\x7d .d".toList, some 4⟩⟩
    s ∈ (Stylesheet.ofText document).selectors ∧
      byteLength s.slice.text < 2 ^ 63 ∧ 100 * byteLength s.slice.text ≤ 2 ^ 63 - 1 ∧
      (ofText s.slice.text).score? = some 12 ∧
      (ofText (trim ['.', 'd'])).isLow = false ∧
      (∃ low, (ofText (trim ['.', 'd'])).score? = some low ∧ low ≤ 12) ∧
      s.specificityFinding? = none ∧
      (ofText s.slice.text).weight < 2 ^ 63 ∧
      (ofText (trim ['.', 'd'])).score ≤ (ofText s.slice.text).score := by
  intro document s
  have hs : s ∈ (Stylesheet.ofText document).selectors := by decide
  have hheld : byteLength s.slice.text < 2 ^ 63 := by decide
  have hshort : 100 * byteLength s.slice.text ≤ 2 ^ 63 - 1 := by decide
  have hfits : (ofText s.slice.text).weight < 2 ^ 63 := by decide
  have hnot : (ofText (trim ['.', 'd'])).isLow = false := by decide
  rcases score_of_parts with ⟨_, _, hscores, _, _, hselectors⟩
  have htwelve : (ofText s.slice.text).score = 12 := by decide
  have hscore : (ofText s.slice.text).score? = some 12 := by
    rw [(hscores _ hheld).2 hshort, htwelve]
  rcases hselectors document s hs "b: c\x7d ".toList ['.', 'd'] rfl with ⟨hchecked, hwrapped⟩
  rcases hchecked hheld 12 hscore with ⟨hlow, hreport⟩
  exact ⟨hs, hheld, hshort, hscore, hnot, hlow, hreport hnot, hfits, (hwrapped hfits).1⟩

end Specificity

end SheetLint
