import Mathlib.Algebra.Group.Nat.Defs
import SheetLint.Proofs.WordCount

/-!
# The score as an integer

The score is computed in 64 bits, with a difference in it that may be negative.  The
characters that are counted are different ones, so the counts of a text are bounded by its
length, and a text whose length times a hundred fits into 64 bits is scored without overflow.

Main results:

- Definition `Specificity.weight` is the score that the counts ought to have, and
  `Specificity.score_eq_ofNat` says that the score is this number in 64 bits.
- Structure `Specificity.Exact` says that every step of the score gives the integer that it
  stands for.
- Theorem `Specificity.counts_le_byteLength` bounds the counts of a text by its length.
- Theorem `Specificity.score_of_short_text` says what the score of a text is, and when it is zero
  or low.
-/

namespace SheetLint

namespace Specificity

open Text (byteLength)

/-! ## Weights -/

/-- The score without a bound: a hundred for each id, nine for each class and one for each
word. -/
def weight (s : Specificity) : Nat :=
  s.ids * 100 + s.classes * 9 + s.words

theorem Within.weight_le {s t : Specificity} (h : s.Within t) : s.weight ≤ t.weight := by
  have hids := h.ids
  have hclasses := h.classes
  have hwords := h.words
  unfold weight
  omega

/-- The score is the weight in 64 bits. -/
theorem score_eq_ofNat (s : Specificity) : s.score = Int64.ofNat s.weight := by
  have hsum : (s.ids : Int) * 100 + (s.classes : Int) * 10 + ((s.words : Int) - (s.classes : Int)) =
      (s.weight : Int) := by
    unfold weight
    omega
  rw [← Int64.ofInt_eq_ofNat, ← hsum, Int64.ofInt_add, Int64.ofInt_add, Int64.ofInt_mul,
    Int64.ofInt_mul, Int64.ofInt_sub, Int64.ofInt_eq_ofNat, Int64.ofInt_eq_ofNat,
    Int64.ofInt_eq_ofNat]
  rfl

/-- A weight that fits into 64 bits is the score. -/
theorem toInt_score {s : Specificity} (hfits : s.weight < 2 ^ 63) : s.score.toInt = s.weight := by
  rw [score_eq_ofNat, Int64.toInt_ofNat_of_lt hfits]

theorem isLow_iff {s : Specificity} (hfits : s.weight < 2 ^ 63) :
    s.isLow = true ↔ s.weight < 10 := by
  have hthreshold : lowThreshold.toInt = 10 := by decide
  rw [isLow, decide_eq_true_iff, Int64.lt_iff_toInt_lt, toInt_score hfits, hthreshold]
  omega

/-! ## Steps -/

/-- Every count fits into 64 bits, and so does every product, sum and difference of the
score. -/
structure Exact (s : Specificity) : Prop where
  ids : (Int64.ofNat s.ids).toInt = s.ids
  classes : (Int64.ofNat s.classes).toInt = s.classes
  words : (Int64.ofNat s.words).toInt = s.words
  hundreds : (Int64.ofNat s.ids * 100).toInt = s.ids * 100
  tens : (Int64.ofNat s.classes * 10).toInt = s.classes * 10
  front : (Int64.ofNat s.ids * 100 + Int64.ofNat s.classes * 10).toInt =
    s.ids * 100 + s.classes * 10
  back : (Int64.ofNat s.words - Int64.ofNat s.classes).toInt = s.words - s.classes
  score : s.score.toInt = s.ids * 100 + s.classes * 10 + (s.words - s.classes)

/-- No step overflows if a hundred times all counts does not. -/
theorem exact_of_lt {s : Specificity} (hfits : 100 * (s.ids + s.classes + s.words) < 2 ^ 63) :
    s.Exact := by
  -- Done on integers first, an operation gives the same word, and its result is small enough.
  have hhundreds : Int64.ofNat s.ids * 100 = Int64.ofInt (s.ids * 100) := by
    rw [Int64.ofInt_mul, Int64.ofInt_eq_ofNat]
    rfl
  have htens : Int64.ofNat s.classes * 10 = Int64.ofInt (s.classes * 10) := by
    rw [Int64.ofInt_mul, Int64.ofInt_eq_ofNat]
    rfl
  have hfront : Int64.ofNat s.ids * 100 + Int64.ofNat s.classes * 10 =
      Int64.ofInt (s.ids * 100 + s.classes * 10) := by
    rw [hhundreds, htens, Int64.ofInt_add]
  have hback : Int64.ofNat s.words - Int64.ofNat s.classes = Int64.ofInt (s.words - s.classes) := by
    rw [Int64.ofInt_sub, Int64.ofInt_eq_ofNat, Int64.ofInt_eq_ofNat]
  have hscore : s.score = Int64.ofInt (s.ids * 100 + s.classes * 10 + (s.words - s.classes)) := by
    rw [Int64.ofInt_add, ← hfront, ← hback]
    rfl
  constructor
  · exact Int64.toInt_ofNat_of_lt (by omega)
  · exact Int64.toInt_ofNat_of_lt (by omega)
  · exact Int64.toInt_ofNat_of_lt (by omega)
  · rw [hhundreds, Int64.toInt_ofInt_of_le (by omega) (by omega)]
  · rw [htens, Int64.toInt_ofInt_of_le (by omega) (by omega)]
  · rw [hfront, Int64.toInt_ofInt_of_le (by omega) (by omega)]
  · rw [hback, Int64.toInt_ofInt_of_le (by omega) (by omega)]
  · rw [hscore, Int64.toInt_ofInt_of_le (by omega) (by omega)]

/-! ## Checked scores -/

theorem checked_eq_some_iff {n : Int} {value : Int64} :
    checked n = some value ↔ value.toInt = n := by
  unfold checked
  constructor
  · intro h
    split at h
    next hfits =>
      cases h
      exact hfits
    next => cases h
  · rintro rfl
    rw [Int64.ofInt_toInt, if_pos rfl]

/-- Where the counts fit into 64 bits, there is a checked score if the sum of its first two terms
and the weight fit as well, and it is the weight. -/
theorem score?_eq_some_iff {s : Specificity} (hcounts : s.ids + s.classes + s.words < 2 ^ 63)
    {value : Int64} :
    s.score? = some value ↔
      s.ids * 100 + s.classes * 10 < 2 ^ 63 ∧ s.weight < 2 ^ 63 ∧ value.toInt = s.weight := by
  have hids : (Int64.ofNat s.ids).toInt = s.ids := Int64.toInt_ofNat_of_lt (by omega)
  have hclasses : (Int64.ofNat s.classes).toInt = s.classes := Int64.toInt_ofNat_of_lt (by omega)
  have hwords : (Int64.ofNat s.words).toInt = s.words := Int64.toInt_ofNat_of_lt (by omega)
  simp only [score?, Option.bind_eq_bind, Option.bind_eq_some_iff, checked_eq_some_iff, hids,
    hclasses, hwords, weight]
  constructor
  · rintro ⟨hundreds, hhundreds, tens, htens, front, hfront, back, hback, hvalue⟩
    have hfrontFits := front.toInt_lt
    have hvalueFits := value.toInt_lt
    omega
  · rintro ⟨hfront, hweight, hvalue⟩
    refine ⟨Int64.ofInt (s.ids * 100), Int64.toInt_ofInt_of_le (by omega) (by omega),
      Int64.ofInt (s.classes * 10), Int64.toInt_ofInt_of_le (by omega) (by omega),
      Int64.ofInt (s.ids * 100 + s.classes * 10), ?_, Int64.ofInt (s.words - s.classes),
      Int64.toInt_ofInt_of_le (by omega) (by omega), ?_⟩
    · rw [Int64.toInt_ofInt_of_le (by omega) (by omega),
        Int64.toInt_ofInt_of_le (by omega) (by omega),
        Int64.toInt_ofInt_of_le (by omega) (by omega)]
    · rw [Int64.toInt_ofInt_of_le (by omega) (by omega),
        Int64.toInt_ofInt_of_le (by omega) (by omega)]
      omega

/-- A checked score is the score. -/
theorem eq_score_of_score? {s : Specificity} (hcounts : s.ids + s.classes + s.words < 2 ^ 63)
    {value : Int64} (hvalue : s.score? = some value) : value = s.score := by
  rcases (score?_eq_some_iff hcounts).mp hvalue with ⟨-, hfits, htoInt⟩
  rw [← Int64.toInt_inj, htoInt, toInt_score hfits]

/-- Nothing overflows if a hundred times all counts does not. -/
theorem score?_of_lt {s : Specificity} (hfits : 100 * (s.ids + s.classes + s.words) < 2 ^ 63) :
    s.score? = some s.score := by
  have hweight : s.weight < 2 ^ 63 := by
    unfold weight
    omega
  exact (score?_eq_some_iff (by omega)).mpr ⟨by omega, hweight, toInt_score hweight⟩

/-- Where a checked score is within another one, the smaller counts have a checked score, too. -/
theorem Within.exists_score?_le {s t : Specificity} (h : s.Within t)
    (hcounts : t.ids + t.classes + t.words < 2 ^ 63) {high : Int64} (hhigh : t.score? = some high) :
    ∃ low, s.score? = some low ∧ low ≤ high := by
  have hids := h.ids
  have hclasses := h.classes
  have hwords := h.words
  have hweight := h.weight_le
  rcases (score?_eq_some_iff hcounts).mp hhigh with ⟨hfront, hfits, hvalue⟩
  have hsmaller : s.weight < 2 ^ 63 := Nat.lt_of_le_of_lt hweight hfits
  refine ⟨s.score, (score?_eq_some_iff (by omega)).mpr ⟨by omega, hsmaller, toInt_score hsmaller⟩,
    ?_⟩
  rw [Int64.le_iff_toInt_le, toInt_score hsmaller, hvalue]
  exact Int.ofNat_le.mpr hweight

/-! ## Bounds -/

/-- A character is counted once at most, and takes a byte at least. -/
theorem counts_le_byteLength (inside : Bool) (text : List Char) :
    text.count '#' + text.count '.' + countWords inside text ≤ byteLength text := by
  induction text generalizing inside with
  | nil => simp [countWords]
  | cons c rest ih =>
    have hsize := c.utf8Size_pos
    have hinside := ih true
    have houtside := ih false
    rw [Text.byteLength_cons, List.count_cons, List.count_cons, countWords]
    by_cases hid : c = '#'
    · subst hid
      rw [if_neg (by decide : ¬ ('#').isAlpha = true)]
      simp
      omega
    by_cases hclass : c = '.'
    · subst hclass
      rw [if_neg (by decide : ¬ ('.').isAlpha = true)]
      simp
      omega
    · rw [if_neg (by simpa using hid), if_neg (by simpa using hclass)]
      split
      · split <;> omega
      · omega

/-- No character takes more than four bytes. -/
theorem byteLength_le_length (text : List Char) : byteLength text ≤ 4 * text.length := by
  induction text with
  | nil => exact Nat.zero_le _
  | cons c rest ih =>
    have hsize := c.utf8Size_le_four
    rw [Text.byteLength_cons, List.length_cons]
    omega

theorem weight_le_byteLength (text : List Char) :
    (ofText text).weight ≤ 100 * byteLength text := by
  have hcounts := counts_le_byteLength false text
  simp only [weight, ofText]
  omega

theorem weight_eq_zero_iff (s : Specificity) : s.weight = 0 ↔ s = ⟨0, 0, 0⟩ := by
  rcases s with ⟨ids, classes, words⟩
  simp only [weight, Specificity.mk.injEq]
  omega

/-! ## Short texts -/

/-- The counts of a text are no more than its bytes.  If a hundred times as many fit into 64
bits, then no step of its score overflows, and the score is a hundred for each id, nine for
each class and one for each word.  It is zero if nothing is counted, and low if there is no id
and the rest is less than ten; so a low text has one class at most, and none beside a word. -/
theorem score_of_short_text (text : List Char) :
    (ofText text).ids + (ofText text).classes + (ofText text).words ≤ byteLength text ∧
    (100 * byteLength text ≤ 2 ^ 63 - 1 →
      (ofText text).Exact ∧
      (ofText text).score.toInt =
        100 * (ofText text).ids + 9 * (ofText text).classes + (ofText text).words ∧
      0 ≤ (ofText text).score.toInt ∧ (ofText text).score.toInt ≤ 100 * byteLength text ∧
      ((ofText text).score = 0 ↔ '#' ∉ text ∧ '.' ∉ text ∧ ∀ c ∈ text, c.isAlpha = false) ∧
      ((ofText text).isLow = true ↔
        (ofText text).ids = 0 ∧ 9 * (ofText text).classes + (ofText text).words < 10) ∧
      ((ofText text).isLow = true →
        (ofText text).classes ≤ 1 ∧ (0 < (ofText text).words → (ofText text).classes = 0))) := by
  have hcounts : (ofText text).ids + (ofText text).classes + (ofText text).words ≤
      byteLength text := counts_le_byteLength false text
  refine ⟨hcounts, fun hshort => ?_⟩
  have hbound := weight_le_byteLength text
  have hfits : (ofText text).weight < 2 ^ 63 := by omega
  have hscore := toInt_score hfits
  have hlow := isLow_iff hfits
  have hzero : (ofText text).score = 0 ↔ (ofText text).weight = 0 := by
    have htoInt : (0 : Int64).toInt = 0 := by decide
    rw [← Int64.toInt_inj, hscore, htoInt]
    omega
  unfold weight at hscore hlow
  refine ⟨exact_of_lt (by omega), by omega, by omega, by omega, ?_, ?_, ?_⟩
  · rw [hzero, weight_eq_zero_iff, ofText_eq_zero_iff]
  · rw [hlow]
    omega
  · rw [hlow]
    omega

/-- A text of twelve bytes with an id, a class and three words. -/
theorem score_of_short_text_with_id :
    let text := "#nav .card a".toList
    100 * byteLength text ≤ 2 ^ 63 - 1 ∧ (ofText text).Exact ∧ (ofText text).score.toInt = 112 ∧
      ((ofText text).isLow = true ↔
        (ofText text).ids = 0 ∧ 9 * (ofText text).classes + (ofText text).words < 10) := by
  intro text
  have hshort : 100 * byteLength text ≤ 2 ^ 63 - 1 := by decide
  rcases (score_of_short_text text).2 hshort with ⟨hexact, hscore, -, -, -, hlow, -⟩
  exact ⟨hshort, hexact, hscore, hlow⟩

end Specificity

end SheetLint
