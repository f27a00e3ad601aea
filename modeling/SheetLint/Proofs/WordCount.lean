import SheetLint.Convention.Specificity
import SheetLint.Proofs.Splitting

/-!
# Counts of texts that are put together

The counts of a selector are taken character by character, but a word is a whole run of
letters: where two texts meet between two letters, a word of the one and a word of the other
become a single word.

Main results:

- Definition `Specificity.joined` tells whether two texts meet inside a word, and
  `Specificity.words_append` counts the words of both together.
- Theorem `Specificity.countWords_eq_zero_iff` says which texts have no word.
- Relation `Specificity.Within` compares counts, and `Specificity.within_of_part` says that a part
  of a text never counts more than the text.
- Theorem `Specificity.ofText_eq_zero_iff` says which texts count nothing, and
  `Specificity.ofText_trim` that trimming changes no count.
-/

namespace SheetLint

namespace Specificity

open Text (isBlank trim)

/-! ## Words -/

/-- How many words of two texts become one when the second is put behind the first: one if the
first ends with a letter and the second begins with one. -/
def joined (first second : List Char) : Nat :=
  if first.getLast?.any Char.isAlpha && second.head?.any Char.isAlpha then 1 else 0

/-- A text has no word exactly if it has no letter. -/
theorem countWords_eq_zero_iff (text : List Char) :
    countWords false text = 0 ↔ ∀ c ∈ text, c.isAlpha = false := by
  induction text with
  | nil => simp [countWords]
  | cons c rest ih =>
    rw [List.forall_mem_cons, ← ih, countWords]
    cases c.isAlpha with
    | false => simp
    | true => simp

/-- A word that is under way in front of a text is not counted again. -/
theorem countWords_true (text : List Char) :
    countWords true text + (if text.head?.any Char.isAlpha then 1 else 0) =
      countWords false text := by
  cases text with
  | nil => rfl
  | cons c rest => cases halpha : c.isAlpha <;> simp [countWords, halpha]

theorem endsInside_false (text : List Char) :
    endsInside false text = text.getLast?.any Char.isAlpha := by
  unfold endsInside
  cases text.getLast? <;> rfl

/-- The words of two texts are counted together, but for the word that runs from the one into
the other. -/
theorem words_append (first second : List Char) :
    countWords false (first ++ second) + joined first second =
      countWords false first + countWords false second := by
  rw [countWords_append, endsInside_false, joined]
  cases hends : first.getLast?.any Char.isAlpha with
  | false => simp
  | true =>
    rw [← countWords_true second, Bool.true_and]
    omega

/-- Words are counted apart where the first text does not end with a letter. -/
theorem ofText_append_of_ends {first : List Char}
    (hends : first.getLast?.any Char.isAlpha = false) (second : List Char) :
    ofText (first ++ second) =
      ⟨(ofText first).ids + (ofText second).ids, (ofText first).classes + (ofText second).classes,
        (ofText first).words + (ofText second).words⟩ := by
  have hwords := words_append first second
  rw [joined, hends, Bool.false_and, if_neg Bool.false_ne_true, Nat.add_zero] at hwords
  rw [ofText, List.count_append, List.count_append, hwords]
  rfl

theorem joined_le_left (first second : List Char) :
    joined first second ≤ countWords false first := by
  unfold joined
  split
  next hmeet =>
    rw [Bool.and_eq_true] at hmeet
    rcases (Option.any_eq_true _ _).mp hmeet.1 with ⟨c, hc, halpha⟩
    rw [Nat.one_le_iff_ne_zero]
    intro hnone
    rw [(countWords_eq_zero_iff first).mp hnone c (List.mem_of_getLast? hc)] at halpha
    cases halpha
  next => exact Nat.zero_le _

theorem joined_le_right (first second : List Char) :
    joined first second ≤ countWords false second := by
  rw [← countWords_true second]
  unfold joined
  cases first.getLast?.any Char.isAlpha with
  | false => simp
  | true =>
    rw [Bool.true_and]
    omega

/-! ## Counts of parts -/

/-- No count is greater than the other of its kind. -/
structure Within (s t : Specificity) : Prop where
  ids : s.ids ≤ t.ids
  classes : s.classes ≤ t.classes
  words : s.words ≤ t.words

theorem Within.trans {s t u : Specificity} (hst : s.Within t) (htu : t.Within u) : s.Within u where
  ids := Nat.le_trans hst.ids htu.ids
  classes := Nat.le_trans hst.classes htu.classes
  words := Nat.le_trans hst.words htu.words

theorem within_append_left (first second : List Char) :
    (ofText first).Within (ofText (first ++ second)) where
  ids := (List.sublist_append_left first second).count_le '#'
  classes := (List.sublist_append_left first second).count_le '.'
  words := by
    have hwords := words_append first second
    have hjoined := joined_le_right first second
    change countWords false first ≤ countWords false (first ++ second)
    omega

theorem within_append_right (first second : List Char) :
    (ofText second).Within (ofText (first ++ second)) where
  ids := (List.sublist_append_right first second).count_le '#'
  classes := (List.sublist_append_right first second).count_le '.'
  words := by
    have hwords := words_append first second
    have hjoined := joined_le_left first second
    change countWords false second ≤ countWords false (first ++ second)
    omega

/-- A part of a text counts no more than the text. -/
theorem within_of_part {part text : List Char} (hpart : part <:+: text) :
    (ofText part).Within (ofText text) := by
  rcases hpart with ⟨before, after, rfl⟩
  exact (within_append_right before part).trans (within_append_left (before ++ part) after)

/-! ## Text that does not count -/

/-- Nothing is counted exactly if there is no mark of an id, none of a class, and no letter. -/
theorem ofText_eq_zero_iff (text : List Char) :
    ofText text = ⟨0, 0, 0⟩ ↔ '#' ∉ text ∧ '.' ∉ text ∧ ∀ c ∈ text, c.isAlpha = false := by
  rw [ofText, Specificity.mk.injEq, List.count_eq_zero, List.count_eq_zero,
    countWords_eq_zero_iff]

theorem isAlpha_iff (c : Char) :
    c.isAlpha = true ↔ 65 ≤ c.toNat ∧ c.toNat ≤ 90 ∨ 97 ≤ c.toNat ∧ c.toNat ≤ 122 := by
  have hranges : c.isAlpha =
      (decide (65 ≤ c.toNat ∧ c.toNat ≤ 90) || (decide (97 ≤ c.toNat) && decide (c.toNat ≤ 122))) :=
    rfl
  rw [hranges, Bool.or_eq_true, Bool.and_eq_true, decide_eq_true_iff, decide_eq_true_iff,
    decide_eq_true_iff]

theorem isAlpha_of_isBlank {c : Char} (hblank : isBlank c = true) : c.isAlpha = false := by
  simp only [isBlank, Text.blankRanges, List.any_cons, List.any_nil, Bool.or_eq_true,
    Bool.and_eq_true, decide_eq_true_eq, Bool.or_false] at hblank
  rw [← Bool.not_eq_true, isAlpha_iff]
  omega

theorem ofText_of_all_blank {text : List Char} (hblank : ∀ c ∈ text, isBlank c = true) :
    ofText text = ⟨0, 0, 0⟩ := by
  rw [ofText_eq_zero_iff]
  exact ⟨Text.not_mem_of_all_blank hblank (by decide), Text.not_mem_of_all_blank hblank (by decide),
    fun c hc => isAlpha_of_isBlank (hblank c hc)⟩

/-- Text that is not counted may be put in front. -/
theorem ofText_append_right {first : List Char} (hfirst : ofText first = ⟨0, 0, 0⟩)
    (second : List Char) : ofText (first ++ second) = ofText second := by
  rcases Specificity.mk.inj hfirst with ⟨hids, hclasses, hwords⟩
  have hsum := words_append first second
  have hjoined := joined_le_left first second
  rw [ofText, ofText, List.count_append, List.count_append, hids, hclasses, Nat.zero_add,
    Nat.zero_add, Specificity.mk.injEq]
  exact ⟨rfl, rfl, by omega⟩

/-- Text that is not counted may be put behind. -/
theorem ofText_append_left (first : List Char) {second : List Char}
    (hsecond : ofText second = ⟨0, 0, 0⟩) : ofText (first ++ second) = ofText first := by
  rcases Specificity.mk.inj hsecond with ⟨hids, hclasses, hwords⟩
  have hsum := words_append first second
  have hjoined := joined_le_right first second
  rw [ofText, ofText, List.count_append, List.count_append, hids, hclasses, Nat.add_zero,
    Nat.add_zero, Specificity.mk.injEq]
  exact ⟨rfl, rfl, by omega⟩

/-- The blanks at the ends of a text do not count. -/
theorem ofText_trim (text : List Char) : ofText (trim text) = ofText text := by
  rcases Text.exists_eq_append_trim text with ⟨before, after, hbefore, hafter, htext⟩
  calc ofText (trim text)
      = ofText (before ++ trim text) := (ofText_append_right (ofText_of_all_blank hbefore) _).symm
    _ = ofText (before ++ trim text ++ after) :=
        (ofText_append_left _ (ofText_of_all_blank hafter)).symm
    _ = ofText text := by rw [← htext]

end Specificity

end SheetLint
