import Mathlib.Data.List.Infix
import Mathlib.Data.List.TakeWhile
import SheetLint.Proofs.Splitting
import SheetLint.Stylesheet.Declaration

/-!
# Color values piece by piece

The color values of a line are found in one pass over its characters.  This module compares
the pass with two plain descriptions: the global search for a pattern, and the pieces into
which the semicolons split the line.

Main results:

- Relation `Declaration.Captures` is the global search for a label, blanks and a value: each
  match begins as far left as it can, takes as many blanks as it can and then as many
  characters as it can, and the search goes on behind it.
- Definition `Declaration.pieceValue?` is the value that one piece contributes.
- Theorem `Declaration.scanColors_append` says that the pass starts afresh behind a semicolon,
  and `Declaration.text_scanColors_of_not_mem` what it finds in one piece.
- Theorem `Declaration.colorValues_piecewise` describes the values of every line.
-/

namespace SheetLint

namespace Declaration

open Text (isBlank)

/-! ## The pieces of a line -/

/-- What every label ends with. -/
def label : List Char :=
  "color:".toList

/-- What stands behind the first label in a text. -/
def behindLabel? (text : List Char) : Option (List Char) :=
  (text.tails.find? fun tail => label.isPrefixOf tail).map (List.drop label.length)

/-- The value of a piece without semicolons: the trimmed text behind its first label, unless
nothing stands there. -/
def pieceValue? (piece : List Char) : Option (List Char) :=
  (behindLabel? piece).bind fun value => if value = [] then none else some (Text.trim value)

theorem behindLabel?_cons (c : Char) (rest : List Char) :
    behindLabel? (c :: rest) =
      if label.isPrefixOf (c :: rest) then some ((c :: rest).drop label.length)
      else behindLabel? rest := by
  rw [behindLabel?, List.tails_cons, List.find?_cons]
  split
  next h => rw [h]; rfl
  next h => rw [if_neg (by rw [h]; decide)]; rfl

/-! ## Labels and values -/

/-- The characters of a text up to its first semicolon. -/
def valueRun (text : List Char) : List Char :=
  text.takeWhile (· != ';')

theorem not_mem_of_mem_colorLabels : ∀ found ∈ colorLabels, ';' ∉ found := by
  decide

theorem length_pos_of_mem_colorLabels : ∀ found ∈ colorLabels, 0 < found.length := by
  decide

theorem valueRun_append {text : List Char} (htext : ';' ∉ text) (rest : List Char) :
    valueRun (text ++ rest) = text ++ valueRun rest := by
  apply List.takeWhile_append_of_pos
  intro c hc
  rw [bne_iff_ne]
  rintro rfl
  exact htext hc

theorem valueRun_of_not_mem {text : List Char} (htext : ';' ∉ text) : valueRun text = text := by
  have hrun := valueRun_append htext []
  have hnil : valueRun [] = [] := rfl
  rwa [List.append_nil, hnil, List.append_nil] at hrun

theorem valueRun_append_semicolon (text rest : List Char) :
    valueRun (text ++ ';' :: rest) = valueRun text := by
  rw [valueRun, List.takeWhile_append]
  split
  next h => rw [valueRun, (List.takeWhile_prefix _).eq_of_length h]; simp
  next => rfl

theorem not_mem_valueRun (text : List Char) : ';' ∉ valueRun text :=
  Text.not_mem_takeWhile_bne ';' text

/-- A stretch without semicolons begins a text exactly if it begins the run of the text. -/
theorem prefix_valueRun_iff {stretch : List Char} (hstretch : ';' ∉ stretch) (text : List Char) :
    stretch <+: valueRun text ↔ stretch <+: text := by
  constructor
  · exact fun h => h.trans (List.takeWhile_prefix _)
  · rintro ⟨rest, rfl⟩
    rw [valueRun_append hstretch]
    exact List.prefix_append stretch _

/-- A label that begins a text is measured with the run behind it, unless nothing stands
there. -/
theorem colorExtent?_of_label {found : List Char} (hfound : found ∈ colorLabels)
    (text : List Char) :
    colorExtent? (found ++ text) =
      if valueRun text = [] then none else some (found.length, (valueRun text).length) := by
  have hfind : (colorLabels.find? fun label => label.isPrefixOf (found ++ text)) = some found := by
    simp only [colorLabels, List.mem_cons, List.not_mem_nil, or_false] at hfound
    rcases hfound with rfl | rfl <;> rfl
  unfold colorExtent?
  rw [hfind]
  simp only [List.drop_left, List.isEmpty_iff]
  rfl

theorem colorExtent?_of_no_label {text : List Char}
    (hnone : ∀ found ∈ colorLabels, ¬ found <+: text) : colorExtent? text = none := by
  have hfind : (colorLabels.find? fun label => label.isPrefixOf text) = none := by
    rw [List.find?_eq_none]
    intro found hfound
    rw [List.isPrefixOf_iff_prefix]
    exact hnone found hfound
  rw [colorExtent?, hfind]

/-- What begins a text in front of a semicolon without holding one begins it alone. -/
theorem prefix_of_prefix_append_semicolon {stretch text rest : List Char}
    (hstretch : ';' ∉ stretch) (h : stretch <+: text ++ ';' :: rest) : stretch <+: text := by
  rw [← prefix_valueRun_iff hstretch, valueRun_append_semicolon] at h
  exact h.trans (List.takeWhile_prefix _)

/-- A declaration in front of a semicolon is measured without what stands behind. -/
theorem colorExtent?_append (text rest : List Char) :
    colorExtent? (text ++ ';' :: rest) = colorExtent? text := by
  by_cases hlabel : ∃ found ∈ colorLabels, found <+: text
  · rcases hlabel with ⟨found, hfound, value, rfl⟩
    rw [List.append_assoc, colorExtent?_of_label hfound, colorExtent?_of_label hfound,
      valueRun_append_semicolon]
  · have hnone : ∀ found ∈ colorLabels, ¬ found <+: text := fun found hfound hbegins =>
      hlabel ⟨found, hfound, hbegins⟩
    rw [colorExtent?_of_no_label hnone, colorExtent?_of_no_label]
    intro found hfound hbegins
    exact hnone found hfound
      (prefix_of_prefix_append_semicolon (not_mem_of_mem_colorLabels found hfound) hbegins)

/-- What is measured is a label with a run behind it. -/
theorem exists_label_of_colorExtent? {text : List Char} {n m : Nat}
    (hextent : colorExtent? text = some (n, m)) :
    ∃ found ∈ colorLabels, ∃ value, text = found ++ value ∧ n = found.length ∧
      m = (valueRun value).length := by
  by_cases hlabel : ∃ found ∈ colorLabels, found <+: text
  · rcases hlabel with ⟨found, hfound, value, rfl⟩
    rw [colorExtent?_of_label hfound] at hextent
    split at hextent
    next => cases hextent
    next =>
      cases hextent
      exact ⟨found, hfound, value, rfl, rfl, rfl⟩
  · rw [colorExtent?_of_no_label fun found hfound hbegins => hlabel ⟨found, hfound, hbegins⟩]
      at hextent
    cases hextent

theorem label_pos_of_colorExtent? {text : List Char} {n m : Nat}
    (hextent : colorExtent? text = some (n, m)) : 0 < n := by
  rcases exists_label_of_colorExtent? hextent with ⟨found, hfound, -, -, rfl, -⟩
  exact length_pos_of_mem_colorLabels found hfound

theorem le_length_of_colorExtent? {text : List Char} {n m : Nat}
    (hextent : colorExtent? text = some (n, m)) : n + m ≤ text.length := by
  rcases exists_label_of_colorExtent? hextent with ⟨found, -, value, rfl, rfl, rfl⟩
  rw [List.length_append]
  exact Nat.add_le_add_left (List.takeWhile_prefix _).length_le _

/-! ## The pass over the characters -/

theorem scanColors_of_none {start : Option Nat} {c : Char} {rest : List Char}
    (hnone : colorExtent? (c :: rest) = none) :
    scanColors start 0 (c :: rest) = scanColors (Slice.advance c.utf8Size start) 0 rest := by
  rw [scanColors]
  simp only [hnone]

/-- A label with a run behind it gives the trimmed run, and the pass goes on behind it. -/
theorem scanColors_of_label (start : Option Nat) {found : List Char} (hfound : found ∈ colorLabels)
    {run : List Char} (hne : run ≠ []) {rest : List Char} (hrun : valueRun (run ++ rest) = run) :
    scanColors start 0 (found ++ (run ++ rest)) =
      (⟨run, Slice.advance (Text.byteLength found) start⟩ : Slice).trim ::
        scanColors (Slice.advance (Text.byteLength (found ++ run)) start) 0 rest := by
  obtain ⟨c, tail, rfl⟩ : ∃ c tail, found = c :: tail := by
    simp only [colorLabels, List.mem_cons, List.not_mem_nil, or_false] at hfound
    rcases hfound with rfl | rfl <;> exact ⟨_, _, rfl⟩
  have hextent := colorExtent?_of_label hfound (run ++ rest)
  rw [hrun, if_neg hne, List.cons_append] at hextent
  have hcut : ((⟨(c :: tail) ++ (run ++ rest), start⟩ : Slice).drop (c :: tail).length).take
      run.length = ⟨run, Slice.advance (Text.byteLength (c :: tail)) start⟩ := by
    rw [Slice.drop, Slice.take]
    simp only [List.drop_left, List.take_left]
  have hskip : (c :: tail).length + run.length - 1 = (tail ++ run).length := by
    simp only [List.length_cons, List.length_append]
    omega
  rw [List.cons_append, scanColors]
  simp only [hextent]
  rw [hskip, scanColors_skip, ← List.append_assoc tail, List.take_left, List.drop_left,
    Slice.advance_advance, List.append_assoc, ← List.cons_append, hcut]
  rfl

/-- What is cut from the beginning of a text does not depend on the rest. -/
theorem drop_take_append {n m : Nat} {text : List Char} (h : n + m ≤ text.length)
    (more : List Char) (start : Option Nat) :
    ((⟨text ++ more, start⟩ : Slice).drop n).take m =
      ((⟨text, start⟩ : Slice).drop n).take m := by
  have hfront : (text ++ more).take n = text.take n := List.take_append_of_le_length (by omega)
  have hback : (text ++ more).drop n = text.drop n ++ more :=
    List.drop_append_of_le_length (by omega)
  have hvalue : (text.drop n ++ more).take m = (text.drop n).take m :=
    List.take_append_of_le_length (by rw [List.length_drop]; omega)
  simp only [Slice.drop, Slice.take, hfront, hback, hvalue]

/-- The pass starts afresh behind a semicolon. -/
theorem scanColors_append (start : Option Nat) (skip : Nat) (text rest : List Char)
    (hskip : skip ≤ text.length) :
    scanColors start skip (text ++ ';' :: rest) =
      scanColors start skip text ++
        scanColors (Slice.advance (Text.byteLength text + 1) start) 0 rest := by
  induction text generalizing start skip with
  | nil =>
    have hzero : skip = 0 := Nat.le_zero.mp hskip
    subst hzero
    rfl
  | cons c text ih =>
    have hbehind : Slice.advance (Text.byteLength text + 1) (Slice.advance c.utf8Size start) =
        Slice.advance (Text.byteLength (c :: text) + 1) start := by
      rw [Slice.advance_advance, Text.byteLength_cons, Nat.add_assoc]
    cases skip with
    | succ skip =>
      rw [List.cons_append, scanColors, scanColors, ih _ _ (Nat.le_of_succ_le_succ hskip), hbehind]
    | zero =>
      have hsame := colorExtent?_append (c :: text) rest
      rw [List.cons_append] at hsame ⊢
      cases hextent : colorExtent? (c :: text) with
      | none =>
        rw [hextent] at hsame
        rw [scanColors_of_none hsame, scanColors_of_none hextent, ih _ _ (Nat.zero_le _), hbehind]
      | some extent =>
        rcases extent with ⟨n, m⟩
        have hlength := le_length_of_colorExtent? hextent
        rw [hextent] at hsame
        rw [scanColors, scanColors]
        simp only [hsame, hextent]
        have hcut := drop_take_append hlength (';' :: rest) start
        rw [List.cons_append] at hcut
        rw [ih _ _ (by rw [List.length_cons] at hlength; omega), hbehind, hcut]
        rfl

/-! ## One piece -/

theorem behindLabel?_of_label {found : List Char} (hfound : found ∈ colorLabels)
    (value : List Char) : behindLabel? (found ++ value) = some value := by
  simp only [colorLabels, List.mem_cons, List.not_mem_nil, or_false] at hfound
  rcases hfound with rfl | rfl <;> rfl

theorem pieceValue?_of_label {found : List Char} (hfound : found ∈ colorLabels)
    (value : List Char) :
    pieceValue? (found ++ value) = if value = [] then none else some (Text.trim value) := by
  rw [pieceValue?, behindLabel?_of_label hfound]
  rfl

/-- A piece gives its value and nothing else. -/
theorem text_scanColors_of_not_mem {piece : List Char} (hpiece : ';' ∉ piece)
    (start : Option Nat) :
    (scanColors start 0 piece).map Slice.text = (pieceValue? piece).toList := by
  induction piece generalizing start with
  | nil => rfl
  | cons c rest ih =>
    have hrest : ';' ∉ rest := fun h => hpiece (List.mem_cons_of_mem c h)
    by_cases hlabel : ∃ found ∈ colorLabels, found <+: c :: rest
    · rcases hlabel with ⟨found, hfound, value, hsplit⟩
      have hvalue : ';' ∉ value := fun h => hpiece (hsplit ▸ List.mem_append_right found h)
      have hextent := colorExtent?_of_label hfound value
      by_cases hempty : value = []
      · -- A label at the very end of a piece has no value, and there is no label inside it.
        rw [hempty, List.append_nil] at hsplit
        simp only [colorLabels, List.mem_cons, List.not_mem_nil, or_false] at hfound
        rcases hfound with rfl | rfl <;> cases hsplit <;> rfl
      · rw [← hsplit, pieceValue?_of_label hfound, if_neg hempty]
        have hrun : valueRun (value ++ []) = value := by
          rw [List.append_nil, valueRun_of_not_mem hvalue]
        have hscan := scanColors_of_label start hfound hempty hrun
        rw [List.append_nil] at hscan
        rw [hscan]
        simp [scanColors]
    · have hnone : ∀ found ∈ colorLabels, ¬ found <+: c :: rest := fun found hfound hbegins =>
        hlabel ⟨found, hfound, hbegins⟩
      have hbehind : pieceValue? (c :: rest) = pieceValue? rest := by
        have hlast : ¬ label.isPrefixOf (c :: rest) = true := by
          rw [List.isPrefixOf_iff_prefix]
          exact hnone label (by decide)
        rw [pieceValue?, behindLabel?_cons, if_neg hlast]
        rfl
      rw [scanColors_of_none (colorExtent?_of_no_label hnone), ih hrest, hbehind]

theorem text_scanColors (start : Option Nat) (text : List Char) :
    (scanColors start 0 text).map Slice.text = (text.splitOn ';').filterMap pieceValue? := by
  induction text using Text.separator_induction ';' generalizing start with
  | last text htext =>
    rw [text_scanColors_of_not_mem htext, List.splitOn_eq_singleton htext]
    cases h : pieceValue? text <;> simp [h]
  | step piece rest hpiece ih =>
    rw [scanColors_append _ _ _ _ (Nat.zero_le _), List.map_append, ih,
      text_scanColors_of_not_mem hpiece, List.splitOn_append_cons_self_of_not_mem hpiece]
    cases h : pieceValue? piece <;> simp [h]

/-! ## The global search -/

/-- The pattern matches at the beginning of a text: one of the labels, any number of blanks and
at least one character up to a semicolon at most. -/
structure MatchesAt (text found blanks value : List Char) : Prop where
  label_mem : found ∈ colorLabels
  blank : ∀ c ∈ blanks, isBlank c = true
  value_ne_nil : value ≠ []
  clean : ';' ∉ value
  begins : found ++ (blanks ++ value) <+: text

/-- The values that a search finds in a text.  No match begins further left, the blanks are as
many as they can be and then the value is as long as it can be, and the search goes on behind
the value.  A text begins with one label at most, so there is no choice between these. -/
inductive Captures : List Char → List (List Char) → Prop where
  | nothing {text : List Char}
      (hnone : ∀ i found blanks value, ¬ MatchesAt (text.drop i) found blanks value) :
      Captures text []
  | next {front text found blanks value rest : List Char} {values : List (List Char)}
      (hleft : ∀ i < front.length, ∀ found blanks value,
        ¬ MatchesAt ((front ++ text).drop i) found blanks value)
      (htext : text = found ++ (blanks ++ value) ++ rest)
      (hmatch : MatchesAt text found blanks value)
      (hblanks : ∀ blanks' value', MatchesAt text found blanks' value' →
        blanks'.length ≤ blanks.length)
      (hvalue : ∀ value', MatchesAt text found blanks value' → value'.length ≤ value.length)
      (hrest : Captures rest values) : Captures (front ++ text) (value :: values)

theorem not_mem_of_all_blank {blanks : List Char} (h : ∀ c ∈ blanks, isBlank c = true) :
    ';' ∉ blanks := by
  intro hmem
  exact absurd (h ';' hmem) (by decide)

/-- Behind a label the pattern takes blanks and a value from the run there. -/
theorem matchesAt_append_iff {found : List Char} (hfound : found ∈ colorLabels)
    (text blanks value : List Char) :
    MatchesAt (found ++ text) found blanks value ↔
      (∀ c ∈ blanks, isBlank c = true) ∧ value ≠ [] ∧ blanks ++ value <+: valueRun text := by
  constructor
  · rintro ⟨-, hblank, hne, hclean, hbegins⟩
    rw [List.prefix_append_right_inj] at hbegins
    refine ⟨hblank, hne, (prefix_valueRun_iff ?_ text).mpr hbegins⟩
    rw [List.mem_append, not_or]
    exact ⟨not_mem_of_all_blank hblank, hclean⟩
  · rintro ⟨hblank, hne, hbegins⟩
    have hclean : ';' ∉ value := fun hmem =>
      not_mem_valueRun text (hbegins.subset (List.mem_append_right blanks hmem))
    refine ⟨hfound, hblank, hne, hclean, ?_⟩
    rw [List.prefix_append_right_inj]
    exact hbegins.trans (List.takeWhile_prefix _)

/-- Behind the label of a match there is a run. -/
theorem MatchesAt.exists_run {text found blanks value : List Char}
    (h : MatchesAt text found blanks value) :
    ∃ behind, text = found ++ behind ∧ valueRun behind ≠ [] := by
  have hfound := h.label_mem
  rcases (List.prefix_append found _).trans h.begins with ⟨behind, rfl⟩
  rcases (matchesAt_append_iff hfound behind blanks value).mp h with ⟨-, hne, hbegins⟩
  refine ⟨behind, rfl, fun hempty => ?_⟩
  rw [hempty, List.prefix_nil, List.append_eq_nil_iff] at hbegins
  exact hne hbegins.2

/-- Nothing is measured at the beginning of a text exactly if no match begins there. -/
theorem colorExtent?_eq_none_iff (text : List Char) :
    colorExtent? text = none ↔ ∀ found blanks value, ¬ MatchesAt text found blanks value := by
  constructor
  · intro hnone found blanks value hmatch
    rcases hmatch.exists_run with ⟨behind, rfl, hrun⟩
    rw [colorExtent?_of_label hmatch.label_mem, if_neg hrun] at hnone
    cases hnone
  · intro hnone
    by_cases hlabel : ∃ found ∈ colorLabels, found <+: text
    · rcases hlabel with ⟨found, hfound, behind, rfl⟩
      rw [colorExtent?_of_label hfound, if_pos]
      by_contra hrun
      exact hnone found [] (valueRun behind)
        ((matchesAt_append_iff hfound behind [] _).mpr ⟨by simp, hrun, List.prefix_refl _⟩)
    · exact colorExtent?_of_no_label fun found hfound hbegins => hlabel ⟨found, hfound, hbegins⟩

theorem scanColors_of_no_match {text : List Char}
    (hnone : ∀ i found blanks value, ¬ MatchesAt (text.drop i) found blanks value)
    (start : Option Nat) : scanColors start 0 text = [] := by
  induction text generalizing start with
  | nil => rfl
  | cons c rest ih =>
    rw [scanColors_of_none ((colorExtent?_eq_none_iff _).mpr (hnone 0))]
    exact ih (fun i => hnone (i + 1)) _

/-- The pass moves on over characters at which no match begins. -/
theorem scanColors_append_of_no_match {front : List Char} {text : List Char}
    (hleft : ∀ i < front.length, ∀ found blanks value,
      ¬ MatchesAt ((front ++ text).drop i) found blanks value) (start : Option Nat) :
    scanColors start 0 (front ++ text) =
      scanColors (Slice.advance (Text.byteLength front) start) 0 text := by
  induction front generalizing start with
  | nil => simp
  | cons c front ih =>
    have hfirst := hleft 0 (by simp)
    rw [List.drop_zero, List.cons_append] at hfirst
    rw [List.cons_append, scanColors_of_none ((colorExtent?_eq_none_iff _).mpr hfirst), ih,
      Slice.advance_advance, Text.byteLength_cons]
    intro i hi
    exact hleft (i + 1) (Nat.succ_lt_succ hi)

/-- A value that cannot be longer ends with its run. -/
theorem valueRun_eq_of_longest {found blanks value rest : List Char} (hfound : found ∈ colorLabels)
    (hmatch : MatchesAt (found ++ (blanks ++ value) ++ rest) found blanks value)
    (hvalue : ∀ value', MatchesAt (found ++ (blanks ++ value) ++ rest) found blanks value' →
      value'.length ≤ value.length) : valueRun (blanks ++ value ++ rest) = blanks ++ value := by
  rw [List.append_assoc] at hmatch hvalue
  rcases (matchesAt_append_iff hfound _ blanks value).mp hmatch with ⟨hblank, hne, hbegins⟩
  rcases hbegins with ⟨more, hmore⟩
  have hlonger : MatchesAt (found ++ (blanks ++ value ++ rest)) found blanks (value ++ more) := by
    rw [matchesAt_append_iff hfound]
    refine ⟨hblank, by simp [hne], ?_⟩
    rw [← hmore, List.append_assoc]
  have hlength := hvalue _ hlonger
  have hnil : more = [] := by
    rw [List.length_append] at hlength
    exact List.eq_nil_of_length_eq_zero (by omega)
  rw [← hmore, hnil, List.append_nil]

/-- The values that the search finds are those of the pass, but for blanks at their ends. -/
theorem Captures.map_trim {text : List Char} {values : List (List Char)} (h : Captures text values)
    (start : Option Nat) :
    values.map Text.trim = (scanColors start 0 text).map Slice.text := by
  induction h generalizing start with
  | nothing hnone => rw [scanColors_of_no_match hnone]; rfl
  | @next front text found blanks value rest values hleft htext hmatch hblanks hvalue hrest ih =>
    subst htext
    have hrun := valueRun_eq_of_longest hmatch.label_mem hmatch hvalue
    have hne : blanks ++ value ≠ [] := by simp [hmatch.value_ne_nil]
    rw [scanColors_append_of_no_match hleft, List.append_assoc found,
      scanColors_of_label _ hmatch.label_mem hne hrun, List.map_cons, List.map_cons, ← ih,
      Slice.trim_text, Text.trim_append_of_all_blank hmatch.blank]

/-- A run is cut behind as many blanks as leave something of it. -/
theorem exists_blanks {run : List Char} (hne : run ≠ []) :
    ∃ blanks value, run = blanks ++ value ∧ value ≠ [] ∧ (∀ c ∈ blanks, isBlank c = true) ∧
      ∀ blanks' value', (∀ c ∈ blanks', isBlank c = true) → value' ≠ [] →
        blanks' ++ value' <+: run → blanks'.length ≤ blanks.length := by
  by_cases hall : ∀ c ∈ run, isBlank c = true
  · -- The last blank is left for the value.
    refine ⟨run.dropLast, [run.getLast hne], (List.dropLast_append_getLast hne).symm,
      List.cons_ne_nil _ _, fun c hc => hall c (List.mem_of_mem_dropLast hc), ?_⟩
    intro blanks' value' _ hvalue' hbegins
    have hlength := hbegins.length_le
    have hpos := List.length_pos_iff.mpr hvalue'
    rw [List.length_append] at hlength
    rw [List.length_dropLast]
    omega
  · refine ⟨run.takeWhile isBlank, run.dropWhile isBlank, List.takeWhile_append_dropWhile.symm, ?_,
      fun c hc => List.mem_takeWhile_imp hc, ?_⟩
    · rwa [ne_eq, List.dropWhile_eq_nil_iff]
    · intro blanks' value' hblank' _ hbegins
      rcases (List.prefix_append blanks' value').trans hbegins with ⟨rest, rfl⟩
      rw [List.takeWhile_append_of_pos hblank', List.length_append]
      exact Nat.le_add_right _ _

/-- A character at which no match begins moves the search on and changes nothing else. -/
theorem Captures.cons {c : Char} {text : List Char} {values : List (List Char)}
    (hnone : ∀ found blanks value, ¬ MatchesAt (c :: text) found blanks value)
    (h : Captures text values) : Captures (c :: text) values := by
  cases h with
  | nothing hlater =>
    refine .nothing fun i => ?_
    cases i with
    | zero => exact hnone
    | succ i => exact hlater i
  | @next front text found blanks value rest values hleft htext hmatch hblanks hvalue hrest =>
    rw [← List.cons_append] at hnone ⊢
    refine .next (fun i hi => ?_) htext hmatch hblanks hvalue hrest
    cases i with
    | zero => exact hnone
    | succ i => exact hleft i (Nat.lt_of_succ_lt_succ hi)

/-- Every search has an outcome. -/
theorem exists_captures (text : List Char) : ∃ values, Captures text values := by
  by_cases hmatch : ∃ found blanks value, MatchesAt text found blanks value
  · rcases hmatch with ⟨found, blanks', value', hmatch'⟩
    have hfound := hmatch'.label_mem
    rcases hmatch'.exists_run with ⟨behind, rfl, hrun⟩
    rcases exists_blanks hrun with ⟨blanks, value, hsplit, hne, hblank, hmost⟩
    have hbehind : behind = blanks ++ value ++ behind.dropWhile (· != ';') := by
      rw [← hsplit]
      exact List.takeWhile_append_dropWhile.symm
    have hshorter : (behind.dropWhile (· != ';')).length < (found ++ behind).length := by
      have hlabel := length_pos_of_mem_colorLabels found hfound
      have hdrop := (List.dropWhile_suffix (· != ';') (l := behind)).length_le
      rw [List.length_append]
      omega
    rcases exists_captures (behind.dropWhile (· != ';')) with ⟨values, hrest⟩
    refine ⟨value :: values, ?_⟩
    have hmatch : MatchesAt (found ++ behind) found blanks value :=
      (matchesAt_append_iff hfound behind blanks value).mpr
        ⟨hblank, hne, hsplit ▸ List.prefix_refl _⟩
    rw [← List.nil_append (found ++ behind)]
    refine .next (by simp) ?_ hmatch ?_ ?_ hrest
    · rw [List.append_assoc, ← hbehind]
    · intro blanks'' value'' hother
      rcases (matchesAt_append_iff hfound _ _ _).mp hother with ⟨hblank'', hne'', hbegins''⟩
      exact hmost blanks'' value'' hblank'' hne'' hbegins''
    · intro value'' hother
      rcases (matchesAt_append_iff hfound _ _ _).mp hother with ⟨-, -, hbegins''⟩
      rw [hsplit, List.prefix_append_right_inj] at hbegins''
      exact hbegins''.length_le
  · cases text with
    | nil =>
      refine ⟨[], .nothing fun i found blanks value h => hmatch ⟨found, blanks, value, ?_⟩⟩
      rwa [List.drop_nil] at h
    | cons c rest =>
      rcases exists_captures rest with ⟨values, hrest⟩
      exact ⟨values, hrest.cons fun found blanks value h => hmatch ⟨found, blanks, value, h⟩⟩
termination_by text.length

/-! ## All lines -/

theorem map_text_colorValues (line : Slice) :
    (colorValues line).map Slice.text = (line.text.splitOn ';').filterMap pieceValue? :=
  text_scanColors line.start line.text

/-- A label is found behind any name without a colon, whatever the name ends with. -/
theorem behindLabel?_append {name : List Char} (hname : ':' ∉ name) (value : List Char) :
    behindLabel? (name ++ (label ++ value)) = some value := by
  induction name with
  | nil => rfl
  | cons c name ih =>
    have hrest : ':' ∉ name := fun h => hname (List.mem_cons_of_mem c h)
    have hlast : ¬ label.isPrefixOf (c :: name ++ (label ++ value)) = true := by
      rw [List.isPrefixOf_iff_prefix]
      rintro ⟨behind, hbehind⟩
      -- Up to the first colon, one text has the name in front of what the other one has.
      have hfront (text : List Char) : (label ++ text).takeWhile (· != ':') = "color".toList := rfl
      have hclean : ∀ d ∈ c :: name, (d != ':') = true := by
        intro d hd
        rw [bne_iff_ne]
        rintro rfl
        exact hname hd
      have hsame := congrArg (List.takeWhile (· != ':')) hbehind
      rw [hfront, List.takeWhile_append_of_pos hclean, hfront] at hsame
      have hlength := congrArg List.length hsame
      simp at hlength
    rw [List.cons_append] at hlast ⊢
    rw [behindLabel?_cons, if_neg hlast, ih hrest]

/-- A piece gives what stands behind its first label. -/
theorem map_text_colorValues_of_label {name value : List Char} (hname : ':' ∉ name)
    (hclean : ';' ∉ name) (hvalue : ';' ∉ value) (start : Option Nat) :
    (colorValues ⟨name ++ (label ++ value), start⟩).map Slice.text =
      if value = [] then [] else [Text.trim value] := by
  have hpiece : ';' ∉ name ++ (label ++ value) := by
    simp only [List.mem_append, not_or]
    exact ⟨hclean, by decide, hvalue⟩
  have hone : pieceValue? (name ++ (label ++ value)) =
      if value = [] then none else some (Text.trim value) := by
    rw [pieceValue?, behindLabel?_append hname]
    rfl
  have hscan := text_scanColors_of_not_mem hpiece start
  rw [hone] at hscan
  rw [colorValues, hscan]
  split <;> rfl

/-- The color values of every line are those that a global search for the pattern finds, trimmed,
and they are found piece by piece: a piece between semicolons gives the trimmed text behind the
first label in it, unless nothing stands there.  So it gives one value at most; the value runs
to the end of its piece, whatever the name before the label is and whatever labels follow; if it
is blank it is empty; and the values of a line are those in front of a semicolon and then those
behind it, each where it stands. -/
theorem colorValues_piecewise (line : Slice) :
    (∃ values, Captures line.text values) ∧
    (∀ values, Captures line.text values →
      (colorValues line).map Slice.text = values.map Text.trim) ∧
    (colorValues line).map Slice.text = (line.text.splitOn ';').filterMap pieceValue? ∧
    (';' ∉ line.text → (colorValues line).length ≤ 1) ∧
    (∀ name value, line.text = name ++ ("color:".toList ++ value) →
      ':' ∉ name → ';' ∉ name → ';' ∉ value →
        (colorValues line).map Slice.text = (if value = [] then [] else [Text.trim value]) ∧
        ((∀ c ∈ value, isBlank c = true) → Text.trim value = [])) ∧
    ∀ before behind, line.text = before ++ ';' :: behind →
      colorValues line = colorValues ⟨before, line.start⟩ ++
        colorValues ⟨behind, Slice.advance (Text.byteLength before + 1) line.start⟩ := by
  rcases line with ⟨text, start⟩
  refine ⟨exists_captures text, ?_, map_text_colorValues _, ?_, ?_, ?_⟩
  · intro values hvalues
    exact (hvalues.map_trim start).symm
  · intro hpiece
    rw [← List.length_map Slice.text, colorValues, text_scanColors_of_not_mem hpiece]
    cases pieceValue? text with
    | none => exact Nat.zero_le 1
    | some value => exact Nat.le_refl 1
  · rintro name value rfl hname hclean hvalue
    refine ⟨map_text_colorValues_of_label hname hclean hvalue start, fun hblank => ?_⟩
    have htrim := Text.trim_append_of_all_blank hblank []
    rwa [List.append_nil] at htrim
  · rintro before behind rfl
    exact scanColors_append start 0 before behind (Nat.zero_le _)

/-- A value with a label in it, and a blank value in front of a label without one. -/
theorem colorValues_piecewise_on_border :
    ':' ∉ "border-".toList ∧ ';' ∉ "border-".toList ∧ ';' ∉ " a color: b".toList ∧
      (colorValues ⟨"border-color: a color: b".toList, some 3⟩).map Slice.text =
        ["a color: b".toList] ∧
      (∃ values, Captures "color:  ;color:".toList values ∧ [[]] = values.map Text.trim) ∧
      colorValues ⟨"color:  ;color:".toList, some 0⟩ =
        colorValues ⟨"color:  ".toList, some 0⟩ ++ colorValues ⟨"color:".toList, some 9⟩ := by
  have hname : ':' ∉ "border-".toList ∧ ';' ∉ "border-".toList ∧ ';' ∉ " a color: b".toList := by
    decide
  rcases colorValues_piecewise ⟨"border-color: a color: b".toList, some 3⟩ with
    ⟨-, -, -, -, hlabel, -⟩
  rcases colorValues_piecewise ⟨"color:  ;color:".toList, some 0⟩ with
    ⟨⟨values, hvalues⟩, htrim, -, -, -, happend⟩
  exact ⟨hname.1, hname.2.1, hname.2.2,
    (hlabel "border-".toList " a color: b".toList rfl hname.1 hname.2.1 hname.2.2).1,
    ⟨values, hvalues, htrim values hvalues⟩, happend "color:  ".toList "color:".toList rfl⟩

end Declaration

end SheetLint
