import SheetLint.Proofs.ScoreRange
import SheetLint.Proofs.SyntheticBlocks

/-!
# What is reported for synthetic stylesheets

The selectors of a synthetic stylesheet carry the blocks in front of them.  So the selector of a
tidy block is reported in all blocks but the first one, and its score is just one below the
threshold; that of a faulty block is never low.

Main results:

- Theorem `Synthetic.ofText_quoted_simple` counts the words that are quoted of a tidy block, and
  `Synthetic.isLow_quoted_withIssues` says that no faulty block is low.
- Theorem `Synthetic.headlines_simple` gives everything that is reported for tidy blocks, and
  `Synthetic.headlines_withIssues` for faulty ones.
-/

namespace SheetLint.Sample.Synthetic

open Numeral (lowerHex)

/-- Everything that is reported for a synthetic stylesheet. -/
def issues (s : Synthetic) : List Issue :=
  (Analysis.ofText (text s).toList).issues

/-! ## Tidy blocks -/

/-- A tidy block is carried up to the block name of the next one. -/
theorem quoted_simple_spell (i : Nat) :
    quoted .simple (i + 1) =
      "position: relative;\n  display: block;\n  padding: ".toList ++
        ((toString i).toList ++ ("px;\n\x7d\n\n".toList ++ (card (i + 1)).spell)) := by
  rw [quoted_simple_succ, spell_card]
  simp

/-- A digit is no letter, and no mark of an id or a class. -/
theorem ofText_toString (n : Nat) : Specificity.ofText (toString n).toList = ⟨0, 0, 0⟩ := by
  have hdigits : ∀ c ∈ (toString n).toList, c.isDigit = true := fun c =>
    Numeral.isDigit_of_mem_toString
  rw [Specificity.ofText_eq_zero_iff]
  refine ⟨Text.not_mem_of_kind hdigits rfl, Text.not_mem_of_kind hdigits rfl, fun c hc => ?_⟩
  have hdigit : 48 ≤ c.toNat ∧ c.toNat ≤ 57 := Char.isDigit_iff_toNat.mp (hdigits c hc)
  rw [← Bool.not_eq_true, Specificity.isAlpha_iff]
  omega

/-- What is carried has six words, and the block name three. -/
theorem ofText_quoted_simple (i : Nat) :
    Specificity.ofText (quoted .simple i) = ⟨0, 0, if i = 0 then 3 else 9⟩ := by
  cases i with
  | zero => rfl
  | succ i =>
    have hcard := BlockName.ofText_spell (card_wellFormed (i + 1))
    have hback : Specificity.ofText ("px;\n\x7d\n\n".toList ++ (card (i + 1)).spell) =
        ⟨0, 0, 4⟩ := by
      rw [Specificity.ofText_append_of_ends (by decide), hcard]
      rfl
    rw [quoted_simple_spell, Specificity.ofText_append_of_ends (by decide),
      Specificity.ofText_append_right (ofText_toString i), hback]
    rfl

theorem isSilentAbout_tidy {rule : Rule} (hlines : ¬ rule.IsAboutSelectors) (i : Nat) :
    ∀ line ∈ (tidy i).statements, rule.IsSilentAbout line := by
  have hposition : ¬ Declaration.colorWord <:+ "position".toList := by decide
  have hdisplay : ¬ Declaration.colorWord <:+ "display".toList := by decide
  have hpadding : ¬ Declaration.colorWord <:+ "padding".toList := by decide
  rw [statements_tidy_eq, List.forall_mem_cons, List.forall_mem_cons, List.forall_mem_singleton]
  exact ⟨Declared.isSilentAbout_singleton hlines isPlain_position hposition,
    Declared.isSilentAbout_singleton hlines isPlain_display hdisplay,
    Declared.isSilentAbout_singleton hlines (isPlain_padding i) hpadding⟩

theorem headlines_naming_simple (n : Nat) :
    ((List.range n).flatMap fun i => Rule.selectorNaming.headlines (i + 1) (quoted .simple i)) =
      (List.range (n - 1)).map fun i => .invalidSelector (i + 2) (quoted .simple (i + 1)) := by
  have hvalid : BlockName.isValid (quoted .simple 0) = true := by decide
  have hfirst : Rule.selectorNaming.headlines 1 (quoted .simple 0) = [] := by
    rw [Rule.headlines, if_pos hvalid]
  have hlater (i : Nat) : Rule.selectorNaming.headlines (i + 2) (quoted .simple (i + 1)) =
      [.invalidSelector (i + 2) (quoted .simple (i + 1))] := by
    refine Rule.headlines_naming_of_mem (c := ':') ?_ (by decide) (by decide) (by decide) _
    rw [quoted_simple_spell]
    exact List.mem_append_left _ (by decide)
  cases n with
  | zero => rfl
  | succ n =>
    rw [List.range_succ_eq_map, List.flatMap_cons, hfirst, List.nil_append, List.flatMap_map,
      Nat.add_sub_cancel, List.map_eq_flatMap]
    exact congrArg (List.range n).flatMap (funext hlater)

theorem headlines_specificity_simple (n : Nat) :
    ((List.range n).flatMap fun i => Rule.lowSpecificity.headlines (i + 1) (quoted .simple i)) =
      (List.range n).map fun i =>
        .lowSpecificity (i + 1) (quoted .simple i) (if i = 0 then 3 else 9) := by
  have hlow (i : Nat) : Rule.lowSpecificity.headlines (i + 1) (quoted .simple i) =
      [.lowSpecificity (i + 1) (quoted .simple i) (if i = 0 then 3 else 9)] := by
    simp only [Rule.headlines, ofText_quoted_simple]
    split
    next => rfl
    next => rfl
  rw [List.map_eq_flatMap]
  exact congrArg (List.range n).flatMap (funext hlow)

/-- Of so many tidy blocks, the selectors of all but the first one are reported for their names,
as each carries the declarations of the block in front of it, and then those of all for their low
specificity, which is 3 for the first one and 9 for the others.  Nothing else is reported. -/
theorem headlines_simple (n : Nat) :
    (issues ⟨.simple, n⟩).map Issue.headline =
        ((List.range (n - 1)).map fun i =>
          .invalidSelector (i + 2) (quoted .simple (i + 1))) ++
        ((List.range n).map fun i =>
          .lowSpecificity (i + 1) (quoted .simple i) (if i = 0 then 3 else 9)) ∧
      (issues ⟨.simple, n⟩).length = 2 * n - 1 := by
  have hheadlines : (issues ⟨.simple, n⟩).map Issue.headline =
      ((List.range (n - 1)).map fun i =>
        .invalidSelector (i + 2) (quoted .simple (i + 1))) ++
      ((List.range n).map fun i =>
        .lowSpecificity (i + 1) (quoted .simple i) (if i = 0 then 3 else 9)) := by
    have hsheet : (text ⟨.simple, n⟩).toList = Block.sheet tidy n := toList_text ⟨.simple, n⟩
    have hsize (i : Nat) : (tidy i).lines.length = 3 := rfl
    have hquoted (i : Nat) : Block.quoted tidy i = quoted .simple i := quoted_blockOf .simple i
    have hlines {rule : Rule} (hrule : ¬ rule.IsAboutSelectors) (i : Nat) :=
      Rule.flatten_mapIdx_of_silent (isSilentAbout_tidy hrule i) fun j => (3 + 3) * i + j + 2
    have horder : ¬ Rule.propertyOrder.IsAboutSelectors := id
    have hcolor : ¬ Rule.colorNaming.IsAboutSelectors := id
    have hnone : ((List.range n).flatMap fun _ => ([] : List Headline)) = [] := by simp
    simp only [issues, hsheet, Block.map_headline_issues_sheet hsize, hquoted, hlines horder,
      hlines hcolor, hnone, headlines_naming_simple, headlines_specificity_simple, List.append_nil]
  refine ⟨hheadlines, ?_⟩
  rw [← List.length_map Issue.headline, hheadlines, List.length_append, List.length_map,
    List.length_map, List.length_range, List.length_range]
  omega

/-! ## Faulty blocks -/

/-- A number of a 64-bit machine has twenty digits at most. -/
theorem length_toString_le {n : Nat} (hn : n ≤ 2 ^ 64) : (toString n).toList.length ≤ 20 := by
  rw [Nat.toString_eq_ofList_toDigits, String.toList_ofList,
    Nat.length_toDigits_le_iff (by decide) (by decide)]
  exact Nat.lt_of_le_of_lt hn (by decide)

theorem length_lowerHex_le {n : Nat} (hn : n < 2 ^ 64) : (lowerHex 6 n).length ≤ 16 := by
  have hdigits : (Nat.toDigits 16 n).length ≤ 16 := by
    rw [Nat.length_toDigits_le_iff (by decide) (by decide)]
    exact Nat.lt_of_lt_of_le hn (by decide)
  rw [Numeral.length_lowerHex]
  omega

theorem mark_mem_quoted_withIssues (i : Nat) : '#' ∈ quoted .withIssues i := by
  cases i with
  | zero => decide
  | succ i =>
    have hmem : '#' ∈ "display: block;\n  color: #".toList := by decide
    exact List.mem_append_left _ (List.mem_append_left _ (List.mem_append_left _
      (List.mem_append_left _ hmem)))

theorem length_quoted_withIssues_le {i : Nat} (hi : i < 2 ^ 64) :
    (quoted .withIssues i).length ≤ 100 := by
  cases i with
  | zero => decide
  | succ i =>
    have hfront : "display: block;\n  color: #".toList.length = 26 := rfl
    have hmiddle : "; margin: 0;\n\x7d\n\n#item-".toList.length = 22 := rfl
    have hback : " .title".toList.length = 7 := rfl
    have hhex := length_lowerHex_le (Nat.lt_of_succ_lt hi)
    have hdecimal := length_toString_le (Nat.le_of_lt hi)
    rw [quoted_withIssues_succ]
    simp only [List.length_append, hfront, hmiddle, hback]
    omega

/-- A selector with an id in it is not low, however much it carries. -/
theorem isLow_quoted_withIssues {i : Nat} (hi : i < 2 ^ 64) :
    (Specificity.ofText (quoted .withIssues i)).isLow = false := by
  have hids : 0 < (Specificity.ofText (quoted .withIssues i)).ids :=
    List.count_pos_iff.mpr (mark_mem_quoted_withIssues i)
  have hweight := Specificity.weight_le_byteLength (quoted .withIssues i)
  have hbytes := Specificity.byteLength_le_length (quoted .withIssues i)
  have hlength := length_quoted_withIssues_le hi
  rw [← Bool.not_eq_true, Specificity.isLow_iff (by omega), Specificity.weight]
  omega

theorem isSolid_hex (i : Nat) : Text.IsSolid ('#' :: lowerHex 6 i) := by
  refine .of_forall (List.cons_ne_nil _ _) ?_
  have hdigits : ∀ digit < 16, Text.isBlank (Numeral.hexDigit digit) = false := by decide
  rw [List.forall_mem_cons]
  refine ⟨by decide, fun c hc => ?_⟩
  rcases Numeral.exists_hexDigit_of_mem_lowerHex hc with ⟨digit, hdigit, rfl⟩
  exact hdigits digit hdigit

/-- Six hexadecimal digits are enough for the numbers below the sixth power of 16. -/
theorem length_hex_eq_iff (i : Nat) : (lowerHex 6 i).length = 6 ↔ i < 2 ^ 24 :=
  Numeral.length_lowerHex_eq_iff (by decide) i

theorem isLiteral_hex (i : Nat) : ColorName.IsLiteral ('#' :: lowerHex 6 i) ↔ i < 2 ^ 24 := by
  have hlength := Numeral.length_lowerHex 6 i
  rw [← length_hex_eq_iff]
  constructor
  · rintro ⟨_, hdigits, hcount, -⟩
    cases hdigits
    omega
  · intro hcount
    exact ⟨_, rfl, Or.inr hcount, fun c hc =>
      ColorName.isHexDigit_iff_mem.mp (Numeral.isHexDigit_of_mem_lowerHex hc)⟩

/-- The rules about lines speak of the second line of declarations only. -/
theorem headlines_lines_faulty {rule : Rule} (hlines : ¬ rule.IsAboutSelectors) (i : Nat) :
    ((faulty i).statements.mapIdx fun j line =>
        rule.headlines ((2 + 3) * i + j + 2) line).flatten =
      rule.headlines (5 * i + 3) (Declared.renderBare [color i, margin]) := by
  have hdisplay : ¬ Declaration.colorWord <:+ "display".toList := by decide
  rw [statements_faulty_eq, List.mapIdx_cons, List.mapIdx_singleton, List.flatten_cons,
    List.flatten_singleton, Declared.isSilentAbout_singleton hlines isPlain_display hdisplay]
  rfl

theorem isPlain_second_line (i : Nat) : ∀ d ∈ [color i, margin], d.IsPlain := by
  rw [List.forall_mem_cons, List.forall_mem_singleton]
  exact ⟨isPlain_color i, isPlain_margin⟩

theorem headlines_order_faulty (i : Nat) :
    Rule.propertyOrder.headlines (5 * i + 3) (Declared.renderBare [color i, margin]) =
      [.misordered (5 * i + 3) "margin".toList "color".toList] := by
  have hnames : [color i, margin].map Declared.name = ["color".toList, "margin".toList] := rfl
  have hadvice : PropertyOrder.advice ["color".toList, "margin".toList] =
      [("margin".toList, "color".toList)] := by decide
  rw [Declared.headlines_propertyOrder (List.cons_ne_nil _ _) (isPlain_second_line i), hnames,
    hadvice]
  rfl

theorem colors_faulty (i : Nat) :
    [color i, margin].filterMap Declared.color? = ['#' :: lowerHex 6 i] := by
  have hword : Declaration.colorWord <:+ "color".toList := by decide
  have hcolor : (color i).color? = some (Text.trim ('#' :: lowerHex 6 i)) := if_pos hword
  have hmargin : margin.color? = none := by decide
  rw [List.filterMap_cons, hcolor, List.filterMap_cons, hmargin, (isSolid_hex i).trim_self]
  rfl

theorem headlines_color_faulty (i : Nat) :
    Rule.colorNaming.headlines (5 * i + 3) (Declared.renderBare [color i, margin]) =
      if i < 2 ^ 24 then [.unnamedColor (5 * i + 3) ('#' :: lowerHex 6 i)] else [] := by
  rw [Declared.headlines_colorNaming (isPlain_second_line i), colors_faulty]
  by_cases hsmall : i < 2 ^ 24
  · rw [if_pos hsmall, List.filter_cons_of_pos (by simpa using (isLiteral_hex i).mpr hsmall)]
    rfl
  · rw [if_neg hsmall, List.filter_cons_of_neg (by simpa using mt (isLiteral_hex i).mp hsmall)]
    rfl

/-- What there is for each number below a bound is found once for each of them. -/
theorem flatMap_range_of_lt {α : Type} (item : Nat → α) (n bound : Nat) :
    ((List.range n).flatMap fun i => if i < bound then [item i] else []) =
      (List.range (min n bound)).map item := by
  induction n with
  | zero => rw [Nat.zero_min]; rfl
  | succ n ih =>
    rw [List.range_succ, List.flatMap_append, List.flatMap_singleton, ih]
    by_cases hlt : n < bound
    · rw [if_pos hlt, Nat.min_eq_left (Nat.le_of_lt hlt), Nat.min_eq_left hlt, List.range_succ,
        List.map_append, List.map_singleton]
    · have hle : bound ≤ n := Nat.le_of_not_lt hlt
      rw [if_neg hlt, Nat.min_eq_right hle, Nat.min_eq_right (Nat.le_succ_of_le hle),
        List.append_nil]

/-- Of so many faulty blocks, the selectors of all are reported for their names and none for its
specificity; then the order on the second line of declarations of each block, and then the color
on this line, which is the number of the block in six hexadecimal digits, as long as six are
enough.  Nothing else is reported.  The number of blocks is one of a 64-bit machine. -/
theorem headlines_withIssues {n : Nat} (hn : n < 2 ^ 64) :
    (issues ⟨.withIssues, n⟩).map Issue.headline =
        ((List.range n).map fun i => .invalidSelector (i + 1) (quoted .withIssues i)) ++
        ((List.range n).map fun i => .misordered (5 * i + 3) "margin".toList "color".toList) ++
        ((List.range (min n (2 ^ 24))).map fun i =>
          .unnamedColor (5 * i + 3) ('#' :: lowerHex 6 i)) ∧
      (issues ⟨.withIssues, n⟩).length = 2 * n + min n (2 ^ 24) ∧
      (∀ i, lowerHex 6 i = (Nat.toDigits 16 i).leftpad 6 '0') ∧
      (∀ i, if i < 2 ^ 24 then (lowerHex 6 i).length = 6 else 6 < (lowerHex 6 i).length) := by
  have hheadlines : (issues ⟨.withIssues, n⟩).map Issue.headline =
      ((List.range n).map fun i => .invalidSelector (i + 1) (quoted .withIssues i)) ++
      ((List.range n).map fun i => .misordered (5 * i + 3) "margin".toList "color".toList) ++
      ((List.range (min n (2 ^ 24))).map fun i =>
        .unnamedColor (5 * i + 3) ('#' :: lowerHex 6 i)) := by
    have hsheet : (text ⟨.withIssues, n⟩).toList = Block.sheet faulty n :=
      toList_text ⟨.withIssues, n⟩
    have hsize (i : Nat) : (faulty i).lines.length = 2 := rfl
    have hquoted (i : Nat) : Block.quoted faulty i = quoted .withIssues i :=
      quoted_blockOf .withIssues i
    have hnaming (i : Nat) : Rule.selectorNaming.headlines (i + 1) (quoted .withIssues i) =
        [.invalidSelector (i + 1) (quoted .withIssues i)] :=
      Rule.headlines_naming_of_mem (mark_mem_quoted_withIssues i) (by decide) (by decide)
        (by decide) _
    have hspecificity : ((List.range n).flatMap fun i =>
        Rule.lowSpecificity.headlines (i + 1) (quoted .withIssues i)) = [] := by
      rw [List.flatMap_eq_nil_iff]
      intro i hi
      have hnot := isLow_quoted_withIssues (Nat.lt_trans (List.mem_range.mp hi) hn)
      rw [Rule.headlines, hnot]
      rfl
    have horder : ¬ Rule.propertyOrder.IsAboutSelectors := id
    have hcolor : ¬ Rule.colorNaming.IsAboutSelectors := id
    simp only [issues, hsheet, Block.map_headline_issues_sheet hsize, hquoted, hnaming,
      hspecificity, headlines_lines_faulty horder, headlines_lines_faulty hcolor,
      headlines_order_faulty, headlines_color_faulty, flatMap_range_of_lt, List.append_nil,
      ← List.map_eq_flatMap]
  refine ⟨hheadlines, ?_, Numeral.lowerHex_eq 6, fun i => ?_⟩
  · rw [← List.length_map Issue.headline, hheadlines]
    simp only [List.length_append, List.length_map, List.length_range]
    omega
  · have hlength := Numeral.length_lowerHex 6 i
    split
    next hsmall => exact (length_hex_eq_iff i).mpr hsmall
    next hlarge =>
      have hnot := mt (length_hex_eq_iff i).mp hlarge
      omega

/-- With one more block than six digits can number, the last color is that of the block before. -/
theorem headlines_withIssues_of_many :
    2 ^ 24 + 1 < 2 ^ 64 ∧ (issues ⟨.withIssues, 2 ^ 24 + 1⟩).length = 50331650 ∧
      ((issues ⟨.withIssues, 2 ^ 24 + 1⟩).map Issue.headline).getLast? =
        some (.unnamedColor 83886078 "#ffffff".toList) := by
  have hn : 2 ^ 24 + 1 < 2 ^ 64 := by decide
  have hmin : min (2 ^ 24 + 1) (2 ^ 24) = 16777216 := by decide
  have hrange : List.range 16777216 = List.range 16777215 ++ [16777215] := List.range_succ
  have hhex : '#' :: lowerHex 6 16777215 = "#ffffff".toList := by decide
  rcases headlines_withIssues hn with ⟨hheadlines, hlength, -, -⟩
  refine ⟨hn, hlength, ?_⟩
  rw [hheadlines, hmin, hrange, List.map_append, List.map_singleton, ← List.append_assoc,
    List.getLast?_concat, hhex]

end SheetLint.Sample.Synthetic
