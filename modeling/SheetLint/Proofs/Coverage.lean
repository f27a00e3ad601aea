import SheetLint.Proofs.BlockSpelling
import SheetLint.Proofs.Location

/-!
# What is always reported

The two rules about selectors pull in opposite directions: a selector that follows the naming
convention is too short to reach the specificity that is asked for.  So every selector is
reported by one of them, and a stylesheet with a selector is never without issues.

Main results:

- Theorem `ColorName.isDescriptive_of_isHexColor` says that no numeric color holds a
  descriptive word.
- Definitions `Line.IsOrdered` and `Line.HasNoHexColor` say when the rules about lines find
  nothing on a line.
- Theorem `Selector.exists_finding` says that one of the rules about selectors finds fault
  with every selector.
- Theorem `Analysis.every_selector_reported` describes the issues about selectors and the
  stylesheets without any issue.
-/

namespace SheetLint

/-! ## Numeric colors -/

namespace ColorName

/-- Every descriptive word has a letter that is no hexadecimal digit. -/
theorem all_isHexDigit_of_mem_descriptiveTokens :
    ∀ token ∈ descriptiveTokens, token.toList.all isHexDigit = false := by
  decide

/-- A numeric color is never descriptive. -/
theorem isDescriptive_of_isHexColor {value : List Char} (hhex : isHexColor value = true) :
    isDescriptive value = false := by
  cases value with
  | nil => cases hhex
  | cons c digits =>
    simp only [isHexColor, Bool.and_eq_true, decide_eq_true_eq] at hhex
    rcases hhex with ⟨⟨rfl, -⟩, hdigits⟩
    rw [Bool.eq_false_iff]
    intro hdescriptive
    rcases List.any_eq_true.mp hdescriptive with ⟨token, htoken, hoccurs⟩
    rw [List.erase_cons_head, occursIn_iff_infix] at hoccurs
    have hall : token.toList.all isHexDigit = true := by
      rw [List.all_eq_true]
      intro c hc
      exact List.all_eq_true.mp hdigits c (hoccurs.subset hc)
    rw [all_isHexDigit_of_mem_descriptiveTokens token htoken] at hall
    cases hall

end ColorName

/-! ## Lines without findings -/

namespace Line

/-- A line is ordered when it begins with a closing brace or no two neighbouring declarations on
it are misordered. -/
def IsOrdered (l : Line) : Prop :=
  l.slice.text.head? = some '}' ∨
    ∀ pair ∈ PropertyOrder.neighbours (Declaration.propertyNames l.slice),
      PropertyOrder.isMisordered pair.1.text pair.2.text = false

/-- No color on a line is a numeric one. -/
def HasNoHexColor (l : Line) : Prop :=
  ∀ value ∈ Declaration.colorValues l.slice, ColorName.isHexColor value.text = false

theorem orderFindings_eq_nil_iff (l : Line) : l.orderFindings = [] ↔ l.IsOrdered := by
  unfold orderFindings IsOrdered
  by_cases hbrace : l.slice.text.head? = some '}'
  · simp [hbrace]
  · simp [hbrace, List.filterMap_eq_nil_iff]

theorem colorFindings_eq_nil_iff (l : Line) : l.colorFindings = [] ↔ l.HasNoHexColor := by
  unfold colorFindings HasNoHexColor
  rw [List.filterMap_eq_nil_iff]
  refine forall₂_congr fun value _ => ?_
  cases hhex : ColorName.isHexColor value.text with
  | false => simp
  | true => simp [ColorName.isDescriptive_of_isHexColor hhex]

end Line

/-! ## Selectors -/

namespace Selector

/-- A selector that follows the naming convention is low. -/
theorem isLow_of_isValid {text : List Char} (hvalid : BlockName.isValid text = true) :
    (Specificity.ofText text).isLow = true := by
  rcases BlockName.exists_spell_of_isValid hvalid with ⟨n, hn, rfl⟩
  exact BlockName.isLow_spell hn

/-- One of the rules about selectors finds fault with every selector. -/
theorem exists_finding {document : List Char} {s : Selector}
    (hs : s ∈ (Stylesheet.ofText document).selectors) :
    ∃ rule f, (rule = Rule.selectorNaming ∨ rule = Rule.lowSpecificity) ∧
      f ∈ rule.findings (Stylesheet.ofText document) ∧ f.line = s.ordinal ∧ f.slice = s.slice := by
  cases hvalid : BlockName.isValid s.slice.text with
  | false =>
    have hfound : s.namingFinding? = some (.invalidSelector s) := by simp [namingFinding?, hvalid]
    exact ⟨.selectorNaming, _, Or.inl rfl, List.mem_filterMap.mpr ⟨s, hs, hfound⟩, rfl, rfl⟩
  | true =>
    have hfound : s.specificityFinding? =
        some (.lowSpecificity s (Specificity.ofText s.slice.text).score) := by
      simp [specificityFinding?, isLow_of_isValid hvalid]
    exact ⟨.lowSpecificity, _, Or.inr rfl, List.mem_filterMap.mpr ⟨s, hs, hfound⟩, rfl, rfl⟩

end Selector

/-! ## Analyses -/

namespace Analysis

variable {text : List Char}

theorem issues_ofText (text : List Char) :
    (ofText text).issues = Rule.all.flatMap fun rule => rule.check (Stylesheet.ofText text) := by
  rw [ofText, Config.run_issues, Config.reported_initial]

/-- Whatever a rule finds is an issue of the default analysis. -/
theorem mem_issues_of_mem_findings {rule : Rule} {f : Finding}
    (hf : f ∈ rule.findings (Stylesheet.ofText text)) : f.toIssue ∈ (ofText text).issues := by
  rw [issues_ofText, List.mem_flatMap]
  exact ⟨rule, Rule.mem_all rule, List.mem_map_of_mem hf⟩

theorem issues_eq_nil_iff :
    (ofText text).issues = [] ↔ ∀ rule : Rule, rule.findings (Stylesheet.ofText text) = [] := by
  rw [issues_ofText, List.flatMap_eq_nil_iff]
  constructor
  · intro hnone rule
    exact List.map_eq_nil_iff.mp (hnone rule (Rule.mem_all rule))
  · intro hnone rule _
    exact List.map_eq_nil_iff.mpr (hnone rule)

/-- A stylesheet has no selector when every opening brace in it begins the text or stands behind
another one. -/
theorem selectors_eq_nil_iff :
    (Stylesheet.ofText text).selectors = [] ↔
      ∀ pair ∈ text.zip text.tail, pair.2 = '{' → pair.1 = '{' := by
  rw [← List.length_eq_zero_iff, Stylesheet.length_selectors, List.countP_eq_zero]
  refine forall₂_congr fun pair _ => ?_
  rw [decide_eq_true_eq, not_and', Decidable.not_not]

/-- Nothing is found exactly if there are no selectors, no misordered declarations and no numeric
colors. -/
theorem issues_eq_nil_iff_clean :
    (ofText text).issues = [] ↔
      (Stylesheet.ofText text).selectors = [] ∧
        ∀ l ∈ (Stylesheet.ofText text).lines, l.IsOrdered ∧ l.HasNoHexColor := by
  rw [issues_eq_nil_iff]
  constructor
  · intro hnone
    constructor
    · rw [List.eq_nil_iff_forall_not_mem]
      intro s hs
      rcases Selector.exists_finding hs with ⟨rule, f, _, hf, _, _⟩
      rw [hnone rule] at hf
      cases hf
    · intro l hl
      have horder := List.flatMap_eq_nil_iff.mp (hnone .propertyOrder) l hl
      have hcolor := List.flatMap_eq_nil_iff.mp (hnone .colorNaming) l hl
      exact ⟨l.orderFindings_eq_nil_iff.mp horder, l.colorFindings_eq_nil_iff.mp hcolor⟩
  · rintro ⟨hselectors, hlines⟩ rule
    cases rule with
    | selectorNaming => rw [Rule.findings, hselectors, List.filterMap_nil]
    | lowSpecificity => rw [Rule.findings, hselectors, List.filterMap_nil]
    | propertyOrder =>
      rw [Rule.findings, List.flatMap_eq_nil_iff]
      intro l hl
      exact l.orderFindings_eq_nil_iff.mpr (hlines l hl).1
    | colorNaming =>
      rw [Rule.findings, List.flatMap_eq_nil_iff]
      intro l hl
      exact l.colorFindings_eq_nil_iff.mpr (hlines l hl).2

theorem isSuccess_feedback_iff (a : Analysis) : a.feedback.isSuccess = true ↔ a.issues = [] := by
  rw [Feedback.isSuccess_iff, feedback, findings, List.map_eq_nil_iff]

/-- A selector that follows the naming convention is spelled from one to three words, counts as
so many words and nothing else, and so is low.  Therefore each selector of a stylesheet has an
issue under its ordinal from one of the rules about selectors, and the feedback is a success
only for a stylesheet without selectors, misordered declarations and numeric colors. -/
theorem every_selector_reported (text : List Char) :
    (∀ selector : List Char, BlockName.isValid selector = true →
      ∃ n : BlockName, n.WellFormed ∧ n.spell = selector ∧
        (n.parts.length = 1 ∨ n.parts.length = 2 ∨ n.parts.length = 3) ∧
        Specificity.ofText selector = ⟨0, 0, n.parts.length⟩ ∧
        (Specificity.ofText selector).isLow = true) ∧
    (∀ s ∈ (Stylesheet.ofText text).selectors, ∃ issue ∈ (ofText text).issues,
      (issue.ruleId = Rule.selectorNaming.id ∨ issue.ruleId = Rule.lowSpecificity.id) ∧
        ∃ l, issue.location = some l ∧ l.line = s.ordinal ∧ l.span = s.slice.text) ∧
    ((ofText text).feedback.isSuccess = true ↔
      (∀ pair ∈ text.zip text.tail, pair.2 = '{' → pair.1 = '{') ∧
        ∀ l ∈ (Stylesheet.ofText text).lines, l.IsOrdered ∧ l.HasNoHexColor) := by
  refine ⟨fun selector hvalid => ?_, fun s hs => ?_, ?_⟩
  · rcases BlockName.exists_spell_of_isValid hvalid with ⟨n, hn, rfl⟩
    exact ⟨n, hn, rfl, n.length_parts, BlockName.ofText_spell hn, BlockName.isLow_spell hn⟩
  · rcases Selector.exists_finding hs with ⟨rule, f, hrule, hf, hline, hslice⟩
    rcases Finding.location_of_selector hs hline hslice with ⟨l, hlocation, _⟩
    refine ⟨f.toIssue, mem_issues_of_mem_findings hf, ?_, l, hlocation, ?_⟩
    · have hid : f.rule = rule := Rule.rule_of_mem_findings hf
      rcases hrule with h | h
      · exact Or.inl (by rw [Finding.toIssue_ruleId, hid, h])
      · exact Or.inr (by rw [Finding.toIssue_ruleId, hid, h])
    · rcases Option.map_eq_some_iff.mp hlocation with ⟨offset, _, rfl⟩
      exact ⟨hline, congrArg Slice.text hslice⟩
  · rw [isSuccess_feedback_iff, issues_eq_nil_iff_clean, selectors_eq_nil_iff]

end Analysis

end SheetLint
