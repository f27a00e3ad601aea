import Mathlib.Algebra.GroupWithZero.Nat
import SheetLint.Proofs.LineEnding

/-!
# Findings and lines of the displayed text

The displayed text puts one finding under the other.  A message quotes a selector as it
stands, and a selector may run over several lines; then its finding takes as many lines, and
the text cannot be cut back into findings.  What is quoted from a line never does this.

Main results:

- Definition `Text.breaks` counts the line breaks of a string, and `Finding.breaks_message`
  says that a message has those of the texts that it quotes.
- Theorem `Issue.breaks_message_of_mem_reported` says that these are the line breaks of the
  span of the issue, and that only selectors have any.
- Theorem `Text.splitOn_joined` cuts a joined text at its line breaks.
- Theorem `Analysis.lines_of_display` says how many lines are displayed, and when they are the
  findings.
-/

namespace SheetLint

namespace Text

/-! ## Counting line breaks -/

/-- The number of line breaks of a string. -/
def breaks (s : String) : Nat :=
  s.toList.count '\n'

theorem breaks_append (first second : String) :
    breaks (first ++ second) = breaks first + breaks second := by
  rw [breaks, String.toList_append, List.count_append]
  rfl

theorem breaks_of_not_mem {s : String} (hs : '\n' ∉ s.toList) : breaks s = 0 :=
  List.count_eq_zero.mpr hs

theorem breaks_ofList (text : List Char) : breaks (String.ofList text) = text.count '\n' := by
  rw [breaks, String.toList_ofList]

theorem breaks_toString_nat (n : Nat) : breaks (toString n) = 0 :=
  breaks_of_not_mem (not_mem_toString_nat n)

theorem breaks_toString_int (i : Int) : breaks (toString i) = 0 := by
  cases i with
  | ofNat n => exact breaks_toString_nat n
  | negSucc n =>
    have hsign : toString (Int.negSucc n) = "-" ++ toString (n + 1) := rfl
    rw [hsign, breaks_append, breaks_toString_nat]
    rfl

/-! ## Cutting joined texts -/

theorem map_text_split_detached (text : List Char) :
    ((Slice.detached text).split '\n').map Slice.text = text.splitOn '\n' :=
  Slice.map_text_split '\n' (Slice.detached text)

theorem length_splitOn (text : List Char) : (text.splitOn '\n').length = text.count '\n' + 1 := by
  rw [← map_text_split_detached, List.length_map, Slice.length_split]
  rfl

theorem not_mem_of_mem_splitOn {text piece : List Char} (hpiece : piece ∈ text.splitOn '\n') :
    '\n' ∉ piece := by
  rw [← map_text_split_detached] at hpiece
  rcases List.mem_map.mp hpiece with ⟨part, hpart, rfl⟩
  exact Slice.not_mem_of_mem_splitFrom List.not_mem_nil hpart

/-- Joined texts are cut where they were joined and at their own line breaks. -/
theorem splitOn_joined {texts : List String} (htexts : texts ≠ []) :
    (String.intercalate "\n" texts).toList.splitOn '\n' =
      texts.flatMap fun s => s.toList.splitOn '\n' := by
  induction texts with
  | nil => exact absurd rfl htexts
  | cons first rest ih =>
    cases rest with
    | nil => simp
    | cons second rest =>
      have hjoined : (String.intercalate "\n" (first :: second :: rest)).toList =
          first.toList ++ '\n' :: (String.intercalate "\n" (second :: rest)).toList := by
        rw [String.intercalate_cons_cons, String.toList_append, String.toList_append,
          List.append_assoc]
        rfl
      rw [hjoined, List.splitOn_append_cons_self, ih (List.cons_ne_nil second rest)]
      rfl

theorem length_splitOn_joined {texts : List String} (htexts : texts ≠ []) :
    ((String.intercalate "\n" texts).toList.splitOn '\n').length =
      texts.length + (texts.map breaks).sum := by
  have hlength : (fun s : String => (s.toList.splitOn '\n').length) = fun s => breaks s + 1 :=
    funext fun s => length_splitOn s.toList
  rw [splitOn_joined htexts, List.length_flatMap, hlength]
  clear htexts hlength
  induction texts with
  | nil => rfl
  | cons first rest ih =>
    simp only [List.map_cons, List.sum_cons, List.length_cons, ih]
    omega

/-- Joined texts are cut into themselves exactly if none of them has a line break. -/
theorem splitOn_joined_eq_iff {texts : List String} (htexts : texts ≠ []) :
    ((String.intercalate "\n" texts).toList.splitOn '\n').map String.ofList = texts ↔
      ∀ s ∈ texts, '\n' ∉ s.toList := by
  constructor
  · intro h s hs
    rw [← h] at hs
    rcases List.mem_map.mp hs with ⟨piece, hpiece, rfl⟩
    rw [String.toList_ofList]
    exact not_mem_of_mem_splitOn hpiece
  · intro h
    have hclean : ∀ piece ∈ texts.map String.toList, '\n' ∉ piece := by
      intro piece hpiece
      rcases List.mem_map.mp hpiece with ⟨s, hs, rfl⟩
      exact h s hs
    have hbreak : ("\n" : String).toList = ['\n'] := rfl
    rw [String.toList_intercalate, hbreak,
      List.splitOn_intercalate '\n' hclean (mt List.map_eq_nil_iff.mp htexts), List.map_map]
    exact List.map_id'' (fun s => String.ofList_toList) texts

end Text

/-! ## Messages -/

namespace Finding

theorem breaks_messageBack (f : Finding) :
    Text.breaks f.messageBack = (f.quoted.map fun s => s.text.count '\n').sum := by
  have hquote (s : Slice) : Text.breaks s.toString = s.text.count '\n' :=
    Text.breaks_ofList s.text
  cases f with
  | invalidSelector selector =>
    have hback : (invalidSelector selector).messageBack =
        ": \"" ++ selector.slice.toString ++ "\"." := rfl
    simp (disch := decide) [hback, quoted, Text.breaks_append, hquote, Text.breaks_of_not_mem]
  | lowSpecificity selector score =>
    have hback : (lowSpecificity selector score).messageBack =
        ": \"" ++ selector.slice.toString ++ "\" has a specificity of " ++
          toString score.toInt ++ "." := rfl
    have hscore : Text.breaks (toString score.toInt) = 0 := Text.breaks_toString_int score.toInt
    rw [hback]
    simp (disch := decide) [-Int.toString_eq_repr, quoted, Text.breaks_append, hquote,
      Text.breaks_of_not_mem, hscore]
  | misordered line next current =>
    have hback : (misordered line next current).messageBack =
        ": The property \"" ++ next.toString ++ "\" should be declared before \"" ++
          current.toString ++ "\"." := rfl
    simp (disch := decide) [hback, quoted, Text.breaks_append, hquote, Text.breaks_of_not_mem]
  | unnamedColor line value =>
    have hback : (unnamedColor line value).messageBack =
        ": Hex color \"" ++ value.toString ++ "\" should have a descriptive name." := rfl
    simp (disch := decide) [hback, quoted, Text.breaks_append, hquote, Text.breaks_of_not_mem]

/-- A message has the line breaks of the texts that it quotes. -/
theorem breaks_message (f : Finding) :
    Text.breaks f.message = (f.quoted.map fun s => s.text.count '\n').sum := by
  have hfront : Text.breaks f.rule.messageFront = 0 := by
    cases f.rule <;> decide
  rw [message_eq, Text.breaks_append, Text.breaks_append, hfront, Text.breaks_toString_nat,
    breaks_messageBack, Nat.zero_add]

end Finding

/-! ## Quotations -/

namespace Line

variable {document : List Char} {l : Line} {f : Finding}

/-- A message about texts cut from a line has no line break. -/
theorem breaks_message_of_partOf (hl : l ∈ (Stylesheet.ofText document).lines)
    (hquoted : ∀ s ∈ f.quoted, s.PartOf l.slice) : Text.breaks f.message = 0 := by
  have hnone : ∀ n ∈ f.quoted.map fun s => s.text.count '\n', n = 0 := by
    intro n hn
    rcases List.mem_map.mp hn with ⟨s, hs, rfl⟩
    exact List.count_eq_zero.mpr (not_mem_of_partOf hl (hquoted s hs))
  rw [Finding.breaks_message, List.eq_replicate_iff.mpr ⟨rfl, hnone⟩, List.sum_replicate_nat,
    Nat.mul_zero]

end Line

namespace Rule

/-- The rule is about selectors and not about lines. -/
def IsAboutSelectors : Rule → Prop
  | .selectorNaming | .lowSpecificity => True
  | .propertyOrder | .colorNaming => False

variable {rule : Rule} {document : List Char} {f : Finding}

/-- A message has the line breaks of the text that it points at, and only a selector has
any. -/
theorem breaks_message_of_mem_findings (hf : f ∈ rule.findings (Stylesheet.ofText document)) :
    Text.breaks f.message = f.slice.text.count '\n' ∧
      ('\n' ∈ f.slice.text → rule.IsAboutSelectors) := by
  have hline {l : Line} (hl : l ∈ (Stylesheet.ofText document).lines)
      (hquoted : ∀ s ∈ f.quoted, s.PartOf l.slice) :
      Text.breaks f.message = f.slice.text.count '\n' ∧
        ('\n' ∈ f.slice.text → rule.IsAboutSelectors) := by
    have hclean : '\n' ∉ f.slice.text :=
      Line.not_mem_of_partOf hl (hquoted f.slice f.slice_mem_quoted)
    rw [Line.breaks_message_of_partOf hl hquoted, List.count_eq_zero.mpr hclean]
    exact ⟨rfl, fun hmem => absurd hmem hclean⟩
  have hone (hquoted : f.quoted = [f.slice]) :
      Text.breaks f.message = f.slice.text.count '\n' := by
    rw [Finding.breaks_message, hquoted]
    simp
  have hrule : f.rule = rule := rule_of_mem_findings hf
  cases rule with
  | selectorNaming =>
    cases f <;> cases hrule
    exact ⟨hone rfl, fun _ => trivial⟩
  | lowSpecificity =>
    cases f <;> cases hrule
    exact ⟨hone rfl, fun _ => trivial⟩
  | propertyOrder =>
    rcases List.mem_flatMap.mp hf with ⟨l, hl, hfound⟩
    exact hline hl (Line.subject_of_mem_orderFindings hfound).2.1
  | colorNaming =>
    rcases List.mem_flatMap.mp hf with ⟨l, hl, hfound⟩
    exact hline hl (Line.subject_of_mem_colorFindings hfound).2.1

end Rule

/-! ## Displayed text -/

namespace Issue

/-- The number of line breaks in the text that an issue points at. -/
def spanBreaks (issue : Issue) : Nat :=
  (issue.location.map fun l => l.span.count '\n').getD 0

/-- A reported message has the line breaks of the text that its issue points at, and only
selectors have any. -/
theorem breaks_message_of_mem_reported {c : Config} {document : List Char} {issue : Issue}
    (hissue : issue ∈ c.reported (Stylesheet.ofText document)) :
    Text.breaks issue.message = issue.spanBreaks ∧
      (issue.spanBreaks ≠ 0 → ∃ rule : Rule, rule.IsAboutSelectors ∧ issue.ruleId = rule.id) := by
  rcases Config.exists_rule_of_mem_reported hissue with ⟨rule, hcheck⟩
  rcases List.mem_map.mp hcheck with ⟨f, hf, rfl⟩
  rcases Rule.location_of_mem_findings hf with ⟨l, hlocation, -, -⟩
  rcases Rule.breaks_message_of_mem_findings hf with ⟨hbreaks, hselector⟩
  have hspan : f.toIssue.spanBreaks = f.slice.text.count '\n' := by
    rcases Option.map_eq_some_iff.mp hlocation with ⟨offset, hstart, -⟩
    simp [spanBreaks, Finding.toIssue, Finding.location, Location.ofSlice?, hstart]
  rw [hspan]
  refine ⟨hbreaks, fun hne => ⟨rule, hselector ?_, ?_⟩⟩
  · rw [← List.one_le_count_iff]
    omega
  · rw [Finding.toIssue_ruleId, Rule.rule_of_mem_findings hf]

end Issue

namespace Analysis

theorem display_of_hasIssues {a : Analysis} (hissues : a.hasIssues = true) :
    a.findings ≠ [] ∧ a.feedback.display = String.intercalate "\n" a.findings := by
  have hne : a.findings ≠ [] := by
    simpa [hasIssues, findings] using hissues
  refine ⟨hne, ?_⟩
  have hsuccess : ¬ a.feedback.isSuccess = true := by
    rw [Feedback.isSuccess_iff]
    exact hne
  rw [Feedback.display, if_neg hsuccess]
  rfl

theorem breaks_message_of_mem_issues {c : Config} {text : List Char} {issue : Issue}
    (hissue : issue ∈ (run c text).issues) :
    Text.breaks issue.message = issue.spanBreaks ∧
      (issue.spanBreaks ≠ 0 →
        ∃ rule : Rule, rule.IsAboutSelectors ∧ issue.ruleId = rule.id) := by
  rw [Config.run_issues] at hissue
  exact Issue.breaks_message_of_mem_reported hissue

theorem length_splitOn_display {c : Config} {text : List Char}
    (hissues : (run c text).hasIssues = true) :
    ((run c text).feedback.display.toList.splitOn '\n').length =
      (run c text).findings.length + ((run c text).issues.map Issue.spanBreaks).sum := by
  rcases display_of_hasIssues hissues with ⟨hne, hdisplay⟩
  have hbreaks : (run c text).findings.map Text.breaks =
      (run c text).issues.map Issue.spanBreaks := by
    rw [findings, List.map_map]
    exact List.map_congr_left fun issue hissue => (breaks_message_of_mem_issues hissue).1
  rw [hdisplay, Text.length_splitOn_joined hne, hbreaks]

/-- The displayed lines are the findings exactly if no issue points at a line break. -/
theorem splitOn_display_eq_iff {c : Config} {text : List Char}
    (hissues : (run c text).hasIssues = true) :
    ((run c text).feedback.display.toList.splitOn '\n').map String.ofList =
        (run c text).findings ↔
      ∀ issue ∈ (run c text).issues, issue.spanBreaks = 0 := by
  rcases display_of_hasIssues hissues with ⟨hne, hdisplay⟩
  rw [hdisplay, Text.splitOn_joined_eq_iff hne, findings, List.forall_mem_map]
  refine forall₂_congr fun issue hissue => ?_
  rw [← (breaks_message_of_mem_issues hissue).1]
  exact List.count_eq_zero.symm

/-- A valid configuration gives an analysis of every text.  If anything is reported, a line is
displayed for every finding, and one more for every line break in the text that an issue
points at, which only issues about selectors have.  The displayed lines are the findings exactly
if there is no such line break. -/
theorem lines_of_display (c : Config) (text : List Char) (hvalid : c.validate = .ok ()) :
    ∃ a, c.analyse text = .ok a ∧ (a.hasIssues = true →
      (a.feedback.display.toList.splitOn '\n').length =
        a.findings.length + (a.issues.map Issue.spanBreaks).sum ∧
      (∀ issue ∈ a.issues, issue.spanBreaks ≠ 0 →
        ∃ rule : Rule, rule.IsAboutSelectors ∧ issue.ruleId = rule.id) ∧
      ((a.feedback.display.toList.splitOn '\n').map String.ofList = a.findings ↔
        ∀ issue ∈ a.issues, issue.spanBreaks = 0)) := by
  refine ⟨run c text, by rw [Config.analyse, hvalid], fun hissues => ?_⟩
  exact ⟨length_splitOn_display hissues,
    fun issue hissue => (breaks_message_of_mem_issues hissue).2, splitOn_display_eq_iff hissues⟩

/-- A second selector begins with the closing brace of the first block, on a line of its own. -/
theorem lines_of_display_of_second_selector :
    let a := ofText "a \x7b\n\x7d\nb \x7b\n\x7d\n".toList
    Config.initial.validate = .ok () ∧ a.hasIssues = true ∧
      (a.feedback.display.toList.splitOn '\n').length = 3 + 2 := by
  intro a
  have hissues : a.hasIssues = true := by decide
  rcases lines_of_display Config.initial "a \x7b\n\x7d\nb \x7b\n\x7d\n".toList rfl with
    ⟨a', ha, hlines⟩
  obtain rfl : a = a' := Except.ok.inj ha
  refine ⟨rfl, hissues, (hlines hissues).1.trans ?_⟩
  decide

/-- So it is not the case that every finding is displayed on one line. -/
theorem not_one_line_per_finding :
    ¬ ∀ (c : Config) (text : List Char) (a : Analysis), c.analyse text = .ok a →
      a.hasIssues = true →
        (a.feedback.display.toList.splitOn '\n').map String.ofList = a.findings := by
  intro hall
  have hissues : (ofText "a \x7b\n\x7d\nb \x7b\n\x7d\n".toList).hasIssues = true := by
    decide
  have hlines := hall Config.initial "a \x7b\n\x7d\nb \x7b\n\x7d\n".toList _ rfl hissues
  have hnone := (splitOn_display_eq_iff hissues).mp hlines
  revert hnone
  decide

end Analysis

end SheetLint
