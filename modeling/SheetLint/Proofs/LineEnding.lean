import SheetLint.Proofs.CarriageReturn
import SheetLint.Proofs.Coverage
import SheetLint.Proofs.LineLocality

/-!
# Line endings

A stylesheet may end its lines with a line feed alone or with a carriage return in front of
it.  Converting the one into the other changes no finding but for the text that is quoted and
the places, which move on by one byte for each line break in front of them.

Main results:

- Definitions `Slice.crlf`, `Selector.crlf`, `Finding.crlf` and `Issue.crlf` convert what was
  found in a document.
- Theorem `Slice.trim_crlf` says that converting and trimming commute.
- Theorem `Stylesheet.selectors_crlf` gives the selectors of a converted document, and
  `Stylesheet.lines_crlf` its lines.
- Theorem `Rule.findings_crlf` says that every rule finds the converted findings, and
  `Analysis.commutes_with_crlf` that analysing commutes with converting.
-/

namespace SheetLint

/-! ## Converting slices -/

namespace Slice

/-- The slice with the converted text in the converted document. -/
def crlf (document : List Char) (s : Slice) : Slice :=
  ⟨Text.crlf s.text, s.start.map fun offset => offset + Text.breaksBefore document offset⟩

/-- A converted slice begins behind the converted text in front of it. -/
theorem crlf_of_append (before text after : List Char) :
    (⟨text, some (Text.byteLength before)⟩ : Slice).crlf (before ++ text ++ after) =
      ⟨Text.crlf text, some (Text.byteLength (Text.crlf before))⟩ := by
  rw [crlf, Option.map_some, List.append_assoc, Text.breaksBefore_append, Text.byteLength_crlf]

/-- Converting and trimming commute for the slices of a document. -/
theorem trim_crlf {document : List Char} {s : Slice} (hs : s.PartOf (whole document)) :
    (s.crlf document).trim = s.trim.crlf document := by
  rcases s with ⟨text, start⟩
  rcases partOf_whole_iff.mp hs with ⟨before, after, hdocument, hstart⟩
  dsimp only at hdocument hstart
  rcases Text.exists_eq_leadingBlanks_append text with ⟨behind, htext⟩
  have hinner : document =
      (before ++ Text.leadingBlanks text) ++ Text.trim text ++ (behind ++ after) := by
    calc document
        = before ++ (Text.leadingBlanks text ++ Text.trim text ++ behind) ++ after := by
          rw [← htext, hdocument]
      _ = (before ++ Text.leadingBlanks text) ++ Text.trim text ++ (behind ++ after) := by
          simp only [List.append_assoc]
  have houter : (⟨text, start⟩ : Slice).crlf document =
      ⟨Text.crlf text, some (Text.byteLength (Text.crlf before))⟩ := by
    rw [hstart, hdocument, crlf_of_append]
  have htrim : (⟨text, start⟩ : Slice).trim =
      ⟨Text.trim text, some (Text.byteLength (before ++ Text.leadingBlanks text))⟩ := by
    rw [trim_eq, hstart, advance_some, Text.byteLength_append]
  rw [houter, htrim, trim_eq, Text.trim_crlf, Text.leadingBlanks_crlf, advance_some,
    ← Text.byteLength_append, ← Text.crlf_append, hinner, crlf_of_append]

/-- Text on one line is not changed by the conversion; it moves by the line breaks in front of
its line. -/
theorem crlf_eq_shift {document : List Char} {l : Line}
    (hl : l ∈ (Stylesheet.ofText document).lines) {s : Slice} (hs : s.PartOf l.slice) :
    s.crlf document = s.shift (l.number - 1) := by
  rcases s with ⟨text, start⟩
  rcases Line.exists_offset_of_partOf hl hs with ⟨hwhole, offset, hoffset, hnumber⟩
  rcases partOf_whole_iff.mp hwhole with ⟨before, after, hdocument, hstart⟩
  dsimp only at hdocument hoffset hstart
  have htext : '\n' ∉ text := Line.not_mem_of_partOf hl hs
  have hcount : before.count '\n' = l.number - 1 := by
    rw [hstart, Option.some.injEq] at hoffset
    rw [← hoffset, hdocument, List.append_assoc, Text.lineNumberAt?, Text.splitAtByte?_append,
      Option.map_some, Option.some.injEq] at hnumber
    dsimp only at hnumber
    omega
  rw [hstart, hdocument, crlf_of_append, Text.crlf_of_not_mem htext, Text.byteLength_crlf, hcount]
  rfl

end Slice

/-! ## Selectors -/

namespace Selector

/-- The selector with the converted text in the converted document. -/
def crlf (document : List Char) (s : Selector) : Selector :=
  ⟨s.ordinal, s.slice.crlf document⟩

@[simp]
theorem crlf_slice (document : List Char) (s : Selector) :
    (s.crlf document).slice = s.slice.crlf document :=
  rfl

/-- The runs of a converted text, which stands behind `before` in its document. -/
theorem runs_crlf (before text : List Char) :
    runs (Text.byteLength (Text.crlf before)) (Text.crlf text) =
      (runs (Text.byteLength before) text).map fun run =>
        (run.1 + Text.breaksBefore (before ++ text) run.1, Text.crlf run.2) := by
  induction text using Text.separator_induction '{' generalizing before with
  | last text htext =>
    have hclean : '{' ∉ Text.crlf text := by
      rw [Text.mem_crlf_iff (by decide)]
      exact htext
    rw [runs_of_not_mem htext, runs_of_not_mem hclean, List.map_nil]
  | step piece rest hpiece ih =>
    have hclean : '{' ∉ Text.crlf piece := by
      rw [Text.mem_crlf_iff (by decide)]
      exact hpiece
    have hwhole : before ++ (piece ++ '{' :: rest) = (before ++ piece ++ ['{']) ++ rest := by
      simp
    have hbehind : Text.byteLength (before ++ piece ++ ['{']) =
        Text.byteLength before + Text.byteLength piece + 1 := by
      simp [brace_size, Nat.add_assoc]
    have hbehind' : Text.byteLength (Text.crlf (before ++ piece ++ ['{'])) =
        Text.byteLength (Text.crlf before) + Text.byteLength (Text.crlf piece) + 1 := by
      simp [Text.crlf_cons, brace_size, Nat.add_assoc]
    have hstep : Text.crlf (piece ++ '{' :: rest) = Text.crlf piece ++ '{' :: Text.crlf rest := by
      rw [Text.crlf_append, Text.crlf_cons (by decide)]
    rw [hstep, runs_append hclean, runs_append hpiece, List.map_append, ← hbehind, ← hbehind', ih,
      hwhole]
    congr 1
    by_cases hempty : piece = []
    · simp [hempty]
    · rw [if_neg hempty, if_neg (mt Text.crlf_eq_nil_iff.mp hempty), List.map_singleton, ← hwhole,
        Text.breaksBefore_append, Text.byteLength_crlf]

/-- The scan finds the converted slices in a converted document. -/
theorem scan_crlf (document : List Char) :
    scan (some 0) [] (Text.crlf document) =
      (scan (some 0) [] document).map (Slice.crlf document) := by
  have hruns : runs 0 (Text.crlf document) = (runs 0 document).map fun run =>
      (run.1 + Text.breaksBefore document run.1, Text.crlf run.2) := runs_crlf [] document
  rw [scan_eq_map_runs, scan_eq_map_runs, hruns, List.map_map, List.map_map]
  apply List.map_congr_left
  intro run hrun
  rw [Function.comp_apply, Function.comp_apply, trimRun_eq_trim, trimRun_eq_trim,
    ← Slice.trim_crlf (partOf_of_mem_runs hrun)]
  rfl

theorem enumerate_crlf (document : List Char) (first : Nat) (slices : List Slice) :
    enumerate first (slices.map (Slice.crlf document)) =
      (enumerate first slices).map (crlf document) := by
  rw [enumerate, enumerate, List.zipIdx_map, List.map_map, List.map_map]
  rfl

end Selector

namespace Stylesheet

/-- The selectors of a converted document are the converted selectors. -/
theorem selectors_crlf (document : List Char) :
    (ofText (Text.crlf document)).selectors =
      (ofText document).selectors.map (Selector.crlf document) := by
  have hselectors (text : List Char) :
      (ofText text).selectors = Selector.enumerate 1 (Selector.scan (some 0) [] text) := rfl
  rw [hselectors, hselectors, Selector.scan_crlf, Selector.enumerate_crlf]

end Stylesheet

/-! ## Lines -/

namespace Line

/-- A carriage return at the end of a line is trimmed with the blanks there. -/
theorem trim_append_return (text : List Char) (start : Option Nat) :
    (⟨text ++ ['\r'], start⟩ : Slice).trim = (⟨text, start⟩ : Slice).trim := by
  have htrimEnd : Text.trimEnd (text ++ ['\r']) = Text.trimEnd text := by
    apply Text.trimEnd_append_of_all_blank
    intro c hc
    rw [List.mem_singleton.mp hc, Text.isBlank_return]
  rw [Slice.trim_eq, Slice.trim_eq]
  dsimp only
  rw [Text.trim, htrimEnd, ← Text.takeWhile_trimEnd, htrimEnd, Text.takeWhile_trimEnd]
  rfl

theorem enumerate_cons (first : Nat) (s : Slice) (rest : List Slice) :
    enumerate first (s :: rest) = ⟨first, s.trim⟩ :: enumerate (first + 1) rest := by
  rw [enumerate, List.zipIdx_cons, List.map_cons]
  rfl

/-- The lines of a converted text behind `k` line breaks of its document. -/
theorem enumerate_split_crlf (k start : Nat) (text : List Char) :
    enumerate (k + 1) ((⟨Text.crlf text, some (start + k)⟩ : Slice).split '\n') =
      (enumerate (k + 1) ((⟨text, some start⟩ : Slice).split '\n')).map fun l =>
        l.shift 0 (l.number - 1) := by
  have hline (k start : Nat) (piece : List Char) :
      (⟨k + 1, (⟨piece, some (start + k)⟩ : Slice).trim⟩ : Line) =
        (⟨k + 1, (⟨piece, some start⟩ : Slice).trim⟩ : Line).shift 0 k := by
    have hmoved : (⟨piece, some (start + k)⟩ : Slice) = (⟨piece, some start⟩ : Slice).shift k := rfl
    rw [hmoved, Slice.trim_shift]
    rfl
  have hsize : ('\n' : Char).utf8Size = 1 ∧ ('\r' : Char).utf8Size = 1 := by decide
  induction text using Text.separator_induction '\n' generalizing k start with
  | last text htext =>
    rw [Text.crlf_of_not_mem htext, Slice.split_of_not_mem htext, Slice.split_of_not_mem htext,
      enumerate_cons, enumerate_cons, List.map_cons, hline]
    rfl
  | step piece rest hpiece ih =>
    have hclean : '\n' ∉ piece ++ ['\r'] := by simp [hpiece]
    have hstep : Text.crlf (piece ++ '\n' :: rest) =
        (piece ++ ['\r']) ++ '\n' :: Text.crlf rest := by
      rw [Text.crlf_append, Text.crlf_of_not_mem hpiece, Text.crlf_cons_break]
      simp
    have hbehind : start + k + (Text.byteLength (piece ++ ['\r']) + ('\n' : Char).utf8Size) =
        start + (Text.byteLength piece + ('\n' : Char).utf8Size) + (k + 1) := by
      rw [Text.byteLength_append, Text.byteLength_cons, Text.byteLength_nil, hsize.1, hsize.2]
      omega
    rw [hstep, Slice.split_append hclean, Slice.split_append hpiece, enumerate_cons,
      enumerate_cons, List.map_cons, trim_append_return, hline, Slice.advance_some,
      Slice.advance_some, hbehind, ih]
    rfl

end Line

/-- The lines of a converted document are the old ones, each moved by the line breaks in front
of it. -/
theorem Stylesheet.lines_crlf (document : List Char) :
    (ofText (Text.crlf document)).lines =
      (ofText document).lines.map fun l => l.shift 0 (l.number - 1) :=
  Line.enumerate_split_crlf 0 0 document

/-! ## Findings -/

namespace Finding

/-- The finding with the converted text in the converted document, under the same number and
with the same score. -/
def crlf (document : List Char) : Finding → Finding
  | .invalidSelector selector => .invalidSelector (selector.crlf document)
  | .lowSpecificity selector score => .lowSpecificity (selector.crlf document) score
  | .misordered line next current =>
    .misordered line (next.crlf document) (current.crlf document)
  | .unnamedColor line value => .unnamedColor line (value.crlf document)

@[simp]
theorem crlf_rule (document : List Char) (f : Finding) : (f.crlf document).rule = f.rule := by
  cases f <;> rfl

@[simp]
theorem crlf_line (document : List Char) (f : Finding) : (f.crlf document).line = f.line := by
  cases f <;> rfl

@[simp]
theorem crlf_slice (document : List Char) (f : Finding) :
    (f.crlf document).slice = f.slice.crlf document := by
  cases f <;> rfl

end Finding

namespace Selector

theorem namingFinding?_crlf (document : List Char) (s : Selector) :
    (s.crlf document).namingFinding? = s.namingFinding?.map (Finding.crlf document) := by
  have hvalid : BlockName.isValid (s.crlf document).slice.text = BlockName.isValid s.slice.text :=
    BlockName.isValid_crlf s.slice.text
  rw [namingFinding?, namingFinding?, hvalid]
  split
  next => rfl
  next => rfl

theorem specificityFinding?_crlf (document : List Char) (s : Selector) :
    (s.crlf document).specificityFinding? =
      s.specificityFinding?.map (Finding.crlf document) := by
  have hspecificity : Specificity.ofText (s.crlf document).slice.text =
      Specificity.ofText s.slice.text := Specificity.ofText_crlf s.slice.text
  simp only [specificityFinding?, hspecificity]
  split
  next => rfl
  next => rfl

end Selector

namespace Line

variable {document : List Char} {l : Line} {f : Finding}

/-- What is quoted from a line is not changed by the conversion, which moves it with the line. -/
theorem crlf_eq_shift_of_quoted (hl : l ∈ (Stylesheet.ofText document).lines)
    (hquoted : ∀ s ∈ f.quoted, s.PartOf l.slice) :
    f.crlf document = f.shift 0 (l.number - 1) := by
  cases f with
  | invalidSelector selector | lowSpecificity selector score =>
    have hslice := Slice.crlf_eq_shift hl (hquoted selector.slice List.mem_cons_self)
    rw [Finding.crlf, Finding.shift, Selector.crlf, hslice]
    rfl
  | misordered line next current =>
    have hnext := Slice.crlf_eq_shift hl (hquoted next (by simp [Finding.quoted]))
    have hcurrent := Slice.crlf_eq_shift hl (hquoted current (by simp [Finding.quoted]))
    rw [Finding.crlf, Finding.shift, hnext, hcurrent, Nat.add_zero]
  | unnamedColor line value =>
    have hvalue := Slice.crlf_eq_shift hl (hquoted value List.mem_cons_self)
    rw [Finding.crlf, Finding.shift, hvalue, Nat.add_zero]

/-- What moves with each line is found in the converted document as the converted findings. -/
theorem flatMap_lines_crlf {find : Line → List Finding} (hfind : MovesWithLine find)
    (hcrlf : ∀ l ∈ (Stylesheet.ofText document).lines, ∀ f ∈ find l,
      f.crlf document = f.shift 0 (l.number - 1)) :
    (Stylesheet.ofText (Text.crlf document)).lines.flatMap find =
      ((Stylesheet.ofText document).lines.flatMap find).map (Finding.crlf document) := by
  rw [Stylesheet.lines_crlf, List.flatMap_map, List.map_flatMap]
  apply List.flatMap_congr
  intro l hl
  rw [hfind]
  apply List.map_congr_left
  intro f hf
  exact (hcrlf l hl f hf).symm

end Line

namespace Rule

/-- Every rule finds the converted findings in a converted document. -/
theorem findings_crlf (rule : Rule) (document : List Char) :
    rule.findings (Stylesheet.ofText (Text.crlf document)) =
      (rule.findings (Stylesheet.ofText document)).map (Finding.crlf document) := by
  cases rule with
  | selectorNaming =>
    rw [findings, Stylesheet.selectors_crlf]
    exact Selector.filterMap_map_comm (Selector.namingFinding?_crlf document) _
  | lowSpecificity =>
    rw [findings, Stylesheet.selectors_crlf]
    exact Selector.filterMap_map_comm (Selector.specificityFinding?_crlf document) _
  | propertyOrder =>
    exact Line.flatMap_lines_crlf Line.orderFindings_shift fun _ hl _ hf =>
      Line.crlf_eq_shift_of_quoted hl (Line.subject_of_mem_orderFindings hf).2.1
  | colorNaming =>
    exact Line.flatMap_lines_crlf Line.colorFindings_shift fun _ hl _ hf =>
      Line.crlf_eq_shift_of_quoted hl (Line.subject_of_mem_colorFindings hf).2.1

end Rule

/-! ## Issues -/

/-- The location of the converted text in the converted document. -/
def Location.crlf (document : List Char) (l : Location) : Location :=
  ⟨l.line, l.offset + Text.breaksBefore document l.offset, Text.crlf l.span⟩

/-- The offset of a location grows by the number of line breaks in front of its text. -/
theorem Location.Marks.exists_crlf {l : Location} {document : List Char}
    (hmarks : l.Marks document) :
    ∃ before after, document = before ++ l.span ++ after ∧ l.offset = Text.byteLength before ∧
      l.crlf document = ⟨l.line, l.offset + before.count '\n', Text.crlf l.span⟩ := by
  rcases hmarks.exists_append with ⟨before, after, hdocument, hoffset⟩
  refine ⟨before, after, hdocument, hoffset, ?_⟩
  have hbreaks : Text.breaksBefore document l.offset = before.count '\n' := by
    rw [hoffset, hdocument, List.append_assoc, Text.breaksBefore_append]
  rw [crlf, hbreaks]

/-- The issue with converted texts and with its location in the converted document. -/
def Issue.crlf (document : List Char) (issue : Issue) : Issue :=
  { issue with
    message := Text.crlfString issue.message
    location := issue.location.map (Location.crlf document)
    suggestedFix := issue.suggestedFix.map Text.crlfString }

theorem Slice.toString_crlf (document : List Char) (s : Slice) :
    (s.crlf document).toString = Text.crlfString s.toString :=
  (Text.crlfString_ofList s.text).symm

theorem Rule.crlfString_messageFront (rule : Rule) :
    Text.crlfString rule.messageFront = rule.messageFront := by
  apply Text.crlfString_of_not_mem
  cases rule <;> decide

namespace Finding

/-- Only quoted text holds line breaks. -/
theorem messageBack_crlf (document : List Char) (f : Finding) :
    (f.crlf document).messageBack = Text.crlfString f.messageBack := by
  cases f with
  | invalidSelector selector =>
    have hback (s : Selector) :
        (invalidSelector s).messageBack = ": \"" ++ s.slice.toString ++ "\"." := rfl
    simp (disch := decide) only [crlf, hback, Text.crlfString_append, Text.crlfString_of_not_mem,
      Selector.crlf_slice, Slice.toString_crlf]
  | lowSpecificity selector score =>
    have hback (s : Selector) : (lowSpecificity s score).messageBack =
        ": \"" ++ s.slice.toString ++ "\" has a specificity of " ++ toString score.toInt ++ "." :=
      rfl
    simp (disch := decide) only [crlf, hback, Text.crlfString_append, Text.crlfString_of_not_mem,
      Text.crlfString_toString_int, Selector.crlf_slice, Slice.toString_crlf]
  | misordered line next current =>
    have hback (first second : Slice) : (misordered line first second).messageBack =
        ": The property \"" ++ first.toString ++ "\" should be declared before \"" ++
          second.toString ++ "\"." := rfl
    simp (disch := decide) only [crlf, hback, Text.crlfString_append, Text.crlfString_of_not_mem,
      Slice.toString_crlf]
  | unnamedColor line value =>
    have hback (s : Slice) : (unnamedColor line s).messageBack =
        ": Hex color \"" ++ s.toString ++ "\" should have a descriptive name." := rfl
    simp (disch := decide) only [crlf, hback, Text.crlfString_append, Text.crlfString_of_not_mem,
      Slice.toString_crlf]

theorem message_crlf (document : List Char) (f : Finding) :
    (f.crlf document).message = Text.crlfString f.message := by
  rw [message_eq, message_eq, crlf_rule, crlf_line, messageBack_crlf, Text.crlfString_append,
    Text.crlfString_append, Rule.crlfString_messageFront, Text.crlfString_toString_nat]

theorem suggestedFix_crlf (document : List Char) (f : Finding) :
    (f.crlf document).suggestedFix = f.suggestedFix.map Text.crlfString := by
  cases f with
  | invalidSelector selector => rfl
  | lowSpecificity selector score => rfl
  | misordered line next current =>
    have hfix (first second : Slice) : (misordered line first second).suggestedFix =
        some ("Move \"" ++ first.toString ++ "\" in front of \"" ++ second.toString ++ "\"") := rfl
    simp (disch := decide) only [crlf, hfix, Option.map_some, Text.crlfString_append,
      Text.crlfString_of_not_mem, Slice.toString_crlf]
  | unnamedColor line value => rfl

theorem location_crlf (document : List Char) (f : Finding) :
    (f.crlf document).location = f.location.map (Location.crlf document) := by
  rw [location, location, Location.ofSlice?, Location.ofSlice?, crlf_line, crlf_slice, Slice.crlf,
    Option.map_map, Option.map_map]
  rfl

/-- The issue of a converted finding is the converted issue. -/
theorem toIssue_crlf (document : List Char) (f : Finding) :
    (f.crlf document).toIssue = f.toIssue.crlf document := by
  rw [toIssue, message_crlf, suggestedFix_crlf, location_crlf, crlf_rule]
  rfl

/-- The number of a message is the number of the finding, wherever its text lies. -/
theorem message_shift_zero (bytes : Nat) (f : Finding) : (f.shift 0 bytes).message = f.message := by
  rw [message_eq, message_eq, shift_rule, shift_line, shift_messageBack, Nat.add_zero]

end Finding

theorem Rule.check_crlf (rule : Rule) (document : List Char) :
    rule.check (Stylesheet.ofText (Text.crlf document)) =
      (rule.check (Stylesheet.ofText document)).map (Issue.crlf document) := by
  rw [check, check, findings_crlf, List.map_map, List.map_map]
  apply List.map_congr_left
  intro f _
  exact f.toIssue_crlf document

/-- The messages about a line are the same in the converted document. -/
theorem Rule.message_crlf_of_mem_findings {rule : Rule} {document : List Char} {f : Finding}
    (hrule : rule = propertyOrder ∨ rule = colorNaming)
    (hf : f ∈ rule.findings (Stylesheet.ofText document)) :
    Text.crlfString f.message = f.message := by
  rw [← f.message_crlf document]
  rcases hrule with rfl | rfl
  · rcases List.mem_flatMap.mp hf with ⟨l, hl, hfound⟩
    rw [Line.crlf_eq_shift_of_quoted hl (Line.subject_of_mem_orderFindings hfound).2.1,
      Finding.message_shift_zero]
  · rcases List.mem_flatMap.mp hf with ⟨l, hl, hfound⟩
    rw [Line.crlf_eq_shift_of_quoted hl (Line.subject_of_mem_colorFindings hfound).2.1,
      Finding.message_shift_zero]

namespace Analysis

/-- Analysing commutes with putting a carriage return in front of every line feed.  Each rule
finds the same things in the same order, with the same numbers and scores, and each issue keeps
its number while its offset grows by the number of line breaks in front of it.  A message changes
only where it quotes a line break, which no message about a line does. -/
theorem commutes_with_crlf (text : List Char) :
    (∀ rule : Rule, rule.findings (Stylesheet.ofText (Text.crlf text)) =
      (rule.findings (Stylesheet.ofText text)).map (Finding.crlf text)) ∧
    (ofText (Text.crlf text)).issues = (ofText text).issues.map (Issue.crlf text) ∧
    (ofText (Text.crlf text)).findings = (ofText text).findings.map Text.crlfString ∧
    ∀ issue ∈ (ofText text).issues,
      (∃ l before after, issue.location = some l ∧ text = before ++ l.span ++ after ∧
        l.offset = Text.byteLength before ∧ (issue.crlf text).location =
          some ⟨l.line, l.offset + before.count '\n', Text.crlf l.span⟩) ∧
      (issue.ruleId = Rule.propertyOrder.id ∨ issue.ruleId = Rule.colorNaming.id →
        (issue.crlf text).message = issue.message) := by
  have hissues : (ofText (Text.crlf text)).issues = (ofText text).issues.map (Issue.crlf text) := by
    rw [issues_ofText, issues_ofText, List.map_flatMap]
    apply List.flatMap_congr
    intro rule _
    exact rule.check_crlf text
  refine ⟨fun rule => rule.findings_crlf text, hissues, ?_, ?_⟩
  · rw [findings, findings, hissues, List.map_map, List.map_map]
    rfl
  · intro issue hissue
    rw [issues_ofText] at hissue
    rcases List.mem_flatMap.mp hissue with ⟨rule, _, hcheck⟩
    rcases List.mem_map.mp hcheck with ⟨f, hf, rfl⟩
    constructor
    · rcases Rule.location_of_mem_findings hf with ⟨l, hlocation, hmarks, _⟩
      rcases hmarks.exists_crlf with ⟨before, after, hdocument, hoffset, hcrlf⟩
      refine ⟨l, before, after, hlocation, hdocument, hoffset, ?_⟩
      rw [← hcrlf]
      exact congrArg (Option.map (Location.crlf text)) hlocation
    · intro hid
      rw [Finding.toIssue_ruleId, Rule.rule_of_mem_findings hf, Rule.id_inj, Rule.id_inj] at hid
      exact Rule.message_crlf_of_mem_findings hid hf

example : (ofText (Text.crlf "a\nb\x7b\n.c \x7b color: #fff; top: 0 \x7d".toList)).issues.map
    Issue.location = [some ⟨1, 0, "a\r\nb".toList⟩, some ⟨2, 7, ".c".toList⟩,
      some ⟨1, 0, "a\r\nb".toList⟩, some ⟨3, 25, "top".toList⟩, some ⟨3, 19, "#fff".toList⟩] := by
  decide

end Analysis

end SheetLint
