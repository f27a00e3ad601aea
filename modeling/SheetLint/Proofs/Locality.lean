import Mathlib.Data.List.Forall2
import SheetLint.Proofs.Location

/-!
# Findings behind a cut

A stylesheet that is put together from two texts is checked part by part: behind the cut
the second text gives the findings that it gives by itself, with their numbers and offsets
moved on.  Selectors are cut at opening braces.

Main results:

- Definitions `Slice.shift`, `Selector.shift` and `Finding.shift` move what was found, and
  `Issue.ShiftedBy` says what this does to an issue: the number in its message and in its
  location grows, its offset grows, and all else stays.
- Definition `Rule.Composes` says that a rule checks a text part by part, and
  `Rule.composes_of_findings` derives it from the findings.
- Theorem `Selector.scan_shift` says that the scan does not depend on where it starts.
- Theorem `Rule.composes_at_brace` is the law of both rules about selectors.
-/

namespace SheetLint

/-! ## Moving slices and selectors -/

namespace Slice

/-- The same text some bytes further on. -/
def shift (bytes : Nat) (s : Slice) : Slice :=
  ⟨s.text, advance bytes s.start⟩

@[simp]
theorem shift_text (bytes : Nat) (s : Slice) : (s.shift bytes).text = s.text :=
  rfl

@[simp]
theorem shift_start (bytes : Nat) (s : Slice) :
    (s.shift bytes).start = advance bytes s.start :=
  rfl

theorem advance_comm (first second : Nat) (start : Option Nat) :
    advance second (advance first start) = advance first (advance second start) := by
  rw [advance_advance, advance_advance, Nat.add_comm]

/-- Trimming a slice that was moved is moving the trimmed slice. -/
theorem trim_shift (bytes : Nat) (s : Slice) : (s.shift bytes).trim = s.trim.shift bytes := by
  rw [trim_eq, trim_eq, shift, shift]
  dsimp only
  rw [advance_comm]

end Slice

namespace Selector

/-- The same selector under a later ordinal and further on. -/
def shift (ordinals bytes : Nat) (s : Selector) : Selector :=
  ⟨s.ordinal + ordinals, s.slice.shift bytes⟩

/-- A scan that starts further on finds the same selectors further on. -/
theorem scan_shift (bytes : Nat) (start : Option Nat) (run text : List Char) :
    scan (Slice.advance bytes start) run text =
      (scan start run text).map (Slice.shift bytes) := by
  induction text generalizing start run with
  | nil => rfl
  | cons c rest ih =>
    by_cases hc : c = '{'
    · have hrest := ih (Slice.advance (Text.byteLength run + c.utf8Size) start) []
      rw [← Slice.advance_comm] at hrest
      have htrim : (⟨run.reverse, Slice.advance bytes start⟩ : Slice).trim =
          (⟨run.reverse, start⟩ : Slice).trim.shift bytes :=
        Slice.trim_shift bytes ⟨run.reverse, start⟩
      rw [scan, scan, if_pos hc, if_pos hc, hrest]
      by_cases hempty : run = []
      · simp [hempty]
      · simp [hempty, htrim]
    · rw [scan, scan, if_neg hc, if_neg hc]
      exact ih start (c :: run)

/-- Numbering moved slices from a later number on moves the numbered slices. -/
theorem enumerate_shift (first ordinals bytes : Nat) (slices : List Slice) :
    enumerate (first + ordinals) (slices.map (Slice.shift bytes)) =
      (enumerate first slices).map (shift ordinals bytes) := by
  apply List.ext_getElem
  · simp [enumerate]
  · intro k hk hk'
    simp only [enumerate, shift, List.getElem_map, List.getElem_zipIdx, Selector.mk.injEq,
      and_true]
    omega

end Selector

/-- Behind an opening brace the selectors of a text are those of the rest, moved on. -/
theorem Stylesheet.selectors_append_brace (before after : List Char) :
    (ofText (before ++ '{' :: after)).selectors =
      (ofText (before ++ ['{'])).selectors ++
        (ofText after).selectors.map
          (Selector.shift (ofText (before ++ ['{'])).selectors.length
            (Text.byteLength before + 1)) := by
  have hselectors (text : List Char) :
      (ofText text).selectors = Selector.enumerate 1 (Selector.scan (some 0) [] text) := rfl
  have hbehind := Selector.scan_shift (Text.byteLength before + 1) (some 0) [] after
  rw [hselectors, hselectors, hselectors, Selector.scan_append_brace, Selector.enumerate_append,
    Selector.length_enumerate, Text.byteLength_nil, Nat.zero_add, hbehind,
    Selector.enumerate_shift]

/-! ## Moving findings and issues -/

namespace Finding

/-- The same finding under a later number and further on. -/
def shift (numbers bytes : Nat) : Finding → Finding
  | .invalidSelector selector => .invalidSelector (selector.shift numbers bytes)
  | .lowSpecificity selector score => .lowSpecificity (selector.shift numbers bytes) score
  | .misordered line next current =>
    .misordered (line + numbers) (next.shift bytes) (current.shift bytes)
  | .unnamedColor line value => .unnamedColor (line + numbers) (value.shift bytes)

@[simp]
theorem shift_rule (numbers bytes : Nat) (f : Finding) : (f.shift numbers bytes).rule = f.rule := by
  cases f <;> rfl

@[simp]
theorem shift_line (numbers bytes : Nat) (f : Finding) :
    (f.shift numbers bytes).line = f.line + numbers := by
  cases f <;> rfl

@[simp]
theorem shift_slice (numbers bytes : Nat) (f : Finding) :
    (f.shift numbers bytes).slice = f.slice.shift bytes := by
  cases f <;> rfl

@[simp]
theorem shift_suggestedFix (numbers bytes : Nat) (f : Finding) :
    (f.shift numbers bytes).suggestedFix = f.suggestedFix := by
  cases f <;> rfl

/-- What a message says behind its number. -/
def messageBack : Finding → String
  | .invalidSelector selector => ": \"" ++ selector.slice.toString ++ "\"."
  | .lowSpecificity selector score =>
    ": \"" ++ selector.slice.toString ++ "\" has a specificity of " ++ toString score.toInt ++ "."
  | .misordered _ next current =>
    ": The property \"" ++ next.toString ++ "\" should be declared before \"" ++
      current.toString ++ "\"."
  | .unnamedColor _ value =>
    ": Hex color \"" ++ value.toString ++ "\" should have a descriptive name."

@[simp]
theorem shift_messageBack (numbers bytes : Nat) (f : Finding) :
    (f.shift numbers bytes).messageBack = f.messageBack := by
  cases f <;> rfl

end Finding

/-- What the messages of a rule say in front of their number. -/
def Rule.messageFront : Rule → String
  | .selectorNaming => "Invalid selector at line "
  | .lowSpecificity => "Low specificity at line "
  | .propertyOrder => "Line "
  | .colorNaming => "Line "

/-- A message is its number between the two texts around it. -/
theorem Finding.message_eq (f : Finding) :
    f.message = f.rule.messageFront ++ toString f.line ++ f.messageBack := by
  cases f with
  | invalidSelector selector =>
    calc (invalidSelector selector).message
        = "Invalid selector at line " ++ toString selector.ordinal ++
            ": \"" ++ selector.slice.toString ++ "\"." := rfl
      _ = "Invalid selector at line " ++ toString selector.ordinal ++
            (": \"" ++ selector.slice.toString ++ "\".") := by simp only [String.append_assoc]
  | lowSpecificity selector score =>
    calc (lowSpecificity selector score).message
        = "Low specificity at line " ++ toString selector.ordinal ++
            ": \"" ++ selector.slice.toString ++ "\" has a specificity of " ++
              toString score.toInt ++ "." := rfl
      _ = "Low specificity at line " ++ toString selector.ordinal ++
            (": \"" ++ selector.slice.toString ++ "\" has a specificity of " ++
              toString score.toInt ++ ".") := by simp only [String.append_assoc]
  | misordered number next current =>
    calc (misordered number next current).message
        = "Line " ++ toString number ++
            ": The property \"" ++ next.toString ++ "\" should be declared before \"" ++
              current.toString ++ "\"." := rfl
      _ = "Line " ++ toString number ++
            (": The property \"" ++ next.toString ++ "\" should be declared before \"" ++
              current.toString ++ "\".") := by simp only [String.append_assoc]
  | unnamedColor number value =>
    calc (unnamedColor number value).message
        = "Line " ++ toString number ++
            ": Hex color \"" ++ value.toString ++ "\" should have a descriptive name." := rfl
      _ = "Line " ++ toString number ++
            (": Hex color \"" ++ value.toString ++ "\" should have a descriptive name.") := by
          simp only [String.append_assoc]

/-- One issue is another one moved on when they agree in all but the number, which grows in the
message and in the location, and the offset, which grows too. -/
def Issue.ShiftedBy (numbers bytes : Nat) (issue shifted : Issue) : Prop :=
  ∃ rule : Rule, ∃ l back, issue.ruleId = rule.id ∧ issue.location = some l ∧
    issue.message = rule.messageFront ++ toString l.line ++ back ∧
    shifted = { issue with
      message := rule.messageFront ++ toString (l.line + numbers) ++ back
      location := some ⟨l.line + numbers, l.offset + bytes, l.span⟩ }

/-- Moving a finding moves its issue. -/
theorem Finding.shiftedBy_toIssue {f : Finding} {l : Location} (hlocation : f.location = some l)
    (numbers bytes : Nat) :
    Issue.ShiftedBy numbers bytes f.toIssue (f.shift numbers bytes).toIssue := by
  have hmoved : (f.shift numbers bytes).location =
      some ⟨l.line + numbers, l.offset + bytes, l.span⟩ := by
    rcases Option.map_eq_some_iff.mp hlocation with ⟨offset, hstart, rfl⟩
    simp [location, Location.ofSlice?, hstart]
  have hline : l.line = f.line := by
    rcases Option.map_eq_some_iff.mp hlocation with ⟨offset, _, rfl⟩
    rfl
  refine ⟨f.rule, l, f.messageBack, rfl, hlocation, ?_, ?_⟩
  · rw [hline]
    exact f.message_eq
  · rw [toIssue, message_eq, hmoved, hline]
    simp [toIssue]

/-! ## Part by part -/

namespace Rule

/-- A rule checks a whole text part by part: it reports what it reports for the front, and then
what it reports for the back, moved on. -/
def Composes (rule : Rule) (whole front back : List Char) (numbers bytes : Nat) : Prop :=
  ∃ behind, rule.check (Stylesheet.ofText whole) = rule.check (Stylesheet.ofText front) ++ behind ∧
    List.Forall₂ (Issue.ShiftedBy numbers bytes) (rule.check (Stylesheet.ofText back)) behind

theorem composes_of_findings {rule : Rule} {whole front back : List Char} {numbers bytes : Nat}
    (hfindings : rule.findings (Stylesheet.ofText whole) =
      rule.findings (Stylesheet.ofText front) ++
        (rule.findings (Stylesheet.ofText back)).map (Finding.shift numbers bytes)) :
    rule.Composes whole front back numbers bytes := by
  refine ⟨((rule.findings (Stylesheet.ofText back)).map (Finding.shift numbers bytes)).map
    Finding.toIssue, ?_, ?_⟩
  · rw [check, hfindings, List.map_append]
    rfl
  · rw [check, List.map_map, List.forall₂_map_left_iff, List.forall₂_map_right_iff,
      List.forall₂_same]
    intro f hf
    rcases location_of_mem_findings hf with ⟨l, hlocation, _, _⟩
    exact Finding.shiftedBy_toIssue hlocation numbers bytes

end Rule

namespace Selector

theorem namingFinding?_shift (ordinals bytes : Nat) (s : Selector) :
    (s.shift ordinals bytes).namingFinding? =
      s.namingFinding?.map (Finding.shift ordinals bytes) := by
  have htext : (s.shift ordinals bytes).slice.text = s.slice.text := rfl
  rw [namingFinding?, namingFinding?, htext]
  split
  next => rfl
  next => rfl

theorem specificityFinding?_shift (ordinals bytes : Nat) (s : Selector) :
    (s.shift ordinals bytes).specificityFinding? =
      s.specificityFinding?.map (Finding.shift ordinals bytes) := by
  have htext : (s.shift ordinals bytes).slice.text = s.slice.text := rfl
  simp only [specificityFinding?, htext]
  split
  next => rfl
  next => rfl

/-- Looking for something in each selector commutes with changing the selectors, if it does so
for a single one. -/
theorem filterMap_map_comm {find? : Selector → Option Finding} {change : Selector → Selector}
    {changed : Finding → Finding} (hfind : ∀ s, find? (change s) = (find? s).map changed)
    (selectors : List Selector) :
    (selectors.map change).filterMap find? = (selectors.filterMap find?).map changed := by
  rw [List.filterMap_map, List.map_filterMap]
  congr 1
  funext s
  exact hfind s

/-- Looking for something in each selector commutes with moving them. -/
theorem filterMap_shift {find? : Selector → Option Finding} {ordinals bytes : Nat}
    (hfind : ∀ s, find? (s.shift ordinals bytes) = (find? s).map (Finding.shift ordinals bytes))
    (selectors : List Selector) :
    (selectors.map (shift ordinals bytes)).filterMap find? =
      (selectors.filterMap find?).map (Finding.shift ordinals bytes) :=
  filterMap_map_comm hfind selectors

end Selector

namespace Rule

/-- Both rules about selectors check a text part by part at every opening brace.  Behind the
brace the ordinals grow by the number of selectors up to it, and the offsets by its position
and its own byte. -/
theorem composes_at_brace (before after : List Char) :
    selectorNaming.Composes (before ++ '{' :: after) (before ++ ['{']) after
      (Stylesheet.ofText (before ++ ['{'])).selectors.length (Text.byteLength before + 1) ∧
    lowSpecificity.Composes (before ++ '{' :: after) (before ++ ['{']) after
      (Stylesheet.ofText (before ++ ['{'])).selectors.length (Text.byteLength before + 1) := by
  constructor
  · apply composes_of_findings
    rw [findings, Stylesheet.selectors_append_brace, List.filterMap_append,
      Selector.filterMap_shift (Selector.namingFinding?_shift _ _)]
    rfl
  · apply composes_of_findings
    rw [findings, Stylesheet.selectors_append_brace, List.filterMap_append,
      Selector.filterMap_shift (Selector.specificityFinding?_shift _ _)]
    rfl

end Rule

end SheetLint
