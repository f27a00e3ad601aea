import SheetLint.Proofs.Reporting
import SheetLint.Proofs.SelectorScan

/-!
# Where issues point

Every issue points at a place of its stylesheet.  The text in question has been cut out
of the stylesheet by many splits and trims, and the body of a line may lie nowhere; this
module follows the cuts and shows that the place is right in every issue.

Main results:

- Structure `Location.Marks` says that a stylesheet holds the text of a location at its
  offset.
- Definition `Rule.Locates` says what the number of a location counts, and `Rule.Words`
  how a message names a location.
- Theorem `Declaration.partOf_of_mem_propertyNames` says that a property name that is not
  empty lies on its line, and `PropertyOrder.canonicalIndex?_nil` that an empty one has no
  place in the order.
- Theorem `Rule.location_eq_offsetIn` says that the offset of a finding is the one that its text
  has in the document, bounds included.
- Theorem `Config.lint_locates` says that every issue points at a right place.
-/

namespace SheetLint

/-! ## Byte positions -/

namespace Text

/-- The number of the line that a byte position belongs to, if the position lies between two
characters: one more than there are line breaks in front of it. -/
def lineNumberAt? (document : List Char) (offset : Nat) : Option Nat :=
  (splitAtByte? offset document).map fun parts => parts.1.count '\n' + 1

/-- A text can be split behind each of its beginnings. -/
theorem splitAtByte?_append (before after : List Char) :
    splitAtByte? (byteLength before) (before ++ after) = some (before, after) := by
  induction before with
  | nil => simp [splitAtByte?]
  | cons c before ih =>
    obtain ⟨n, hn⟩ : ∃ n, byteLength (c :: before) = n + 1 := by
      have hpos := c.utf8Size_pos
      exact ⟨byteLength (c :: before) - 1, by rw [byteLength_cons]; omega⟩
    have hsize : c.utf8Size ≤ n + 1 := by
      rw [← hn, byteLength_cons]
      omega
    have hrest : n + 1 - c.utf8Size = byteLength before := by
      rw [← hn, byteLength_cons]
      omega
    rw [hn, List.cons_append, splitAtByte?, if_pos hsize, hrest, ih]
    rfl

/-- A text is split into its two parts, the first of them as long as asked for. -/
theorem append_of_splitAtByte?_eq_some {n : Nat} {text before after : List Char}
    (hsplit : splitAtByte? n text = some (before, after)) :
    text = before ++ after ∧ n = byteLength before := by
  induction n, text using splitAtByte?.induct generalizing before after with
  | case1 text =>
    rw [splitAtByte?, Option.some.injEq, Prod.mk.injEq] at hsplit
    rcases hsplit with ⟨rfl, rfl⟩
    exact ⟨rfl, rfl⟩
  | case2 n => cases hsplit
  | case3 n c rest hsize ih =>
    rw [splitAtByte?, if_pos hsize, Option.map_eq_some_iff] at hsplit
    rcases hsplit with ⟨⟨first, second⟩, hrest, hparts⟩
    cases hparts
    rcases ih hrest with ⟨rfl, hlength⟩
    refine ⟨rfl, ?_⟩
    rw [byteLength_cons]
    omega
  | case4 n c rest hsize =>
    rw [splitAtByte?, if_neg hsize] at hsplit
    cases hsplit

end Text

namespace Location

/-- A location marks a place of a document when its offset and the end of its text lie between
characters of the document, within its bounds, and the document holds that text there. -/
structure Marks (l : Location) (document : List Char) : Prop where
  slice : Slice.ofByteRange? document l.offset (l.offset + l.byteLength) =
    some ⟨l.span, some l.offset⟩
  bound : l.offset + l.byteLength ≤ Text.byteLength document

theorem marks_of_append {l : Location} {before after : List Char}
    (hoffset : l.offset = Text.byteLength before) : l.Marks (before ++ l.span ++ after) := by
  have hfirst := Text.splitAtByte?_append before (l.span ++ after)
  have hsecond := Text.splitAtByte?_append l.span after
  constructor
  · simp [Slice.ofByteRange?, byteLength, hoffset, hfirst, hsecond]
  · rw [Text.byteLength_append, Text.byteLength_append, hoffset, byteLength]
    omega

/-- The text of a location stands in the document behind as many bytes as the offset says. -/
theorem Marks.exists_append {l : Location} {document : List Char}
    (hmarks : l.Marks document) :
    ∃ before after, document = before ++ l.span ++ after ∧
      l.offset = Text.byteLength before := by
  rcases hmarks with ⟨hslice, -⟩
  simp only [Slice.ofByteRange?, Nat.le_add_right, if_true, Option.bind_eq_bind,
    Option.bind_eq_some_iff] at hslice
  rcases hslice with ⟨⟨before, rest⟩, hbefore, ⟨inside, after⟩, hinside, hspan⟩
  cases hspan
  rcases Text.append_of_splitAtByte?_eq_some hbefore with ⟨hdocument, hoffset⟩
  rcases Text.append_of_splitAtByte?_eq_some hinside with ⟨rfl, -⟩
  exact ⟨before, after, by rw [hdocument, List.append_assoc], hoffset⟩

end Location

/-! ## What rules say about places -/

namespace Rule

/-- What the number of a location counts: for the rules about selectors it is the ordinal of
the selector that lies there, and for the rules about lines it is the line of the text, which
is not empty then. -/
def Locates (rule : Rule) (document : List Char) (l : Location) : Prop :=
  match rule with
  | .selectorNaming | .lowSpecificity =>
    0 < l.line ∧ (Stylesheet.ofText document).selectors[l.line - 1]? =
      some ⟨l.line, ⟨l.span, some l.offset⟩⟩
  | .propertyOrder | .colorNaming =>
    l.span ≠ [] ∧ Text.lineNumberAt? document l.offset = some l.line

/-- How a message names a location: it shows the number and quotes the text as the selector,
as the property to be moved to the front, or as the color. -/
def Words (rule : Rule) (l : Location) (message : String) : Prop :=
  let number := l.line
  let text := String.ofList l.span
  match rule with
  | .selectorNaming => message = s!"Invalid selector at line {number}: \"{text}\"."
  | .lowSpecificity => ∃ score : Int,
    message = s!"Low specificity at line {number}: \"{text}\" has a specificity of {score}."
  | .propertyOrder => ∃ current : String,
    message = s!"Line {number}: The property \"{text}\" should be declared before \"{current}\"."
  | .colorNaming =>
    message = s!"Line {number}: Hex color \"{text}\" should have a descriptive name."

end Rule

namespace Finding

/-- A finding about text that lies somewhere words its own location. -/
theorem words_message {f : Finding} {l : Location} (hlocation : f.location = some l) :
    f.rule.Words l f.message := by
  rcases Option.map_eq_some_iff.mp hlocation with ⟨offset, hstart, rfl⟩
  cases f with
  | invalidSelector selector => rfl
  | lowSpecificity selector score => exact ⟨score.toInt, rfl⟩
  | misordered line next current => exact ⟨current.toString, rfl⟩
  | unnamedColor line value => rfl

end Finding

/-! ## Selectors -/

namespace Selector

theorem partOf_of_mem_runs {offset : Nat} {text : List Char} {run : Nat × List Char}
    (hrun : run ∈ runs offset text) :
    (⟨run.2, some run.1⟩ : Slice).PartOf ⟨text, some offset⟩ := by
  induction text using Text.separator_induction '{' generalizing offset with
  | last text htext =>
    rw [runs_of_not_mem htext] at hrun
    cases hrun
  | step piece rest hpiece ih =>
    rw [runs_append hpiece, List.mem_append] at hrun
    rcases hrun with hfirst | hlater
    · by_cases hempty : piece = []
      · simp [hempty] at hfirst
      · rw [if_neg hempty, List.mem_singleton] at hfirst
        rw [hfirst]
        exact ⟨[], '{' :: rest, by simp, by simp⟩
    · refine (ih hlater).trans ⟨piece ++ ['{'], [], by simp, ?_⟩
      simp [brace_size, Nat.add_assoc]

/-- The selector of a document lies in it. -/
theorem partOf_of_mem_selectors {document : List Char} {s : Selector}
    (hs : s ∈ (Stylesheet.ofText document).selectors) :
    s.slice.PartOf (Slice.whole document) := by
  rcases Stylesheet.exists_run_of_mem_selectors hs with ⟨run, hrun, hslice⟩
  rw [hslice, trimRun_eq_trim]
  exact (partOf_of_mem_runs hrun).trim

/-- The ordinal of a selector is its position, counted from 1. -/
theorem getElem?_ordinal {document : List Char} {s : Selector}
    (hs : s ∈ (Stylesheet.ofText document).selectors) :
    0 < s.ordinal ∧ (Stylesheet.ofText document).selectors[s.ordinal - 1]? = some s := by
  rcases List.mem_iff_getElem?.mp hs with ⟨k, hk⟩
  have hordinal : s.ordinal = k + 1 := by
    rw [Stylesheet.selectors_eq_mapIdx, List.getElem?_mapIdx] at hk
    rcases Option.map_eq_some_iff.mp hk with ⟨run, _, rfl⟩
    rfl
  rw [hordinal]
  exact ⟨Nat.succ_pos k, hk⟩

end Selector

/-! ## Lines -/

/-- A line of a document is cut from a stretch without line breaks, and its number counts the
line breaks in front of that stretch. -/
theorem Line.exists_stretch_of_mem_lines {document : List Char} {l : Line}
    (hl : l ∈ (Stylesheet.ofText document).lines) :
    ∃ before stretch after, document = before ++ stretch ++ after ∧ '\n' ∉ stretch ∧
      l.number = before.count '\n' + 1 ∧
        l.slice.PartOf ⟨stretch, some (Text.byteLength before)⟩ := by
  rcases List.mem_map.mp hl with ⟨⟨piece, k⟩, hpiece, rfl⟩
  rcases Slice.mem_zipIdx_split hpiece with ⟨before, after, hdocument, hstart, hk, hclean⟩
  refine ⟨before, piece.text, after, hdocument, hclean, ?_, ?_⟩
  · rw [hk, Nat.add_comm]
  · have hpiece : piece = ⟨piece.text, some (Text.byteLength before)⟩ := by
      have hzero : piece.start = some (0 + Text.byteLength before) := hstart
      rw [Nat.zero_add] at hzero
      rw [← hzero]
    rw [← hpiece]
    exact (Slice.PartOf.refl piece).trim

/-- A text cut from a line of a document has no line break. -/
theorem Line.not_mem_of_partOf {document : List Char} {l : Line}
    (hl : l ∈ (Stylesheet.ofText document).lines) {part : Slice} (hpart : part.PartOf l.slice) :
    '\n' ∉ part.text := by
  rcases exists_stretch_of_mem_lines hl with ⟨before, stretch, after, -, hclean, -, hline⟩
  rcases hpart.trans hline with ⟨inner, behind, htext, -⟩
  simp only at htext
  intro hmem
  rw [htext] at hclean
  exact hclean (List.mem_append_left _ (List.mem_append_right _ hmem))

/-- Text cut from a line of a document lies in the document, on the line of that number. -/
theorem Line.exists_offset_of_partOf {document : List Char} {l : Line}
    (hl : l ∈ (Stylesheet.ofText document).lines) {part : Slice} (hpart : part.PartOf l.slice) :
    part.PartOf (Slice.whole document) ∧
      ∃ offset, part.start = some offset ∧ Text.lineNumberAt? document offset = some l.number := by
  rcases exists_stretch_of_mem_lines hl with
    ⟨before, stretch, after, hdocument, hclean, hnumber, hline⟩
  rcases hpart.trans hline with ⟨inner, behind, htext, hstart⟩
  simp only at htext
  have hwhole : document = (before ++ inner) ++ (part.text ++ (behind ++ after)) := by
    rw [hdocument, htext]
    simp only [List.append_assoc]
  have hoffset : part.start = some (Text.byteLength (before ++ inner)) := by
    rw [hstart, Slice.advance_some, Text.byteLength_append]
  have hcount : inner.count '\n' = 0 := by
    rw [List.count_eq_zero]
    intro hmem
    apply hclean
    rw [htext]
    exact List.mem_append_left _ (List.mem_append_left _ hmem)
  refine ⟨?_, Text.byteLength (before ++ inner), hoffset, ?_⟩
  · rw [Slice.partOf_whole_iff]
    refine ⟨before ++ inner, behind ++ after, ?_, hoffset⟩
    rw [hwhole, ← List.append_assoc]
  · rw [Text.lineNumberAt?, hwhole, Text.splitAtByte?_append, Option.map_some,
      List.count_append, hcount, Nat.add_zero, hnumber]

/-! ## Property names and colors -/

namespace Declaration

/-- The body of a line lies on it unless it is empty. -/
theorem partOf_body {line : Slice} (hne : (body line).text ≠ []) : (body line).PartOf line := by
  unfold body at hne ⊢
  split
  next => exact ((Slice.PartOf.refl line).take _).drop _
  next hempty =>
    rw [if_neg hempty] at hne
    exact absurd rfl hne

/-- A property name lies on its line unless it is empty. -/
theorem partOf_of_mem_propertyNames {line name : Slice} (hname : name ∈ propertyNames line)
    (hne : name.text ≠ []) : name.PartOf line := by
  rcases List.mem_map.mp hname with ⟨declaration, hdeclaration, rfl⟩
  have hbody : (propertyName declaration).PartOf (body line) := by
    have htrimmed := (Slice.PartOf.refl (body line)).trim
    exact (((Slice.PartOf.split hdeclaration).trans htrimmed).trim.takeWhile _).trim
  refine hbody.trans (partOf_body ?_)
  intro hempty
  rcases hbody with ⟨before, after, htext, _⟩
  rw [hempty] at htext
  simp_all

/-- The color values of a text lie in it. -/
theorem partOf_of_mem_scanColors {start : Option Nat} {skip : Nat} {text : List Char}
    {value : Slice} (hvalue : value ∈ scanColors start skip text) :
    value.PartOf ⟨text, start⟩ := by
  induction text generalizing start skip with
  | nil => cases hvalue
  | cons c rest ih =>
    have hrest : (⟨rest, Slice.advance c.utf8Size start⟩ : Slice).PartOf ⟨c :: rest, start⟩ :=
      ⟨[c], [], by simp, by simp⟩
    cases skip with
    | succ skip => exact (ih hvalue).trans hrest
    | zero =>
      rw [scanColors] at hvalue
      cases hextent : colorExtent? (c :: rest) with
      | none =>
        simp only [hextent] at hvalue
        exact (ih hvalue).trans hrest
      | some extent =>
        simp only [hextent, List.mem_cons] at hvalue
        rcases hvalue with rfl | hlater
        · exact (((Slice.PartOf.refl _).drop _).take _).trim
        · exact (ih hlater).trans hrest

end Declaration

/-- The empty name has no place in the canonical order. -/
theorem PropertyOrder.canonicalIndex?_nil : canonicalIndex? [] = none := by
  decide

theorem PropertyOrder.ne_nil_of_isMisordered {current next : List Char}
    (hmisordered : isMisordered current next = true) : next ≠ [] := by
  rintro rfl
  unfold isMisordered at hmisordered
  rw [canonicalIndex?_nil] at hmisordered
  cases hplace : canonicalIndex? current <;> simp [hplace] at hmisordered

/-- The property in front of a misordered one has a place in the order, as no empty one has. -/
theorem PropertyOrder.current_ne_nil_of_isMisordered {current next : List Char}
    (hmisordered : isMisordered current next = true) : current ≠ [] := by
  rintro rfl
  unfold isMisordered at hmisordered
  rw [canonicalIndex?_nil] at hmisordered
  cases hmisordered

theorem ColorName.ne_nil_of_isHexColor {value : List Char} (hhex : isHexColor value = true) :
    value ≠ [] := by
  rintro rfl
  cases hhex

/-! ## Findings -/

namespace Finding

/-- A finding about text cut from a document has a location that marks this text. -/
theorem location_of_partOf {f : Finding} {document : List Char}
    (hpart : f.slice.PartOf (Slice.whole document)) :
    ∃ offset, f.slice.start = some offset ∧ f.location = some ⟨f.line, offset, f.slice.text⟩ ∧
      (⟨f.line, offset, f.slice.text⟩ : Location).Marks document := by
  rcases Slice.partOf_whole_iff.mp hpart with ⟨before, after, hdocument, hstart⟩
  refine ⟨Text.byteLength before, hstart, ?_, ?_⟩
  · rw [location, Location.ofSlice?, hstart, Option.map_some]
  · rw [hdocument]
    exact Location.marks_of_append rfl

/-- The texts that a message quotes. -/
def quoted : Finding → List Slice
  | .invalidSelector selector => [selector.slice]
  | .lowSpecificity selector _ => [selector.slice]
  | .misordered _ next current => [next, current]
  | .unnamedColor _ value => [value]

theorem slice_mem_quoted (f : Finding) : f.slice ∈ f.quoted := by
  cases f <;> exact List.mem_cons_self

end Finding

namespace Line

/-- Misordered declarations of a line are reported with its number and quoted from it. -/
theorem subject_of_mem_orderFindings {l : Line} {f : Finding} (hf : f ∈ l.orderFindings) :
    f.line = l.number ∧ (∀ s ∈ f.quoted, s.PartOf l.slice) ∧ f.slice.text ≠ [] := by
  unfold orderFindings at hf
  split at hf
  next => cases hf
  next =>
    rcases List.mem_filterMap.mp hf with ⟨⟨current, next⟩, hpair, hfound⟩
    dsimp only at hfound
    split at hfound
    next hmisordered =>
      cases hfound
      have hcurrent : current.PartOf l.slice :=
        Declaration.partOf_of_mem_propertyNames (List.of_mem_zip hpair).1
          (PropertyOrder.current_ne_nil_of_isMisordered hmisordered)
      have hne := PropertyOrder.ne_nil_of_isMisordered hmisordered
      have hnext : next.PartOf l.slice :=
        Declaration.partOf_of_mem_propertyNames
          (List.mem_of_mem_tail (List.of_mem_zip hpair).2) hne
      exact ⟨rfl, by simpa [Finding.quoted] using ⟨hnext, hcurrent⟩, hne⟩
    next => cases hfound

/-- Unnamed colors of a line are reported with its number and quoted from it. -/
theorem subject_of_mem_colorFindings {l : Line} {f : Finding} (hf : f ∈ l.colorFindings) :
    f.line = l.number ∧ (∀ s ∈ f.quoted, s.PartOf l.slice) ∧ f.slice.text ≠ [] := by
  rcases List.mem_filterMap.mp hf with ⟨value, hvalue, hfound⟩
  split at hfound
  next hcolor =>
    cases hfound
    rw [Bool.and_eq_true] at hcolor
    have hpart : value.PartOf l.slice := Declaration.partOf_of_mem_scanColors hvalue
    exact ⟨rfl, by simpa [Finding.quoted] using hpart, ColorName.ne_nil_of_isHexColor hcolor.1⟩
  next => cases hfound

end Line

namespace Selector

theorem subject_of_namingFinding? {s : Selector} {f : Finding}
    (hf : s.namingFinding? = some f) : f.line = s.ordinal ∧ f.slice = s.slice := by
  unfold namingFinding? at hf
  split at hf
  next => cases hf
  next =>
    cases hf
    exact ⟨rfl, rfl⟩

theorem subject_of_specificityFinding? {s : Selector} {f : Finding}
    (hf : s.specificityFinding? = some f) : f.line = s.ordinal ∧ f.slice = s.slice := by
  simp only [specificityFinding?] at hf
  split at hf
  next =>
    cases hf
    exact ⟨rfl, rfl⟩
  next => cases hf

end Selector

namespace Finding

variable {f : Finding} {document : List Char}

/-- A finding about a selector has its location, counted by its ordinal. -/
theorem location_of_selector {s : Selector} (hs : s ∈ (Stylesheet.ofText document).selectors)
    (hline : f.line = s.ordinal) (hslice : f.slice = s.slice) :
    ∃ l, f.location = some l ∧ l.Marks document ∧ 0 < l.line ∧
      (Stylesheet.ofText document).selectors[l.line - 1]? =
        some ⟨l.line, ⟨l.span, some l.offset⟩⟩ := by
  have hpart : f.slice.PartOf (Slice.whole document) := by
    rw [hslice]
    exact Selector.partOf_of_mem_selectors hs
  rcases location_of_partOf hpart with ⟨offset, hstart, hlocation, hmarks⟩
  rcases Selector.getElem?_ordinal hs with ⟨hpos, hget⟩
  have hself : s = ⟨f.line, ⟨f.slice.text, some offset⟩⟩ := by
    rw [← hstart, hline, hslice]
  refine ⟨_, hlocation, hmarks, ?_, ?_⟩
  · rw [hline]
    exact hpos
  · rw [← hself, hline]
    exact hget

/-- A finding about text on a line has the location of this text, counted by the line. -/
theorem location_of_line {l : Line} (hl : l ∈ (Stylesheet.ofText document).lines)
    (hline : f.line = l.number) (hpart : f.slice.PartOf l.slice) :
    ∃ place, f.location = some place ∧ place.Marks document ∧ place.span = f.slice.text ∧
      Text.lineNumberAt? document place.offset = some place.line := by
  rcases Line.exists_offset_of_partOf hl hpart with ⟨hwhole, offset, hstart, hnumber⟩
  rcases location_of_partOf hwhole with ⟨offset', hstart', hlocation, hmarks⟩
  obtain rfl : offset = offset' := Option.some.inj (hstart.symm.trans hstart')
  refine ⟨_, hlocation, hmarks, rfl, ?_⟩
  rw [hnumber, hline]

end Finding

namespace Rule

/-- Every finding of a rule has a location that marks its text and counts as the rule says. -/
theorem location_of_mem_findings {rule : Rule} {document : List Char} {f : Finding}
    (hf : f ∈ rule.findings (Stylesheet.ofText document)) :
    ∃ l, f.location = some l ∧ l.Marks document ∧ rule.Locates document l := by
  cases rule with
  | selectorNaming =>
    rcases List.mem_filterMap.mp hf with ⟨s, hs, hfound⟩
    rcases Selector.subject_of_namingFinding? hfound with ⟨hline, hslice⟩
    exact Finding.location_of_selector hs hline hslice
  | lowSpecificity =>
    rcases List.mem_filterMap.mp hf with ⟨s, hs, hfound⟩
    rcases Selector.subject_of_specificityFinding? hfound with ⟨hline, hslice⟩
    exact Finding.location_of_selector hs hline hslice
  | propertyOrder =>
    rcases List.mem_flatMap.mp hf with ⟨l, hl, hfound⟩
    rcases Line.subject_of_mem_orderFindings hfound with ⟨hline, hquoted, hne⟩
    rcases Finding.location_of_line hl hline (hquoted _ f.slice_mem_quoted) with
      ⟨place, hlocation, hmarks, hspan, hnumber⟩
    exact ⟨place, hlocation, hmarks, hspan ▸ hne, hnumber⟩
  | colorNaming =>
    rcases List.mem_flatMap.mp hf with ⟨l, hl, hfound⟩
    rcases Line.subject_of_mem_colorFindings hfound with ⟨hline, hquoted, hne⟩
    rcases Finding.location_of_line hl hline (hquoted _ f.slice_mem_quoted) with
      ⟨place, hlocation, hmarks, hspan, hnumber⟩
    exact ⟨place, hlocation, hmarks, hspan ▸ hne, hnumber⟩

/-- What a rule finds is cut from the document. -/
theorem partOf_of_mem_findings {rule : Rule} {document : List Char} {f : Finding}
    (hf : f ∈ rule.findings (Stylesheet.ofText document)) :
    f.slice.PartOf (Slice.whole document) := by
  rcases location_of_mem_findings hf with ⟨l, hlocation, hmarks, -⟩
  rcases Option.map_eq_some_iff.mp hlocation with ⟨offset, hstart, rfl⟩
  rcases hmarks.exists_append with ⟨before, after, hdocument, hoffset⟩
  exact Slice.partOf_whole_iff.mpr ⟨before, after, hdocument, by rw [hstart, ← hoffset]⟩

/-- The location of a finding is at the offset of its text in the document, which is only given for
text within the bounds of the document. -/
theorem location_eq_offsetIn {rule : Rule} {document : List Char} {f : Finding}
    (hf : f ∈ rule.findings (Stylesheet.ofText document)) :
    f.location = ((Slice.whole document).offsetIn f.slice).map fun offset =>
      ⟨f.line, offset, f.slice.text⟩ := by
  rcases (partOf_of_mem_findings hf).exists_offsetIn rfl with ⟨offset, hoffset, hstart⟩
  rw [Nat.zero_add] at hstart
  rw [Finding.location, Location.ofSlice?, hstart, hoffset]

end Rule

/-! ## Issues -/

/-- An issue points into a document when it has a location whose text the document holds at its
offset, between characters; the number of the location counts selectors or lines, as the rule
of the issue has it, and the message shows this number and quotes this text. -/
def Issue.PointsInto (issue : Issue) (document : List Char) : Prop :=
  ∃ rule : Rule, ∃ l, issue.ruleId = rule.id ∧ issue.location = some l ∧ l.Marks document ∧
    rule.Locates document l ∧ rule.Words l issue.message

namespace Config

/-- A valid configuration gives a list of issues for every document, and each of them points
into the document. -/
theorem lint_locates (c : Config) (document : List Char) (hvalid : c.validate = .ok ()) :
    ∃ issues, c.lint (Stylesheet.ofText document) = .ok issues ∧
      (c.analyse document).map Analysis.issues = .ok issues ∧
      ∀ issue ∈ issues, issue.PointsInto document := by
  have hlint : c.lint (Stylesheet.ofText document) =
      .ok (c.reported (Stylesheet.ofText document)) :=
    (lint_eq_ok_iff c _ _).mpr ⟨hvalid, rfl⟩
  refine ⟨_, hlint, (map_issues_analyse c document).trans hlint, ?_⟩
  intro issue hissue
  rcases exists_rule_of_mem_reported hissue with ⟨rule, hcheck⟩
  rcases List.mem_map.mp hcheck with ⟨f, hf, rfl⟩
  rcases Rule.location_of_mem_findings hf with ⟨l, hlocation, hmarks, hlocates⟩
  have hrule : f.rule = rule := Rule.rule_of_mem_findings hf
  have hwords := Finding.words_message hlocation
  rw [hrule] at hwords
  exact ⟨rule, l, congrArg Rule.id hrule, hlocation, hmarks, hlocates, hwords⟩

theorem lint_locates_on_second_line :
    (⟨.hint, 3, ["property-order", "color-naming"], []⟩ : Config).validate = .ok () ∧
    ∃ issues, (⟨.hint, 3, ["property-order", "color-naming"], []⟩ : Config).lint
        (Stylesheet.ofText "é\n\u3000\x7b color: #fff; margin: 0; \x7d".toList) = .ok issues ∧
      ((⟨.hint, 3, ["property-order", "color-naming"], []⟩ : Config).analyse
        "é\n\u3000\x7b color: #fff; margin: 0; \x7d".toList).map Analysis.issues = .ok issues ∧
      ∀ issue ∈ issues, issue.PointsInto "é\n\u3000\x7b color: #fff; margin: 0; \x7d".toList :=
  ⟨rfl, lint_locates _ _ rfl⟩

example : ((initial.reported (Stylesheet.ofText
    "é\n\u3000\x7b color: #fff; margin: 0; \x7d".toList)).map Issue.location) =
      [some ⟨1, 0, ['é']⟩, some ⟨1, 0, ['é']⟩, some ⟨2, 21, "margin".toList⟩,
        some ⟨2, 15, "#fff".toList⟩] := by
  decide

end Config

end SheetLint
