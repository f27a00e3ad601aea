import SheetLint.Proofs.ColorScan
import SheetLint.Proofs.Location

/-!
# The order of issues

Issues are grouped by category, and in each group they follow the stylesheet from its
beginning to its end without overlapping.  Every cut that the rules make, at braces, line
breaks, semicolons and behind color values, leaves at least one byte between what it
separates; this is what keeps the issues apart.

Main results:

- Relation `Slice.Apart` holds of slices with a byte between them, and
  `Slice.Apart.of_partOf` hands it on to whatever is cut from the two.
- Theorems `Slice.pairwise_split`, `Selector.pairwise_runs` and
  `Declaration.pairwise_scanColors` say that the searches find slices that lie apart.
- Theorem `Rule.pairwise_check` orders the issues of a rule, and
  `Rule.eq_flatMap_category_of_sublist` says that any choice of issues is grouped.
- Theorem `Config.analyse_ordered` puts both together for every configuration and text.
-/

namespace SheetLint

/-! ## Slices that lie apart -/

namespace Slice

/-- One slice ends, and at least one byte further on another one begins. -/
def Apart (first second : Slice) : Prop :=
  ∃ start start', first.start = some start ∧ second.start = some start' ∧
    start + first.byteLength < start'

variable {first second part part' s : Slice}

/-- Parts of slices that lie apart lie apart. -/
theorem Apart.of_partOf (hapart : first.Apart second) (hpart : part.PartOf first)
    (hpart' : part'.PartOf second) : part.Apart part' := by
  rcases hapart with ⟨start, start', hstart, hstart', hbound⟩
  rcases hpart with ⟨before, after, htext, hpstart⟩
  rcases hpart' with ⟨before', after', _, hpstart'⟩
  rw [hstart, advance_some] at hpstart
  rw [hstart', advance_some] at hpstart'
  refine ⟨_, _, hpstart, hpstart', ?_⟩
  have hlength : first.byteLength =
      Text.byteLength before + part.byteLength + Text.byteLength after := by
    rw [byteLength, htext, Text.byteLength_append, Text.byteLength_append, byteLength]
  omega

theorem PartOf.exists_start (hpart : part.PartOf s) {start : Nat} (hstart : s.start = some start) :
    ∃ start', part.start = some start' := by
  rcases hpart with ⟨before, _, _, hpstart⟩
  rw [hstart] at hpstart
  exact ⟨_, hpstart⟩

/-- The pieces of a split slice lie apart, for a separator stands between them. -/
theorem pairwise_split (separator : Char) {start : Nat} (hstart : s.start = some start) :
    (s.split separator).Pairwise Apart := by
  rcases s with ⟨text, origin⟩
  obtain rfl : origin = some start := hstart
  induction text using Text.separator_induction separator generalizing start with
  | last text htext =>
    rw [split_of_not_mem htext]
    exact List.pairwise_singleton _ _
  | step piece rest hpiece ih =>
    rw [split_append hpiece, List.pairwise_cons]
    refine ⟨fun later hlater => ?_, ih⟩
    have hbehind : (⟨piece, some start⟩ : Slice).Apart
        ⟨rest, some (start + (Text.byteLength piece + separator.utf8Size))⟩ := by
      refine ⟨_, _, rfl, rfl, ?_⟩
      have hpos := separator.utf8Size_pos
      dsimp only [byteLength]
      omega
    exact hbehind.of_partOf (PartOf.refl _) (PartOf.split hlater)

/-- Numbering keeps the order. -/
theorem pairwise_zipIdx {slices : List Slice} (hapart : slices.Pairwise Apart) (first : Nat) :
    (slices.zipIdx first).Pairwise fun p q => p.2 < q.2 ∧ p.1.Apart q.1 := by
  rw [List.pairwise_iff_getElem] at hapart ⊢
  intro i j hi hj hij
  rw [List.length_zipIdx] at hi hj
  simp only [List.getElem_zipIdx]
  exact ⟨by omega, hapart i j hi hj hij⟩

end Slice

/-! ## Selectors and lines -/

namespace Selector

/-- The runs of a text lie apart, for a brace stands between them. -/
theorem pairwise_runs (offset : Nat) (text : List Char) :
    (runs offset text).Pairwise fun run run' =>
      (⟨run.2, some run.1⟩ : Slice).Apart ⟨run'.2, some run'.1⟩ := by
  induction text using Text.separator_induction '{' generalizing offset with
  | last text htext =>
    rw [runs_of_not_mem htext]
    exact List.Pairwise.nil
  | step piece rest hpiece ih =>
    rw [runs_append hpiece]
    by_cases hempty : piece = []
    · simpa [hempty] using ih (offset + 1)
    · rw [if_neg hempty, List.singleton_append, List.pairwise_cons]
      refine ⟨fun later hlater => ?_, ih _⟩
      have hbehind : (⟨piece, some offset⟩ : Slice).Apart
          ⟨rest, some (offset + Text.byteLength piece + 1)⟩ :=
        ⟨_, _, rfl, rfl, Nat.lt_succ_self _⟩
      exact hbehind.of_partOf (Slice.PartOf.refl _) (partOf_of_mem_runs hlater)

/-- The selectors of a document lie apart, and their ordinals grow. -/
theorem pairwise_selectors (document : List Char) :
    (Stylesheet.ofText document).selectors.Pairwise fun s t =>
      s.ordinal < t.ordinal ∧ s.slice.Apart t.slice := by
  have hscan : (scan (some 0) [] document).Pairwise Slice.Apart := by
    rw [scan_eq_map_runs, List.pairwise_map]
    apply (pairwise_runs 0 document).imp
    intro run run' hapart
    have htrim (run : Nat × List Char) : (trimRun run).PartOf ⟨run.2, some run.1⟩ := by
      rw [trimRun_eq_trim]
      exact (Slice.PartOf.refl _).trim
    exact hapart.of_partOf (htrim run) (htrim run')
  have hselectors : (Stylesheet.ofText document).selectors =
      enumerate 1 (scan (some 0) [] document) := rfl
  rw [hselectors, enumerate, List.pairwise_map]
  exact Slice.pairwise_zipIdx hscan 1

end Selector

/-- The lines of a document lie apart, and their numbers grow. -/
theorem Line.pairwise_lines (document : List Char) :
    (Stylesheet.ofText document).lines.Pairwise fun l m =>
      l.number < m.number ∧ l.slice.Apart m.slice := by
  have hlines : (Stylesheet.ofText document).lines =
      enumerate 1 ((⟨document, some 0⟩ : Slice).split '\n') := rfl
  rw [hlines, enumerate, List.pairwise_map]
  apply (Slice.pairwise_zipIdx (Slice.pairwise_split '\n' rfl) 1).imp
  intro p q h
  exact ⟨h.1, h.2.of_partOf (Slice.PartOf.refl _).trim (Slice.PartOf.refl _).trim⟩

/-! ## Property names and colors -/

namespace Declaration

theorem partOf_propertyName (declaration : Slice) :
    (propertyName declaration).PartOf declaration :=
  ((Slice.PartOf.refl declaration).trim.takeWhile _).trim

/-- The property names on a line lie apart; a body that lies nowhere has only one. -/
theorem pairwise_propertyNames {line : Slice} {start : Nat} (hstart : line.start = some start) :
    (propertyNames line).Pairwise Slice.Apart := by
  rw [propertyNames, List.pairwise_map]
  unfold body
  split
  next =>
    rcases (((Slice.PartOf.refl line).take _).drop _).trim.exists_start hstart with ⟨_, hbody⟩
    apply (Slice.pairwise_split ';' hbody).imp
    intro declaration declaration' hapart
    exact hapart.of_partOf (partOf_propertyName _) (partOf_propertyName _)
  next => exact List.pairwise_singleton _ _

/-- A color value never begins a text, for its label stands in front of it. -/
theorem partOf_tail_of_mem_scanColors {start : Option Nat} {skip : Nat} {c : Char}
    {rest : List Char} {value : Slice} (hvalue : value ∈ scanColors start skip (c :: rest)) :
    value.PartOf ⟨rest, Slice.advance c.utf8Size start⟩ := by
  cases skip with
  | succ skip => exact partOf_of_mem_scanColors hvalue
  | zero =>
    rw [scanColors] at hvalue
    cases hextent : colorExtent? (c :: rest) with
    | none =>
      simp only [hextent] at hvalue
      exact partOf_of_mem_scanColors hvalue
    | some extent =>
      simp only [hextent, List.mem_cons] at hvalue
      rcases hvalue with rfl | hlater
      · obtain ⟨n, hn⟩ : ∃ n, extent.1 = n + 1 :=
          ⟨extent.1 - 1, by have := label_pos_of_colorExtent? hextent; omega⟩
        have hdrop : (⟨c :: rest, start⟩ : Slice).drop extent.1 =
            (⟨rest, Slice.advance c.utf8Size start⟩ : Slice).drop n := by
          rw [hn]
          simp [Slice.drop, Slice.advance_advance]
        rw [hdrop]
        exact (((Slice.PartOf.refl _).drop _).take _).trim
      · exact partOf_of_mem_scanColors hlater

/-- The color values of a text lie apart. -/
theorem pairwise_scanColors (start skip : Nat) (text : List Char) :
    (scanColors (some start) skip text).Pairwise Slice.Apart := by
  induction text generalizing start skip with
  | nil => exact List.Pairwise.nil
  | cons c rest ih =>
    cases skip with
    | succ skip => exact ih _ skip
    | zero =>
      rw [scanColors]
      cases hextent : colorExtent? (c :: rest) with
      | none => exact ih _ 0
      | some extent =>
        rcases extent with ⟨label, value⟩
        refine List.pairwise_cons.mpr ⟨fun later hlater => ?_, ih _ _⟩
        have hlabel := label_pos_of_colorExtent? hextent
        obtain ⟨n, hn⟩ : ∃ n, label + value = n + 1 := ⟨label + value - 1, by omega⟩
        have hskip : label + value - 1 = n := by omega
        rw [hskip, scanColors_skip] at hlater
        cases hbehind : rest.drop n with
        | nil =>
          rw [hbehind] at hlater
          cases hlater
        | cons c' rest' =>
          rw [hbehind] at hlater
          refine Slice.Apart.of_partOf ⟨_, _, rfl, rfl, ?_⟩ (Slice.PartOf.refl _).trim
            (partOf_tail_of_mem_scanColors hlater)
          have hpos := c'.utf8Size_pos
          have htake : Text.byteLength ((c :: rest).take (n + 1)) =
              Text.byteLength ((c :: rest).take label) +
                Text.byteLength (((c :: rest).drop label).take value) := by
            rw [← hn, List.take_add, Text.byteLength_append]
          rw [List.take_succ_cons, Text.byteLength_cons] at htake
          dsimp only [Slice.byteLength, Slice.take, Slice.drop]
          omega

end Declaration

/-! ## Findings -/

/-- Neighbouring pairs are ordered by their second members as the whole list is. -/
theorem PropertyOrder.pairwise_neighbours {α : Type} {R : α → α → Prop} {items : List α}
    (hitems : items.Pairwise R) : (neighbours items).Pairwise fun p q => R p.2 q.2 := by
  have hseconds : (neighbours items).map Prod.snd = items.tail := by
    rw [neighbours, List.map_snd_zip]
    rw [List.length_tail]
    omega
  rw [← List.pairwise_map, hseconds]
  exact hitems.sublist (List.tail_sublist items)

namespace Line

variable {l : Line} {start : Nat}

theorem pairwise_orderFindings (hstart : l.slice.start = some start) :
    l.orderFindings.Pairwise fun f g => f.slice.Apart g.slice := by
  unfold orderFindings
  split
  next => exact List.Pairwise.nil
  next =>
    rw [List.pairwise_filterMap]
    apply (PropertyOrder.pairwise_neighbours
      (Declaration.pairwise_propertyNames hstart)).imp
    rintro ⟨_, next⟩ ⟨_, next'⟩ hapart f hf g hg
    dsimp only at hf hg
    split at hf <;> cases hf
    split at hg <;> cases hg
    exact hapart

theorem pairwise_colorFindings (hstart : l.slice.start = some start) :
    l.colorFindings.Pairwise fun f g => f.slice.Apart g.slice := by
  have hvalues : (Declaration.colorValues l.slice).Pairwise Slice.Apart := by
    rw [Declaration.colorValues, hstart]
    exact Declaration.pairwise_scanColors start 0 l.slice.text
  rw [colorFindings, List.pairwise_filterMap]
  apply hvalues.imp
  intro value value' hapart f hf g hg
  split at hf <;> cases hf
  split at hg <;> cases hg
  exact hapart

/-- What is found on the lines of a document lies apart, and its numbers do not decrease. -/
theorem pairwise_flatMap_lines {find : Line → List Finding} {document : List Char}
    (hsubject : ∀ l : Line, ∀ f ∈ find l,
      f.line = l.number ∧ (∀ s ∈ f.quoted, s.PartOf l.slice) ∧ f.slice.text ≠ [])
    (hline : ∀ l : Line, ∀ start, l.slice.start = some start →
      (find l).Pairwise fun f g => f.slice.Apart g.slice) :
    ((Stylesheet.ofText document).lines.flatMap find).Pairwise fun f g =>
      f.line ≤ g.line ∧ f.slice.Apart g.slice := by
  rw [List.pairwise_flatMap]
  constructor
  · intro l hl
    rcases exists_offset_of_partOf hl (Slice.PartOf.refl _) with ⟨_, start, hstart, _⟩
    apply (hline l start hstart).imp_of_mem
    intro f g hf hg hapart
    rw [(hsubject l f hf).1, (hsubject l g hg).1]
    exact ⟨Nat.le_refl _, hapart⟩
  · apply (pairwise_lines document).imp
    intro l m hlines f hf g hg
    rcases hsubject l f hf with ⟨hfline, hfquoted, _⟩
    rcases hsubject m g hg with ⟨hgline, hgquoted, _⟩
    rw [hfline, hgline]
    exact ⟨Nat.le_of_lt hlines.1, hlines.2.of_partOf (hfquoted _ f.slice_mem_quoted)
      (hgquoted _ g.slice_mem_quoted)⟩

end Line

/-- What is found about the selectors of a document lies apart, and its ordinals grow. -/
theorem Selector.pairwise_filterMap_selectors {find? : Selector → Option Finding}
    {document : List Char}
    (hsubject : ∀ s f, find? s = some f → f.line = s.ordinal ∧ f.slice = s.slice) :
    ((Stylesheet.ofText document).selectors.filterMap find?).Pairwise fun f g =>
      f.line < g.line ∧ f.slice.Apart g.slice := by
  rw [List.pairwise_filterMap]
  apply (pairwise_selectors document).imp
  intro s t hst f hf g hg
  rcases hsubject s f hf with ⟨hfline, hfslice⟩
  rcases hsubject t g hg with ⟨hgline, hgslice⟩
  rw [hfline, hfslice, hgline, hgslice]
  exact hst

/-! ## Issues -/

/-- One issue comes in front of another one when its text begins earlier and ends before the
text of the other begins, and its number is not greater; issues about selectors count different
selectors. -/
def Issue.Precedes (first second : Issue) : Prop :=
  ∃ l m, first.location = some l ∧ second.location = some m ∧ l.offset < m.offset ∧
    l.offset + l.byteLength ≤ m.offset ∧ l.line ≤ m.line ∧
    (first.category = .selectorNaming ∨ first.category = .specificity → l.line < m.line)

theorem Issue.filter_category_eq_self {issues : List Issue} {category : Category}
    (hall : ∀ issue ∈ issues, issue.category = category) :
    (issues.filter fun issue => issue.category = category) = issues := by
  rw [List.filter_eq_self]
  intro issue hissue
  rw [decide_eq_true_eq, hall issue hissue]

theorem Issue.filter_category_eq_nil {issues : List Issue} {category : Category}
    (hnone : ∀ issue ∈ issues, issue.category ≠ category) :
    (issues.filter fun issue => issue.category = category) = [] := by
  rw [List.filter_eq_nil_iff]
  intro issue hissue
  rw [decide_eq_true_eq]
  exact hnone issue hissue

namespace Rule

/-- Findings that follow the stylesheet make issues that do. -/
theorem pairwise_check_of_findings {rule : Rule} {sheet : Stylesheet}
    (hfindings : (rule.findings sheet).Pairwise fun f g =>
      f.slice.Apart g.slice ∧ f.line ≤ g.line ∧
        (rule.category = .selectorNaming ∨ rule.category = .specificity → f.line < g.line)) :
    (rule.check sheet).Pairwise Issue.Precedes := by
  rw [check, List.pairwise_map]
  apply hfindings.imp_of_mem
  rintro f g hf _ ⟨⟨start, start', hstart, hstart', hbound⟩, hle, hlt⟩
  have hlocation (h : Finding) (offset : Nat) (hoffset : h.slice.start = some offset) :
      h.toIssue.location = some ⟨h.line, offset, h.slice.text⟩ := by
    simp [Finding.toIssue, Finding.location, Location.ofSlice?, hoffset]
  refine ⟨_, _, hlocation f start hstart, hlocation g start' hstart', ?_, ?_, hle, ?_⟩
  · dsimp only
    omega
  · exact Nat.le_of_lt hbound
  · rw [Finding.toIssue_category, rule_of_mem_findings hf]
    exact hlt

/-- The issues of a rule follow the stylesheet. -/
theorem pairwise_check (rule : Rule) (document : List Char) :
    (rule.check (Stylesheet.ofText document)).Pairwise Issue.Precedes := by
  apply pairwise_check_of_findings
  cases rule with
  | selectorNaming =>
    apply (Selector.pairwise_filterMap_selectors
      fun _ _ => Selector.subject_of_namingFinding?).imp
    intro f g h
    exact ⟨h.2, Nat.le_of_lt h.1, fun _ => h.1⟩
  | lowSpecificity =>
    apply (Selector.pairwise_filterMap_selectors
      fun _ _ => Selector.subject_of_specificityFinding?).imp
    intro f g h
    exact ⟨h.2, Nat.le_of_lt h.1, fun _ => h.1⟩
  | propertyOrder =>
    apply (Line.pairwise_flatMap_lines (fun _ _ => Line.subject_of_mem_orderFindings)
      fun _ _ => Line.pairwise_orderFindings).imp
    intro f g h
    exact ⟨h.2, h.1, by simp [category]⟩
  | colorNaming =>
    apply (Line.pairwise_flatMap_lines (fun _ _ => Line.subject_of_mem_colorFindings)
      fun _ _ => Line.pairwise_colorFindings).imp
    intro f g h
    exact ⟨h.2, h.1, by simp [category]⟩

/-- The issues of a category are those of its rules. -/
theorem filter_flatMap_check (rules : List Rule) (sheet : Stylesheet) (category : Category) :
    ((rules.flatMap fun rule => rule.check sheet).filter fun issue => issue.category = category) =
      (rules.filter fun rule => rule.category = category).flatMap fun rule => rule.check sheet := by
  induction rules with
  | nil => rfl
  | cons rule rest ih =>
    rw [List.flatMap_cons, List.filter_append, ih]
    by_cases hcategory : rule.category = category
    · have hall : ((rule.check sheet).filter fun issue => issue.category = category) =
          rule.check sheet := by
        apply Issue.filter_category_eq_self
        intro issue hissue
        rw [(stamp_of_mem_check hissue).2.1, hcategory]
      rw [hall, List.filter_cons_of_pos (by simpa using hcategory), List.flatMap_cons]
    · have hnone : ((rule.check sheet).filter fun issue => issue.category = category) = [] := by
        apply Issue.filter_category_eq_nil
        intro issue hissue
        rw [(stamp_of_mem_check hissue).2.1]
        exact hcategory
      rw [hnone, List.filter_cons_of_neg (by simpa using hcategory), List.nil_append]

/-- Every category has a rule. -/
theorem exists_category (category : Category) : ∃ rule : Rule, rule.category = category := by
  cases category with
  | selectorNaming => exact ⟨.selectorNaming, rfl⟩
  | specificity => exact ⟨.lowSpecificity, rfl⟩
  | propertyOrder => exact ⟨.propertyOrder, rfl⟩
  | colorNaming => exact ⟨.colorNaming, rfl⟩

/-- The issues of a category, among those of all rules, follow the stylesheet. -/
theorem pairwise_filter_category (document : List Char) (category : Category) :
    ((all.flatMap fun rule => rule.check (Stylesheet.ofText document)).filter fun issue =>
      issue.category = category).Pairwise Issue.Precedes := by
  rcases exists_category category with ⟨rule, rfl⟩
  have hrules : (all.filter fun other => other.category = rule.category) = [rule] :=
    inCategory_category rule
  rw [filter_flatMap_check, hrules, List.flatMap_singleton]
  exact pairwise_check rule document

/-- A choice of issues of some rules is grouped by their categories, if these are different. -/
theorem eq_flatMap_category_of_sublist {rules : List Rule} {sheet : Stylesheet}
    {issues : List Issue} (hdistinct : (rules.map category).Nodup)
    (hissues : issues.Sublist (rules.flatMap fun rule => rule.check sheet)) :
    issues = (rules.map category).flatMap fun category =>
      issues.filter fun issue => issue.category = category := by
  induction rules generalizing issues with
  | nil =>
    rw [List.flatMap_nil, List.sublist_nil] at hissues
    rw [hissues]
    rfl
  | cons rule rest ih =>
    rw [List.flatMap_cons, List.sublist_append_iff] at hissues
    rcases hissues with ⟨front, back, rfl, hfront, hback⟩
    rw [List.map_cons, List.nodup_cons] at hdistinct
    have hfrontCategory : ∀ issue ∈ front, issue.category = rule.category := by
      intro issue hissue
      exact (stamp_of_mem_check (hfront.subset hissue)).2.1
    have hbackCategory : ∀ issue ∈ back, issue.category ∈ rest.map category := by
      intro issue hissue
      rcases List.mem_flatMap.mp (hback.subset hissue) with ⟨other, hother, hcheck⟩
      rw [(stamp_of_mem_check hcheck).2.1]
      exact List.mem_map_of_mem hother
    have hhead : ((front ++ back).filter fun issue => issue.category = rule.category) = front := by
      have hnone : (back.filter fun issue => issue.category = rule.category) = [] := by
        apply Issue.filter_category_eq_nil
        intro issue hissue hsame
        exact hdistinct.1 (hsame ▸ hbackCategory issue hissue)
      rw [List.filter_append, hnone, List.append_nil, Issue.filter_category_eq_self hfrontCategory]
    have htail (other : Category) (hother : other ∈ rest.map category) :
        ((front ++ back).filter fun issue => issue.category = other) =
          back.filter fun issue => issue.category = other := by
      have hnone : (front.filter fun issue => issue.category = other) = [] := by
        apply Issue.filter_category_eq_nil
        intro issue hissue hsame
        rw [hfrontCategory issue hissue] at hsame
        exact hdistinct.1 (hsame ▸ hother)
      rw [List.filter_append, hnone, List.nil_append]
    rw [List.map_cons, List.flatMap_cons, hhead, List.flatMap_congr htail, ← ih hdistinct.2 hback]

end Rule

/-! ## Analyses -/

namespace Config

/-- What a configuration reports is a choice from the issues of all rules. -/
theorem reported_sublist (c : Config) (sheet : Stylesheet) :
    (c.reported sheet).Sublist (Rule.all.flatMap fun rule => rule.check sheet) := by
  unfold reported truncate
  split
  next => exact List.filter_sublist
  next => exact (List.take_sublist _ _).trans List.filter_sublist

/-- A valid configuration gives an analysis for every text.  Its issues are grouped by category,
in the order of the categories; every issue has a location, and in each group the issues follow
the text without overlapping. -/
theorem analyse_ordered (c : Config) (text : List Char) (hvalid : c.validate = .ok ()) :
    ∃ a, c.analyse text = .ok a ∧
      a.issues = Category.all.flatMap a.inCategory ∧
      (∀ category, ∀ issue ∈ a.inCategory category,
        issue.category = category ∧ issue.location.isSome = true) ∧
      ∀ category, (a.inCategory category).Pairwise Issue.Precedes := by
  have hanalysis : c.analyse text = .ok (Analysis.run c text) := by rw [analyse, hvalid]
  have hissues := reported_sublist c (Stylesheet.ofText text)
  rw [← run_issues] at hissues
  refine ⟨Analysis.run c text, hanalysis, ?_, ?_, ?_⟩
  · have hcategories : Category.all = Rule.all.map Rule.category := rfl
    rw [hcategories]
    exact Rule.eq_flatMap_category_of_sublist (by decide) hissues
  · intro category issue hissue
    rcases List.mem_filter.mp hissue with ⟨hmem, hcategory⟩
    rcases List.mem_flatMap.mp (hissues.subset hmem) with ⟨rule, _, hcheck⟩
    rcases List.mem_map.mp hcheck with ⟨f, hf, rfl⟩
    rcases Rule.location_of_mem_findings hf with ⟨l, hlocation, _, _⟩
    exact ⟨of_decide_eq_true hcategory, Option.isSome_iff_exists.mpr ⟨l, hlocation⟩⟩
  · intro category
    exact (Rule.pairwise_filter_category text category).sublist (hissues.filter _)

theorem analyse_ordered_with_limit :
    (⟨.info, 4, [], ["low-specificity"]⟩ : Config).validate = .ok () ∧
    ∃ a, (⟨.info, 4, [], ["low-specificity"]⟩ : Config).analyse
        "é\x7bx\x7bcolor: #fff; top: 0; \x7d\nb\x7bcolor: #ABC; left: 0 \x7d".toList = .ok a ∧
      a.issues = Category.all.flatMap a.inCategory ∧
      (∀ category, ∀ issue ∈ a.inCategory category,
        issue.category = category ∧ issue.location.isSome = true) ∧
      ∀ category, (a.inCategory category).Pairwise Issue.Precedes :=
  ⟨rfl, analyse_ordered _ _ rfl⟩

end Config

end SheetLint
