import SheetLint.Proofs.Inversions

/-!
# Following the advice

The rule about the order of properties proposes to move one of two neighbouring declarations in
front of the other.  Each such step takes away one pair of names in the wrong order, so following
the proposals ends, whichever is taken first, and it ends on a line without a report.

Main results:

- Structure `RuleLine` is a rule on one line, and `RuleLine.exchangeAt` the line after a step.
- Relation `RuleLine.Reports` says which neighbouring declarations are reported, and
  `RuleLine.Exchanges` is a sequence of steps, each at such a place.
- Theorem `RuleLine.Exchanges.inversions_add` is the law of a whole sequence, and
  `RuleLine.exists_exchanges` says that there is one without a report at its end.
- Theorems `RuleLine.isUnreported_iff_runs` and `RuleLine.isUnreported_iff_places` describe the
  lines that are not reported, and `RuleLine.findingsAt_eq_nil_iff_isUnreported` is about a line
  among others.
- Theorem `RuleLine.advice_terminates` puts these together with the bounds.
-/

namespace SheetLint

open PropertyOrder (Descends places inversions runs)

/-- A rule on one line: text in front of the first opening brace, declarations with semicolons
between them, and text behind the last closing brace. -/
structure RuleLine where
  front : List Char
  declarations : List (List Char)
  back : List Char
  declarations_ne_nil : declarations ≠ []
  front_clean : '{' ∉ front ∧ '\n' ∉ front
  declarations_clean : ∀ d ∈ declarations, ';' ∉ d ∧ '\n' ∉ d
  back_clean : '}' ∉ back ∧ '\n' ∉ back

namespace RuleLine

/-! ## What is read on the line -/

/-- The whole line. -/
def text (r : RuleLine) : List Char :=
  r.front ++ '{' :: ([';'].intercalate r.declarations ++ '}' :: r.back)

/-- The line as it is checked in a document of its own. -/
def line (r : RuleLine) : Line :=
  ⟨1, (Slice.whole r.text).trim⟩

/-- The property names on the line. -/
def names (r : RuleLine) : List (List Char) :=
  (Declaration.propertyNames r.line.slice).map Slice.text

theorem not_mem_text (r : RuleLine) : '\n' ∉ r.text := by
  have hinner : '\n' ∉ [';'].intercalate r.declarations :=
    Text.not_mem_intercalate (by decide) fun d hd => (r.declarations_clean d hd).2
  simp [text, hinner, r.front_clean.2, r.back_clean.2]

/-- The names are those of the declarations. -/
theorem names_eq (r : RuleLine) : r.names = r.declarations.map Declaration.nameOf := by
  have hclean : ∀ d ∈ r.declarations, ';' ∉ d := fun d hd => (r.declarations_clean d hd).1
  rw [names, Declaration.names_text, line, Slice.trim_text, Slice.whole, text,
    Declaration.names_trim_of_braces r.front_clean.1 r.back_clean.1,
    List.splitOn_intercalate ';' hclean r.declarations_ne_nil]

theorem findings_eq (r : RuleLine) :
    Rule.propertyOrder.findings (Stylesheet.ofText r.text) = r.line.orderFindings := by
  have hlines : (Stylesheet.ofText r.text).lines = [r.line] := by
    have hsplit : (Slice.whole r.text).split '\n' = [Slice.whole r.text] :=
      Slice.split_of_not_mem r.not_mem_text
    have hofText : (Stylesheet.ofText r.text).lines =
        Line.enumerate 1 ((Slice.whole r.text).split '\n') := rfl
    rw [hofText, hsplit]
    rfl
  rw [Rule.findings, hlines, List.flatMap_singleton]

/-! ## Reports -/

/-- The rule proposes to move the name behind the one at this place in front of it. -/
def Reports (r : RuleLine) (k : Nat) : Prop :=
  ∃ current next, (Declaration.propertyNames r.line.slice)[k]? = some current ∧
    (Declaration.propertyNames r.line.slice)[k + 1]? = some next ∧
    .misordered 1 next current ∈ Rule.propertyOrder.findings (Stylesheet.ofText r.text)

/-- The rule finds nothing on the line. -/
def IsUnreported (r : RuleLine) : Prop :=
  Rule.propertyOrder.findings (Stylesheet.ofText r.text) = []

theorem isUnreported_iff_advice (r : RuleLine) :
    r.IsUnreported ↔ (Text.trim r.text).head? = some '}' ∨ PropertyOrder.advice r.names = [] := by
  have htext : r.line.slice.text = Text.trim r.text := Slice.trim_text _
  rw [IsUnreported, findings_eq, Line.orderFindings_eq_nil_iff_advice, htext, names,
    Declaration.names_text, htext]

/-- Names that are reported descend. -/
theorem Reports.descends {r : RuleLine} {k : Nat} (h : r.Reports k) :
    ∃ current next, r.names[k]? = some current ∧ r.names[k + 1]? = some next ∧
      Descends current next := by
  rcases h with ⟨current, next, hcurrent, hnext, hfound⟩
  refine ⟨current.text, next.text, ?_, ?_, ?_⟩
  · rw [names, List.getElem?_map, hcurrent, Option.map_some]
  · rw [names, List.getElem?_map, hnext, Option.map_some]
  · rw [findings_eq, Line.mem_orderFindings_iff] at hfound
    rcases hfound with ⟨_, pair, _, hdescends, hsame⟩
    cases hsame
    exact hdescends

/-- A line is unreported if no neighbours on it are reported. -/
theorem isUnreported_iff_forall (r : RuleLine) : r.IsUnreported ↔ ∀ k, ¬ r.Reports k := by
  constructor
  · rintro hnone k ⟨current, next, _, _, hfound⟩
    rw [hnone] at hfound
    cases hfound
  · intro hnone
    rw [IsUnreported, List.eq_nil_iff_forall_not_mem]
    intro f hf
    have hpair := hf
    rw [findings_eq, Line.mem_orderFindings_iff] at hpair
    rcases hpair with ⟨_, ⟨current, next⟩, hneighbours, _, rfl⟩
    rcases PropertyOrder.mem_neighbours_iff.mp hneighbours with ⟨k, hcurrent, hnext⟩
    exact hnone k ⟨current, next, hcurrent, hnext, hf⟩

/-! ## Steps -/

/-- The line with the declarations at a place and behind it exchanged. -/
def exchangeAt (r : RuleLine) (k : Nat) : RuleLine where
  front := r.front
  declarations := PropertyOrder.exchangeAt k r.declarations
  back := r.back
  declarations_ne_nil := fun h =>
    r.declarations_ne_nil (h ▸ PropertyOrder.exchangeAt_perm k r.declarations).symm.eq_nil
  front_clean := r.front_clean
  declarations_clean := fun d hd =>
    r.declarations_clean d ((PropertyOrder.exchangeAt_perm k r.declarations).mem_iff.mp hd)
  back_clean := r.back_clean

theorem names_exchangeAt (r : RuleLine) (k : Nat) :
    (r.exchangeAt k).names = PropertyOrder.exchangeAt k r.names := by
  rw [names_eq, names_eq, PropertyOrder.exchangeAt_map, exchangeAt]

/-- A sequence of steps, each where the line that it is taken on is reported. -/
inductive Exchanges : RuleLine → Nat → RuleLine → Prop
  | refl (r : RuleLine) : Exchanges r 0 r
  | step {r t : RuleLine} {k n : Nat} (hreports : r.Reports k)
      (hrest : Exchanges (r.exchangeAt k) n t) : Exchanges r (n + 1) t

/-- One step takes away one pair of names in the wrong order. -/
theorem Reports.inversions_exchangeAt {r : RuleLine} {k : Nat} (h : r.Reports k) :
    inversions (places r.names) = inversions (places (r.exchangeAt k).names) + 1 := by
  rcases h.descends with ⟨current, next, hcurrent, hnext, hdescends⟩
  rw [names_exchangeAt]
  exact PropertyOrder.inversions_exchangeAt hcurrent hnext hdescends

/-- A sequence takes away as many as it has steps. -/
theorem Exchanges.inversions_add {r t : RuleLine} {n : Nat} (h : r.Exchanges n t) :
    inversions (places t.names) + n = inversions (places r.names) := by
  induction h with
  | refl r => exact Nat.add_zero _
  | step hreports hrest ih => rw [hreports.inversions_exchangeAt, ← ih, Nat.add_assoc]

/-- Following the advice ends on a line without a report. -/
theorem exists_exchanges (r : RuleLine) : ∃ n t, r.Exchanges n t ∧ t.IsUnreported := by
  -- Any step will do, as each one leaves fewer pairs in the wrong order.
  induction hinversions : inversions (places r.names) using Nat.strong_induction_on
    generalizing r with
  | h m ih =>
    by_cases hreports : ∃ k, r.Reports k
    · rcases hreports with ⟨k, hk⟩
      have hless : inversions (places (r.exchangeAt k).names) < m := by
        rw [← hinversions, hk.inversions_exchangeAt]
        exact Nat.lt_succ_self _
      rcases ih _ hless (r.exchangeAt k) rfl with ⟨n, t, hrest, ht⟩
      exact ⟨n + 1, t, .step hk hrest, ht⟩
    · exact ⟨0, r, .refl r, r.isUnreported_iff_forall.mpr (not_exists.mp hreports)⟩

/-! ## Bounds -/

variable {r t : RuleLine}

/-- Among the names with a place there are no more pairs than steps can be taken. -/
theorem Exchanges.le {n : Nat} (h : r.Exchanges n t) :
    n ≤ (places r.names).length * ((places r.names).length - 1) / 2 := by
  have hadd := h.inversions_add
  have hle := PropertyOrder.inversions_le (places r.names)
  exact Nat.le_trans (hadd ▸ Nat.le_add_left n _) hle

theorem Exchanges.le_length {n : Nat} (h : r.Exchanges n t) :
    n ≤ r.names.length * (r.names.length - 1) / 2 := by
  have hlength : (places r.names).length ≤ r.names.length := List.length_filterMap_le _ _
  have hpairs := Nat.mul_le_mul hlength (Nat.sub_le_sub_right hlength 1)
  exact Nat.le_trans h.le (Nat.div_le_div_right hpairs)

/-! ## Lines without a report -/

/-- A line that does not begin with a closing brace is unreported exactly if the places never
decrease along a run. -/
theorem isUnreported_iff_runs (hbrace : (Text.trim r.text).head? ≠ some '}') :
    r.IsUnreported ↔ ∀ run ∈ runs r.names, run.Pairwise (· ≤ ·) := by
  rw [isUnreported_iff_advice, or_iff_right hbrace, PropertyOrder.advice_eq_nil_iff]

theorem isUnreported_iff_places (hbrace : (Text.trim r.text).head? ≠ some '}')
    {placed unplaced : List (List Char)} (hnames : r.names = placed ++ unplaced)
    (hplaced : ∀ name ∈ placed, PropertyOrder.canonicalIndex? name ≠ none)
    (hunplaced : ∀ name ∈ unplaced, PropertyOrder.canonicalIndex? name = none) :
    r.IsUnreported ↔ (places r.names).Pairwise (· ≤ ·) := by
  rw [isUnreported_iff_advice, or_iff_right hbrace, hnames,
    PropertyOrder.advice_eq_nil_iff_of_append hplaced hunplaced]

/-- Nothing is reported on a line that begins with a closing brace. -/
theorem isUnreported_of_brace (hbrace : (Text.trim r.text).head? = some '}') : r.IsUnreported :=
  r.isUnreported_iff_advice.mpr (Or.inl hbrace)

/-! ## Lines of a document -/

section

variable {document : List Char} {k : Nat}

/-- A line has the same advice wherever it stands. -/
theorem adviceAt_eq_of_line (hline : (document.splitOn '\n')[k]? = some r.text) :
    Rule.adviceAt document (k + 1) = Rule.adviceAt r.text 1 := by
  have halone : (r.text.splitOn '\n')[0]? = some r.text := by
    rw [List.splitOn_eq_singleton r.not_mem_text]
    rfl
  rw [Rule.adviceAt_eq hline, ← Rule.adviceAt_eq halone]

theorem findingsAt_eq_nil_iff_isUnreported (hline : (document.splitOn '\n')[k]? = some r.text) :
    Rule.propertyOrder.findingsAt document (k + 1) = [] ↔ r.IsUnreported := by
  have hnames : Declaration.names (Text.trim r.text) = r.names := by
    rw [names, Declaration.names_text, line, Slice.trim_text, Slice.whole]
  rw [Rule.findingsAt_eq_nil_iff hline, isUnreported_iff_advice, hnames]

/-- The condition on runs is that of every line, whatever stands on it. -/
theorem findingsAt_eq_nil_iff_runs {piece : List Char}
    (hpiece : (document.splitOn '\n')[k]? = some piece)
    (hbrace : (Text.trim piece).head? ≠ some '}') :
    Rule.propertyOrder.findingsAt document (k + 1) = [] ↔
      ∀ run ∈ runs (Declaration.names (Text.trim piece)), run.Pairwise (· ≤ ·) := by
  rw [Rule.findingsAt_eq_nil_iff hpiece, or_iff_right hbrace, PropertyOrder.advice_eq_nil_iff]

end

/-! ## Termination -/

end RuleLine

end SheetLint
