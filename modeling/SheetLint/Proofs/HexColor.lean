import SheetLint.Proofs.Coverage
import SheetLint.Proofs.LineNumber
import SheetLint.Proofs.Ordering

/-!
# Numeric colors

A numeric color is a `#` with three or six hexadecimal digits behind it.  Every descriptive word
has a letter that is no hexadecimal digit, so no numeric color is spared for being descriptive,
and the rule about colors reports all of them.

Main results:

- Definition `ColorName.IsLiteral` is the grammar of numeric colors, and
  `ColorName.isHexColor_iff_isLiteral` compares the recogniser with it.
- Theorem `Line.colorFindings_eq_map` says that the findings about a line are its numeric
  colors.
- Theorem `Rule.reports_all_hexColors` describes the issues about colors of every text.
-/

namespace SheetLint

/-! ## The grammar -/

namespace ColorName

/-- The ASCII digits of hexadecimal numbers. -/
def hexDigits : List Char :=
  "0123456789abcdefABCDEF".toList

/-- A `#` with exactly three or exactly six hexadecimal digits behind it, and nothing more. -/
def IsLiteral (value : List Char) : Prop :=
  ∃ digits : List Char, value = '#' :: digits ∧ (digits.length = 3 ∨ digits.length = 6) ∧
    ∀ c ∈ digits, c ∈ hexDigits

theorem toNat_lt_of_isHexDigit {c : Char} (hc : isHexDigit c = true) : c.toNat < 128 := by
  have hle {high : Char} (h : c ≤ high) : c.toNat ≤ high.toNat := h
  simp only [isHexDigit, Char.isDigit, Bool.or_eq_true, Bool.and_eq_true, decide_eq_true_eq] at hc
  rcases hc with (hdigit | hlower) | hupper
  · exact Nat.lt_of_le_of_lt hdigit.2 (by decide)
  · exact Nat.lt_of_le_of_lt (hle hlower.2) (by decide)
  · exact Nat.lt_of_le_of_lt (hle hupper.2) (by decide)

theorem isHexDigit_iff_mem {c : Char} : isHexDigit c = true ↔ c ∈ hexDigits := by
  have htable : ∀ n < 128, isHexDigit (Char.ofNat n) = true → Char.ofNat n ∈ hexDigits := by
    decide
  have hall : hexDigits.all isHexDigit = true := by
    decide
  refine ⟨fun hc => ?_, List.all_eq_true.mp hall c⟩
  have hmem := htable c.toNat (toNat_lt_of_isHexDigit hc)
  rw [Char.ofNat_toNat] at hmem
  exact hmem hc

theorem isHexColor_iff_isLiteral {value : List Char} :
    isHexColor value = true ↔ IsLiteral value := by
  cases value with
  | nil => simp [isHexColor, IsLiteral]
  | cons c digits =>
    simp only [isHexColor, Bool.and_eq_true, Bool.or_eq_true, decide_eq_true_eq, List.all_eq_true,
      isHexDigit_iff_mem]
    constructor
    · rintro ⟨⟨rfl, hlength⟩, hdigits⟩
      exact ⟨digits, rfl, hlength, hdigits⟩
    · rintro ⟨_, hcons, hlength, hdigits⟩
      cases hcons
      exact ⟨⟨rfl, hlength⟩, hdigits⟩

instance : DecidablePred IsLiteral := fun _ => decidable_of_iff _ isHexColor_iff_isLiteral

theorem decide_isLiteral (value : List Char) : decide (IsLiteral value) = isHexColor value := by
  rw [Bool.eq_iff_iff, decide_eq_true_iff, isHexColor_iff_isLiteral]

end ColorName

/-! ## Lines -/

namespace Line

/-- The numeric colors among the color values of a line, from left to right. -/
def literals (line : List Char) : List (List Char) :=
  ((Declaration.colorValues (Slice.detached line)).map Slice.text).filter fun value =>
    ColorName.IsLiteral value

/-- They do not depend on where the line lies. -/
theorem literals_text (s : Slice) :
    literals s.text =
      ((Declaration.colorValues s).filter fun value => ColorName.IsLiteral value.text).map
        Slice.text := by
  have htexts : (Declaration.colorValues (Slice.detached s.text)).map Slice.text =
      (Declaration.colorValues s).map Slice.text := by
    rw [Declaration.map_text_colorValues, Declaration.map_text_colorValues]
    rfl
  rw [literals, htexts, List.filter_map]
  rfl

/-- The findings about the colors of a line are its numeric colors, from left to right. -/
theorem colorFindings_eq_map (l : Line) :
    l.colorFindings =
      ((Declaration.colorValues l.slice).filter fun value => ColorName.IsLiteral value.text).map
        fun value => .unnamedColor l.number value := by
  rw [colorFindings, ← List.filterMap_eq_map, List.filterMap_filter]
  congr 1
  funext value
  rw [ColorName.decide_isLiteral]
  cases hhex : ColorName.isHexColor value.text with
  | false => simp
  | true => simp [ColorName.isDescriptive_of_isHexColor hhex]

end Line

/-! ## Stylesheets -/

namespace Finding

/-- The number and the text of a finding are those of its location. -/
theorem map_location {f : Finding} {l : Location} (hlocation : f.location = some l) :
    (l.line, l.span) = (f.line, f.slice.text) := by
  rcases Option.map_eq_some_iff.mp hlocation with ⟨offset, _, rfl⟩
  rfl

end Finding

namespace Rule

/-- Every issue of a rule has a location, with the number and the text of its finding. -/
theorem map_location_check (rule : Rule) (document : List Char) :
    ((rule.check (Stylesheet.ofText document)).map fun issue =>
        issue.location.map fun l => (l.line, l.span)) =
      (rule.findings (Stylesheet.ofText document)).map fun f => some (f.line, f.slice.text) := by
  rw [check, List.map_map]
  apply List.map_congr_left
  intro f hf
  rcases location_of_mem_findings hf with ⟨l, hlocation, -⟩
  have hissue : f.toIssue.location = some l := hlocation
  rw [Function.comp_apply, hissue, Option.map_some, Finding.map_location hlocation]

/-- The colors that are reported for a text are the numeric ones among the values of its lines,
under the numbers of these lines. -/
theorem map_location_check_colorNaming (text : List Char) :
    ((colorNaming.check (Stylesheet.ofText text)).map fun issue =>
        issue.location.map fun l => (l.line, l.span)) =
      ((text.splitOn '\n').mapIdx fun k piece =>
        (Line.literals (Text.trim piece)).map fun value => some (k + 1, value)).flatten := by
  rw [map_location_check, findings, List.map_flatMap]
  refine Stylesheet.flatMap_lines
    (fun number line => (Line.literals line).map fun value => some (number, value)) ?_ text
  intro l
  rw [Line.literals_text, Line.colorFindings_eq_map, List.map_map, List.map_map]
  rfl

/-- A value is recognised as a numeric color exactly if it is a `#` with three or six hexadecimal
digits behind it, and then it is not descriptive.  So the issues about colors of a text are its
numeric colors, one for each such value on each line, line by line and from left to right: they
are the issues that the rule reports and those of its category in the default analysis. -/
theorem reports_all_hexColors (text : List Char) :
    (∀ value : List Char, ColorName.isHexColor value = true ↔ ColorName.IsLiteral value) ∧
    (∀ value : List Char, ColorName.isHexColor value = true →
      ColorName.isDescriptive value = false) ∧
    colorNaming.check (Stylesheet.ofText text) =
      ((Stylesheet.ofText text).lines.flatMap fun l =>
        ((Declaration.colorValues l.slice).filter fun value =>
          ColorName.IsLiteral value.text).map fun value =>
            (Finding.unnamedColor l.number value).toIssue) ∧
    ((colorNaming.check (Stylesheet.ofText text)).map fun issue =>
        issue.location.map fun l => (l.line, l.span)) =
      ((text.splitOn '\n').mapIdx fun k piece =>
        (Line.literals (Text.trim piece)).map fun value => some (k + 1, value)).flatten ∧
    (Analysis.ofText text).inCategory .colorNaming =
      colorNaming.check (Stylesheet.ofText text) := by
  refine ⟨fun value => ColorName.isHexColor_iff_isLiteral,
    fun value => ColorName.isDescriptive_of_isHexColor, ?_, map_location_check_colorNaming text, ?_⟩
  · rw [check, findings, List.map_flatMap]
    congr 1
    funext l
    rw [Line.colorFindings_eq_map, List.map_map]
    rfl
  · have hrules : (all.filter fun rule => rule.category = .colorNaming) = [colorNaming] :=
      inCategory_category colorNaming
    rw [Analysis.inCategory, Analysis.issues_ofText, filter_flatMap_check, hrules,
      List.flatMap_singleton]

example : ((colorNaming.check (Stylesheet.ofText
    "a \x7b color: #FFF;\n border-color: #00ff00; color: #ff00; color: #fff \x7d".toList)).map
      fun issue => issue.location.map fun l => (l.line, String.ofList l.span)) =
    [some (1, "#FFF"), some (2, "#00ff00")] := by
  decide

end Rule

end SheetLint
