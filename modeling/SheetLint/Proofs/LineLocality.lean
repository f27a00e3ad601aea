import SheetLint.Proofs.Locality

/-!
# Findings behind a line break

The rules about lines look at one line at a time.  So a stylesheet that is put together
from two texts with a line break between them is checked part by part: the second text
gives the findings that it gives by itself, on later lines and further on.

Main results:

- Theorems `Slice.split_shift`, `Declaration.propertyNames_shift` and
  `Declaration.colorValues_shift` say that what is cut from a slice moves with it.
- Theorem `Stylesheet.lines_append_break` gives the lines behind a line break.
- Theorems `Line.orderFindings_shift` and `Line.colorFindings_shift` say that the findings
  about a line move with it.
- Definition `Rule.findingsByLine` checks each line by itself, and
  `Rule.map_shift_findings_eq_findingsByLine` compares it with the check of a whole text.
- Theorem `Rule.composes_at_line_break` is the law of both rules about lines.
-/

namespace SheetLint

/-! ## Cutting a moved slice -/

namespace Slice

theorem take_shift (n bytes : Nat) (s : Slice) : (s.shift bytes).take n = (s.take n).shift bytes :=
  rfl

theorem drop_shift (n bytes : Nat) (s : Slice) :
    (s.shift bytes).drop n = (s.drop n).shift bytes := by
  rw [drop, drop, shift, shift]
  dsimp only
  rw [advance_comm]

theorem takeWhile_shift (p : Char → Bool) (bytes : Nat) (s : Slice) :
    (s.shift bytes).takeWhile p = (s.takeWhile p).shift bytes :=
  rfl

/-- Pieces that are searched for further on are found further on. -/
theorem splitFrom_shift (separator : Char) (bytes : Nat) (start : Option Nat)
    (run text : List Char) :
    splitFrom separator (advance bytes start) run text =
      (splitFrom separator start run text).map (shift bytes) := by
  induction text generalizing start run with
  | nil => rfl
  | cons c rest ih =>
    by_cases hc : c = separator
    · have hrest := ih (advance (Text.byteLength run + c.utf8Size) start) []
      rw [← advance_comm] at hrest
      rw [splitFrom, splitFrom, if_pos hc, if_pos hc, hrest, List.map_cons]
      rfl
    · rw [splitFrom, splitFrom, if_neg hc, if_neg hc]
      exact ih start (c :: run)

theorem split_shift (separator : Char) (bytes : Nat) (s : Slice) :
    (s.shift bytes).split separator = (s.split separator).map (shift bytes) :=
  splitFrom_shift separator bytes s.start [] s.text

end Slice

namespace Declaration

/-- The body of a moved line; a body that lies nowhere does not move. -/
theorem body_shift (bytes : Nat) (line : Slice) :
    body (line.shift bytes) = (body line).shift bytes := by
  unfold body
  rw [Slice.shift_text]
  split
  next => rw [Slice.take_shift, Slice.drop_shift]
  next => rfl

theorem propertyName_shift (bytes : Nat) (declaration : Slice) :
    propertyName (declaration.shift bytes) = (propertyName declaration).shift bytes := by
  rw [propertyName, propertyName, Slice.trim_shift, Slice.takeWhile_shift, Slice.trim_shift]

theorem propertyNames_shift (bytes : Nat) (line : Slice) :
    propertyNames (line.shift bytes) = (propertyNames line).map (Slice.shift bytes) := by
  rw [propertyNames, propertyNames, body_shift, Slice.trim_shift, Slice.split_shift, List.map_map,
    List.map_map]
  apply List.map_congr_left
  intro declaration _
  exact propertyName_shift bytes declaration

theorem scanColors_shift (bytes : Nat) (start : Option Nat) (skip : Nat) (text : List Char) :
    scanColors (Slice.advance bytes start) skip text =
      (scanColors start skip text).map (Slice.shift bytes) := by
  induction text generalizing start skip with
  | nil => rfl
  | cons c rest ih =>
    have hnext (skip : Nat) := ih (Slice.advance c.utf8Size start) skip
    rw [← Slice.advance_comm] at hnext
    cases skip with
    | succ skip => exact hnext skip
    | zero =>
      rw [scanColors, scanColors]
      cases colorExtent? (c :: rest) with
      | none => exact hnext 0
      | some extent =>
        have hmoved : (⟨c :: rest, Slice.advance bytes start⟩ : Slice) =
            (⟨c :: rest, start⟩ : Slice).shift bytes := rfl
        dsimp only
        rw [hnext, hmoved, Slice.drop_shift, Slice.take_shift, Slice.trim_shift, List.map_cons]

theorem colorValues_shift (bytes : Nat) (line : Slice) :
    colorValues (line.shift bytes) = (colorValues line).map (Slice.shift bytes) :=
  scanColors_shift bytes line.start 0 line.text

end Declaration

/-! ## Moving lines -/

namespace Line

/-- The same line under a later number and further on. -/
def shift (numbers bytes : Nat) (l : Line) : Line :=
  ⟨l.number + numbers, l.slice.shift bytes⟩

theorem enumerate_append (first : Nat) (front back : List Slice) :
    enumerate first (front ++ back) =
      enumerate first front ++ enumerate (first + front.length) back := by
  simp [enumerate, List.zipIdx_append]

/-- Numbering moved slices from a later number on moves the numbered lines. -/
theorem enumerate_shift (first numbers bytes : Nat) (slices : List Slice) :
    enumerate (first + numbers) (slices.map (Slice.shift bytes)) =
      (enumerate first slices).map (shift numbers bytes) := by
  apply List.ext_getElem
  · simp [enumerate]
  · intro k hk hk'
    simp only [enumerate, shift, List.getElem_map, List.getElem_zipIdx, Slice.trim_shift,
      Line.mk.injEq, and_true]
    omega

end Line

/-- Behind a line break the lines of a text are those of the rest, moved on. -/
theorem Stylesheet.lines_append_break (before after : List Char) :
    (ofText (before ++ '\n' :: after)).lines =
      (ofText before).lines ++
        (ofText after).lines.map
          (Line.shift (before.count '\n' + 1) (Text.byteLength before + 1)) := by
  have hsize : ('\n' : Char).utf8Size = 1 := by decide
  have hlines (text : List Char) :
      (ofText text).lines = Line.enumerate 1 (Slice.splitFrom '\n' (some 0) [] text) := rfl
  rw [hlines, hlines, hlines, Slice.splitFrom_append_separator, Line.enumerate_append,
    Slice.length_splitFrom, Text.byteLength_nil, Nat.zero_add, hsize, Slice.splitFrom_shift,
    Line.enumerate_shift]

/-! ## Findings about moved lines -/

theorem PropertyOrder.neighbours_map {α β : Type} (f : α → β) (items : List α) :
    neighbours (items.map f) = (neighbours items).map (Prod.map f f) := by
  rw [neighbours, neighbours, ← List.map_tail, List.zip_map]

namespace Line

/-- What is found on a line moves with the line. -/
def MovesWithLine (find : Line → List Finding) : Prop :=
  ∀ numbers bytes l, find (l.shift numbers bytes) = (find l).map (Finding.shift numbers bytes)

theorem orderFindings_shift : MovesWithLine orderFindings := by
  intro numbers bytes l
  have hslice : (l.shift numbers bytes).slice = l.slice.shift bytes := rfl
  rw [orderFindings, orderFindings, hslice, Slice.shift_text]
  split
  next => rfl
  next =>
    rw [Declaration.propertyNames_shift, PropertyOrder.neighbours_map, List.filterMap_map,
      List.map_filterMap]
    congr 1
    funext pair
    by_cases hmisordered : PropertyOrder.isMisordered pair.1.text pair.2.text = true
    · simp [hmisordered, shift, Finding.shift]
    · simp [hmisordered]

theorem colorFindings_shift : MovesWithLine colorFindings := by
  intro numbers bytes l
  have hslice : (l.shift numbers bytes).slice = l.slice.shift bytes := rfl
  rw [colorFindings, colorFindings, hslice, Declaration.colorValues_shift, List.filterMap_map,
    List.map_filterMap]
  congr 1
  funext value
  by_cases hunnamed :
      ColorName.isHexColor value.text = true ∧ ColorName.isDescriptive value.text = false
  · simp [hunnamed, shift, Finding.shift]
  · simp [hunnamed]

/-- What moves with each line moves with all of them. -/
theorem flatMap_lines_append_break {find : Line → List Finding} (hfind : MovesWithLine find)
    (before after : List Char) :
    (Stylesheet.ofText (before ++ '\n' :: after)).lines.flatMap find =
      (Stylesheet.ofText before).lines.flatMap find ++
        ((Stylesheet.ofText after).lines.flatMap find).map
          (Finding.shift (before.count '\n' + 1) (Text.byteLength before + 1)) := by
  rw [Stylesheet.lines_append_break, List.flatMap_append, List.flatMap_map, List.map_flatMap]
  congr 2
  funext l
  exact hfind _ _ l

end Line

/-! ## Line by line -/

namespace Finding

theorem shift_zero : shift 0 0 = id := by
  funext f
  cases f <;> simp [shift, Selector.shift, Slice.shift]

/-- Two moves are one move by the sums. -/
theorem shift_shift (f : Finding) (numbers bytes numbers' bytes' : Nat) :
    (f.shift numbers bytes).shift numbers' bytes' =
      f.shift (numbers + numbers') (bytes + bytes') := by
  cases f <;>
    simp [shift, Selector.shift, Slice.shift, Slice.advance_advance, Nat.add_assoc]

end Finding

namespace Rule

/-- What a rule finds on each of some consecutive lines by itself, behind earlier lines and
their bytes. -/
def findingsByLine (rule : Rule) (numbers bytes : Nat) : List (List Char) → List Finding
  | [] => []
  | line :: rest =>
    (rule.findings (Stylesheet.ofText line)).map (Finding.shift numbers bytes) ++
      rule.findingsByLine (numbers + 1) (bytes + Text.byteLength line + 1) rest

/-- A rule that checks a text part by part at line breaks checks each line by itself. -/
theorem map_shift_findings_eq_findingsByLine (rule : Rule)
    (hbreak : ∀ before after : List Char,
      rule.findings (Stylesheet.ofText (before ++ '\n' :: after)) =
        rule.findings (Stylesheet.ofText before) ++
          (rule.findings (Stylesheet.ofText after)).map
            (Finding.shift (before.count '\n' + 1) (Text.byteLength before + 1)))
    (numbers bytes : Nat) (text : List Char) :
    (rule.findings (Stylesheet.ofText text)).map (Finding.shift numbers bytes) =
      rule.findingsByLine numbers bytes (text.splitOn '\n') := by
  induction text using Text.separator_induction '\n' generalizing numbers bytes with
  | last text htext => simp [List.splitOn_eq_singleton htext, findingsByLine]
  | step line rest hline ih =>
    have hcount : line.count '\n' = 0 := List.count_eq_zero.mpr hline
    have hnumbers : line.count '\n' + 1 + numbers = numbers + 1 := by
      rw [hcount]
      omega
    have hbytes : Text.byteLength line + 1 + bytes = bytes + Text.byteLength line + 1 := by
      omega
    rw [List.splitOn_append_cons_self_of_not_mem hline, findingsByLine, ← ih, hbreak,
      List.map_append, List.map_map]
    congr 2
    funext f
    rw [Function.comp_apply, Finding.shift_shift, hnumbers, hbytes]

/-- Both rules about lines check a text part by part at every line break.  Behind the break the
numbers grow by the number of line breaks up to it and with it, and the offsets by its position
and its own byte.  So what they find on a line is what they find in a text of this line alone. -/
theorem composes_at_line_break :
    (∀ before after : List Char,
      propertyOrder.Composes (before ++ '\n' :: after) before after
        (before.count '\n' + 1) (Text.byteLength before + 1) ∧
      colorNaming.Composes (before ++ '\n' :: after) before after
        (before.count '\n' + 1) (Text.byteLength before + 1)) ∧
    ∀ text : List Char,
      propertyOrder.findings (Stylesheet.ofText text) =
        propertyOrder.findingsByLine 0 0 (text.splitOn '\n') ∧
      colorNaming.findings (Stylesheet.ofText text) =
        colorNaming.findingsByLine 0 0 (text.splitOn '\n') := by
  have horder := Line.flatMap_lines_append_break Line.orderFindings_shift
  have hcolor := Line.flatMap_lines_append_break Line.colorFindings_shift
  refine ⟨fun before after => ⟨?_, ?_⟩, fun text => ⟨?_, ?_⟩⟩
  · exact composes_of_findings (horder before after)
  · exact composes_of_findings (hcolor before after)
  · rw [← map_shift_findings_eq_findingsByLine propertyOrder horder, Finding.shift_zero,
      List.map_id]
  · rw [← map_shift_findings_eq_findingsByLine colorNaming hcolor, Finding.shift_zero, List.map_id]

end Rule

end SheetLint
