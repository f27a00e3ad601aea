import SheetLint.Proofs.Splitting
import SheetLint.Rule.Check

/-!
# Lines by their numbers

The lines of a stylesheet are the trimmed pieces between the line breaks of its text, numbered
from 1.  So what is found about lines can be told apart by the numbers, and what is found under
one number is what is found on the line of that number.

Main results:

- Theorem `Stylesheet.text_lines` gives the numbers and the texts of all lines, and
  `Stylesheet.flatMap_lines` what is read off them.
- Definition `Rule.findingsAt` selects the findings under a number.
- Theorem `Line.exists_filter_flatMap_eq` says that they are found on one line.
-/

namespace SheetLint

/-! ## Numbers and texts -/

namespace Stylesheet

theorem text_lines (text : List Char) :
    ((ofText text).lines.map fun line => (line.number, line.slice.text)) =
      (text.splitOn '\n').mapIdx fun k piece => (k + 1, Text.trim piece) := by
  have hlines : (ofText text).lines = Line.enumerate 1 ((Slice.whole text).split '\n') := rfl
  have hpieces : ((Slice.whole text).split '\n').map Slice.text = text.splitOn '\n' :=
    Slice.map_text_split '\n' (Slice.whole text)
  rw [hlines, ← hpieces, Line.enumerate]
  apply List.ext_getElem
  · simp
  · intro k hk hk'
    simp [Nat.add_comm]

/-- What is read off the number and the text of each line is read off the pieces of the text. -/
theorem flatMap_lines {β : Type} {find : Line → List β} (read : Nat → List Char → List β)
    (hfind : ∀ l : Line, find l = read l.number l.slice.text) (text : List Char) :
    (ofText text).lines.flatMap find =
      ((text.splitOn '\n').mapIdx fun k piece => read (k + 1) (Text.trim piece)).flatten := by
  have hread : (ofText text).lines.flatMap find =
      ((ofText text).lines.map fun l => (l.number, l.slice.text)).flatMap fun p =>
        read p.1 p.2 := by
    rw [List.flatMap_map, funext hfind]
  rw [hread, text_lines, List.flatMap_def, List.mapIdx_eq_zipIdx_map, List.mapIdx_eq_zipIdx_map,
    List.map_map]
  rfl

/-- Every piece of the text between line breaks is a line, numbered by its place. -/
theorem exists_getElem?_lines {text piece : List Char} {k : Nat}
    (hpiece : (text.splitOn '\n')[k]? = some piece) :
    ∃ l, (ofText text).lines[k]? = some l ∧ l.number = k + 1 ∧
      l.slice.text = Text.trim piece := by
  have hline : ((ofText text).lines.map fun line => (line.number, line.slice.text))[k]? =
      some (k + 1, Text.trim piece) := by
    rw [text_lines, List.getElem?_mapIdx, hpiece]
    rfl
  rw [List.getElem?_map, Option.map_eq_some_iff] at hline
  rcases hline with ⟨l, hl, hsame⟩
  exact ⟨l, hl, Prod.mk.inj hsame⟩

end Stylesheet

/-! ## Findings under a number -/

/-- What a rule finds under a number. -/
def Rule.findingsAt (rule : Rule) (document : List Char) (number : Nat) : List Finding :=
  (rule.findings (Stylesheet.ofText document)).filter fun f => f.line = number

namespace Line

/-- One item has each number. -/
theorem filter_zipIdx {α : Type} (items : List α) (first k : Nat) :
    ((items.zipIdx first).filter fun p => p.2 = first + k) =
      (items[k]?.map fun item => (item, first + k)).toList := by
  induction items generalizing first k with
  | nil => simp
  | cons item rest ih =>
    rw [List.zipIdx_cons]
    cases k with
    | zero =>
      have hlater : ((rest.zipIdx (first + 1)).filter fun p => p.2 = first) = [] := by
        rw [List.filter_eq_nil_iff]
        intro p hp hsame
        have hle := List.le_snd_of_mem_zipIdx hp
        rw [decide_eq_true_eq] at hsame
        omega
      simp [hlater]
    | succ k =>
      have hrest := ih (first + 1) k
      rw [Nat.add_right_comm first 1 k, Nat.add_assoc first k 1] at hrest
      simp only [List.getElem?_cons_succ]
      rw [← hrest, List.filter_cons_of_neg (by simp)]

theorem filter_number_lines (document : List Char) (k : Nat) :
    ((Stylesheet.ofText document).lines.filter fun l => l.number = k + 1) =
      (Stylesheet.ofText document).lines[k]?.toList := by
  have hlines : (Stylesheet.ofText document).lines =
      enumerate 1 ((Slice.whole document).split '\n') := rfl
  have hnumber : ((fun l : Line => decide (l.number = k + 1)) ∘
      fun p : Slice × Nat => (⟨p.2, p.1.trim⟩ : Line)) = fun p => decide (p.2 = 1 + k) := by
    funext p
    simp [Nat.add_comm]
  rw [hlines, enumerate, List.filter_map, hnumber, filter_zipIdx, List.getElem?_map,
    List.getElem?_zipIdx]
  cases ((Slice.whole document).split '\n')[k]? <;> rfl

/-- If findings bear the numbers of their lines, those under a number are found on the lines of
that number. -/
theorem filter_flatMap {find : Line → List Finding}
    (hfind : ∀ l : Line, ∀ f ∈ find l, f.line = l.number) (number : Nat) (lines : List Line) :
    ((lines.flatMap find).filter fun f => f.line = number) =
      (lines.filter fun l => l.number = number).flatMap find := by
  induction lines with
  | nil => rfl
  | cons l lines ih =>
    rw [List.flatMap_cons, List.filter_append, ih]
    by_cases hnumber : l.number = number
    · have hall : ((find l).filter fun f => f.line = number) = find l := by
        rw [List.filter_eq_self]
        intro f hf
        rw [hfind l f hf, hnumber, decide_eq_true rfl]
      rw [hall, List.filter_cons_of_pos (by simpa using hnumber), List.flatMap_cons]
    · have hnone : ((find l).filter fun f => f.line = number) = [] := by
        rw [List.filter_eq_nil_iff]
        intro f hf
        rw [hfind l f hf, decide_eq_true_eq]
        exact hnumber
      rw [hnone, List.filter_cons_of_neg (by simpa using hnumber), List.nil_append]

/-- What is found under the number of a piece is found on one line, which holds the trimmed
piece. -/
theorem exists_filter_flatMap_eq {find : Line → List Finding}
    (hfind : ∀ l : Line, ∀ f ∈ find l, f.line = l.number) {document piece : List Char} {k : Nat}
    (hpiece : (document.splitOn '\n')[k]? = some piece) :
    ∃ l ∈ (Stylesheet.ofText document).lines, l.number = k + 1 ∧
      l.slice.text = Text.trim piece ∧
      (((Stylesheet.ofText document).lines.flatMap find).filter fun f => f.line = k + 1) =
        find l := by
  rcases Stylesheet.exists_getElem?_lines hpiece with ⟨l, hl, hnumber, htext⟩
  refine ⟨l, List.mem_of_getElem? hl, hnumber, htext, ?_⟩
  rw [filter_flatMap hfind, filter_number_lines, hl, Option.toList_some, List.flatMap_singleton]

end Line

end SheetLint
