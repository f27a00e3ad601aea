import SheetLint.Proofs.Blocks
import SheetLint.Proofs.Digits
import SheetLint.Proofs.WordCount
import SheetLint.Sample.Synthetic

/-!
# Blocks of synthetic stylesheets

A synthetic stylesheet is made of blocks over several lines, each with its index in it: as letters
and as a decimal number in a tidy block, and as a decimal and a hexadecimal number in a faulty one.

Main results:

- Definitions `Synthetic.tidy` and `Synthetic.faulty` are the blocks, and
  `Synthetic.toList_text` says that a synthetic stylesheet is made of them.
- Definition `Synthetic.quoted` spells out what is quoted of each block, and
  `Synthetic.quoted_blockOf` says that this is what the selectors carry.
-/

namespace SheetLint

namespace Sample.Synthetic

open Numeral (letters lowerHex)

/-! ## Declarations -/

/-- The declaration of a position. -/
def position : Declared :=
  ⟨"position".toList, "relative".toList, by decide, by decide, by decide⟩

/-- The declaration of a display mode. -/
def display : Declared :=
  ⟨"display".toList, "block".toList, by decide, by decide, by decide⟩

/-- The declaration of a margin. -/
def margin : Declared :=
  ⟨"margin".toList, "0".toList, by decide, by decide, by decide⟩

theorem not_mem_pixels {c : Char} (hdigit : c.isDigit = false) (hunit : c ∉ "px".toList) (i : Nat) :
    c ∉ (toString i).toList ++ "px".toList := by
  rw [List.mem_append]
  exact fun h => h.elim
    (Text.not_mem_of_kind (fun _ => Numeral.isDigit_of_mem_toString) hdigit) hunit

theorem not_mem_hex {c : Char} (hdigit : ColorName.isHexDigit c = false) (hmark : c ≠ '#')
    (i : Nat) : c ∉ '#' :: lowerHex 6 i := by
  rw [List.mem_cons]
  exact fun h => h.elim hmark
    (Text.not_mem_of_kind (fun _ => Numeral.isHexDigit_of_mem_lowerHex) hdigit)

/-- The declaration of a padding, which is different in each block. -/
def padding (i : Nat) : Declared :=
  ⟨"padding".toList, (toString i).toList ++ "px".toList, by decide, by decide,
    not_mem_pixels rfl (by decide) i⟩

/-- The declaration of a color, which is different in each block. -/
def color (i : Nat) : Declared :=
  ⟨"color".toList, '#' :: lowerHex 6 i, by decide, by decide, not_mem_hex rfl (by decide) i⟩

theorem isPlain_position : position.IsPlain :=
  Declared.isPlain_of_clean (by decide) (List.all_iff_forall_prop.mp rfl)

theorem isPlain_display : display.IsPlain :=
  Declared.isPlain_of_clean (by decide) (List.all_iff_forall_prop.mp rfl)

theorem isPlain_margin : margin.IsPlain :=
  Declared.isPlain_of_clean (by decide) (List.all_iff_forall_prop.mp rfl)

theorem isPlain_padding (i : Nat) : (padding i).IsPlain := by
  have hname : '\n' ∉ "padding".toList := by decide
  have hclean : ∀ c ∈ ['\n', '{', '}', ':'], c.isDigit = false ∧ c ∉ "px".toList :=
    List.all_iff_forall_prop.mp rfl
  exact Declared.isPlain_of_clean hname fun c hc =>
    not_mem_pixels (hclean c hc).1 (hclean c hc).2 i

theorem isPlain_color (i : Nat) : (color i).IsPlain := by
  have hname : '\n' ∉ "color".toList := by decide
  have hclean : ∀ c ∈ ['\n', '{', '}', ':'], ColorName.isHexDigit c = false ∧ c ≠ '#' :=
    List.all_iff_forall_prop.mp rfl
  exact Declared.isPlain_of_clean hname fun c hc =>
    not_mem_hex (hclean c hc).1 (hclean c hc).2 i

/-! ## Blocks -/

/-- The block name of a tidy block. -/
def card (i : Nat) : BlockName :=
  ⟨"card".toList, some "item".toList, some (letters i)⟩

theorem card_wellFormed (i : Nat) : (card i).WellFormed := by
  have hparts : (card i).parts = ["card".toList, "item".toList, letters i] := rfl
  intro part hpart
  rw [hparts, List.mem_cons, List.mem_cons, List.mem_singleton] at hpart
  rcases hpart with rfl | rfl | rfl
  · exact ⟨by decide, List.all_iff_forall_prop.mp rfl⟩
  · exact ⟨by decide, List.all_iff_forall_prop.mp rfl⟩
  · exact Numeral.isWord_letters i

theorem spell_card (i : Nat) : (card i).spell = "card__item--".toList ++ letters i := rfl

theorem clean_spell_card (i : Nat) : ∀ c ∈ (card i).spell, c ∉ ['\n', '{', '}', ':', ';'] := by
  have hmarks : ∀ c ∈ ['\n', '{', '}', ':', ';'], c.isLower = false ∧ c ≠ '_' ∧ c ≠ '-' :=
    List.all_iff_forall_prop.mp rfl
  intro c hc hmark
  rcases hmarks c hmark with ⟨hlower, hunderscore, hdash⟩
  exact BlockName.not_mem_spell (card_wellFormed i) hlower hunderscore hdash hc

theorem isSolid_spell_card (i : Nat) : Text.IsSolid (card i).spell := by
  refine .of_forall (by simp [spell_card]) fun c hc => ?_
  rcases BlockName.mem_spell (card_wellFormed i) hc with hlower | rfl | rfl
  · rw [← Bool.not_eq_true]
    intro hblank
    have halpha := BlockName.isAlpha_of_isLower hlower
    rw [Specificity.isAlpha_of_isBlank hblank] at halpha
    cases halpha
  · decide
  · decide

/-- A tidy block. -/
def tidy (i : Nat) : Block where
  selector := (card i).spell
  lines := [[position], [display], [padding i]]
  selector_solid := isSolid_spell_card i
  selector_clean := clean_spell_card i
  lines_ne_nil := by simp
  line_ne_nil := by simp
  line_plain := by simp [isPlain_position, isPlain_display, isPlain_padding]

/-- The selector of a faulty block. -/
def title (i : Nat) : List Char :=
  "#item-".toList ++ ((toString i).toList ++ [' ']) ++ ".title".toList

theorem clean_title (i : Nat) : ∀ c ∈ title i, c ∉ ['\n', '{', '}', ':', ';'] := by
  have hmarks : ∀ c ∈ ['\n', '{', '}', ':', ';'], c.isDigit = false ∧ c ∉ "#item-".toList ∧
      c ∉ [' '] ∧ c ∉ ".title".toList :=
    List.all_iff_forall_prop.mp rfl
  intro c hc hmark
  rcases hmarks c hmark with ⟨hdigit, hfront, hspace, hback⟩
  have hnumber := Text.not_mem_of_kind (fun _ => Numeral.isDigit_of_mem_toString (n := i)) hdigit
  change c ∈ "#item-".toList ++ ((toString i).toList ++ [' ']) ++ ".title".toList at hc
  simp only [List.mem_append, hfront, hnumber, hspace, hback, or_self] at hc

/-- A faulty block. -/
def faulty (i : Nat) : Block where
  selector := title i
  lines := [[display], [color i, margin]]
  selector_solid := Text.IsSolid.append (by decide) (by decide) _
  selector_clean := clean_title i
  lines_ne_nil := by simp
  line_ne_nil := by simp
  line_plain := by simp [isPlain_display, isPlain_color, isPlain_margin]

/-- The blocks of a kind. -/
def blockOf : Complexity → Nat → Block
  | .simple => tidy
  | .withIssues => faulty

theorem selector_tidy (i : Nat) : (tidy i).selector = "card__item--".toList ++ letters i := rfl

theorem selector_faulty (i : Nat) :
    (faulty i).selector =
      "#item-".toList ++ ((toString i).toList ++ [' ']) ++ ".title".toList := rfl

theorem statements_tidy_eq (i : Nat) :
    (tidy i).statements =
      [Declared.renderBare [position], Declared.renderBare [display],
        Declared.renderBare [padding i]] := rfl

theorem statements_faulty_eq (i : Nat) :
    (faulty i).statements =
      [Declared.renderBare [display], Declared.renderBare [color i, margin]] := rfl

theorem statements_tidy (i : Nat) :
    (tidy i).statements =
      ["position: relative;".toList, "display: block;".toList,
        "padding: ".toList ++ ((toString i).toList ++ "px".toList) ++ [';']] := by
  have hposition : position.render = "position: relative;".toList := rfl
  have hdisplay : display.render = "display: block;".toList := rfl
  have hpadding : (padding i).render =
      "padding: ".toList ++ ((toString i).toList ++ "px".toList) ++ [';'] := rfl
  rw [statements_tidy_eq, Declared.renderBare_singleton, Declared.renderBare_singleton,
    Declared.renderBare_singleton, hposition, hdisplay, hpadding]

theorem statements_faulty (i : Nat) :
    (faulty i).statements =
      ["display: block;".toList,
        "color: ".toList ++ ('#' :: lowerHex 6 i) ++ "; margin: 0;".toList] := by
  have hdisplay : display.render = "display: block;".toList := rfl
  have hcolor : (color i).render = "color: ".toList ++ ('#' :: lowerHex 6 i) ++ [';'] := rfl
  have hmargin : [margin].flatMap (fun d => ' ' :: d.render) = " margin: 0;".toList := rfl
  rw [statements_faulty_eq, Declared.renderBare_singleton, Declared.renderBare_cons, hdisplay,
    hcolor, hmargin, List.append_assoc _ [';']]
  rfl

theorem toList_block (complexity : Complexity) (i : Nat) :
    (block complexity i).toList = (blockOf complexity i).text := by
  cases complexity with
  | simple =>
    rw [blockOf, Block.text, Block.back, selector_tidy, statements_tidy]
    simp [block, blockText, toString]
  | withIssues =>
    rw [blockOf, Block.text, Block.back, selector_faulty, statements_faulty]
    simp [block, blockText, toString]

/-- A synthetic stylesheet is made of blocks. -/
theorem toList_text (s : Synthetic) :
    (text s).toList = Block.sheet (blockOf s.complexity) s.blocks := by
  rw [text, String.toList_join, List.flatMap_map, Block.sheet]
  exact congrArg (List.range s.blocks).flatMap (funext (toList_block s.complexity))

/-! ## Quoted texts -/

/-- What is quoted of each block. -/
def quoted : Complexity → Nat → List Char
  | .simple, 0 => "card__item--a".toList
  | .simple, i + 1 =>
    "position: relative;\n  display: block;\n  padding: ".toList ++ (toString i).toList ++
      "px;\n\x7d\n\ncard__item--".toList ++ letters (i + 1)
  | .withIssues, 0 => "#item-0 .title".toList
  | .withIssues, i + 1 =>
    "display: block;\n  color: #".toList ++ lowerHex 6 i ++
      "; margin: 0;\n\x7d\n\n#item-".toList ++ (toString (i + 1)).toList ++ " .title".toList

theorem quoted_simple_succ (i : Nat) :
    quoted .simple (i + 1) =
      "position: relative;\n  display: block;\n  padding: ".toList ++ (toString i).toList ++
        "px;\n\x7d\n\ncard__item--".toList ++ letters (i + 1) := rfl

theorem quoted_withIssues_succ (i : Nat) :
    quoted .withIssues (i + 1) =
      "display: block;\n  color: #".toList ++ lowerHex 6 i ++
        "; margin: 0;\n\x7d\n\n#item-".toList ++ (toString (i + 1)).toList ++
          " .title".toList := rfl

/-- What is quoted is what the selectors carry. -/
theorem quoted_blockOf (complexity : Complexity) (i : Nat) :
    Block.quoted (blockOf complexity) i = quoted complexity i := by
  cases complexity with
  | simple =>
    cases i with
    | zero => rfl
    | succ i =>
      rw [blockOf, Block.quoted, Block.carried, selector_tidy, statements_tidy, quoted_simple_succ]
      simp [List.intercalate_cons_cons]
  | withIssues =>
    cases i with
    | zero => rfl
    | succ i =>
      rw [blockOf, Block.quoted, Block.carried, selector_faulty, statements_faulty,
        quoted_withIssues_succ]
      simp [List.intercalate_cons_cons]

end Sample.Synthetic

end SheetLint
