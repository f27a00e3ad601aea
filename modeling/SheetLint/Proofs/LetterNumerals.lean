import Mathlib.Data.List.Nodup
import Mathlib.Data.Nat.Digits.Defs
import SheetLint.Proofs.BlockGrammar
import SheetLint.Proofs.SyntheticBlocks

/-!
# Numerals in letters

Numbers are written with the letters from `a` to `z` as the digits of base 26.  Every number has
one numeral, so different numbers have different ones.  The tidy blocks of a synthetic stylesheet
are named by the numerals of their indices, and so no two of them share a name.

Main results:

- Structure `Numeral.IsLetterNumeral` with `Numeral.letterNumber`, which texts are numerals and
  what they stand for.
- Theorem `Numeral.letters_eq_iff` says that a number is written by its only numeral.
- Definition `Stylesheet.blockNames` reads the names of blocks off a text, and
  `Block.blockNames_sheet` gives them for a stylesheet made of blocks.
- Theorem `Numeral.letters_name_blocks` puts numerals and block names together.
-/

namespace SheetLint

namespace Numeral

/-! ## Numerals -/

/-- A numeral is made of letters, and it begins with `a` only where this is its only letter. -/
structure IsLetterNumeral (text : List Char) : Prop where
  ne_nil : text ≠ []
  isLetter : ∀ c ∈ text, BlockName.IsLetter c
  first : text.head? = some 'a' → text = ['a']

/-- The letters are the digits from 0 to 25. -/
def letterDigit (c : Char) : Nat :=
  c.toNat - 'a'.toNat

/-- The number that a numeral stands for: its last letter counts once, and every letter counts 26
times as much as the one behind it. -/
def letterNumber (text : List Char) : Nat :=
  Nat.ofDigits 26 (text.map letterDigit).reverse

theorem isLetter_iff_toNat {c : Char} : BlockName.IsLetter c ↔ 97 ≤ c.toNat ∧ c.toNat ≤ 122 :=
  Iff.rfl

theorem letterDigit_lt {c : Char} (hc : BlockName.IsLetter c) : letterDigit c < 26 := by
  have ha : 'a'.toNat = 97 := rfl
  rw [isLetter_iff_toNat] at hc
  rw [letterDigit]
  omega

theorem letterDigit_letter : ∀ digit < 26, letterDigit (letter digit) = digit := by
  decide

/-- A letter is the spelling of its digit. -/
theorem letter_letterDigit {c : Char} (hc : BlockName.IsLetter c) : letter (letterDigit c) = c := by
  have ha : 'a'.toNat = 97 := rfl
  rw [isLetter_iff_toNat] at hc
  have hcode : 0x61 + letterDigit c = c.toNat := by
    rw [letterDigit]
    omega
  rw [letter, hcode, Char.ofNat_toNat]

theorem letterDigit_eq_zero_iff {c : Char} (hc : BlockName.IsLetter c) :
    letterDigit c = 0 ↔ c = 'a' := by
  constructor
  · intro hzero
    rw [← letter_letterDigit hc, hzero]
    rfl
  · rintro rfl
    rfl

/-! ## What is written -/

theorem map_letterDigit_letters (n : Nat) : (letters n).map letterDigit = digits 26 n := by
  rw [letters, List.map_map]
  conv_rhs => rw [← List.map_id (digits 26 n)]
  apply List.map_congr_left
  intro digit hdigit
  exact letterDigit_letter digit (lt_of_mem_digits (by decide) hdigit)

/-- The letters of a number stand for it. -/
theorem letterNumber_letters (n : Nat) : letterNumber (letters n) = n := by
  rw [letterNumber, map_letterDigit_letters, ← ofDigits_eq_ofDigits_reverse,
    ofDigits_digits (by decide)]

/-- Only zero is written with an `a` in front. -/
theorem head?_letters_eq_a_iff (n : Nat) : (letters n).head? = some 'a' ↔ n = 0 := by
  have hbase : 1 < 26 := by decide
  rw [← head?_digits_eq_zero_iff hbase n, ← map_letterDigit_letters, List.head?_map]
  cases hfirst : (letters n).head? with
  | none => simp
  | some c =>
    have hletter : BlockName.IsLetter c :=
      BlockName.isLower_iff_isLetter.mp ((isWord_letters n).2 c (List.mem_of_head? hfirst))
    rw [Option.map_some, Option.some_inj, Option.some_inj, letterDigit_eq_zero_iff hletter]

theorem isLetterNumeral_letters (n : Nat) : IsLetterNumeral (letters n) where
  ne_nil := (isWord_letters n).1
  isLetter c hc := BlockName.isLower_iff_isLetter.mp ((isWord_letters n).2 c hc)
  first hfirst := by
    rw [(head?_letters_eq_a_iff n).mp hfirst]
    rfl

/-! ## Numerals are unique -/

namespace IsLetterNumeral

variable {text text' : List Char}

/-- Without a leading `a`, the digits of a numeral are the standard ones of its number. -/
theorem digits_letterNumber (h : IsLetterNumeral text) (hfirst : text.head? ≠ some 'a') :
    (text.map letterDigit).reverse = Nat.digits 26 (letterNumber text) := by
  have hdigits : ∀ digit ∈ (text.map letterDigit).reverse, digit < 26 := by
    intro digit hdigit
    rcases List.mem_map.mp (List.mem_reverse.mp hdigit) with ⟨c, hc, rfl⟩
    exact letterDigit_lt (h.isLetter c hc)
  have hlast (hne : (text.map letterDigit).reverse ≠ []) :
      (text.map letterDigit).reverse.getLast hne ≠ 0 := by
    -- The last of the reversed digits is that of the first letter.
    obtain ⟨c, rest, rfl⟩ := List.exists_cons_of_ne_nil h.ne_nil
    have hc : BlockName.IsLetter c := h.isLetter c List.mem_cons_self
    rw [List.getLast_reverse]
    intro hzero
    apply hfirst
    rw [List.head?_cons, (letterDigit_eq_zero_iff hc).mp hzero]
  exact (Nat.digits_ofDigits 26 (by decide) _ hdigits hlast).symm

/-- A numeral that does not begin with `a` does not stand for zero. -/
theorem letterNumber_ne_zero (h : IsLetterNumeral text) (hfirst : text.head? ≠ some 'a') :
    letterNumber text ≠ 0 := by
  rw [← Nat.digits_ne_nil_iff_ne_zero (b := 26), ← h.digits_letterNumber hfirst, ne_eq,
    List.reverse_eq_nil_iff, List.map_eq_nil_iff]
  exact h.ne_nil

theorem letterNumber_eq_zero_iff (h : IsLetterNumeral text) :
    letterNumber text = 0 ↔ text = ['a'] := by
  constructor
  · intro hzero
    apply h.first
    by_contra hfirst
    exact h.letterNumber_ne_zero hfirst hzero
  · rintro rfl
    rfl

/-- A numeral is spelled by its digits. -/
theorem map_letter_map_letterDigit (h : IsLetterNumeral text) :
    (text.map letterDigit).map letter = text := by
  rw [List.map_map]
  conv_rhs => rw [← List.map_id text]
  apply List.map_congr_left
  intro c hc
  exact letter_letterDigit (h.isLetter c hc)

/-- Numerals of the same number are the same. -/
theorem unique (h : IsLetterNumeral text) (h' : IsLetterNumeral text')
    (hnumber : letterNumber text = letterNumber text') : text = text' := by
  -- Zero is apart: it has no standard digits at all, but it is written with one letter.
  by_cases hzero : letterNumber text = 0
  · rw [h.letterNumber_eq_zero_iff.mp hzero, h'.letterNumber_eq_zero_iff.mp (hnumber ▸ hzero)]
  · have hfirst : text.head? ≠ some 'a' := fun ha =>
      hzero (h.letterNumber_eq_zero_iff.mpr (h.first ha))
    have hfirst' : text'.head? ≠ some 'a' := fun ha =>
      hzero (hnumber ▸ h'.letterNumber_eq_zero_iff.mpr (h'.first ha))
    have hdigits : text.map letterDigit = text'.map letterDigit := by
      rw [← List.reverse_inj, h.digits_letterNumber hfirst, h'.digits_letterNumber hfirst', hnumber]
    rw [← h.map_letter_map_letterDigit, hdigits, h'.map_letter_map_letterDigit]

end IsLetterNumeral

/-- A number is written by the numeral that stands for it, and by no other text. -/
theorem letters_eq_iff {n : Nat} {text : List Char} :
    letters n = text ↔ IsLetterNumeral text ∧ letterNumber text = n := by
  constructor
  · rintro rfl
    exact ⟨isLetterNumeral_letters n, letterNumber_letters n⟩
  · rintro ⟨htext, rfl⟩
    exact (isLetterNumeral_letters _).unique htext (letterNumber_letters _)

theorem letters_injective : Function.Injective letters := by
  intro n m hletters
  rw [← letterNumber_letters n, hletters, letterNumber_letters]

end Numeral

/-! ## The names of blocks -/

/-- The names of the blocks of a text, one for each line with an opening brace: the trimmed text in
front of the brace. -/
def Stylesheet.blockNames (text : List Char) : List (List Char) :=
  ((lineTexts text).filter fun line => '{' ∈ line).map fun line =>
    Text.trim (line.takeWhile (· != '{'))

namespace Block

/-- Only the first line of a block has an opening brace. -/
theorem filter_map_trim_rows (b : Block) :
    ((b.rows.map Text.trim).filter fun line => '{' ∈ line) = [b.selector ++ [' ', '{']] := by
  have hstatements : b.statements.filter (fun line => '{' ∈ line) = [] := by
    rw [List.filter_eq_nil_iff, statements, List.forall_mem_map]
    intro ds hds
    simpa using Declared.brace_not_mem_renderBare (b.line_ne_nil ds hds) (b.line_plain ds hds)
  have hopening : [b.selector ++ [' ', '{']].filter (fun line => '{' ∈ line) =
      [b.selector ++ [' ', '{']] := by
    rw [List.filter_cons_of_pos (by simp), List.filter_nil]
  have hclosing : [['}'], []].filter (fun line : List Char => '{' ∈ line) = [] := by decide
  rw [map_trim_rows, List.filter_append, List.filter_append, hstatements, hopening, hclosing]
  rfl

theorem trim_takeWhile_opening (b : Block) :
    Text.trim ((b.selector ++ [' ', '{']).takeWhile (· != '{')) = b.selector := by
  have hfront : '{' ∉ b.selector ++ [' '] := by simp [b.brace_not_mem_selector]
  have hspace : ∀ c ∈ [' '], Text.isBlank c = true := List.forall_mem_singleton.mpr rfl
  rw [List.append_cons, List.takeWhile_append_of_pos (Text.bne_of_not_mem hfront),
    List.takeWhile_cons_of_neg (by decide), List.append_nil]
  exact b.selector_solid.trim_eq (List.forall_mem_nil _) hspace

/-- The names in a stylesheet made of blocks are the selectors of the blocks. -/
theorem blockNames_sheet (blocks : Nat → Block) (n : Nat) :
    Stylesheet.blockNames (sheet blocks n) = (List.range n).map fun i => (blocks i).selector := by
  have hempty : [[]].filter (fun line : List Char => '{' ∈ line) = [] := by decide
  rw [Stylesheet.blockNames, lineTexts_sheet, List.filter_append, hempty, List.append_nil,
    List.filter_flatMap, List.map_flatMap, List.map_eq_flatMap]
  congr 1
  funext i
  rw [filter_map_trim_rows, List.map_singleton, trim_takeWhile_opening]

end Block

namespace Numeral

open Sample (Synthetic)

theorem isValid_card_append_letters (n : Nat) :
    BlockName.isValid ("card__item--".toList ++ letters n) = true := by
  rw [← Synthetic.spell_card, BlockName.isValid,
    BlockName.read?_spell (Synthetic.card_wellFormed n)]
  rfl

/-- The tidy blocks of a stylesheet are named in the order of their indices. -/
theorem blockNames_simple (n : Nat) :
    Stylesheet.blockNames (Synthetic.text ⟨.simple, n⟩).toList =
      (List.range n).map fun i => "card__item--".toList ++ letters i := by
  rw [Synthetic.toList_text]
  exact Block.blockNames_sheet Synthetic.tidy n

/-- Every number is written by a numeral of letters that stands for it, which begins with `a` only
for zero, and by no other numeral.  So different numbers are written differently.  Each numeral
makes a valid block name, and the tidy blocks of a stylesheet, however many there are, have such
names, no two of which are the same. -/
theorem letters_name_blocks (n : Nat) :
    IsLetterNumeral (letters n) ∧ letterNumber (letters n) = n ∧
    ((letters n).head? = some 'a' ↔ n = 0) ∧
    (∀ text, IsLetterNumeral text → letterNumber text = n → letters n = text) ∧
    Function.Injective letters ∧
    BlockName.isValid ("card__item--".toList ++ letters n) = true ∧
    Stylesheet.blockNames (Synthetic.text ⟨.simple, n⟩).toList =
      (List.range n).map (fun i => "card__item--".toList ++ letters i) ∧
    (Stylesheet.blockNames (Synthetic.text ⟨.simple, n⟩).toList).Nodup ∧
    ∀ name ∈ Stylesheet.blockNames (Synthetic.text ⟨.simple, n⟩).toList,
      BlockName.isValid name = true := by
  have hdistinct : Function.Injective fun i => "card__item--".toList ++ letters i := by
    intro i j hname
    exact letters_injective (List.append_cancel_left hname)
  refine ⟨isLetterNumeral_letters n, letterNumber_letters n, head?_letters_eq_a_iff n,
    fun text htext hnumber => letters_eq_iff.mpr ⟨htext, hnumber⟩, letters_injective,
    isValid_card_append_letters n, blockNames_simple n, ?_, ?_⟩
  · rw [blockNames_simple]
    exact List.Nodup.map hdistinct List.nodup_range
  · rw [blockNames_simple, List.forall_mem_map]
    exact fun i _ => isValid_card_append_letters i

/-- The first number with two letters. -/
theorem letters_name_blocks_behind_z :
    IsLetterNumeral "ba".toList ∧ letterNumber "ba".toList = 26 ∧ letters 26 = "ba".toList ∧
      "card__item--ba".toList ∈
        Stylesheet.blockNames (Synthetic.text ⟨.simple, 27⟩).toList ∧
      BlockName.isValid "card__item--ba".toList = true := by
  have hletters : ∀ c ∈ "ba".toList, BlockName.IsLetter c :=
    List.forall_mem_cons.mpr ⟨by decide, List.forall_mem_singleton.mpr (by decide)⟩
  have hnumeral : IsLetterNumeral "ba".toList := ⟨by decide, hletters, by decide⟩
  have hnumber : letterNumber "ba".toList = 26 := rfl
  rcases letters_name_blocks 26 with ⟨_, _, _, hunique, _⟩
  rcases letters_name_blocks 27 with ⟨_, _, _, _, _, _, hnames, _, hvalid⟩
  have hwritten := hunique _ hnumeral hnumber
  have hmem : "card__item--ba".toList ∈
      Stylesheet.blockNames (Synthetic.text ⟨.simple, 27⟩).toList := by
    rw [hnames, List.mem_map]
    refine ⟨26, List.mem_range.mpr (by decide), ?_⟩
    rw [hwritten]
    rfl
  exact ⟨hnumeral, hnumber, hwritten, hmem, hvalid _ hmem⟩

end Numeral

end SheetLint
