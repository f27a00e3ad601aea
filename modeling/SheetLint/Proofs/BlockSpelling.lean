import SheetLint.Convention.BlockName
import SheetLint.Convention.Specificity

/-!
# The spelling of block names

A block name has one to three parts, each a word of lowercase letters.  What is read as a
block name is spelled from such parts, so nothing but lowercase letters and the two marks
stands in it, and its estimated specificity counts its parts.

Main results:

- Definition `BlockName.WellFormed` asks for a word in every part, and
  `BlockName.wellFormed_of_read?` says that only such names are read.
- Theorem `BlockName.mem_spell` lists the characters of a spelling.
- Theorem `BlockName.ofText_spell` gives the specificity of a spelling, and
  `BlockName.isLow_spell` says that it is low.
-/

namespace SheetLint

namespace BlockName

/-! ## Words and parts -/

/-- A word is a run of lowercase letters that is not empty. -/
def IsWord (text : List Char) : Prop :=
  text ≠ [] ∧ ∀ c ∈ text, c.isLower = true

/-- The parts of a block name, in the order in which they are spelled. -/
def parts (n : BlockName) : List (List Char) :=
  n.block :: (n.element.toList ++ n.modifier.toList)

/-- A block name is well formed when each of its parts is a word. -/
def WellFormed (n : BlockName) : Prop :=
  ∀ part ∈ n.parts, IsWord part

/-- A block name has one, two or three parts. -/
theorem length_parts (n : BlockName) :
    n.parts.length = 1 ∨ n.parts.length = 2 ∨ n.parts.length = 3 := by
  rcases n with ⟨block, element, modifier⟩
  cases element <;> cases modifier <;> simp [parts]

/-! ## What is read -/

theorem isWord_takeWhile {text : List Char} (hne : text.takeWhile Char.isLower ≠ []) :
    IsWord (text.takeWhile Char.isLower) :=
  ⟨hne, fun _ hc => List.all_eq_true.mp List.all_takeWhile _ hc⟩

/-- A part that was read is a word. -/
theorem isWord_of_readPart {mark text word : List Char} (hword : word ∈ (readPart mark text).1) :
    IsWord word := by
  simp only [readPart] at hword
  split at hword
  next hread =>
    obtain rfl := Option.some.inj hword
    exact isWord_takeWhile hread.2
  next => cases hword

/-- A block name that was read is well formed. -/
theorem wellFormed_of_read? {text : List Char} {n : BlockName} (hread : read? text = some n) :
    n.WellFormed := by
  simp only [read?] at hread
  split at hread
  next hcomplete =>
    obtain rfl := Option.some.inj hread
    intro part hpart
    simp only [parts, List.mem_cons, List.mem_append, Option.mem_toList] at hpart
    rcases hpart with rfl | helement | hmodifier
    · exact isWord_takeWhile hcomplete.1
    · exact isWord_of_readPart helement
    · exact isWord_of_readPart hmodifier
  next => cases hread

/-- A selector that follows the convention is the spelling of a well-formed block name. -/
theorem exists_spell_of_isValid {text : List Char} (hvalid : isValid text = true) :
    ∃ n : BlockName, n.WellFormed ∧ n.spell = text := by
  rcases Option.isSome_iff_exists.mp hvalid with ⟨n, hread⟩
  exact ⟨n, wellFormed_of_read? hread, spell_of_read? hread⟩

/-! ## What is spelled -/

variable {n : BlockName}

theorem mem_spellPart {mark : List Char} {part : Option (List Char)} {c : Char}
    (hpart : ∀ word ∈ part, IsWord word) (hc : c ∈ spellPart mark part) :
    c.isLower = true ∨ c ∈ mark := by
  cases part with
  | none => cases hc
  | some word =>
    rcases List.mem_append.mp hc with hmark | hword
    · exact Or.inr hmark
    · exact Or.inl ((hpart word rfl).2 c hword)

theorem WellFormed.isWord_element (hn : n.WellFormed) : ∀ word ∈ n.element, IsWord word := by
  intro word hword
  apply hn
  simp [parts, Option.mem_def.mp hword]

theorem WellFormed.isWord_modifier (hn : n.WellFormed) : ∀ word ∈ n.modifier, IsWord word := by
  intro word hword
  apply hn
  simp [parts, Option.mem_def.mp hword]

/-- A spelling consists of lowercase letters and the characters of the marks. -/
theorem mem_spell (hn : n.WellFormed) {c : Char} (hc : c ∈ n.spell) :
    c.isLower = true ∨ c = '_' ∨ c = '-' := by
  rcases List.mem_append.mp hc with hfront | hmodifier
  · rcases List.mem_append.mp hfront with hblock | helement
    · exact Or.inl ((hn n.block List.mem_cons_self).2 c hblock)
    · rcases mem_spellPart hn.isWord_element helement with hlower | hmark
      · exact Or.inl hlower
      · exact Or.inr (Or.inl (by simpa [elementMark] using hmark))
  · rcases mem_spellPart hn.isWord_modifier hmodifier with hlower | hmark
    · exact Or.inl hlower
    · exact Or.inr (Or.inr (by simpa [modifierMark] using hmark))

theorem not_mem_spell (hn : n.WellFormed) {c : Char} (hlower : c.isLower = false)
    (helement : c ≠ '_') (hmodifier : c ≠ '-') : c ∉ n.spell := by
  intro hc
  rcases mem_spell hn hc with h | h | h
  · rw [hlower] at h
    cases h
  · exact helement h
  · exact hmodifier h

/-- No other character stands in a selector that follows the convention. -/
theorem not_mem_of_isValid {text : List Char} (hvalid : isValid text = true) {c : Char}
    (hlower : c.isLower = false) (helement : c ≠ '_') (hmodifier : c ≠ '-') : c ∉ text := by
  rcases exists_spell_of_isValid hvalid with ⟨n, hn, rfl⟩
  exact not_mem_spell hn hlower helement hmodifier

/-! ## The specificity of a spelling -/

theorem isAlpha_of_isLower {c : Char} (hlower : c.isLower = true) : c.isAlpha = true :=
  Bool.or_eq_true_iff.mpr (Or.inr hlower)

/-- Letters that follow a letter begin no word. -/
theorem countWords_true_of_all_isLower {text : List Char} (htext : ∀ c ∈ text, c.isLower = true) :
    Specificity.countWords true text = 0 := by
  induction text with
  | nil => rfl
  | cons c rest ih =>
    have halpha : c.isAlpha = true := isAlpha_of_isLower (htext c List.mem_cons_self)
    rw [Specificity.countWords, if_pos halpha, if_pos rfl]
    exact ih fun c hc => htext c (List.mem_cons_of_mem _ hc)

theorem countWords_of_isWord {word : List Char} (hword : IsWord word) :
    Specificity.countWords false word = 1 := by
  rcases hword with ⟨hne, hlower⟩
  cases word with
  | nil => exact absurd rfl hne
  | cons c rest =>
    have halpha : c.isAlpha = true := isAlpha_of_isLower (hlower c List.mem_cons_self)
    rw [Specificity.countWords, if_pos halpha, if_neg Bool.false_ne_true,
      countWords_true_of_all_isLower fun c hc => hlower c (List.mem_cons_of_mem _ hc)]

/-- A mark ends the word in front of it, so the part behind it is one more word. -/
theorem countWords_spellPart {mark : List Char} {part : Option (List Char)}
    (hmark : mark = elementMark ∨ mark = modifierMark) (hpart : ∀ word ∈ part, IsWord word)
    (inside : Bool) : Specificity.countWords inside (spellPart mark part) = part.toList.length := by
  cases part with
  | none => rfl
  | some word =>
    have hword := countWords_of_isWord (hpart word rfl)
    have hends : Specificity.countWords inside (mark ++ word) =
        Specificity.countWords false word := by
      rcases hmark with rfl | rfl <;> rfl
    rw [spellPart, hends, hword]
    rfl

theorem countWords_spell (hn : n.WellFormed) :
    Specificity.countWords false n.spell = n.parts.length := by
  have hblock := countWords_of_isWord (hn n.block List.mem_cons_self)
  rw [spell, Specificity.countWords_append, Specificity.countWords_append, hblock,
    countWords_spellPart (Or.inl rfl) hn.isWord_element,
    countWords_spellPart (Or.inr rfl) hn.isWord_modifier, parts, List.length_cons,
    List.length_append]
  omega

/-- A spelling has no ids and no classes, and each part is a word of its own. -/
theorem ofText_spell (hn : n.WellFormed) :
    Specificity.ofText n.spell = ⟨0, 0, n.parts.length⟩ := by
  have hids : n.spell.count '#' = 0 :=
    List.count_eq_zero.mpr (not_mem_spell hn rfl (by decide) (by decide))
  have hclasses : n.spell.count '.' = 0 :=
    List.count_eq_zero.mpr (not_mem_spell hn rfl (by decide) (by decide))
  rw [Specificity.ofText, hids, hclasses, countWords_spell hn]

/-- A spelling scores at most three. -/
theorem isLow_spell (hn : n.WellFormed) : (Specificity.ofText n.spell).isLow = true := by
  rw [ofText_spell hn]
  rcases n.length_parts with h | h | h <;> rw [h] <;> decide

end BlockName

end SheetLint
