import SheetLint.Proofs.BlockSpelling

/-!
# The grammar of block names

A text follows the naming convention exactly if it is a word, perhaps with an element and
perhaps with a modifier behind it, each a word behind its mark.  Words are runs of letters from
`a` to `z`, so a text can be cut in this way at most once.

Main results:

- Structure `BlockName.Cut` is the grammar, stated of texts alone.
- Theorem `BlockName.read?_spell` says that the spelling of every well-formed block name is
  read back, and `BlockName.cut_iff_exists_spell` that the grammar describes those spellings.
- Theorems `BlockName.Cut.behind_element`, `BlockName.Cut.behind_modifier` and
  `BlockName.Cut.not_mem_behind_dash` say what stands behind the marks of a text that can be
  cut.
- Theorem `BlockName.isValid_iff_cut` compares the convention with the grammar.
-/

namespace SheetLint

namespace BlockName

/-! ## The grammar -/

/-- The letters from `a` to `z`. -/
def IsLetter (c : Char) : Prop :=
  'a' ≤ c ∧ c ≤ 'z'

instance : DecidablePred IsLetter := fun _ => instDecidableAnd

/-- One letter or more. -/
def IsLetters (text : List Char) : Prop :=
  text ≠ [] ∧ ∀ c ∈ text, IsLetter c

/-- Nothing, or letters behind a mark. -/
def IsPart (mark text : List Char) : Prop :=
  text = [] ∨ ∃ word, IsLetters word ∧ text = mark ++ word

/-- A text is cut into a block, an element with its mark and a modifier with its mark, where the
last two may be left out. -/
structure Cut (text block element modifier : List Char) : Prop where
  text_eq : text = block ++ element ++ modifier
  block : IsLetters block
  element : IsPart ['_', '_'] element
  modifier : IsPart ['-', '-'] modifier

/-! ## Letters and words -/

theorem isLower_iff_isLetter {c : Char} : c.isLower = true ↔ IsLetter c := by
  have hrange : c.isLower = (decide ('a' ≤ c) && decide (c ≤ 'z')) := rfl
  rw [hrange, Bool.and_eq_true, decide_eq_true_iff, decide_eq_true_iff, IsLetter]

theorem isLetters_iff_isWord {text : List Char} : IsLetters text ↔ IsWord text := by
  refine and_congr_right fun _ => forall₂_congr fun c _ => ?_
  exact isLower_iff_isLetter.symm

theorem isPart_iff_exists_spellPart {mark text : List Char} :
    IsPart mark text ↔
      ∃ part : Option (List Char), (∀ word ∈ part, IsWord word) ∧ spellPart mark part = text := by
  constructor
  · rintro (rfl | ⟨word, hword, rfl⟩)
    · exact ⟨none, by simp, rfl⟩
    · refine ⟨some word, ?_, rfl⟩
      rintro _ ⟨⟩
      exact isLetters_iff_isWord.mp hword
  · rintro ⟨part, hpart, rfl⟩
    cases part with
    | none => exact Or.inl rfl
    | some word => exact Or.inr ⟨word, isLetters_iff_isWord.mpr (hpart word rfl), rfl⟩

/-! ## Reading a spelling back -/

/-- A word ends where no letter follows. -/
theorem span_word {word rest : List Char} (hword : ∀ c ∈ word, c.isLower = true)
    (hrest : ∀ c ∈ rest.head?, c.isLower = false) :
    (word ++ rest).takeWhile Char.isLower = word ∧
      (word ++ rest).dropWhile Char.isLower = rest := by
  rw [List.takeWhile_append_of_pos hword, List.dropWhile_append_of_pos hword]
  cases rest with
  | nil => simp
  | cons c rest => simp [hrest c rfl]

/-- A part is read from its spelling, unless a letter follows the word or a mark follows
nothing. -/
theorem readPart_spellPart {mark : List Char} {part : Option (List Char)} {rest : List Char}
    (hpart : ∀ word ∈ part, IsWord word) (hrest : ∀ c ∈ rest.head?, c.isLower = false)
    (hnone : part = none → ¬ mark <+: rest) :
    readPart mark (spellPart mark part ++ rest) = (part, rest) := by
  cases part with
  | none =>
    rw [spellPart, List.nil_append, readPart, if_neg]
    rw [List.isPrefixOf_iff_prefix]
    exact fun h => hnone rfl h.1
  | some word =>
    rcases hpart word rfl with ⟨hne, hlower⟩
    rcases span_word hlower hrest with ⟨htake, hdrop⟩
    have hbehind : (spellPart mark (some word) ++ rest).drop mark.length = word ++ rest := by
      rw [spellPart, List.append_assoc, List.drop_left]
    have hmark : mark.isPrefixOf (spellPart mark (some word) ++ rest) = true := by
      rw [List.isPrefixOf_iff_prefix, spellPart, List.append_assoc]
      exact List.prefix_append mark _
    rw [readPart, hbehind, htake, hdrop, if_pos ⟨hmark, hne⟩]

/-- A part does not begin with a letter, for its mark comes first. -/
theorem not_isLower_head?_spellPart {mark : List Char} {part : Option (List Char)}
    {rest : List Char} (hmark : mark = elementMark ∨ mark = modifierMark)
    (hrest : ∀ c ∈ rest.head?, c.isLower = false) :
    ∀ c ∈ (spellPart mark part ++ rest).head?, c.isLower = false := by
  cases part with
  | none => exact hrest
  | some word =>
    rcases hmark with rfl | rfl <;>
    · rintro _ ⟨⟩
      rfl

/-- The spelling of every well-formed block name is read back. -/
theorem read?_spell {n : BlockName} (hn : n.WellFormed) : read? n.spell = some n := by
  rcases n with ⟨block, element, modifier⟩
  have hend : ∀ c ∈ ([] : List Char).head?, c.isLower = false := by simp
  have hmodifier : ∀ c ∈ (spellPart modifierMark modifier).head?, c.isLower = false := by
    have h : ∀ c ∈ (spellPart modifierMark modifier ++ []).head?, c.isLower = false :=
      not_isLower_head?_spellPart (Or.inr rfl) hend
    rwa [List.append_nil] at h
  have helement : ∀ c ∈ (spellPart elementMark element ++
      spellPart modifierMark modifier).head?, c.isLower = false :=
    not_isLower_head?_spellPart (Or.inl rfl) hmodifier
  have hblock : IsWord block := hn block List.mem_cons_self
  rcases span_word hblock.2 helement with ⟨htake, hdrop⟩
  have hreadElement : readPart elementMark
      (spellPart elementMark element ++ spellPart modifierMark modifier) =
        (element, spellPart modifierMark modifier) := by
    refine readPart_spellPart hn.isWord_element hmodifier fun _ hmark => ?_
    cases modifier with
    | none => exact absurd hmark (by decide)
    | some word =>
      have hdash := (List.cons_prefix_cons.mp hmark).1
      exact absurd hdash (by decide)
  have hreadModifier : readPart modifierMark (spellPart modifierMark modifier) =
      (modifier, []) := by
    have hnone : modifier = none → ¬ modifierMark <+: [] := fun _ => by decide
    have h := readPart_spellPart hn.isWord_modifier hend hnone
    rwa [List.append_nil] at h
  rw [spell, List.append_assoc, read?, htake, hdrop, hreadElement]
  dsimp only
  rw [hreadModifier]
  exact if_pos ⟨hblock.1, rfl⟩

/-! ## Cuts and spellings -/

/-- The cuts of a text are the spellings of well-formed block names, part by part. -/
theorem cut_iff_exists_spell {text block element modifier : List Char} :
    Cut text block element modifier ↔
      ∃ n : BlockName, n.WellFormed ∧ n.spell = text ∧ n.block = block ∧
        spellPart elementMark n.element = element ∧
        spellPart modifierMark n.modifier = modifier := by
  constructor
  · rintro ⟨rfl, hblock, helement, hmodifier⟩
    rcases isPart_iff_exists_spellPart.mp helement with ⟨first, hfirst, rfl⟩
    rcases isPart_iff_exists_spellPart.mp hmodifier with ⟨second, hsecond, rfl⟩
    refine ⟨⟨block, first, second⟩, ?_, rfl, rfl, rfl, rfl⟩
    intro part hpart
    simp only [parts, List.mem_cons, List.mem_append, Option.mem_toList] at hpart
    rcases hpart with rfl | hpart | hpart
    · exact isLetters_iff_isWord.mp hblock
    · exact hfirst part hpart
    · exact hsecond part hpart
  · rintro ⟨n, hn, rfl, rfl, rfl, rfl⟩
    exact
      { text_eq := rfl
        block := isLetters_iff_isWord.mpr (hn n.block List.mem_cons_self)
        element := isPart_iff_exists_spellPart.mpr ⟨n.element, hn.isWord_element, rfl⟩
        modifier := isPart_iff_exists_spellPart.mpr ⟨n.modifier, hn.isWord_modifier, rfl⟩ }

theorem isValid_iff_exists_cut {text : List Char} :
    isValid text = true ↔ ∃ block element modifier, Cut text block element modifier := by
  constructor
  · intro hvalid
    rcases exists_spell_of_isValid hvalid with ⟨n, hn, hspell⟩
    exact ⟨_, _, _, cut_iff_exists_spell.mpr ⟨n, hn, hspell, rfl, rfl, rfl⟩⟩
  · rintro ⟨block, element, modifier, hcut⟩
    rcases cut_iff_exists_spell.mp hcut with ⟨n, hn, rfl, -⟩
    rw [isValid, read?_spell hn]
    rfl

/-- A text is cut in one way at most. -/
theorem Cut.unique {text block element modifier block' element' modifier' : List Char}
    (hcut : Cut text block element modifier) (hcut' : Cut text block' element' modifier') :
    block = block' ∧ element = element' ∧ modifier = modifier' := by
  rcases cut_iff_exists_spell.mp hcut with ⟨n, hn, hspell, rfl, rfl, rfl⟩
  rcases cut_iff_exists_spell.mp hcut' with ⟨n', hn', hspell', rfl, rfl, rfl⟩
  have hsame : some n = some n' := by
    rw [← read?_spell hn, ← read?_spell hn', hspell, hspell']
  obtain rfl := Option.some.inj hsame
  exact ⟨rfl, rfl, rfl⟩

/-! ## Marks in a cut text -/

theorem IsPart.mem {mark text : List Char} (hpart : IsPart mark text) {c : Char} (hc : c ∈ text) :
    IsLetter c ∨ c ∈ mark := by
  rcases hpart with rfl | ⟨word, hword, rfl⟩
  · cases hc
  · rcases List.mem_append.mp hc with hmark | hmem
    · exact Or.inr hmark
    · exact Or.inl (hword.2 c hmem)

theorem not_isLetter_underscore : ¬ IsLetter '_' := by
  decide

theorem not_isLetter_dash : ¬ IsLetter '-' := by
  decide

/-- A character that the first of two texts lacks stands in the second one. -/
theorem exists_eq_append_cons {c : Char} {first second front back : List Char} (hfirst : c ∉ first)
    (htext : first ++ second = front ++ c :: back) :
    ∃ middle, second = middle ++ c :: back := by
  rcases List.append_eq_append_iff.mp htext with ⟨middle, -, hsecond⟩ | ⟨middle, hfront, hback⟩
  · exact ⟨middle, hsecond⟩
  · cases middle with
    | nil => exact ⟨[], hback.symm⟩
    | cons d middle =>
      obtain ⟨rfl, -⟩ := List.cons_eq_cons.mp hback
      exact absurd (hfront ▸ List.mem_append_right front List.mem_cons_self) hfirst

/-- What stands behind a doubled character is determined if the character does not come again. -/
theorem eq_of_double {c : Char} {rest front back : List Char} (hrest : c ∉ rest)
    (htext : c :: c :: rest = front ++ c :: c :: back) : rest = back := by
  match front with
  | [] => exact List.tail_eq_of_cons_eq (List.tail_eq_of_cons_eq htext)
  | [_] =>
    have htail : rest = c :: back := List.tail_eq_of_cons_eq (List.tail_eq_of_cons_eq htext)
    exact absurd (htail ▸ List.mem_cons_self) hrest
  | _ :: _ :: front =>
    have htail : rest = front ++ c :: c :: back :=
      List.tail_eq_of_cons_eq (List.tail_eq_of_cons_eq htext)
    exact absurd (htail ▸ List.mem_append_right front List.mem_cons_self) hrest

namespace Cut

variable {text block element modifier front back : List Char}

theorem mem_block (hcut : Cut text block element modifier) {c : Char} (hc : c ∈ block) :
    IsLetter c :=
  hcut.block.2 c hc

theorem mem_element (hcut : Cut text block element modifier) {c : Char} (hc : c ∈ element) :
    IsLetter c ∨ c = '_' := by
  simpa using hcut.element.mem hc

theorem mem_modifier (hcut : Cut text block element modifier) {c : Char} (hc : c ∈ modifier) :
    IsLetter c ∨ c = '-' := by
  simpa using hcut.modifier.mem hc

/-- Only letters and the characters of the marks stand in a text that can be cut. -/
theorem mem (hcut : Cut text block element modifier) {c : Char} (hc : c ∈ text) :
    IsLetter c ∨ c = '_' ∨ c = '-' := by
  rw [hcut.text_eq] at hc
  rcases List.mem_append.mp hc with hfront | hmodifier
  · rcases List.mem_append.mp hfront with hblock | helement
    · exact Or.inl (hcut.mem_block hblock)
    · exact (hcut.mem_element helement).imp_right Or.inl
  · exact (hcut.mem_modifier hmodifier).imp_right Or.inr

/-- A text that can be cut begins with a letter. -/
theorem exists_letter (hcut : Cut text block element modifier) : ∃ c ∈ text.head?, IsLetter c := by
  obtain ⟨c, rest, rfl⟩ := List.exists_cons_of_ne_nil hcut.block.1
  rw [hcut.text_eq]
  exact ⟨c, rfl, hcut.mem_block List.mem_cons_self⟩

theorem underscore_not_mem_block (hcut : Cut text block element modifier) : '_' ∉ block :=
  fun hmem => not_isLetter_underscore (hcut.mem_block hmem)

theorem underscore_not_mem_modifier (hcut : Cut text block element modifier) : '_' ∉ modifier := by
  intro hmem
  rcases hcut.mem_modifier hmem with h | h
  · exact not_isLetter_underscore h
  · cases h

theorem dash_not_mem_front (hcut : Cut text block element modifier) : '-' ∉ block ++ element := by
  intro hmem
  rcases List.mem_append.mp hmem with hblock | helement
  · exact not_isLetter_dash (hcut.mem_block hblock)
  · rcases hcut.mem_element helement with h | h
    · exact not_isLetter_dash h
    · cases h

/-- Behind a dash there is no underscore. -/
theorem not_mem_behind_dash (hcut : Cut (front ++ '-' :: back) block element modifier) :
    '_' ∉ back := by
  rcases exists_eq_append_cons hcut.dash_not_mem_front hcut.text_eq.symm with ⟨middle, hmodifier⟩
  intro hmem
  apply hcut.underscore_not_mem_modifier
  rw [hmodifier]
  exact List.mem_append_right middle (List.mem_cons_of_mem _ hmem)

/-- Letters follow the mark of an element, and no underscore follows them. -/
theorem behind_element (hcut : Cut (front ++ '_' :: '_' :: back) block element modifier) :
    (∃ c ∈ back.head?, IsLetter c) ∧ '_' ∉ back := by
  have htext : block ++ (element ++ modifier) = front ++ '_' :: '_' :: back := by
    rw [← List.append_assoc]
    exact hcut.text_eq.symm
  rcases exists_eq_append_cons hcut.underscore_not_mem_block htext with ⟨middle, hrest⟩
  rcases hcut.element with rfl | ⟨word, hword, rfl⟩
  · refine absurd ?_ hcut.underscore_not_mem_modifier
    rw [← List.nil_append modifier, hrest]
    exact List.mem_append_right middle List.mem_cons_self
  · have hclean : '_' ∉ word ++ modifier := fun hmem =>
      (List.mem_append.mp hmem).elim (fun h => not_isLetter_underscore (hword.2 _ h))
        hcut.underscore_not_mem_modifier
    obtain rfl := eq_of_double hclean hrest
    obtain ⟨c, rest, rfl⟩ := List.exists_cons_of_ne_nil hword.1
    exact ⟨⟨c, rfl, hword.2 c List.mem_cons_self⟩, hclean⟩

/-- Letters follow the mark of a modifier, and no dash follows them. -/
theorem behind_modifier (hcut : Cut (front ++ '-' :: '-' :: back) block element modifier) :
    (∃ c ∈ back.head?, IsLetter c) ∧ '-' ∉ back := by
  rcases exists_eq_append_cons hcut.dash_not_mem_front hcut.text_eq.symm with ⟨middle, hrest⟩
  rcases hcut.modifier with rfl | ⟨word, hword, rfl⟩
  · simp at hrest
  · have hclean : '-' ∉ word := fun hmem => not_isLetter_dash (hword.2 _ hmem)
    obtain rfl := eq_of_double hclean hrest
    obtain ⟨c, rest, rfl⟩ := List.exists_cons_of_ne_nil hword.1
    exact ⟨⟨c, rfl, hword.2 c List.mem_cons_self⟩, hclean⟩

end Cut

/-! ## The convention -/

theorem isValid_eq_false {text : List Char}
    (hnone : ∀ block element modifier, ¬ Cut text block element modifier) :
    isValid text = false := by
  rw [Bool.eq_false_iff]
  intro hvalid
  rcases isValid_iff_exists_cut.mp hvalid with ⟨block, element, modifier, hcut⟩
  exact hnone block element modifier hcut

/-- Only letters, underscores and dashes stand in a selector that follows the convention. -/
theorem isValid_eq_false_of_mem {text : List Char} {c : Char} (hc : c ∈ text)
    (hletter : ¬ IsLetter c) (hunderscore : c ≠ '_') (hdash : c ≠ '-') :
    isValid text = false := by
  refine isValid_eq_false fun block element modifier hcut => ?_
  rcases hcut.mem hc with h | h | h
  · exact hletter h
  · exact hunderscore h
  · exact hdash h

/-- No mark comes twice, and the mark of an element does not come behind that of a modifier. -/
theorem isValid_eq_false_of_two_marks (front middle back : List Char) :
    isValid (front ++ "__".toList ++ middle ++ "__".toList ++ back) = false ∧
    isValid (front ++ "--".toList ++ middle ++ "--".toList ++ back) = false ∧
    isValid (front ++ "--".toList ++ middle ++ "__".toList ++ back) = false := by
  have hsplit (mark mark' : List Char) :
      front ++ mark ++ middle ++ mark' ++ back =
        front ++ (mark ++ (middle ++ (mark' ++ back))) := by
    simp only [List.append_assoc]
  refine ⟨?_, ?_, ?_⟩ <;> refine isValid_eq_false fun block element modifier hcut => ?_ <;>
    rw [hsplit] at hcut
  · exact hcut.behind_element.2 (List.mem_append_right middle List.mem_cons_self)
  · exact hcut.behind_modifier.2 (List.mem_append_right middle List.mem_cons_self)
  · exact hcut.not_mem_behind_dash
      (List.mem_cons_of_mem '-' (List.mem_append_right middle List.mem_cons_self))

/-- Every part begins with a letter. -/
theorem isValid_eq_false_of_no_letter {back : List Char} (hback : ∀ c ∈ back.head?, ¬ IsLetter c)
    (front : List Char) :
    isValid back = false ∧
    isValid (front ++ "__".toList ++ back) = false ∧
    isValid (front ++ "--".toList ++ back) = false := by
  refine ⟨?_, ?_, ?_⟩ <;> refine isValid_eq_false fun block element modifier hcut => ?_
  · rcases hcut.exists_letter with ⟨c, hc, hletter⟩
    exact hback c hc hletter
  · rw [List.append_assoc] at hcut
    rcases hcut.behind_element.1 with ⟨c, hc, hletter⟩
    exact hback c hc hletter
  · rw [List.append_assoc] at hcut
    rcases hcut.behind_modifier.1 with ⟨c, hc, hletter⟩
    exact hback c hc hletter

/-- A selector follows the convention exactly if it can be cut into a block, an element and a
modifier, and it can be cut in one way at most.  So it is refused if any other character stands
in it, be it a line break at its end, if a mark comes twice, if the modifier comes before the
element, and if there is no letter at its beginning or behind a mark. -/
theorem isValid_iff_cut (text : List Char) :
    (isValid text = true ↔ ∃ block element modifier, Cut text block element modifier) ∧
    (∀ block element modifier block' element' modifier',
      Cut text block element modifier → Cut text block' element' modifier' →
        block = block' ∧ element = element' ∧ modifier = modifier') ∧
    (∀ c ∈ text, ¬ IsLetter c → c ≠ '_' → c ≠ '-' → isValid text = false) ∧
    isValid (text ++ ['\n']) = false ∧
    (∀ front middle back : List Char,
      isValid (front ++ "__".toList ++ middle ++ "__".toList ++ back) = false ∧
      isValid (front ++ "--".toList ++ middle ++ "--".toList ++ back) = false ∧
      isValid (front ++ "--".toList ++ middle ++ "__".toList ++ back) = false) ∧
    ∀ front back : List Char, (∀ c ∈ back.head?, ¬ IsLetter c) →
      isValid back = false ∧
      isValid (front ++ "__".toList ++ back) = false ∧
      isValid (front ++ "--".toList ++ back) = false := by
  refine ⟨isValid_iff_exists_cut, fun _ _ _ _ _ _ => Cut.unique,
    fun c => isValid_eq_false_of_mem, ?_, isValid_eq_false_of_two_marks,
    fun front back hback => isValid_eq_false_of_no_letter hback front⟩
  have hbreak : ¬ IsLetter '\n' := by
    unfold IsLetter
    decide
  exact isValid_eq_false_of_mem (List.mem_append_right text List.mem_cons_self) hbreak (by decide)
    (by decide)

end BlockName

end SheetLint
