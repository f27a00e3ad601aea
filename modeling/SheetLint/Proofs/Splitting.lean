import SheetLint.Text.Slice

/-!
# Pieces and parts of a text

A separator cuts a text into pieces, and trimming takes the blanks off a piece.  This
module gives both operations equations that do not mention how they are computed, and
says where the slices cut on the way lie.

Main results:

- Theorem `Text.separator_induction` follows a text from one separator to the next, and
  `Slice.split_append` and `Slice.split_of_not_mem` are the equations of splitting in
  its two cases.
- Theorem `Slice.trim_eq` gives the text and the place of a trimmed slice.
- Definition `Slice.PartOf` relates a slice to one that it was cut from; it is preserved
  by every cut.
- Theorem `Slice.mem_zipIdx_split` locates the numbered pieces of a split slice.
-/

namespace SheetLint

/-- Numbering comes behind a change of every item. -/
theorem mapIdx_map {α β γ : Type} (f : α → β) (g : Nat → β → γ) (items : List α) :
    (items.map f).mapIdx g = items.mapIdx fun k item => g k (f item) := by
  rw [List.mapIdx_eq_zipIdx_map, List.mapIdx_eq_zipIdx_map, List.zipIdx_map, List.map_map]
  rfl

namespace Text

/-! ## From separator to separator -/

/-- A text is free of a separator, or it is such a piece with a separator and a shorter
text behind it.  The text may be one of characters or of bytes. -/
@[elab_as_elim]
theorem separator_induction {α : Type} (separator : α) {motive : List α → Prop}
    (last : ∀ text, separator ∉ text → motive text)
    (step : ∀ piece rest, separator ∉ piece → motive rest → motive (piece ++ separator :: rest))
    (text : List α) : motive text := by
  by_cases hmem : separator ∈ text
  · rcases List.eq_append_cons_of_mem hmem with ⟨piece, rest, hsplit, hpiece⟩
    have hshorter : rest.length < text.length := by
      rw [hsplit, List.length_append, List.length_cons]
      omega
    rw [hsplit]
    exact step piece rest hpiece (separator_induction separator last step rest)
  · exact last text hmem
termination_by text.length

/-! ## Blanks at the ends -/

/-- What trimming takes off the front of a text.  A text without anything else counts as
blanks behind its beginning. -/
def leadingBlanks (text : List Char) : List Char :=
  if text.all isBlank then [] else text.takeWhile isBlank

theorem trimEnd_of_all_blank {text : List Char} (hblank : text.all isBlank = true) :
    trimEnd text = [] := by
  have h := trimEnd_append_of_all_blank (List.all_eq_true.mp hblank) []
  simpa using h

/-- Blanks put in front of a text are trimmed with it. -/
theorem trim_append_of_all_blank {blanks : List Char} (h : ∀ c ∈ blanks, isBlank c = true)
    (text : List Char) : trim (blanks ++ text) = trim text := by
  rw [trim, trim, trimStart, trimStart, trimEnd, trimEnd, List.reverse_append,
    List.dropWhile_append]
  split
  next hempty =>
    have hall : blanks.reverse.dropWhile isBlank = [] := by
      have hnone : (blanks.reverse ++ []).dropWhile isBlank = [].dropWhile isBlank :=
        List.dropWhile_append_of_pos fun c hc => h c (List.mem_reverse.mp hc)
      rwa [List.append_nil] at hnone
    rw [hall, List.isEmpty_iff.mp hempty]
  next =>
    rw [List.reverse_append, List.reverse_reverse, List.dropWhile_append_of_pos h]

/-- The blanks in front are the same with and without the blanks behind. -/
theorem takeWhile_trimEnd (text : List Char) :
    (trimEnd text).takeWhile isBlank = leadingBlanks text := by
  unfold leadingBlanks
  by_cases hblank : text.all isBlank = true
  · rw [if_pos hblank, trimEnd_of_all_blank hblank, List.takeWhile_nil]
  · have hparts := trimEnd_append_blanks text
    have hshort : ((trimEnd text).takeWhile isBlank).length ≠ (trimEnd text).length := by
      intro hlength
      apply hblank
      rw [← hparts, List.all_append, Bool.and_eq_true]
      constructor
      · rw [← (List.takeWhile_prefix isBlank).eq_of_length hlength]
        exact List.all_takeWhile
      · rw [List.all_reverse, List.all_takeWhile]
    rw [if_neg hblank]
    symm
    calc text.takeWhile isBlank
        = (trimEnd text ++ (text.reverse.takeWhile isBlank).reverse).takeWhile isBlank := by
          rw [hparts]
      _ = (trimEnd text).takeWhile isBlank := by rw [List.takeWhile_append, if_neg hshort]

/-- A text is what trimming leaves, with its leading blanks in front and other text behind. -/
theorem exists_eq_leadingBlanks_append (text : List Char) :
    ∃ behind, text = leadingBlanks text ++ trim text ++ behind := by
  refine ⟨(text.reverse.takeWhile isBlank).reverse, ?_⟩
  have hfront : leadingBlanks text ++ trim text = trimEnd text := by
    rw [← takeWhile_trimEnd, trim, trimStart, List.takeWhile_append_dropWhile]
  rw [hfront, trimEnd_append_blanks]

theorem all_blank_takeWhile (text : List Char) :
    ∀ c ∈ text.takeWhile isBlank, isBlank c = true :=
  List.all_eq_true.mp List.all_takeWhile

/-- A character of some kind is not found among others. -/
theorem not_mem_of_kind {kind : Char → Bool} {text : List Char}
    (htext : ∀ c ∈ text, kind c = true) {c : Char} (hc : kind c = false) : c ∉ text := by
  intro hmem
  rw [htext c hmem] at hc
  cases hc

/-- A text up to a character does not have it. -/
theorem not_mem_takeWhile_bne (c : Char) (text : List Char) : c ∉ text.takeWhile (· != c) := by
  intro hmem
  have hne := List.all_eq_true.mp List.all_takeWhile c hmem
  simp at hne

theorem not_mem_of_all_blank {separator : Char} {blanks : List Char}
    (hblanks : ∀ c ∈ blanks, isBlank c = true) (hseparator : isBlank separator = false) :
    separator ∉ blanks :=
  not_mem_of_kind hblanks hseparator

/-- A text is what trimming leaves, between blanks. -/
theorem exists_eq_append_trim (text : List Char) :
    ∃ before after, (∀ c ∈ before, isBlank c = true) ∧ (∀ c ∈ after, isBlank c = true) ∧
      text = before ++ trim text ++ after := by
  refine ⟨(trimEnd text).takeWhile isBlank, (text.reverse.takeWhile isBlank).reverse,
    all_blank_takeWhile _, fun c hc => all_blank_takeWhile _ c (List.mem_reverse.mp hc), ?_⟩
  rw [trim, trimStart, List.takeWhile_append_dropWhile, trimEnd_append_blanks]

theorem trim_sublist (text : List Char) : (trim text).Sublist text := by
  have hend : (trimEnd text).Sublist text := by
    have h := (List.dropWhile_sublist isBlank (l := text.reverse)).reverse
    rwa [List.reverse_reverse] at h
  exact (List.dropWhile_sublist isBlank).trans hend

/-- A trimmed text does not begin with a blank. -/
theorem not_isBlank_of_mem_head?_trim {text : List Char} {c : Char} (hc : c ∈ (trim text).head?) :
    isBlank c = false := by
  have h := List.head?_dropWhile_not isBlank (trimEnd text)
  have hhead : ((trimEnd text).dropWhile isBlank).head? = some c := hc
  simpa [hhead] using h

/-- A trimmed text does not end with a blank. -/
theorem not_isBlank_of_mem_getLast?_trim {text : List Char} {c : Char}
    (hc : c ∈ (trim text).getLast?) : isBlank c = false := by
  obtain ⟨front, hfront⟩ : ∃ front, trimEnd text = front ++ trim text :=
    ⟨(trimEnd text).takeWhile isBlank, List.takeWhile_append_dropWhile.symm⟩
  have hlast : (trimEnd text).getLast? = some c := by
    rw [hfront, List.getLast?_append, Option.mem_def.mp hc, Option.some_or]
  have h := List.head?_dropWhile_not isBlank text.reverse
  rw [trimEnd, List.getLast?_reverse] at hlast
  simpa [hlast] using h

end Text

namespace Slice

open Text (isBlank)

/-! ## Splitting -/

/-- Characters that do not separate join the piece under way. -/
theorem splitFrom_append_of_not_mem {separator : Char} {piece : List Char}
    (hpiece : separator ∉ piece) (start : Option Nat) (run rest : List Char) :
    splitFrom separator start run (piece ++ rest) =
      splitFrom separator start (piece.reverse ++ run) rest := by
  induction piece generalizing run with
  | nil => rfl
  | cons c piece ih =>
    rw [List.mem_cons, not_or] at hpiece
    rw [List.cons_append, splitFrom, if_neg (Ne.symm hpiece.1), ih hpiece.2]
    simp

/-- A slice without a separator is its own only piece. -/
theorem split_of_not_mem {separator : Char} {s : Slice} (hs : separator ∉ s.text) :
    s.split separator = [s] := by
  have h := splitFrom_append_of_not_mem hs s.start [] []
  simp only [List.append_nil] at h
  rw [split, h]
  simp [splitFrom]

/-- The first separator ends the first piece, and the pieces of the rest follow. -/
theorem split_append {separator : Char} {piece : List Char} (hpiece : separator ∉ piece)
    (start : Option Nat) (rest : List Char) :
    (⟨piece ++ separator :: rest, start⟩ : Slice).split separator =
      ⟨piece, start⟩ ::
        (⟨rest, advance (Text.byteLength piece + separator.utf8Size) start⟩ : Slice).split
          separator := by
  simp only [split]
  rw [splitFrom_append_of_not_mem hpiece, splitFrom, if_pos rfl]
  simp

/-- The texts of the pieces do not depend on where the slice lies. -/
theorem map_text_split (separator : Char) (s : Slice) :
    (s.split separator).map text = s.text.splitOn separator := by
  rcases s with ⟨text, start⟩
  induction text using Text.separator_induction separator generalizing start with
  | last text htext =>
    rw [split_of_not_mem htext, List.splitOn_eq_singleton htext, List.map_singleton]
  | step piece rest hpiece ih =>
    rw [split_append hpiece, List.splitOn_append_cons_self_of_not_mem hpiece, List.map_cons, ih]

/-! ## Trimming -/

/-- Trimming moves a slice behind its leading blanks. -/
theorem trim_eq (s : Slice) :
    s.trim = ⟨Text.trim s.text, advance (Text.byteLength (Text.leadingBlanks s.text)) s.start⟩ := by
  have htext : s.trim.text = Text.trim s.text := trim_text s
  have hstart : s.trim.start =
      advance (Text.byteLength (Text.leadingBlanks s.text)) s.start := by
    have hprefix : (Text.trimEnd s.text).take ((Text.trimEnd s.text).takeWhile isBlank).length =
        (Text.trimEnd s.text).takeWhile isBlank :=
      (List.prefix_iff_eq_take.mp (List.takeWhile_prefix isBlank)).symm
    rw [← Text.takeWhile_trimEnd, ← hprefix, ← trimEnd_text]
    rfl
  rw [← htext, ← hstart]

/-! ## Parts -/

/-- A part is cut from a slice when the slice holds its text where it lies. -/
def PartOf (part s : Slice) : Prop :=
  ∃ before after, s.text = before ++ part.text ++ after ∧
    part.start = advance (Text.byteLength before) s.start

namespace PartOf

variable {part middle s : Slice}

theorem refl (s : Slice) : s.PartOf s :=
  ⟨[], [], by simp, by simp⟩

theorem trans (hpart : part.PartOf middle) (hmiddle : middle.PartOf s) : part.PartOf s := by
  rcases hpart with ⟨inner, behind, htext, hstart⟩
  rcases hmiddle with ⟨before, after, hmtext, hmstart⟩
  refine ⟨before ++ inner, behind ++ after, ?_, ?_⟩
  · rw [hmtext, htext]
    simp only [List.append_assoc]
  · rw [hstart, hmstart, advance_advance, Text.byteLength_append]

theorem take (h : part.PartOf s) (n : Nat) : (part.take n).PartOf s := by
  refine trans ⟨[], part.text.drop n, ?_, ?_⟩ h
  · simp
  · simp [Slice.take]

theorem drop (h : part.PartOf s) (n : Nat) : (part.drop n).PartOf s := by
  refine trans ⟨part.text.take n, [], ?_, rfl⟩ h
  simp

theorem takeWhile (h : part.PartOf s) (p : Char → Bool) : (part.takeWhile p).PartOf s :=
  h.take _

theorem trim (h : part.PartOf s) : part.trim.PartOf s :=
  (h.take _).drop _

end PartOf

/-- A part of a window lies within its bounds, so its offset in the window is that of the text in
front of it. -/
theorem PartOf.exists_offsetIn {part window : Slice} (hpart : part.PartOf window) {low : Nat}
    (hlow : window.start = some low) :
    ∃ offset, window.offsetIn part = some offset ∧ part.start = some (low + offset) := by
  rcases hpart with ⟨before, after, htext, hstart⟩
  rw [hlow, advance_some] at hstart
  refine ⟨Text.byteLength before, ?_, hstart⟩
  have hbounds : low ≤ low + Text.byteLength before ∧
      low + Text.byteLength before + part.byteLength ≤ low + window.byteLength := by
    rw [byteLength, byteLength, htext, Text.byteLength_append, Text.byteLength_append]
    omega
  simp only [offsetIn, hlow, hstart]
  rw [if_pos hbounds, Nat.add_sub_cancel_left]

/-- A part of a whole document has an offset, and the document holds its text there. -/
theorem partOf_whole_iff {part : Slice} {document : List Char} :
    part.PartOf (whole document) ↔
      ∃ before after, document = before ++ part.text ++ after ∧
        part.start = some (Text.byteLength before) := by
  simp [PartOf, whole]

/-- The piece numbered `k` lies behind as many separators as pieces were numbered before it,
and holds none. -/
theorem mem_zipIdx_split {separator : Char} {s piece : Slice} {first k : Nat}
    (hpiece : (piece, k) ∈ (s.split separator).zipIdx first) :
    ∃ before after, s.text = before ++ piece.text ++ after ∧
      piece.start = advance (Text.byteLength before) s.start ∧
      k = first + before.count separator ∧ separator ∉ piece.text := by
  rcases s with ⟨text, start⟩
  induction text using Text.separator_induction separator generalizing start first with
  | last text htext =>
    rw [split_of_not_mem htext, List.zipIdx_singleton, List.mem_singleton] at hpiece
    cases hpiece
    exact ⟨[], [], by simp, by simp, by simp, htext⟩
  | step front rest hfront ih =>
    rw [split_append hfront, List.zipIdx_cons, List.mem_cons] at hpiece
    rcases hpiece with hfirst | hlater
    · cases hfirst
      exact ⟨[], separator :: rest, by simp, by simp, by simp, hfront⟩
    · rcases ih _ hlater with ⟨before, after, htext, hstart, hk, hclean⟩
      have hcount : front.count separator = 0 := List.count_eq_zero.mpr hfront
      refine ⟨front ++ separator :: before, after, ?_, ?_, ?_, hclean⟩
      · simp only at htext
        simp [htext]
      · rw [hstart, advance_advance, Text.byteLength_append, Text.byteLength_cons, Nat.add_assoc]
      · rw [hk, List.count_append, List.count_cons_self, hcount]
        omega

theorem PartOf.split {separator : Char} {s piece : Slice} (hpiece : piece ∈ s.split separator) :
    piece.PartOf s := by
  rcases List.mem_iff_getElem?.mp hpiece with ⟨k, hk⟩
  have hnumbered : (piece, k) ∈ (s.split separator).zipIdx := by
    rw [List.mem_zipIdx_iff_getElem?]
    exact hk
  rcases mem_zipIdx_split hnumbered with ⟨before, after, htext, hstart, _⟩
  exact ⟨before, after, htext, hstart⟩

end Slice

end SheetLint
