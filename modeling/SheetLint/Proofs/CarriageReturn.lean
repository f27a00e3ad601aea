import Mathlib.Data.List.Induction
import SheetLint.Proofs.BlockSpelling
import SheetLint.Proofs.Splitting

/-!
# Texts with carriage returns

A text with line feeds alone is converted by putting a carriage return in front of each of
them.  A carriage return is blank and no letter, as a line feed is, so the conversion commutes
with trimming and changes none of the counts that the conventions are about.

Main results:

- Definition `Text.crlf` converts a text, and `Text.crlfString` a string.
- Definition `Text.breaksBefore` counts the line breaks in front of a byte position, and
  `Text.byteLength_crlf` says by how much a text grows.
- Theorems `Text.trim_crlf` and `Text.leadingBlanks_crlf` say that a converted text is trimmed
  to the converted trimmed text.
- Theorems `Specificity.ofText_crlf` and `BlockName.isValid_crlf` say that a converted selector
  is judged as before.
-/

namespace SheetLint

namespace Text

/-! ## Converting -/

/-- A text with a carriage return in front of every line feed. -/
def crlf (text : List Char) : List Char :=
  text.flatMap fun c => if c = '\n' then ['\r', '\n'] else [c]

@[simp]
theorem crlf_nil : crlf [] = [] :=
  rfl

@[simp]
theorem crlf_append (first second : List Char) :
    crlf (first ++ second) = crlf first ++ crlf second :=
  List.flatMap_append

theorem crlf_cons_break (rest : List Char) : crlf ('\n' :: rest) = '\r' :: '\n' :: crlf rest :=
  rfl

theorem crlf_cons {c : Char} (hc : c ≠ '\n') (rest : List Char) :
    crlf (c :: rest) = c :: crlf rest := by
  simp [crlf, hc]

/-- Only carriage returns are new in a converted text. -/
theorem mem_crlf_iff {c : Char} (hc : c ≠ '\r') {text : List Char} : c ∈ crlf text ↔ c ∈ text := by
  induction text with
  | nil => rfl
  | cons d rest ih =>
    by_cases hd : d = '\n'
    · rw [hd, crlf_cons_break, List.mem_cons, List.mem_cons, List.mem_cons, ih]
      simp [hc]
    · rw [crlf_cons hd, List.mem_cons, List.mem_cons, ih]

/-- A text without line breaks is converted already. -/
theorem crlf_of_not_mem {text : List Char} (htext : '\n' ∉ text) : crlf text = text := by
  induction text with
  | nil => rfl
  | cons c rest ih =>
    rw [List.mem_cons, not_or] at htext
    rw [crlf_cons (Ne.symm htext.1), ih htext.2]

theorem crlf_eq_nil_iff {text : List Char} : crlf text = [] ↔ text = [] := by
  cases text with
  | nil => simp
  | cons c rest =>
    by_cases hc : c = '\n'
    · simp [hc, crlf_cons_break]
    · simp [crlf_cons hc]

/-! ## Counting -/

theorem count_crlf {c : Char} (hc : c ≠ '\r') (text : List Char) :
    (crlf text).count c = text.count c := by
  induction text with
  | nil => rfl
  | cons d rest ih =>
    by_cases hd : d = '\n'
    · rw [hd, crlf_cons_break, List.count_cons_of_ne (Ne.symm hc), List.count_cons,
        List.count_cons, ih]
    · rw [crlf_cons hd, List.count_cons, List.count_cons, ih]

/-- A converted text grows by one byte for each line break. -/
theorem byteLength_crlf (text : List Char) :
    byteLength (crlf text) = byteLength text + text.count '\n' := by
  have hsize : ('\r' : Char).utf8Size = 1 := by decide
  induction text with
  | nil => rfl
  | cons c rest ih =>
    by_cases hc : c = '\n'
    · rw [hc, crlf_cons_break, byteLength_cons, byteLength_cons, byteLength_cons, ih,
        List.count_cons_self, hsize]
      omega
    · rw [crlf_cons hc, byteLength_cons, byteLength_cons, ih,
        List.count_cons_of_ne hc]
      omega

/-- The number of line breaks that begin in front of a byte position. -/
def breaksBefore : List Char → Nat → Nat
  | [], _ => 0
  | _ :: _, 0 => 0
  | c :: rest, offset + 1 =>
    (if c = '\n' then 1 else 0) + breaksBefore rest (offset + 1 - c.utf8Size)

theorem breaksBefore_append (before after : List Char) :
    breaksBefore (before ++ after) (byteLength before) = before.count '\n' := by
  induction before with
  | nil => cases after <;> rfl
  | cons c before ih =>
    obtain ⟨n, hn⟩ : ∃ n, byteLength (c :: before) = n + 1 := by
      have hpos := c.utf8Size_pos
      exact ⟨byteLength (c :: before) - 1, by rw [byteLength_cons]; omega⟩
    have hrest : n + 1 - c.utf8Size = byteLength before := by
      rw [← hn, byteLength_cons]
      omega
    rw [hn, List.cons_append, breaksBefore, hrest, ih, List.count_cons, Nat.add_comm]
    simp

/-! ## Trimming -/

theorem isBlank_return : isBlank '\r' = true := by
  decide

theorem isBlank_break : isBlank '\n' = true := by
  decide

theorem takeWhile_crlf (text : List Char) :
    (crlf text).takeWhile isBlank = crlf (text.takeWhile isBlank) := by
  induction text with
  | nil => rfl
  | cons c rest ih =>
    by_cases hc : c = '\n'
    · rw [hc, crlf_cons_break, List.takeWhile_cons_of_pos isBlank_return,
        List.takeWhile_cons_of_pos isBlank_break, List.takeWhile_cons_of_pos isBlank_break,
        crlf_cons_break, ih]
    · rw [crlf_cons hc, List.takeWhile_cons, List.takeWhile_cons]
      split
      next => rw [crlf_cons hc, ih]
      next => rfl

theorem dropWhile_crlf (text : List Char) :
    (crlf text).dropWhile isBlank = crlf (text.dropWhile isBlank) := by
  induction text with
  | nil => rfl
  | cons c rest ih =>
    by_cases hc : c = '\n'
    · rw [hc, crlf_cons_break, List.dropWhile_cons_of_pos isBlank_return,
        List.dropWhile_cons_of_pos isBlank_break, List.dropWhile_cons_of_pos isBlank_break, ih]
    · rw [crlf_cons hc, List.dropWhile_cons, List.dropWhile_cons]
      split
      next => exact ih
      next => rw [crlf_cons hc]

theorem trimEnd_append_not_blank (text : List Char) {c : Char} (hc : isBlank c = false) :
    trimEnd (text ++ [c]) = text ++ [c] := by
  simp [trimEnd, hc]

theorem trimEnd_crlf (text : List Char) : trimEnd (crlf text) = crlf (trimEnd text) := by
  induction text using List.reverseRecOn with
  | nil => rfl
  | append_singleton text c ih =>
    cases hblank : isBlank c with
    | true =>
      have hall : ∀ d ∈ crlf [c], isBlank d = true := by
        intro d hd
        by_cases hd' : d = '\r'
        · rw [hd', isBlank_return]
        · rw [mem_crlf_iff hd', List.mem_singleton] at hd
          rw [hd, hblank]
      have hone : ∀ d ∈ [c], isBlank d = true := by
        intro d hd
        rw [List.mem_singleton.mp hd, hblank]
      rw [crlf_append, trimEnd_append_of_all_blank hall, ih, trimEnd_append_of_all_blank hone]
    | false =>
      have hbreak : c ≠ '\n' := by
        rintro rfl
        rw [isBlank_break] at hblank
        cases hblank
      rw [trimEnd_append_not_blank text hblank, crlf_append, crlf_cons hbreak, crlf_nil,
        trimEnd_append_not_blank _ hblank]

/-- Converting and trimming commute. -/
theorem trim_crlf (text : List Char) : trim (crlf text) = crlf (trim text) := by
  rw [trim, trimEnd_crlf, trimStart, dropWhile_crlf]
  rfl

/-- The blanks in front of a converted text are the converted blanks in front of it. -/
theorem leadingBlanks_crlf (text : List Char) :
    leadingBlanks (crlf text) = crlf (leadingBlanks text) := by
  rw [← takeWhile_trimEnd, ← takeWhile_trimEnd, trimEnd_crlf, takeWhile_crlf]

/-! ## Strings -/

/-- A string with a carriage return in front of every line feed. -/
def crlfString (s : String) : String :=
  String.ofList (crlf s.toList)

theorem crlfString_append (first second : String) :
    crlfString (first ++ second) = crlfString first ++ crlfString second := by
  rw [crlfString, String.toList_append, crlf_append, String.ofList_append]
  rfl

theorem crlfString_ofList (text : List Char) :
    crlfString (String.ofList text) = String.ofList (crlf text) := by
  rw [crlfString, String.toList_ofList]

theorem crlfString_of_not_mem {s : String} (hs : '\n' ∉ s.toList) : crlfString s = s := by
  rw [crlfString, crlf_of_not_mem hs, String.ofList_toList]

theorem not_mem_toString_nat (n : Nat) : '\n' ∉ (toString n).toList := by
  rw [Nat.toString_eq_ofList_toDigits, String.toList_ofList]
  intro hmem
  have hdigit := Nat.isDigit_of_mem_toDigits (by decide) (by decide) hmem
  cases hdigit

/-- Numbers are written on one line. -/
theorem crlfString_toString_nat (n : Nat) : crlfString (toString n) = toString n :=
  crlfString_of_not_mem (not_mem_toString_nat n)

theorem crlfString_toString_int (i : Int) : crlfString (toString i) = toString i := by
  cases i with
  | ofNat n => exact crlfString_toString_nat n
  | negSucc n =>
    have hsign : toString (Int.negSucc n) = "-" ++ toString (n + 1) := rfl
    rw [hsign, crlfString_append, crlfString_toString_nat]
    rfl

end Text

/-! ## Conventions for selectors -/

namespace Specificity

theorem countWords_crlf (inside : Bool) (text : List Char) :
    countWords inside (Text.crlf text) = countWords inside text := by
  induction text generalizing inside with
  | nil => rfl
  | cons c rest ih =>
    by_cases hc : c = '\n'
    · rw [hc, Text.crlf_cons_break]
      exact ih false
    · rw [Text.crlf_cons hc, countWords, countWords, ih, ih]

/-- A converted selector is as specific as before. -/
theorem ofText_crlf (text : List Char) : ofText (Text.crlf text) = ofText text := by
  rw [ofText, ofText, Text.count_crlf (by decide), Text.count_crlf (by decide), countWords_crlf]

end Specificity

/-- A converted selector follows the naming convention exactly if it did so before, for a name
holds no line break. -/
theorem BlockName.isValid_crlf (text : List Char) : isValid (Text.crlf text) = isValid text := by
  by_cases hbreak : '\n' ∈ text
  · have hinvalid (other : List Char) (hother : '\n' ∈ other) : isValid other = false := by
      rw [Bool.eq_false_iff]
      intro hvalid
      exact not_mem_of_isValid hvalid rfl (by decide) (by decide) hother
    have hconverted : '\n' ∈ Text.crlf text := (Text.mem_crlf_iff (by decide)).mpr hbreak
    rw [hinvalid text hbreak, hinvalid _ hconverted]
  · rw [Text.crlf_of_not_mem hbreak]

end SheetLint
