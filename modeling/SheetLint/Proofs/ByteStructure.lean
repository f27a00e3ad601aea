import SheetLint.Proofs.Decoding
import SheetLint.Proofs.LineNumber
import SheetLint.Proofs.SelectorScan

/-!
# ASCII bytes in decoded text

Whatever stands around it, a byte below 0x80 is decoded as its character and as nothing
else, and no other bytes give such a character.  So the line breaks and braces of a text are
those of its bytes, and cutting the text at them is cutting the bytes.

Main results:

- Definition `Utf8.asciiChar` is the character of an ASCII byte, and
  `Utf8.decode_append_ascii` says that it is decoded apart from its surroundings.
- Theorem `Utf8.filter_isAscii` says which ASCII characters are decoded.
- Theorem `Utf8.splitOn_text` says that the pieces of the text between ASCII characters are
  the texts of the pieces between their bytes.
- Theorem `Utf8.Recovered.keeps_ascii_structure` draws the consequences for the lines and
  selectors of decoded text.
-/

namespace SheetLint

namespace Utf8

/-! ## One ASCII byte -/

/-- A byte that is a character by itself. -/
def isAscii (byte : UInt8) : Bool :=
  byte < 0x80

/-- The character of an ASCII byte. -/
def asciiChar (byte : UInt8) : Char :=
  Char.ofNat byte.toNat

theorem isAscii_iff {byte : UInt8} : isAscii byte = true ↔ byte.toNat < 0x80 := by
  rw [isAscii, decide_eq_true_iff, UInt8.lt_iff_toNat_lt]
  rfl

theorem toNat_asciiChar {byte : UInt8} (h : isAscii byte = true) :
    (asciiChar byte).toNat = byte.toNat :=
  toNat_ofNat_of_isValidChar (Or.inl (by rw [isAscii_iff] at h; omega))

theorem asciiChar_inj {first second : UInt8} (hfirst : isAscii first = true)
    (hsecond : isAscii second = true) (h : asciiChar first = asciiChar second) :
    first = second := by
  rw [← UInt8.toNat_inj, ← toNat_asciiChar hfirst, ← toNat_asciiChar hsecond, h]

theorem decode_append_ascii {byte : UInt8} (h : isAscii byte = true) (before behind : List UInt8) :
    decode (before ++ [byte] ++ behind) =
      decode before ++ .scalar (asciiChar byte) :: decode behind :=
  decode_append_spells (.one (isAscii_iff.mp h)) before behind

/-! ## All ASCII bytes -/

theorem Spells.filter_isAscii {bytes : List UInt8} {c : Char} (h : Spells bytes c) :
    [c].filter (fun d => d.toNat < 0x80) = (bytes.filter isAscii).map asciiChar := by
  rcases h.ascii_or with ⟨a, ha, rfl, rfl⟩ | ⟨hbytes, hc⟩
  · have ha' : isAscii a = true := isAscii_iff.mpr ha
    have hchar : (Char.ofNat a.toNat).toNat < 0x80 := by
      rw [← asciiChar, toNat_asciiChar ha']
      exact ha
    simp [ha', hchar, asciiChar]
  · have hnone : bytes.filter isAscii = [] := by
      rw [List.filter_eq_nil_iff]
      intro byte hbyte hascii
      have := hbytes byte hbyte
      rw [isAscii_iff] at hascii
      omega
    simp [hnone, hc]

/-- A maximal subpart is no single ASCII byte. -/
theorem IsMaximalSubpart.ne_singleton {front behind : List UInt8}
    (h : IsMaximalSubpart front behind) {byte : UInt8} (hbyte : byte.toNat < 0x80) :
    front ≠ [byte] := by
  rintro rfl
  exact h.no_sequence [byte] _ (.one hbyte) (List.prefix_append [byte] behind)

/-- A maximal subpart has no ASCII byte. -/
theorem IsMaximalSubpart.not_isAscii {front behind : List UInt8} (h : IsMaximalSubpart front behind)
    {byte : UInt8} (hbyte : byte ∈ front) : ¬ isAscii byte = true := by
  rw [isAscii_iff]
  intro hascii
  rcases h.subpart with hone | ⟨hne, more, c, hspells⟩
  · rcases List.length_eq_one_iff.mp hone with ⟨first, rfl⟩
    rw [List.mem_singleton] at hbyte
    exact h.ne_singleton hascii (by rw [hbyte])
  · rcases hspells.ascii_or with ⟨a, ha, hbytes, -⟩ | ⟨hbytes, -⟩
    · rw [List.append_eq_singleton_iff] at hbytes
      rcases hbytes with ⟨hnil, -⟩ | ⟨hfront, -⟩
      · exact hne hnil
      · exact h.ne_singleton ha hfront
    · have := hbytes byte (List.mem_append_left more hbyte)
      omega

theorem Reads.filter_isAscii {bytes : List UInt8} {pieces : List Piece} (h : Reads bytes pieces) :
    (pieces.map Piece.char).filter (fun c => c.toNat < 0x80) =
      (bytes.filter isAscii).map asciiChar := by
  induction h with
  | nil => rfl
  | @scalar front behind c pieces hfront hbehind ih =>
    rw [List.map_cons, ← List.singleton_append, List.filter_append, List.filter_append,
      List.map_append, ih, Piece.char, hfront.filter_isAscii]
  | @illFormed front behind pieces hfront hbehind ih =>
    have hnone : front.filter isAscii = [] := by
      rw [List.filter_eq_nil_iff]
      exact fun byte hbyte => hfront.not_isAscii hbyte
    rw [List.map_cons, List.filter_cons, if_neg (by decide), ih, List.filter_append, hnone,
      List.nil_append]

/-- The ASCII characters that are decoded are the ASCII bytes. -/
theorem filter_isAscii (bytes : List UInt8) :
    ((decode bytes).map Piece.char).filter (fun c => c.toNat < 0x80) =
      (bytes.filter isAscii).map asciiChar :=
  (reads_foldl bytes).1.filter_isAscii

namespace Recovered

theorem text_append_ascii {byte : UInt8} (h : isAscii byte = true) (before behind : List UInt8) :
    (ofBytes (before ++ [byte] ++ behind)).text =
      (ofBytes before).text ++ [asciiChar byte] ++ (ofBytes behind).text := by
  rw [text_eq, decode_append_ascii h, List.map_append, List.map_cons, List.append_assoc,
    List.singleton_append]
  rfl

theorem count_asciiChar {byte : UInt8} (h : isAscii byte = true) (bytes : List UInt8) :
    (ofBytes bytes).text.count (asciiChar byte) = bytes.count byte := by
  have hchar : decide ((asciiChar byte).toNat < 0x80) = true := by
    rw [decide_eq_true_iff, toNat_asciiChar h]
    exact isAscii_iff.mp h
  have hsame : ∀ other ∈ bytes.filter isAscii,
      ((fun c => c == asciiChar byte) ∘ asciiChar) other = true ↔ (other == byte) = true := by
    intro other hother
    rw [Function.comp_apply, beq_iff_eq, beq_iff_eq]
    constructor
    · exact asciiChar_inj (List.mem_filter.mp hother).2 h
    · rintro rfl
      rfl
  calc (ofBytes bytes).text.count (asciiChar byte)
      = ((ofBytes bytes).text.filter fun c => c.toNat < 0x80).count (asciiChar byte) := by
        rw [List.count_filter (p := fun c : Char => decide (c.toNat < 0x80)) hchar]
    _ = ((bytes.filter isAscii).map asciiChar).count (asciiChar byte) := by
        rw [text_eq, filter_isAscii]
    _ = (bytes.filter isAscii).count byte := by
        rw [List.count, List.countP_map, List.countP_congr hsame, List.count]
    _ = bytes.count byte := List.count_filter h

theorem splitOn_text {byte : UInt8} (h : isAscii byte = true) (bytes : List UInt8) :
    (ofBytes bytes).text.splitOn (asciiChar byte) =
      (bytes.splitOn byte).map fun piece => (ofBytes piece).text := by
  have hfree {piece : List UInt8} (hpiece : byte ∉ piece) :
      asciiChar byte ∉ (ofBytes piece).text := by
    rw [← List.count_eq_zero, count_asciiChar h, List.count_eq_zero]
    exact hpiece
  induction bytes using Text.separator_induction byte with
  | last bytes hbytes =>
    rw [List.splitOn_eq_singleton hbytes, List.splitOn_eq_singleton (hfree hbytes),
      List.map_singleton]
  | step piece rest hpiece ih =>
    rw [List.splitOn_append_cons_self_of_not_mem hpiece, List.map_cons, ← ih, List.append_cons,
      text_append_ascii h, List.append_assoc, List.singleton_append,
      List.splitOn_append_cons_self_of_not_mem (hfree hpiece)]

end Recovered

end Utf8

namespace Utf8.Recovered

/-- A byte below 0x80 is decoded as its character, between the texts of what stands in front of
it and behind it.  So the ASCII characters of a text are the ASCII bytes in their order, every
one as often; the lines of the text are those between the line breaks of the bytes, and its
selectors those in front of their braces, with the same numbers. -/
theorem keeps_ascii_structure :
    (∀ (before behind : List UInt8) (byte : UInt8), byte < 0x80 →
      (ofBytes (before ++ [byte] ++ behind)).text =
        (ofBytes before).text ++ [asciiChar byte] ++ (ofBytes behind).text) ∧
    ∀ bytes : List UInt8,
      ((ofBytes bytes).text.filter fun c => c.toNat < 0x80) =
        (bytes.filter fun byte => byte < 0x80).map asciiChar ∧
      (∀ byte < 0x80, (ofBytes bytes).text.count (asciiChar byte) = bytes.count byte) ∧
      ((Stylesheet.ofText (ofBytes bytes).text).lines.map fun line =>
          (line.number, line.slice.text)) =
        (bytes.splitOn 0x0A).mapIdx (fun k piece => (k + 1, Text.trim (ofBytes piece).text)) ∧
      ((Stylesheet.ofText (ofBytes bytes).text).selectors.map fun s =>
          (s.ordinal, s.slice.text)) =
        ((bytes.splitOn 0x7B).dropLast.filter fun piece => piece ≠ []).mapIdx
          (fun k piece => (k + 1, Text.trim (ofBytes piece).text)) := by
  have hascii {byte : UInt8} (h : byte < 0x80) : isAscii byte = true := decide_eq_true h
  refine ⟨fun before behind byte h => text_append_ascii (hascii h) before behind, fun bytes => ?_⟩
  refine ⟨filter_isAscii bytes, fun byte h => count_asciiChar (hascii h) bytes, ?_, ?_⟩
  · have hpieces : (ofBytes bytes).text.splitOn '\n' =
        (bytes.splitOn 0x0A).map fun piece => (ofBytes piece).text :=
      splitOn_text (show isAscii 0x0A = true from rfl) bytes
    rw [Stylesheet.text_lines, hpieces, mapIdx_map]
  · have hpieces : (ofBytes bytes).text.splitOn '{' =
        (bytes.splitOn 0x7B).map fun piece => (ofBytes piece).text :=
      splitOn_text (show isAscii 0x7B = true from rfl) bytes
    have hempty : ((fun piece => decide (piece ≠ [])) ∘ fun piece => (ofBytes piece).text) =
        fun piece : List UInt8 => decide (piece ≠ []) := by
      funext piece
      simp [text_eq_nil_iff]
    rw [Stylesheet.numbered_selectors, hpieces, ← List.map_dropLast, List.filter_map, hempty,
      mapIdx_map]

/-- A line break behind a sequence that was cut short. -/
theorem keeps_ascii_structure_behind_truncated :
    (0x0A : UInt8) < 0x80 ∧
      (ofBytes [0x61, 0xE2, 0x82, 0x0A, 0x7B]).text = ['a', '\uFFFD', '\n', '{'] :=
  ⟨by decide, keeps_ascii_structure.1 [0x61, 0xE2, 0x82] [0x7B] 0x0A (by decide)⟩

end Utf8.Recovered

end SheetLint
