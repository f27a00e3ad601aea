import SheetLint.Proofs.Decoding

/-!
# Encoded texts and replacements

A text is encoded character by character, and decoding gives it back.  Bytes that encode no
text have a stretch that is replaced, so the number of replacements tells the two apart,
although a text may hold replacement characters of its own.

Main results:

- Definition `encode` gives the bytes of a text, and `decode_encode` says that they are decoded
  to its characters.
- Theorem `illFormed_not_mem_iff` says that nothing is replaced exactly in the bytes of a text,
  and `isValidUTF8_iff` compares this with the validity of byte arrays.
- Theorem `scalar_mem_decode_iff` says that a character is decoded where its bytes stand.
- Theorems `Recovered.ofBytes_encode`, `Recovered.replaced_eq_zero_iff` and
  `Recovered.replaced_eq_count` describe the recovered text of bytes and its count.
-/

namespace SheetLint.Utf8

/-! ## Encoded texts -/

/-- The bytes that spell a text. -/
def encode (text : List Char) : List UInt8 :=
  text.flatMap String.utf8EncodeChar

theorem encode_cons (c : Char) (text : List Char) :
    encode (c :: text) = String.utf8EncodeChar c ++ encode text :=
  List.flatMap_cons

/-- An encoded text is decoded to its characters. -/
theorem decode_encode (text : List Char) : decode (encode text) = text.map Piece.scalar := by
  induction text with
  | nil => rfl
  | cons c rest ih =>
    have hfirst : decode (String.utf8EncodeChar c ++ encode rest) =
        .scalar c :: decode (encode rest) :=
      decode_append_spells (spells_iff.mpr rfl) [] (encode rest)
    rw [encode_cons, hfirst, ih, List.map_cons]

theorem illFormed_not_mem_map_scalar (text : List Char) :
    Piece.illFormed ∉ text.map Piece.scalar := by
  intro hmem
  rcases List.mem_map.mp hmem with ⟨c, -, hc⟩
  cases hc

/-- Bytes that are cut into sequences only encode the characters of these. -/
theorem Reads.eq_encode {bytes : List UInt8} {pieces : List Piece} (h : Reads bytes pieces)
    (hnone : Piece.illFormed ∉ pieces) : bytes = encode (pieces.map Piece.char) := by
  induction h with
  | nil => rfl
  | @scalar front behind c pieces hfront hbehind ih =>
    rw [List.mem_cons, not_or] at hnone
    rw [List.map_cons, Piece.char, encode_cons, hfront.eq_utf8EncodeChar, ← ih hnone.2]
  | illFormed => exact absurd List.mem_cons_self hnone

/-- Nothing is replaced exactly if the bytes encode what they are decoded to. -/
theorem illFormed_not_mem_iff (bytes : List UInt8) :
    Piece.illFormed ∉ decode bytes ↔ bytes = encode ((decode bytes).map Piece.char) := by
  constructor
  · exact (reads_foldl bytes).1.eq_encode
  · intro hbytes
    rw [hbytes, decode_encode]
    exact illFormed_not_mem_map_scalar _

/-- Bytes are valid exactly if nothing is replaced in them. -/
theorem isValidUTF8_iff (bytes : List UInt8) :
    bytes.toByteArray.IsValidUTF8 ↔ Piece.illFormed ∉ decode bytes := by
  constructor
  · rintro ⟨text, harray⟩
    have hbytes : bytes = encode text := by
      rw [← List.toList_data_toByteArray (l := bytes), harray]
      exact List.toList_data_toByteArray
    rw [hbytes, decode_encode]
    exact illFormed_not_mem_map_scalar text
  · intro hnone
    exact ⟨_, congrArg List.toByteArray ((illFormed_not_mem_iff bytes).mp hnone)⟩

/-! ## Where characters are decoded -/

theorem Reads.infix_of_mem {bytes : List UInt8} {pieces : List Piece} (h : Reads bytes pieces)
    {c : Char} (hc : .scalar c ∈ pieces) : String.utf8EncodeChar c <:+: bytes := by
  induction h with
  | nil => cases hc
  | @scalar front behind d pieces hfront hbehind ih =>
    rcases List.mem_cons.mp hc with hfirst | hrest
    · cases hfirst
      rw [hfront.eq_utf8EncodeChar]
      exact (List.prefix_append front behind).isInfix
    · exact (ih hrest).trans (List.suffix_append front behind).isInfix
  | @illFormed front behind pieces hfront hbehind ih =>
    have hrest : .scalar c ∈ pieces := by simpa using hc
    exact (ih hrest).trans (List.suffix_append front behind).isInfix

/-- A character is decoded exactly where its bytes stand. -/
theorem scalar_mem_decode_iff (c : Char) (bytes : List UInt8) :
    .scalar c ∈ decode bytes ↔ String.utf8EncodeChar c <:+: bytes := by
  constructor
  · exact (reads_foldl bytes).1.infix_of_mem
  · rintro ⟨before, behind, rfl⟩
    rw [decode_append_spells (spells_iff.mpr rfl)]
    exact List.mem_append_right _ List.mem_cons_self

/-! ## Counting replacements -/

theorem Piece.char_eq_replacement_iff (piece : Piece) :
    piece.char = replacement ↔ piece = .illFormed ∨ piece = .scalar replacement := by
  cases piece with
  | scalar c => simp [Piece.char]
  | illFormed => simp [Piece.char]

/-- A replacement character of the text was put there, or was spelled out. -/
theorem count_replacement (pieces : List Piece) :
    (pieces.map Piece.char).count replacement =
      pieces.count .illFormed + pieces.count (.scalar replacement) := by
  induction pieces with
  | nil => rfl
  | cons piece rest ih =>
    simp only [List.map_cons, List.count_cons, ih, beq_iff_eq, Piece.char_eq_replacement_iff]
    by_cases hill : piece = .illFormed
    · simp [hill]
      omega
    · simp [hill]
      omega

namespace Recovered

/-- What is counted: the stretches that were replaced, and then also the replacement characters
that were spelled out. -/
theorem replaced_eq_count (bytes : List UInt8) :
    (ofBytes bytes).replaced =
      if .illFormed ∈ decode bytes then
        (decode bytes).count .illFormed + (decode bytes).count (.scalar replacement)
      else 0 := by
  rw [← count_replacement]
  rfl

/-- Nothing is counted exactly if nothing was replaced. -/
theorem replaced_eq_zero_iff (bytes : List UInt8) :
    (ofBytes bytes).replaced = 0 ↔ Piece.illFormed ∉ decode bytes := by
  rw [replaced_eq_count]
  split
  next hill =>
    have hpos : 0 < (decode bytes).count .illFormed := List.count_pos_iff.mpr hill
    constructor
    · intro hzero
      omega
    · exact absurd hill
  next hnone => exact ⟨fun _ => hnone, fun _ => rfl⟩

/-- An encoded text is recovered, and nothing is counted in it. -/
theorem ofBytes_encode (text : List Char) : ofBytes (encode text) = ⟨text, 0⟩ := by
  have htext : (ofBytes (encode text)).text = text := by
    rw [text_eq, decode_encode, List.map_map]
    exact List.map_id text
  have hreplaced : (ofBytes (encode text)).replaced = 0 := by
    rw [replaced_eq_zero_iff, decode_encode]
    exact illFormed_not_mem_map_scalar text
  calc ofBytes (encode text)
      = ⟨(ofBytes (encode text)).text, (ofBytes (encode text)).replaced⟩ := rfl
    _ = ⟨text, 0⟩ := by rw [htext, hreplaced]

end Recovered

end SheetLint.Utf8
