/-!
# Decoding UTF-8 with replacement

Bytes are read one at a time.  A well-formed sequence gives its character, and
each maximal beginning of a sequence that cannot go on gives one replacement
character; the byte that broke it is then read afresh.

Main results:

- Definition `Decoder.feed` reads one byte and `decode` a whole list of bytes.
- Definition `Recovered.ofBytes` is the decoded text with the number of its
  replacement characters, which is zero when every sequence was well formed.
- Theorem `foldl_feed_pieces` says that pieces once decoded are never touched
  again, and `decode_append_of_complete` that reading starts afresh after a
  complete sequence.
-/

namespace SheetLint.Utf8

/-! ## Decoded pieces -/

/-- The character that stands for bytes that form no character. -/
def replacement : Char := '\uFFFD'

/-- What a stretch of bytes decodes to: a character, or nothing because the stretch
is the longest beginning of a sequence that cannot be completed. -/
inductive Piece where
  | scalar (c : Char)
  | illFormed
  deriving DecidableEq, Repr

/-- The character written for a piece. -/
def Piece.char : Piece → Char
  | .scalar c => c
  | .illFormed => replacement

/-! ## The decoder -/

/-- A sequence under way: the next byte has to lie between `low` and `high`,
`missing` more bytes follow it, and `code` holds the bits read so far. -/
structure Partial where
  missing : Nat
  low : Nat
  high : Nat
  code : Nat
  deriving DecidableEq, Repr

/-- A decoder in the middle of its input: the sequence under way, if any, and the
pieces decoded so far, latest first. -/
structure Decoder where
  pending : Option Partial
  pieces : List Piece
  deriving DecidableEq, Repr

namespace Decoder

/-- The decoder that has read nothing. -/
def initial : Decoder :=
  ⟨none, []⟩

/-- Read a byte where a sequence has to begin.  The lead byte fixes the length of its
sequence, and the range of the next byte shuts out overlong forms, surrogates and
codes above the last one. -/
def lead (pieces : List Piece) (byte : Nat) : Decoder :=
  if byte < 0x80 then ⟨none, .scalar (Char.ofNat byte) :: pieces⟩
  else if 0xC2 ≤ byte ∧ byte ≤ 0xDF then ⟨some ⟨0, 0x80, 0xBF, byte - 0xC0⟩, pieces⟩
  else if byte = 0xE0 then ⟨some ⟨1, 0xA0, 0xBF, 0⟩, pieces⟩
  else if byte = 0xED then ⟨some ⟨1, 0x80, 0x9F, 0xD⟩, pieces⟩
  else if 0xE1 ≤ byte ∧ byte ≤ 0xEF then ⟨some ⟨1, 0x80, 0xBF, byte - 0xE0⟩, pieces⟩
  else if byte = 0xF0 then ⟨some ⟨2, 0x90, 0xBF, 0⟩, pieces⟩
  else if 0xF1 ≤ byte ∧ byte ≤ 0xF3 then ⟨some ⟨2, 0x80, 0xBF, byte - 0xF0⟩, pieces⟩
  else if byte = 0xF4 then ⟨some ⟨2, 0x80, 0x8F, 4⟩, pieces⟩
  else ⟨none, .illFormed :: pieces⟩

/-- Read a byte that continues a sequence with the code gained from it. -/
def advance (pieces : List Piece) (code : Nat) : Nat → Decoder
  | 0 => ⟨none, .scalar (Char.ofNat code) :: pieces⟩
  | missing + 1 => ⟨some ⟨missing, 0x80, 0xBF, code⟩, pieces⟩

/-- Read one byte: it continues the sequence under way, or breaks it and is read as
the beginning of the next one. -/
def feed (d : Decoder) (byte : UInt8) : Decoder :=
  match d.pending with
  | none => lead d.pieces byte.toNat
  | some p =>
    if p.low ≤ byte.toNat ∧ byte.toNat ≤ p.high then
      advance d.pieces (p.code * 64 + (byte.toNat - 0x80)) p.missing
    else lead (.illFormed :: d.pieces) byte.toNat

/-- The pieces in reading order once the input has ended; a sequence still under way
is ill formed. -/
def finish (d : Decoder) : List Piece :=
  match d.pending with
  | none => d.pieces.reverse
  | some _ => (.illFormed :: d.pieces).reverse

end Decoder

/-- The pieces that a list of bytes decodes to. -/
def decode (bytes : List UInt8) : List Piece :=
  (bytes.foldl Decoder.feed Decoder.initial).finish

/-! ## Reading goes on from where it stopped -/

theorem lead_append (more pieces : List Piece) (byte : Nat) :
    Decoder.lead (pieces ++ more) byte =
      ⟨(Decoder.lead pieces byte).pending, (Decoder.lead pieces byte).pieces ++ more⟩ := by
  unfold Decoder.lead
  repeat' split
  all_goals rfl

theorem feed_append (more : List Piece) (d : Decoder) (byte : UInt8) :
    Decoder.feed ⟨d.pending, d.pieces ++ more⟩ byte =
      ⟨(d.feed byte).pending, (d.feed byte).pieces ++ more⟩ := by
  unfold Decoder.feed
  cases d.pending with
  | none => exact lead_append more d.pieces byte.toNat
  | some p =>
    dsimp only
    split
    · cases p.missing <;> rfl
    · exact lead_append more (.illFormed :: d.pieces) byte.toNat

/-- Pieces decoded before some bytes stay as they are while the bytes are read. -/
theorem foldl_feed_pieces (more : List Piece) (bytes : List UInt8) (d : Decoder) :
    bytes.foldl Decoder.feed ⟨d.pending, d.pieces ++ more⟩ =
      ⟨(bytes.foldl Decoder.feed d).pending, (bytes.foldl Decoder.feed d).pieces ++ more⟩ := by
  induction bytes generalizing d with
  | nil => rfl
  | cons byte rest ih => rw [List.foldl_cons, List.foldl_cons, feed_append, ih]

/-- Behind bytes that end with a complete sequence, reading starts afresh. -/
theorem decode_append_of_complete {first : List UInt8}
    (h : (first.foldl Decoder.feed Decoder.initial).pending = none) (second : List UInt8) :
    decode (first ++ second) = decode first ++ decode second := by
  have continued := foldl_feed_pieces (first.foldl Decoder.feed Decoder.initial).pieces second
    Decoder.initial
  simp only [Decoder.initial, List.nil_append] at continued h
  simp only [decode, List.foldl_append, Decoder.initial]
  generalize List.foldl Decoder.feed ⟨none, []⟩ first = start at *
  obtain ⟨pending, pieces⟩ := start
  subst h
  rw [continued]
  cases ended : (List.foldl Decoder.feed ⟨none, []⟩ second).pending <;>
    simp [Decoder.finish, ended]

/-! ## Recovered text -/

/-- Decoded text and how many replacement characters it holds.  A replacement character
that the bytes spell out is counted only beside an ill-formed sequence. -/
structure Recovered where
  text : List Char
  replaced : Nat
  deriving DecidableEq, Repr

/-- Decode bytes, counting replacement characters unless every sequence is well formed. -/
def Recovered.ofBytes (bytes : List UInt8) : Recovered :=
  let pieces := decode bytes
  let text := pieces.map Piece.char
  ⟨text, if Piece.illFormed ∈ pieces then text.count replacement else 0⟩

end SheetLint.Utf8
