import SheetLint.Text.Blank

/-!
# Located text

A slice is a piece of a document that remembers where in the document it lies.
Positions are byte offsets in the UTF-8 form of the document, and every slice is
cut from another one by `take` and `drop`, so a position always belongs to the
text that it locates.

Main results:

- Definitions `take`, `drop`, `takeWhile`, `dropWhile`, `trim` and `split` cut
  slices; each has an equation for the text that it leaves.
- Theorems `splitFrom_append_separator`, `not_mem_of_mem_splitFrom` and `length_split`
  are the laws of splitting.
- Definition `offsetIn` says where a slice lies in a window of the same document.
-/

namespace SheetLint

namespace Text

/-! ## Byte lengths and byte positions -/

/-- The number of bytes in the UTF-8 form of a text. -/
def byteLength (text : List Char) : Nat :=
  text.foldr (fun c bytes => c.utf8Size + bytes) 0

@[simp]
theorem byteLength_nil : byteLength [] = 0 := rfl

@[simp]
theorem byteLength_cons (c : Char) (text : List Char) :
    byteLength (c :: text) = c.utf8Size + byteLength text := rfl

@[simp]
theorem byteLength_append (first second : List Char) :
    byteLength (first ++ second) = byteLength first + byteLength second := by
  induction first with
  | nil => simp
  | cons c rest ih => simp [ih, Nat.add_assoc]

@[simp]
theorem byteLength_reverse (text : List Char) : byteLength text.reverse = byteLength text := by
  induction text with
  | nil => rfl
  | cons c rest ih => simp [ih, Nat.add_comm]

/-- The two parts of a text at a byte position, if the position lies between two
characters of the text or at one of its ends. -/
def splitAtByte? : Nat → List Char → Option (List Char × List Char)
  | 0, text => some ([], text)
  | _ + 1, [] => none
  | n + 1, c :: rest =>
    if c.utf8Size ≤ n + 1 then
      (splitAtByte? (n + 1 - c.utf8Size) rest).map fun (before, after) => (c :: before, after)
    else none

end Text

/-! ## Slices -/

/-- A piece of text with the byte offset at which it begins in its document; text
that lies in no document has no offset. -/
structure Slice where
  text : List Char
  start : Option Nat
  deriving DecidableEq, Repr, Inhabited

namespace Slice

open Text (isBlank)

/-- An offset moved on by some bytes, if there is one. -/
def advance (bytes : Nat) (start : Option Nat) : Option Nat :=
  start.map (· + bytes)

@[simp]
theorem advance_some (bytes start : Nat) : advance bytes (some start) = some (start + bytes) := rfl

@[simp]
theorem advance_none (bytes : Nat) : advance bytes none = none := rfl

@[simp]
theorem advance_zero (start : Option Nat) : advance 0 start = start := by
  cases start <;> rfl

/-- Two moves are one move by the sum. -/
theorem advance_advance (first second : Nat) (start : Option Nat) :
    advance second (advance first start) = advance (first + second) start := by
  cases start
  · rfl
  · simp [Nat.add_assoc]

/-- A whole document. -/
def whole (text : List Char) : Slice :=
  ⟨text, some 0⟩

/-- Text that lies in no document. -/
def detached (text : List Char) : Slice :=
  ⟨text, none⟩

/-- The number of bytes of a slice. -/
def byteLength (s : Slice) : Nat :=
  Text.byteLength s.text

/-- The text of a slice as a string. -/
def toString (s : Slice) : String :=
  String.ofList s.text

/-- The first characters of a slice. -/
def take (n : Nat) (s : Slice) : Slice :=
  ⟨s.text.take n, s.start⟩

/-- The slice behind its first characters. -/
def drop (n : Nat) (s : Slice) : Slice :=
  ⟨s.text.drop n, advance (Text.byteLength (s.text.take n)) s.start⟩

/-- The longest beginning of a slice whose characters all pass the test. -/
def takeWhile (p : Char → Bool) (s : Slice) : Slice :=
  s.take (s.text.takeWhile p).length

/-- The slice behind its longest beginning whose characters all pass the test. -/
def dropWhile (p : Char → Bool) (s : Slice) : Slice :=
  s.drop (s.text.takeWhile p).length

/-- The slice without the blanks at its end. -/
def trimEnd (s : Slice) : Slice :=
  s.take (Text.trimEnd s.text).length

/-- The slice without the blanks at its beginning. -/
def trimStart (s : Slice) : Slice :=
  s.dropWhile isBlank

/-- The slice without the blanks at its ends; an all-blank slice leaves the empty
slice at its beginning, because the end is trimmed first. -/
def trim (s : Slice) : Slice :=
  s.trimEnd.trimStart

@[simp]
theorem take_text (n : Nat) (s : Slice) : (s.take n).text = s.text.take n := rfl

@[simp]
theorem drop_text (n : Nat) (s : Slice) : (s.drop n).text = s.text.drop n := rfl

@[simp]
theorem takeWhile_text (p : Char → Bool) (s : Slice) :
    (s.takeWhile p).text = s.text.takeWhile p :=
  (List.prefix_iff_eq_take.mp (List.takeWhile_prefix p)).symm

@[simp]
theorem dropWhile_text (p : Char → Bool) (s : Slice) :
    (s.dropWhile p).text = s.text.dropWhile p := by
  have parts := @List.takeWhile_append_dropWhile _ p s.text
  calc s.text.drop (s.text.takeWhile p).length
      = (s.text.takeWhile p ++ s.text.dropWhile p).drop (s.text.takeWhile p).length := by rw [parts]
    _ = s.text.dropWhile p := List.drop_left

@[simp]
theorem trimEnd_text (s : Slice) : s.trimEnd.text = Text.trimEnd s.text :=
  (List.prefix_iff_eq_take.mp ⟨_, Text.trimEnd_append_blanks s.text⟩).symm

@[simp]
theorem trimStart_text (s : Slice) : s.trimStart.text = Text.trimStart s.text :=
  dropWhile_text isBlank s

@[simp]
theorem trim_text (s : Slice) : s.trim.text = Text.trim s.text := by
  simp [trim, Text.trim]

/-! ## Splitting -/

/-- The pieces of a text between the separators, where `run` holds the characters
of the current piece so far, latest first, and `start` locates that piece. -/
def splitFrom (separator : Char) (start : Option Nat) (run : List Char) : List Char → List Slice
  | [] => [⟨run.reverse, start⟩]
  | c :: rest =>
    if c = separator then
      ⟨run.reverse, start⟩ ::
        splitFrom separator (advance (Text.byteLength run + c.utf8Size) start) [] rest
    else splitFrom separator start (c :: run) rest

/-- The pieces of a slice between the separators: one more than there are separators. -/
def split (separator : Char) (s : Slice) : List Slice :=
  splitFrom separator s.start [] s.text

/-- Behind a separator the splitting starts afresh. -/
theorem splitFrom_append_separator (separator : Char) (start : Option Nat)
    (run before after : List Char) :
    splitFrom separator start run (before ++ separator :: after) =
      splitFrom separator start run before ++
        splitFrom separator
          (advance (Text.byteLength run + Text.byteLength before + separator.utf8Size) start) []
          after := by
  induction before generalizing start run with
  | nil => simp [splitFrom]
  | cons c rest ih =>
    by_cases h : c = separator
    · subst h
      have sum : Text.byteLength run + c.utf8Size +
            (Text.byteLength [] + Text.byteLength rest + c.utf8Size) =
          Text.byteLength run + Text.byteLength (c :: rest) + c.utf8Size := by
        simp only [Text.byteLength_nil, Text.byteLength_cons]
        omega
      simp only [List.cons_append, splitFrom, if_true, ih, advance_advance, sum]
    · have sum : Text.byteLength (c :: run) + Text.byteLength rest + separator.utf8Size =
          Text.byteLength run + Text.byteLength (c :: rest) + separator.utf8Size := by
        simp only [Text.byteLength_cons]
        omega
      simp only [List.cons_append, splitFrom, h, if_false, ih, sum]

/-- No piece holds a separator. -/
theorem not_mem_of_mem_splitFrom {separator : Char} {start : Option Nat} {run text : List Char}
    (clean : separator ∉ run) {piece : Slice} (h : piece ∈ splitFrom separator start run text) :
    separator ∉ piece.text := by
  induction text generalizing start run with
  | nil =>
    obtain rfl := List.mem_singleton.mp h
    simpa using clean
  | cons c rest ih =>
    unfold splitFrom at h
    split at h
    next =>
      rcases List.mem_cons.mp h with rfl | h
      · simpa using clean
      · exact ih List.not_mem_nil h
    next different =>
      refine ih ?_ h
      intro member
      rcases List.mem_cons.mp member with same | member
      · exact different same.symm
      · exact clean member

theorem length_splitFrom (separator : Char) (start : Option Nat) (run text : List Char) :
    (splitFrom separator start run text).length = text.count separator + 1 := by
  induction text generalizing start run with
  | nil => rfl
  | cons c rest ih =>
    by_cases h : c = separator <;> simp [splitFrom, h, ih]

@[simp]
theorem length_split (separator : Char) (s : Slice) :
    (s.split separator).length = s.text.count separator + 1 :=
  length_splitFrom separator s.start [] s.text

/-! ## Positions -/

/-- The slice of a document between two byte positions, if both lie between
characters and in this order. -/
def ofByteRange? (text : List Char) (start stop : Nat) : Option Slice := do
  let (_, rest) ← Text.splitAtByte? start text
  let (inside, _) ← if start ≤ stop then Text.splitAtByte? (stop - start) rest else none
  return ⟨inside, some start⟩

/-- The byte offset of a slice in a window of the same document, if it lies in the
window.  Only positions count: equal text elsewhere is not in the window. -/
def offsetIn (window s : Slice) : Option Nat :=
  match window.start, s.start with
  | some low, some start =>
    if low ≤ start ∧ start + s.byteLength ≤ low + window.byteLength then some (start - low)
    else none
  | _, _ => none

end Slice

end SheetLint
