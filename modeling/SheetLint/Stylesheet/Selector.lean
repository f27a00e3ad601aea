import SheetLint.Text.Slice

/-!
# Selectors

A selector is the text in front of an opening brace, back to the brace before it.
The scan knows nothing of comments, strings or closing braces, so a later selector
carries the block that stands in front of it.

Main results:

- Definition `Selector.scan` finds the selectors of a document in one pass.
- Definition `Selector.ofSlice` numbers them from 1.
- Theorem `Selector.scan_append_brace` says that the scan starts afresh behind
  every opening brace.
-/

namespace SheetLint

/-- A selector with its position in the sequence of selectors, counted from 1. -/
structure Selector where
  ordinal : Nat
  slice : Slice
  deriving DecidableEq, Repr

namespace Selector

/-! ## Scanning -/

/-- The trimmed selectors of a text, where `run` holds the characters since the last
opening brace, latest first, and `start` locates the first of them.  Two braces side by
side have no selector between them, and what follows the last brace is none. -/
def scan (start : Option Nat) (run : List Char) : List Char → List Slice
  | [] => []
  | c :: rest =>
    if c = '{' then
      let behind := scan (Slice.advance (Text.byteLength run + c.utf8Size) start) [] rest
      if run.isEmpty then behind else (Slice.mk run.reverse start).trim :: behind
    else scan start (c :: run) rest

/-- The slices numbered from `first` on. -/
def enumerate (first : Nat) (slices : List Slice) : List Selector :=
  (slices.zipIdx first).map fun (slice, ordinal) => ⟨ordinal, slice⟩

/-- The selectors of a document, in document order. -/
def ofSlice (s : Slice) : List Selector :=
  enumerate 1 (scan s.start [] s.text)

/-! ## Laws -/

/-- Behind an opening brace the scan starts afresh. -/
theorem scan_append_brace (start : Option Nat) (run before after : List Char) :
    scan start run (before ++ '{' :: after) =
      scan start run (before ++ ['{']) ++
        scan (Slice.advance (Text.byteLength run + Text.byteLength before + 1) start) [] after := by
  have size : ('{' : Char).utf8Size = 1 := by decide
  induction before generalizing start run with
  | nil => cases run <;> simp [scan, size]
  | cons c rest ih =>
    by_cases h : c = '{'
    · subst h
      have sum : Text.byteLength run + 1 + (Text.byteLength [] + Text.byteLength rest + 1) =
          Text.byteLength run + (1 + Text.byteLength rest) + 1 := by
        simp only [Text.byteLength_nil]
        omega
      simp only [List.cons_append, scan, if_true, ih, Slice.advance_advance,
        Text.byteLength_cons, size, sum]
      cases run <;> simp
    · have sum : Text.byteLength (c :: run) + Text.byteLength rest + 1 =
          Text.byteLength run + Text.byteLength (c :: rest) + 1 := by
        simp only [Text.byteLength_cons]
        omega
      simp only [List.cons_append, scan, h, if_false, ih, sum]

theorem enumerate_append (first : Nat) (front back : List Slice) :
    enumerate first (front ++ back) = enumerate first front ++ enumerate (first + front.length) back := by
  simp [enumerate, List.zipIdx_append]

@[simp]
theorem length_enumerate (first : Nat) (slices : List Slice) :
    (enumerate first slices).length = slices.length := by
  simp [enumerate]

end Selector

end SheetLint
