/-!
# Text without terminal control

A terminal shows most characters and acts on the others: on single control
characters, and on whole control sequences that begin with an escape character.
This module leaves out of a text what a terminal would act on.

Main results:

- Definition `strip` is the text that is left, read by `Reader.shows` and
  `Reader.next` one character at a time.
- Theorem `strip_append_of_all_visible` says that visible text in front is kept;
  `strip_of_all_visible` follows for text that is visible throughout.
-/

namespace SheetLint.Terminal

/-! ## Kinds of characters -/

/-- The character that begins a control sequence. -/
def escape : Char := '\x1b'

/-- White space that moves the place of writing: tab, line feed, form feed and
carriage return. -/
def isSpacing (c : Char) : Bool :=
  c = '\t' || c = '\n' || c = '\x0c' || c = '\r'

/-- Spacing is visible, and so is every character but the ASCII controls. -/
def isVisible (c : Char) : Bool :=
  isSpacing c || decide (0x20 ≤ c.toNat) && c ≠ '\x7f'

/-! ## Control sequences -/

/-- How far a control sequence has come. -/
inductive Sequence where
  /-- Behind the escape character. -/
  | opened
  /-- Behind an escape character with intermediate characters. -/
  | marked
  /-- In a control function, which collects parameters up to a letter. -/
  | function
  /-- At the start of a device string. -/
  | device
  /-- In the parameters of a device string. -/
  | deviceParameters
  /-- In the intermediate characters of a device string. -/
  | deviceMarked
  /-- In text that lasts up to a string terminator. -/
  | body
  /-- In a system command, which lasts up to a bell or the next sequence. -/
  | systemCommand
  deriving DecidableEq, Repr

namespace Sequence

/-- Spacing within the sequence takes effect at once, except where it would be part of
a device string or of the text of a string. -/
def passesSpacing : Sequence → Bool
  | .opened | .marked | .function => true
  | .device | .deviceParameters | .deviceMarked | .body | .systemCommand => false

/-- A bell ends a system command, a character whose UTF-8 form holds the byte of the
string terminator ends a body, and the two cancelling controls end everything. -/
def closedBy (s : Sequence) (c : Char) : Bool :=
  c = '\x18' || c = '\x1a' ||
    match s with
    | .systemCommand => c = '\x07'
    | .body => decide (0x9C ∈ String.utf8EncodeChar c)
    | _ => false

/-- Where a printable ASCII character, given by its code, leads to; `none` is the end
of the sequence. -/
def advance (code : Nat) : Sequence → Option Sequence
  | .opened =>
    if code < 0x30 then some .marked
    else if code = 0x50 then some .device
    else if code = 0x5B then some .function
    else if code = 0x5D then some .systemCommand
    else if code = 0x58 ∨ code = 0x5E ∨ code = 0x5F then some .body
    else none
  | .marked => if code < 0x30 then some .marked else none
  | .function => if code < 0x40 then some .function else none
  | .device =>
    if code < 0x30 then some .deviceMarked
    else if code < 0x40 then some .deviceParameters
    else some .body
  | .deviceParameters =>
    if code < 0x30 then some .deviceMarked
    else if code < 0x3C then some .deviceParameters
    else some .body
  | .deviceMarked => if code < 0x30 then some .deviceMarked else some .body
  | .body => some .body
  | .systemCommand => some .systemCommand

/-- The sequence behind a character that belongs to it.  An escape character begins
afresh, and what a sequence has no use for leaves it as it is. -/
def next (s : Sequence) (c : Char) : Option Sequence :=
  if c = escape then some .opened
  else if s.closedBy c then none
  else if 0x20 ≤ c.toNat ∧ c.toNat < 0x7F then s.advance c.toNat
  else some s

end Sequence

/-! ## Reading -/

/-- Where a reader is: in plain text, within a sequence, or in text that follows on
spacing within a sequence. -/
inductive Reader where
  | plain
  | within (s : Sequence)
  | interrupted (s : Sequence)
  deriving DecidableEq, Repr

namespace Reader

/-- The reader behind a character of a sequence. -/
def ofSequence : Option Sequence → Reader
  | none => .plain
  | some s => .within s

/-- Within a sequence only spacing is shown, and elsewhere every visible character. -/
def shows : Reader → Char → Bool
  | .plain, c => isVisible c
  | .within s, c => s.passesSpacing && isSpacing c
  | .interrupted _, c => isVisible c

/-- The reader behind a character.  Spacing interrupts a sequence; the next control
character goes on with it, unless text beyond ASCII comes first. -/
def next : Reader → Char → Reader
  | .plain, c => if c = escape then .within .opened else .plain
  | .within s, c => if shows (.within s) c then .interrupted s else ofSequence (s.next c)
  | .interrupted s, c =>
    if isVisible c then
      if c.toNat < 0x80 then .interrupted s else .plain
    else ofSequence (s.next c)

end Reader

/-- What a reader shows of a text. -/
def stripFrom (r : Reader) : List Char → List Char
  | [] => []
  | c :: rest =>
    if r.shows c then c :: stripFrom (r.next c) rest else stripFrom (r.next c) rest

/-- The text without control characters and control sequences. -/
def strip (text : List Char) : List Char :=
  stripFrom .plain text

/-! ## Visible text -/

@[simp]
theorem strip_nil : strip [] = [] := rfl

/-- A visible character leaves plain text plain. -/
theorem next_plain_of_isVisible {c : Char} (h : isVisible c) :
    Reader.next .plain c = .plain := by
  refine if_neg fun same => ?_
  subst same
  exact absurd h (by decide)

/-- Visible text is kept, and what follows it is read as if it stood alone. -/
theorem strip_append_of_all_visible {first : List Char} (h : ∀ c ∈ first, isVisible c)
    (second : List Char) : strip (first ++ second) = first ++ strip second := by
  induction first with
  | nil => rfl
  | cons c rest ih =>
    have visible := h c List.mem_cons_self
    have kept := ih fun d member => h d (List.mem_cons_of_mem c member)
    rw [strip] at kept
    rw [strip, List.cons_append, stripFrom, if_pos (show Reader.shows .plain c from visible),
      next_plain_of_isVisible visible, kept, List.cons_append]

/-- Visible text is stripped of nothing. -/
theorem strip_of_all_visible {text : List Char} (h : ∀ c ∈ text, isVisible c) :
    strip text = text := by
  have kept := strip_append_of_all_visible h []
  rwa [strip_nil, List.append_nil] at kept

end SheetLint.Terminal
