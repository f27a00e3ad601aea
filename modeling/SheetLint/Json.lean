import SheetLint.Text.Numeral

/-!
# JSON text

The values that reports are made of, and their compact text: no spaces, fields in
the order given, and an escape only where JSON asks for one.

Main results:

- Definition `Json.render` writes a value, and `Json.quote` a string.
- Theorem `Json.not_isControl_of_mem_quote` says that a written string holds no control
  character, so that a written value never breaks a line.
-/

namespace SheetLint

/-! ## Values -/

/-- A JSON value without fractions, signs, truth values or null. -/
inductive Json where
  | number (n : Nat)
  | string (s : String)
  | array (items : List Json)
  | object (fields : List (String × Json))

namespace Json

/-! ## Strings -/

/-- A character below the space is a control character. -/
def isControl (c : Char) : Bool :=
  decide (c.toNat < 0x20)

/-- The characters with a one-letter escape, each with the letter behind the backslash. -/
def shortEscapes : List (Char × Char) :=
  [('"', '"'), ('\\', '\\'), ('\n', 'n'), ('\r', 'r'), ('\t', 't'), ('\x08', 'b'), ('\x0c', 'f')]

/-- A character as it stands inside a written string: by its one-letter escape, or by
the four digits of its code if it is a control character, or as it is. -/
def escape (c : Char) : List Char :=
  match shortEscapes.lookup c with
  | some letter => ['\\', letter]
  | none => if isControl c then '\\' :: 'u' :: Numeral.lowerHex 4 c.toNat else [c]

/-- A string in quotes. -/
def quote (s : String) : List Char :=
  '"' :: s.toList.flatMap escape ++ ['"']

/-- The letter of a one-letter escape is printable. -/
theorem not_isControl_of_lookup {c letter : Char} (h : shortEscapes.lookup c = some letter) :
    isControl letter = false := by
  have all : ∀ entry ∈ shortEscapes, isControl entry.2 = false := by decide
  obtain ⟨before, after, split, _⟩ := List.lookup_eq_some_iff.mp h
  exact all (c, letter) (by simp [split])

/-- Hexadecimal digits are printable. -/
theorem not_isControl_of_mem_lowerHex {width n : Nat} {d : Char}
    (h : d ∈ Numeral.lowerHex width n) : isControl d = false := by
  have all : ∀ digit < 16, isControl (Numeral.hexDigit digit) = false := by decide
  obtain ⟨digit, small, rfl⟩ := Numeral.exists_hexDigit_of_mem_lowerHex h
  exact all digit small

theorem not_isControl_of_mem_escape {c d : Char} (h : d ∈ escape c) : isControl d = false := by
  unfold escape at h
  split at h
  case h_1 letter found =>
    rcases List.mem_cons.mp h with rfl | h
    · rfl
    · exact List.mem_singleton.mp h ▸ not_isControl_of_lookup found
  case h_2 =>
    split at h
    case isTrue control =>
      rcases List.mem_cons.mp h with rfl | h
      · rfl
      rcases List.mem_cons.mp h with rfl | h
      · rfl
      exact not_isControl_of_mem_lowerHex h
    case isFalse printable => simp_all

/-- No control character stands in a written string. -/
theorem not_isControl_of_mem_quote {s : String} {d : Char} (h : d ∈ quote s) :
    isControl d = false := by
  simp only [quote, List.cons_append, List.mem_cons, List.mem_append, List.mem_flatMap,
    List.not_mem_nil, or_false] at h
  rcases h with rfl | ⟨c, _, member⟩ | rfl
  · rfl
  · exact not_isControl_of_mem_escape member
  · rfl

/-! ## Writing -/

mutual

/-- The compact text of a value. -/
def render : Json → List Char
  | .number n => (toString n).toList
  | .string s => quote s
  | .array items => '[' :: renderItems items ++ [']']
  | .object fields => '{' :: renderFields fields ++ ['}']

/-- The texts of values with commas between them. -/
def renderItems : List Json → List Char
  | [] => []
  | [item] => render item
  | item :: next :: rest => render item ++ ',' :: renderItems (next :: rest)

/-- The texts of named values with commas between them. -/
def renderFields : List (String × Json) → List Char
  | [] => []
  | [(name, value)] => quote name ++ ':' :: render value
  | (name, value) :: next :: rest =>
    quote name ++ ':' :: render value ++ ',' :: renderFields (next :: rest)

end

end Json

end SheetLint
