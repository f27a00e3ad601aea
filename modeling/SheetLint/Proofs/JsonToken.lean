import SheetLint.Json

/-!
# The tokens of JSON text

JSON text is cut into tokens by a scanner that reads one character at a time.  It knows all of
JSON's white space and escapes, whether or not they are ever written here, and refuses what no
value of this library stands for: signs, fractions, truth values and null.

Main results:

- Type `Token`, and definition `Scanner.read` for one step of the scanner.
- Definition `tokens?` cuts text into tokens, and `Json.tokens` lists those of a value.
- Theorem `Scanner.run_escape` says that every escaped character is read back, and
  `Scanner.run_digits` the same of numbers.
- Theorem `Scanner.run_render` says that the text of a value is cut into the tokens of that value,
  whatever stands behind it.
-/

namespace SheetLint

namespace Json

/-! ## Tokens -/

/-- The parts that JSON text is made of. -/
inductive Token where
  | openArray
  | closeArray
  | openObject
  | closeObject
  | comma
  | colon
  | number (n : Nat)
  | string (s : String)
  deriving DecidableEq, Repr

/-- The tokens of one character. -/
def punctuation : List (Char × Token) :=
  [('[', .openArray), (']', .closeArray), ('\x7b', .openObject), ('\x7d', .closeObject),
    (',', .comma), (':', .colon)]

/-- White space that may stand between tokens. -/
def isSpace (c : Char) : Bool :=
  c = ' ' || c = '\t' || c = '\n' || c = '\r'

/-! ## The scanner -/

/-- The letters that may stand behind a backslash, each with the character it stands for. -/
def letters : List (Char × Char) :=
  [('"', '"'), ('\\', '\\'), ('/', '/'), ('b', '\x08'), ('f', '\x0c'), ('n', '\n'), ('r', '\r'),
    ('t', '\t')]

/-- The value of a hexadecimal digit in upper or lower case. -/
def hexValue? (c : Char) : Option Nat :=
  if '0' ≤ c ∧ c ≤ '9' then some (c.toNat - 0x30)
  else if 'a' ≤ c ∧ c ≤ 'f' then some (c.toNat - 0x61 + 10)
  else if 'A' ≤ c ∧ c ≤ 'F' then some (c.toNat - 0x41 + 10)
  else none

/-- Where a scanner is within a string.  A character beyond four hexadecimal digits is written by
two of them, and the first half waits for the second. -/
inductive Place where
  | plain
  | escaped (half : Option Nat)
  | code (half : Option Nat) (missing value : Nat)
  | halfway (half : Nat)
  deriving DecidableEq, Repr

/-- What a scanner is reading: nothing, a number, or a string whose characters so far are kept
latest first. -/
inductive Scanner where
  | between
  | number (n : Nat)
  | string (read : List Char) (place : Place)
  deriving DecidableEq, Repr

namespace Scanner

/-- Read a character where a token may begin. -/
def start (c : Char) : Option (List Token × Scanner) :=
  if isSpace c then some ([], .between)
  else if c = '"' then some ([], .string [] .plain)
  else if c.isDigit then some ([], .number (Numeral.decimalDigit c))
  else (punctuation.lookup c).map fun token => ([token], .between)

/-- The string behind an escape of four digits with a value. -/
def ofCode (read : List Char) (half : Option Nat) (value : Nat) : Option Scanner :=
  match half with
  | none =>
    if 0xD800 ≤ value ∧ value < 0xDC00 then some (.string read (.halfway value))
    else if 0xDC00 ≤ value ∧ value < 0xE000 then none
    else some (.string (Char.ofNat value :: read) .plain)
  | some first =>
    if 0xDC00 ≤ value ∧ value < 0xE000 then
      let code := 0x10000 + (first - 0xD800) * 0x400 + (value - 0xDC00)
      some (.string (Char.ofNat code :: read) .plain)
    else none

/-- Read a character of a string behind its beginning. -/
def inside (read : List Char) (c : Char) : Place → Option (List Token × Scanner)
  | .plain =>
    if c = '"' then some ([.string (String.ofList read.reverse)], .between)
    else if c = '\\' then some ([], .string read (.escaped none))
    else if isControl c then none
    else some ([], .string (c :: read) .plain)
  | .escaped half =>
    if c = 'u' then some ([], .string read (.code half 4 0))
    else if half.isSome then none
    else (letters.lookup c).map fun meant => ([], .string (meant :: read) .plain)
  | .code half missing value =>
    match hexValue? c with
    | none => none
    | some digit =>
      if missing = 1 then (ofCode read half (value * 16 + digit)).map fun next => ([], next)
      else some ([], .string read (.code half (missing - 1) (value * 16 + digit)))
  | .halfway half => if c = '\\' then some ([], .string read (.escaped (some half))) else none

/-- Read a character: the tokens that it completes, and the scanner behind it.  A zero is not
followed by digits. -/
def read (c : Char) : Scanner → Option (List Token × Scanner)
  | .between => start c
  | .number n =>
    if c.isDigit then
      if n = 0 then none else some ([], .number (n * 10 + Numeral.decimalDigit c))
    else (start c).map fun (tokens, next) => (.number n :: tokens, next)
  | .string read place => inside read c place

/-- The tokens that a scanner finds in a text. -/
def run : Scanner → List Char → Option (List Token)
  | .between, [] => some []
  | .number n, [] => some [.number n]
  | .string _ _, [] => none
  | scanner, c :: rest =>
    match scanner.read c with
    | none => none
    | some (tokens, next) => (run next rest).map (tokens ++ ·)

end Scanner

/-- The tokens of a text. -/
def tokens? (text : List Char) : Option (List Token) :=
  Scanner.between.run text

/-! ## The tokens of a value -/

mutual

/-- The tokens that write a value. -/
def tokens : Json → List Token
  | .number n => [.number n]
  | .string s => [.string s]
  | .array items => .openArray :: itemTokens items ++ [.closeArray]
  | .object fields => .openObject :: fieldTokens fields ++ [.closeObject]

/-- The tokens of values with commas between them. -/
def itemTokens : List Json → List Token
  | [] => []
  | [item] => tokens item
  | item :: next :: rest => tokens item ++ .comma :: itemTokens (next :: rest)

/-- The tokens of named values with commas between them. -/
def fieldTokens : List (String × Json) → List Token
  | [] => []
  | [(name, value)] => .string name :: .colon :: tokens value
  | (name, value) :: next :: rest =>
    .string name :: .colon :: tokens value ++ .comma :: fieldTokens (next :: rest)

end

/-! ## Scanning what is written -/

namespace Scanner

theorem run_cons {scanner next : Scanner} {c : Char} {found : List Token}
    (hread : scanner.read c = some (found, next)) (rest : List Char) :
    scanner.run (c :: rest) = (next.run rest).map (found ++ ·) := by
  cases scanner <;> simp [run, hread]

theorem run_cons_silent {scanner next : Scanner} {c : Char}
    (hread : scanner.read c = some ([], next)) (rest : List Char) :
    scanner.run (c :: rest) = next.run rest := by
  rw [run_cons hread]
  simp

/-! ### Numbers -/

theorem start_digitChar : ∀ digit < 10, start (Nat.digitChar digit) = some ([], .number digit) := by
  decide

theorem decimalDigit_digitChar :
    ∀ digit < 10, Numeral.decimalDigit (Nat.digitChar digit) = digit := by
  decide

/-- The digits of a number are read as that number. -/
theorem run_digits (n : Nat) (rest : List Char) :
    between.run (Nat.toDigits 10 n ++ rest) = (number n).run rest := by
  induction n using Nat.base_induction 10 (by decide) generalizing rest with
  | single digit hdigit =>
    have hread : between.read (Nat.digitChar digit) = some ([], .number digit) :=
      start_digitChar digit hdigit
    rw [Nat.toDigits_of_lt_base hdigit]
    exact run_cons_silent hread rest
  | digit n digit hdigit hpos ih =>
    have hread : (number n).read (Nat.digitChar digit) = some ([], .number (10 * n + digit)) := by
      have hne : n ≠ 0 := by omega
      simp [read, hdigit, hne, decimalDigit_digitChar digit hdigit, Nat.mul_comm]
    rw [← Nat.toDigits_append_toDigits (by decide) hpos hdigit, List.append_assoc, ih,
      Nat.toDigits_of_lt_base hdigit]
    exact run_cons_silent hread rest

/-- A number ends in front of what is no digit. -/
theorem run_number (n : Nat) {rest : List Char} (hrest : ∀ c ∈ rest.head?, c.isDigit = false) :
    (number n).run rest = (between.run rest).map (Token.number n :: ·) := by
  cases rest with
  | nil => rfl
  | cons c rest =>
    have hc : c.isDigit = false := hrest c rfl
    simp only [run, read, hc, Bool.false_eq_true, if_false]
    cases start c with
    | none => rfl
    | some found => simp [Function.comp_def]

/-! ### Strings -/

/-- Every letter that is written behind a backslash is read back. -/
theorem lookup_letters_of_mem_shortEscapes :
    ∀ entry ∈ shortEscapes, entry.2 ≠ 'u' ∧ letters.lookup entry.2 = some entry.1 := by
  decide

theorem hexValue?_hexDigit : ∀ digit < 16, hexValue? (Numeral.hexDigit digit) = some digit := by
  decide

/-- The code of a control character is written by two zeros and two more digits. -/
theorem lowerHex_of_isControl :
    ∀ code < 0x20, Numeral.lowerHex 4 code =
      ['0', '0', Numeral.hexDigit (code / 16), Numeral.hexDigit (code % 16)] := by
  decide

theorem run_hexDigit (characters : List Char) (half : Option Nat) {missing : Nat}
    (hmissing : missing ≠ 1) (value : Nat) {digit : Nat} (hdigit : digit < 16) (rest : List Char) :
    (string characters (.code half missing value)).run (Numeral.hexDigit digit :: rest) =
      (string characters (.code half (missing - 1) (value * 16 + digit))).run rest := by
  apply run_cons_silent
  simp [read, inside, hexValue?_hexDigit digit hdigit, hmissing]

/-- The four digits of a control character are read as that character. -/
theorem run_lowerHex (characters : List Char) {c : Char} (hc : c.toNat < 0x20) (rest : List Char) :
    (string characters (.code none 4 0)).run (Numeral.lowerHex 4 c.toNat ++ rest) =
      (string (c :: characters) .plain).run rest := by
  have hhigh : c.toNat / 16 < 16 := by omega
  have hlow : c.toNat % 16 < 16 := by omega
  have hvalue : ((0 * 16 + 0) * 16 + 0) * 16 + c.toNat / 16 = c.toNat / 16 := by omega
  have hcode : c.toNat / 16 * 16 + c.toNat % 16 = c.toNat := by omega
  have hzero : '0' = Numeral.hexDigit 0 := rfl
  have hlast : (string characters (.code none 1 (c.toNat / 16))).read
      (Numeral.hexDigit (c.toNat % 16)) = some ([], .string (c :: characters) .plain) := by
    have hsmall : ¬ 0xD800 ≤ c.toNat ∧ ¬ 0xDC00 ≤ c.toNat := by omega
    simp [read, inside, hexValue?_hexDigit _ hlow, hcode, ofCode, hsmall, Char.ofNat_toNat]
  rw [lowerHex_of_isControl c.toNat hc, List.cons_append, List.cons_append, List.cons_append,
    List.cons_append, List.nil_append, hzero, run_hexDigit _ _ (by decide) _ (by decide),
    run_hexDigit _ _ (by decide) _ (by decide), run_hexDigit _ _ (by decide) _ hhigh, hvalue]
  exact run_cons_silent hlast rest

/-- An escaped character is read as itself. -/
theorem run_escape (characters : List Char) (c : Char) (rest : List Char) :
    (string characters .plain).run (escape c ++ rest) =
      (string (c :: characters) .plain).run rest := by
  have hbackslash : (string characters .plain).read '\\' =
      some ([], .string characters (.escaped none)) := rfl
  unfold escape
  split
  next letter hlookup =>
    rcases List.lookup_eq_some_iff.mp hlookup with ⟨before, after, hsplit, _⟩
    have hmem : (c, letter) ∈ shortEscapes := by simp [hsplit]
    rcases lookup_letters_of_mem_shortEscapes (c, letter) hmem with ⟨hu, hletter⟩
    have hread : (string characters (.escaped none)).read letter =
        some ([], .string (c :: characters) .plain) := by
      simp [read, inside, hu, hletter]
    rw [List.cons_append, List.cons_append, List.nil_append, run_cons_silent hbackslash,
      run_cons_silent hread]
  next hlookup =>
    split
    next hcontrol =>
      have hread : (string characters (.escaped none)).read 'u' =
          some ([], .string characters (.code none 4 0)) := rfl
      rw [List.cons_append, List.cons_append, run_cons_silent hbackslash, run_cons_silent hread,
        run_lowerHex characters (of_decide_eq_true hcontrol)]
    next hprintable =>
      have hother (entry : Char × Char) (hentry : entry ∈ shortEscapes) : c ≠ entry.1 := by
        have hne := List.lookup_eq_none_iff.mp hlookup entry hentry
        simpa using hne
      have hread : (string characters .plain).read c =
          some ([], .string (c :: characters) .plain) := by
        simp [read, inside, hother ('"', '"') (by decide), hother ('\\', '\\') (by decide),
          hprintable]
      rw [List.cons_append, List.nil_append, run_cons_silent hread]

theorem run_flatMap_escape (characters text rest : List Char) :
    (string characters .plain).run (text.flatMap escape ++ rest) =
      (string (text.reverse ++ characters) .plain).run rest := by
  induction text generalizing characters with
  | nil => simp
  | cons c text ih =>
    rw [List.flatMap_cons, List.append_assoc, run_escape, ih, List.reverse_cons, List.append_assoc,
      List.singleton_append]

/-- A written string is read as that string. -/
theorem run_quote (s : String) (rest : List Char) :
    between.run (quote s ++ rest) = (between.run rest).map (Token.string s :: ·) := by
  have hopen : between.read '"' = some ([], .string [] .plain) := rfl
  have hclose : (string s.toList.reverse .plain).read '"' = some ([.string s], .between) := by
    simp [read, inside]
  rw [quote, List.cons_append, List.cons_append, run_cons_silent hopen, List.append_assoc,
    run_flatMap_escape, List.append_nil, List.singleton_append, run_cons hclose]
  rfl

/-! ### Values -/

/-- The tokens of one character are read wherever a token may begin. -/
theorem run_punctuation (c : Char) (token : Token) (hentry : (c, token) ∈ punctuation)
    (rest : List Char) : between.run (c :: rest) = (between.run rest).map (token :: ·) := by
  have hread : ∀ entry ∈ punctuation, between.read entry.1 = some ([entry.2], .between) := by
    decide
  exact run_cons (hread (c, token) hentry) rest

mutual

/-- The text of a value in front of what is no digit is cut into the tokens of the value. -/
theorem run_render (v : Json) {rest : List Char} (hrest : ∀ c ∈ rest.head?, c.isDigit = false) :
    between.run (v.render ++ rest) = (between.run rest).map (v.tokens ++ ·) := by
  match v with
  | .number n =>
    rw [render, tokens, Nat.toString_eq_ofList_toDigits, String.toList_ofList, run_digits,
      run_number n hrest]
    rfl
  | .string s =>
    rw [render, tokens, run_quote]
    rfl
  | .array items =>
    rw [render, tokens, List.cons_append, List.cons_append,
      run_punctuation '[' .openArray (by decide), List.append_assoc, List.singleton_append,
      run_renderItems items (by simp), run_punctuation ']' .closeArray (by decide)]
    simp [Function.comp_def]
  | .object fields =>
    rw [render, tokens, List.cons_append, List.cons_append,
      run_punctuation '\x7b' .openObject (by decide), List.append_assoc, List.singleton_append,
      run_renderFields fields (by simp), run_punctuation '\x7d' .closeObject (by decide)]
    simp [Function.comp_def]

theorem run_renderItems (items : List Json) {rest : List Char}
    (hrest : ∀ c ∈ rest.head?, c.isDigit = false) :
    between.run (renderItems items ++ rest) =
      (between.run rest).map (itemTokens items ++ ·) := by
  match items with
  | [] => simp [renderItems, itemTokens]
  | [item] =>
    rw [renderItems, itemTokens]
    exact run_render item hrest
  | item :: next :: items =>
    rw [renderItems, itemTokens, List.append_assoc, List.cons_append, run_render item (by simp),
      run_punctuation ',' .comma (by decide), run_renderItems (next :: items) hrest]
    simp [Function.comp_def]

theorem run_renderFields (fields : List (String × Json)) {rest : List Char}
    (hrest : ∀ c ∈ rest.head?, c.isDigit = false) :
    between.run (renderFields fields ++ rest) =
      (between.run rest).map (fieldTokens fields ++ ·) := by
  match fields with
  | [] => simp [renderFields, fieldTokens]
  | [(name, value)] =>
    rw [renderFields, fieldTokens, List.append_assoc, List.cons_append, run_quote,
      run_punctuation ':' .colon (by decide), run_render value hrest]
    simp [Function.comp_def]
  | (name, value) :: next :: fields =>
    rw [renderFields, fieldTokens]
    simp only [List.append_assoc, List.cons_append]
    rw [run_quote, run_punctuation ':' .colon (by decide), run_render value (by simp),
      run_punctuation ',' .comma (by decide), run_renderFields (next :: fields) hrest]
    simp [Function.comp_def]

end

end Scanner

/-- The text of a value is cut into the tokens of the value. -/
theorem tokens?_render (v : Json) : tokens? v.render = some v.tokens := by
  have hend : ∀ c ∈ ([] : List Char).head?, c.isDigit = false := by simp
  simpa [tokens?, Scanner.run] using Scanner.run_render v hend

end Json

end SheetLint
