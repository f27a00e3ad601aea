import SheetLint.Proofs.JsonToken

/-!
# Reading JSON text

Values are read from their tokens by a reader that takes one token at a time and keeps the arrays
and objects that it is within on a stack.

Main results:

- Type `Reader`, and definition `Reader.read` for one step of the reader.
- Definition `Json.ofText?` reads a value from text.
- Theorem `Reader.run_tokens` is the invariant of the reader: the tokens of a value take it from the
  front of the value to the place behind it, and leave the stack as it was.
- Theorem `Json.ofText?_render` says that every value is read back from its text.
- Theorem `Json.not_isControl_of_mem_render` says that the text of a value holds no control
  character.
-/

namespace SheetLint

namespace Json

/-! ## The reader -/

/-- An array or object that is not read to its end.  What was read of it is kept latest first, and
an object with the name that the next value belongs to. -/
inductive Frame where
  | array (items : List Json)
  | object (fields : List (String × Json)) (name : String)

/-- What a reader waits for: a value, the first item of an array or its end, the first name of an
object or its end, a further name, a colon, or what may follow a value. -/
inductive Reader where
  | value (stack : List Frame)
  | firstItem (stack : List Frame)
  | firstName (stack : List Frame)
  | nextName (fields : List (String × Json)) (stack : List Frame)
  | colon (fields : List (String × Json)) (name : String) (stack : List Frame)
  | behind (v : Json) (stack : List Frame)

namespace Reader

/-- Read the first token of a value. -/
def begin (stack : List Frame) : Token → Option Reader
  | .openArray => some (.firstItem stack)
  | .openObject => some (.firstName stack)
  | .number n => some (.behind (.number n) stack)
  | .string s => some (.behind (.string s) stack)
  | _ => none

/-- Read a token. -/
def read : Reader → Token → Option Reader
  | .value stack, token => begin stack token
  | .firstItem stack, .closeArray => some (.behind (.array []) stack)
  | .firstItem stack, token => begin (.array [] :: stack) token
  | .firstName stack, .closeObject => some (.behind (.object []) stack)
  | .firstName stack, .string name => some (.colon [] name stack)
  | .nextName fields stack, .string name => some (.colon fields name stack)
  | .colon fields name stack, .colon => some (.value (.object fields name :: stack))
  | .behind v (.array items :: stack), .comma => some (.value (.array (v :: items) :: stack))
  | .behind v (.array items :: stack), .closeArray =>
    some (.behind (.array (v :: items).reverse) stack)
  | .behind v (.object fields name :: stack), .comma => some (.nextName ((name, v) :: fields) stack)
  | .behind v (.object fields name :: stack), .closeObject =>
    some (.behind (.object ((name, v) :: fields).reverse) stack)
  | _, _ => none

/-- Read one token after the other. -/
def run (reader : Reader) (tokens : List Token) : Option Reader :=
  tokens.foldlM read reader

end Reader

/-- The value that some tokens write. -/
def ofTokens? (tokens : List Token) : Option Json :=
  match (Reader.value []).run tokens with
  | some (.behind v []) => some v
  | _ => none

/-- The value of a text. -/
def ofText? (text : List Char) : Option Json :=
  (tokens? text).bind ofTokens?

/-! ## Reading what is written -/

/-- Values begin with a token that does not end an array. -/
theorem exists_cons_eq_itemTokens (item : Json) (items : List Json) :
    ∃ token rest, itemTokens (item :: items) = token :: rest ∧ token ≠ .closeArray := by
  have hitem : ∃ token rest, item.tokens = token :: rest ∧ token ≠ .closeArray := by
    cases item <;> simp [tokens]
  rcases hitem with ⟨token, rest, htokens, hne⟩
  cases items <;> simp [itemTokens, htokens, hne]

namespace Reader

theorem run_cons {reader next : Reader} {token : Token} (hread : reader.read token = some next)
    (rest : List Token) : reader.run (token :: rest) = next.run rest := by
  rw [run, List.foldlM_cons, hread]
  rfl

/-- The first item of an array is read like every other one. -/
theorem run_firstItem (stack : List Frame) (item : Json) (items : List Json) (rest : List Token) :
    (firstItem stack).run (itemTokens (item :: items) ++ rest) =
      (value (.array [] :: stack)).run (itemTokens (item :: items) ++ rest) := by
  rcases exists_cons_eq_itemTokens item items with ⟨token, tail, htokens, hne⟩
  have hread : (firstItem stack).read token = (value (.array [] :: stack)).read token := by
    cases token <;> first | rfl | exact absurd rfl hne
  rw [htokens, List.cons_append, run, run, List.foldlM_cons, List.foldlM_cons, hread]

/-- The first name of an object is read like every other one. -/
theorem run_firstName (stack : List Frame) (name : String) (v : Json)
    (fields : List (String × Json)) (rest : List Token) :
    (firstName stack).run (fieldTokens ((name, v) :: fields) ++ rest) =
      (nextName [] stack).run (fieldTokens ((name, v) :: fields) ++ rest) := by
  have hread : (firstName stack).read (.string name) = some (colon [] name stack) := rfl
  have hsame : (nextName [] stack).read (.string name) = some (colon [] name stack) := rfl
  have htokens : ∃ tail, fieldTokens ((name, v) :: fields) = .string name :: tail := by
    cases fields <;> simp [fieldTokens]
  rcases htokens with ⟨tail, htokens⟩
  rw [htokens, List.cons_append, run_cons hread, run_cons hsame]

mutual

/-- The tokens of a value lead behind the value. -/
theorem run_tokens (v : Json) (stack : List Frame) (rest : List Token) :
    (value stack).run (v.tokens ++ rest) = (behind v stack).run rest := by
  match v with
  | .number n =>
    rw [tokens]
    exact run_cons rfl rest
  | .string s =>
    rw [tokens]
    exact run_cons rfl rest
  | .array [] =>
    have hopen : (value stack).read .openArray = some (firstItem stack) := rfl
    have hclose : (firstItem stack).read .closeArray = some (behind (.array []) stack) := rfl
    rw [tokens, itemTokens, List.cons_append, List.cons_append, run_cons hopen]
    exact run_cons hclose rest
  | .array (item :: items) =>
    have hopen : (value stack).read .openArray = some (firstItem stack) := rfl
    rw [tokens, List.cons_append, List.cons_append, run_cons hopen, List.append_assoc,
      run_firstItem]
    exact run_itemTokens item items [] stack rest
  | .object [] =>
    have hopen : (value stack).read .openObject = some (firstName stack) := rfl
    have hclose : (firstName stack).read .closeObject = some (behind (.object []) stack) := rfl
    rw [tokens, fieldTokens, List.cons_append, List.cons_append, run_cons hopen]
    exact run_cons hclose rest
  | .object ((name, v) :: fields) =>
    have hopen : (value stack).read .openObject = some (firstName stack) := rfl
    rw [tokens, List.cons_append, List.cons_append, run_cons hopen, List.append_assoc,
      run_firstName]
    exact run_fieldTokens name v fields [] stack rest
termination_by sizeOf v

theorem run_itemTokens (item : Json) (items before : List Json) (stack : List Frame)
    (rest : List Token) :
    (value (.array before :: stack)).run (itemTokens (item :: items) ++ .closeArray :: rest) =
      (behind (.array (before.reverse ++ item :: items)) stack).run rest := by
  match items with
  | [] =>
    have hclose : (behind item (.array before :: stack)).read .closeArray =
        some (behind (.array (before.reverse ++ [item])) stack) := by
      rw [read, List.reverse_cons]
    rw [itemTokens, run_tokens item, run_cons hclose]
  | next :: items =>
    have hcomma : (behind item (.array before :: stack)).read .comma =
        some (value (.array (item :: before) :: stack)) := rfl
    rw [itemTokens, List.append_assoc, List.cons_append, run_tokens item, run_cons hcomma,
      run_itemTokens next items (item :: before), List.reverse_cons, List.append_assoc,
      List.singleton_append]
termination_by sizeOf (item :: items)

theorem run_fieldTokens (name : String) (v : Json) (fields before : List (String × Json))
    (stack : List Frame) (rest : List Token) :
    (nextName before stack).run (fieldTokens ((name, v) :: fields) ++ .closeObject :: rest) =
      (behind (.object (before.reverse ++ (name, v) :: fields)) stack).run rest := by
  have hname : (nextName before stack).read (.string name) = some (colon before name stack) :=
    rfl
  have hcolon : (colon before name stack).read .colon =
      some (value (.object before name :: stack)) := rfl
  match fields with
  | [] =>
    have hclose : (behind v (.object before name :: stack)).read .closeObject =
        some (behind (.object (before.reverse ++ [(name, v)])) stack) := by
      rw [read, List.reverse_cons]
    rw [fieldTokens, List.cons_append, List.cons_append, run_cons hname, run_cons hcolon,
      run_tokens v, run_cons hclose]
  | (second, w) :: fields =>
    have hcomma : (behind v (.object before name :: stack)).read .comma =
        some (nextName ((name, v) :: before) stack) := rfl
    simp only [fieldTokens, List.cons_append, List.append_assoc]
    rw [run_cons hname, run_cons hcolon, run_tokens v, run_cons hcomma,
      run_fieldTokens second w fields ((name, v) :: before), List.reverse_cons, List.append_assoc,
      List.singleton_append]
termination_by sizeOf ((name, v) :: fields)

end

end Reader

/-- Every value is read back from its text. -/
theorem ofText?_render (v : Json) : ofText? v.render = some v := by
  have hrun := Reader.run_tokens v [] []
  rw [List.append_nil] at hrun
  rw [ofText?, tokens?_render, Option.bind_some, ofTokens?, hrun]
  rfl

/-! ## Printable text -/

theorem not_isControl_of_mem_toDigits {n : Nat} {c : Char} (hc : c ∈ Nat.toDigits 10 n) :
    isControl c = false := by
  have hdigit : c.isDigit = true := Nat.isDigit_of_mem_toDigits (by decide) (by decide) hc
  rw [Char.isDigit_iff_toNat] at hdigit
  have hzero : 0x30 ≤ c.toNat := hdigit.1
  exact decide_eq_false (by omega)

mutual

/-- No control character stands in the text of a value. -/
theorem not_isControl_of_mem_render (v : Json) {c : Char} (hc : c ∈ v.render) :
    isControl c = false := by
  match v with
  | .number n =>
    rw [render, Nat.toString_eq_ofList_toDigits, String.toList_ofList] at hc
    exact not_isControl_of_mem_toDigits hc
  | .string s =>
    rw [render] at hc
    exact not_isControl_of_mem_quote hc
  | .array items =>
    rw [render, List.cons_append, List.mem_cons, List.mem_append, List.mem_singleton] at hc
    rcases hc with rfl | hc | rfl
    · rfl
    · exact not_isControl_of_mem_renderItems items hc
    · rfl
  | .object fields =>
    rw [render, List.cons_append, List.mem_cons, List.mem_append, List.mem_singleton] at hc
    rcases hc with rfl | hc | rfl
    · rfl
    · exact not_isControl_of_mem_renderFields fields hc
    · rfl

theorem not_isControl_of_mem_renderItems (items : List Json) {c : Char}
    (hc : c ∈ renderItems items) : isControl c = false := by
  match items with
  | [] =>
    rw [renderItems] at hc
    cases hc
  | [item] =>
    rw [renderItems] at hc
    exact not_isControl_of_mem_render item hc
  | item :: next :: items =>
    rw [renderItems, List.mem_append, List.mem_cons] at hc
    rcases hc with hc | rfl | hc
    · exact not_isControl_of_mem_render item hc
    · rfl
    · exact not_isControl_of_mem_renderItems (next :: items) hc

theorem not_isControl_of_mem_renderFields (fields : List (String × Json)) {c : Char}
    (hc : c ∈ renderFields fields) : isControl c = false := by
  match fields with
  | [] =>
    rw [renderFields] at hc
    cases hc
  | [(name, value)] =>
    rw [renderFields, List.mem_append, List.mem_cons] at hc
    rcases hc with hc | rfl | hc
    · exact not_isControl_of_mem_quote hc
    · rfl
    · exact not_isControl_of_mem_render value hc
  | (name, value) :: next :: fields =>
    rw [renderFields] at hc
    simp only [List.append_assoc, List.cons_append, List.mem_append, List.mem_cons] at hc
    rcases hc with hc | rfl | hc | rfl | hc
    · exact not_isControl_of_mem_quote hc
    · rfl
    · exact not_isControl_of_mem_render value hc
    · rfl
    · exact not_isControl_of_mem_renderFields (next :: fields) hc

end

end Json

end SheetLint
