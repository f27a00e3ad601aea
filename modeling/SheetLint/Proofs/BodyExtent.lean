import Mathlib.Data.List.Basic
import SheetLint.Proofs.Location
import SheetLint.Proofs.PropertyNames

/-!
# The extent of the body of a line

The body of a line is cut out between two byte positions: one behind the first opening brace, and
one in front of the last closing brace or, without any, in front of the last character.  The two are
found from opposite ends of the line, so they may cross, but each lies between two characters,
however many bytes these have.

Main results:

- Definition `Text.positions` gives the byte position of every character, and
  `Declaration.startByte` and `Declaration.stopByte` are the two ends of a body.
- Theorems `Declaration.byteLength_take_bodyStart` and `Declaration.byteLength_take_bodyStop` say
  that these ends are those by which a line is cut.
- Structure `Declaration.Surrounds` says what stands in front of a body and behind it.
- Theorem `Declaration.body_extent` gives the extent of every body and the number and the shape of
  the property names in it.
-/

namespace SheetLint

/-! ## Positions -/

namespace Text

variable {c : Char} {front back text : List Char}

/-- A byte position is a boundary of a text when it lies between two of its characters or at one of
its ends. -/
def IsBoundary (position : Nat) (text : List Char) : Prop :=
  ∃ before after, text = before ++ after ∧ byteLength before = position

/-- The characters of a text, each with the byte position where it begins. -/
def positions (start : Nat) : List Char → List (Nat × Char)
  | [] => []
  | c :: rest => (start, c) :: positions (start + c.utf8Size) rest

/-- The byte position of the first such character. -/
def firstPosition? (c : Char) (text : List Char) : Option Nat :=
  ((positions 0 text).find? fun item => item.2 = c).map Prod.fst

/-- The byte position of the last such character. -/
def lastPosition? (c : Char) (text : List Char) : Option Nat :=
  ((positions 0 text).reverse.find? fun item => item.2 = c).map Prod.fst

/-- The byte position of the last character, whatever it is. -/
def endPosition? (text : List Char) : Option Nat :=
  (positions 0 text).getLast?.map Prod.fst

theorem positions_append (start : Nat) (first second : List Char) :
    positions start (first ++ second) =
      positions start first ++ positions (start + byteLength first) second := by
  induction first generalizing start with
  | nil => rfl
  | cons c rest ih =>
    rw [List.cons_append, positions, ih, positions, byteLength_cons, Nat.add_assoc,
      List.cons_append]

theorem mem_of_mem_positions {start position : Nat} (h : (position, c) ∈ positions start text) :
    c ∈ text := by
  induction text generalizing start with
  | nil => cases h
  | cons d rest ih =>
    rcases List.mem_cons.mp h with hfirst | hrest
    · cases hfirst
      exact List.mem_cons_self
    · exact List.mem_cons_of_mem d (ih hrest)

/-- A character that is missing is found at no position. -/
theorem snd_ne_of_mem_positions (htext : c ∉ text) (start : Nat) :
    ∀ item ∈ positions start text, item.2 ≠ c := by
  rintro ⟨position, d⟩ hitem rfl
  exact htext (mem_of_mem_positions hitem)

theorem find?_positions_of_not_mem (htext : c ∉ text) (start : Nat) :
    (positions start text).find? (fun item => item.2 = c) = none := by
  rw [List.find?_eq_none]
  simpa using snd_ne_of_mem_positions htext start

theorem firstPosition?_of_not_mem (htext : c ∉ text) : firstPosition? c text = none := by
  rw [firstPosition?, find?_positions_of_not_mem htext, Option.map_none]

/-- The first such character begins behind the text in front of it. -/
theorem firstPosition?_append (hfront : c ∉ front) (back : List Char) :
    firstPosition? c (front ++ c :: back) = some (byteLength front) := by
  rw [firstPosition?, positions_append, List.find?_append,
    find?_positions_of_not_mem hfront, Option.none_or, positions,
    List.find?_cons_of_pos (by simp), Nat.zero_add]
  rfl

theorem lastPosition?_of_not_mem (htext : c ∉ text) : lastPosition? c text = none := by
  rw [lastPosition?, Option.map_eq_none_iff, List.find?_eq_none]
  intro item hitem
  simpa using snd_ne_of_mem_positions htext 0 item (List.mem_reverse.mp hitem)

/-- The last such character begins behind the text in front of it. -/
theorem lastPosition?_append (hback : c ∉ back) (front : List Char) :
    lastPosition? c (front ++ c :: back) = some (byteLength front) := by
  -- From the end of the text, all of `back` comes first and is passed over.
  have hnone : (positions (byteLength front + c.utf8Size) back).reverse.find?
      (fun item => item.2 = c) = none := by
    rw [List.find?_eq_none]
    intro item hitem
    simpa using snd_ne_of_mem_positions hback _ item (List.mem_reverse.mp hitem)
  rw [lastPosition?, positions_append, Nat.zero_add, positions, List.reverse_append,
    List.reverse_cons, List.append_assoc, List.find?_append, hnone, Option.none_or,
    List.singleton_append, List.find?_cons_of_pos (by simp)]
  rfl

/-- The last character begins behind the text in front of it. -/
theorem endPosition?_append_singleton (front : List Char) (c : Char) :
    endPosition? (front ++ [c]) = some (byteLength front) := by
  rw [endPosition?, positions_append, positions, positions, List.getLast?_concat, Nat.zero_add]
  rfl

/-- What is in a text stands there for a last time. -/
theorem exists_last (hc : c ∈ text) : ∃ front back, text = front ++ c :: back ∧ c ∉ back := by
  rcases List.eq_append_cons_of_mem (List.mem_reverse.mpr hc) with ⟨back, front, htext, hback⟩
  refine ⟨front.reverse, back.reverse, ?_, fun h => hback (List.mem_reverse.mp h)⟩
  rw [← List.reverse_reverse text, htext]
  simp

theorem byteLength_take_lt (text : List Char) {n m : Nat} (hlt : n < m) (hm : m ≤ text.length) :
    byteLength (text.take n) < byteLength (text.take m) := by
  have hpart : text.take m = text.take n ++ (text.take m).drop n := by
    conv_lhs => rw [← List.take_append_drop n (text.take m), List.take_take,
      Nat.min_eq_left (Nat.le_of_lt hlt)]
  have hne : (text.take m).drop n ≠ [] := by
    rw [ne_eq, List.drop_eq_nil_iff, List.length_take]
    omega
  obtain ⟨c, rest, hrest⟩ := List.exists_cons_of_ne_nil hne
  have hpos := c.utf8Size_pos
  rw [hpart, hrest, byteLength_append, byteLength_cons]
  omega

/-- Beginnings of a text compare like their numbers of bytes. -/
theorem byteLength_take_lt_iff (text : List Char) {n m : Nat} (hn : n ≤ text.length)
    (hm : m ≤ text.length) : byteLength (text.take n) < byteLength (text.take m) ↔ n < m := by
  constructor
  · intro hbytes
    by_contra hge
    rcases Nat.eq_or_lt_of_le (Nat.le_of_not_lt hge) with rfl | hlt
    · exact Nat.lt_irrefl _ hbytes
    · exact Nat.lt_asymm hbytes (byteLength_take_lt text hlt hn)
  · exact fun hlt => byteLength_take_lt text hlt hm

/-- A separator that is not blank is never trimmed. -/
theorem count_trim (hc : isBlank c = false) (text : List Char) :
    (trim text).count c = text.count c := by
  rcases exists_eq_append_trim text with ⟨before, after, hbefore, hafter, htext⟩
  have hnone {blanks : List Char} (hblanks : ∀ d ∈ blanks, isBlank d = true) :
      blanks.count c = 0 :=
    List.count_eq_zero.mpr (not_mem_of_all_blank hblanks hc)
  conv_rhs => rw [htext, List.count_append, List.count_append, hnone hbefore, hnone hafter,
    Nat.zero_add, Nat.add_zero]

end Text

namespace Declaration

/-! ## The ends of a body -/

/-- A body begins behind the first opening brace, or where the line begins. -/
def startByte (line : List Char) : Nat :=
  match Text.firstPosition? '{' line with
  | some position => position + 1
  | none => 0

/-- A body ends in front of the last closing brace, or in front of the last character. -/
def stopByte (line : List Char) : Nat :=
  match Text.lastPosition? '}' line with
  | some position => position
  | none => (Text.endPosition? line).getD 0

theorem bodyStart_le_length (line : List Char) : bodyStart line ≤ line.length := by
  by_cases hopen : '{' ∈ line
  · rcases List.eq_append_cons_of_mem hopen with ⟨front, rest, rfl, hfront⟩
    rw [bodyStart_of_brace hfront, List.length_append, List.length_cons]
    omega
  · rw [bodyStart_of_not_mem hopen]
    exact Nat.zero_le _

theorem bodyStop_le_length (line : List Char) : bodyStop line ≤ line.length := by
  by_cases hclose : '}' ∈ line
  · rcases Text.exists_last hclose with ⟨front, back, rfl, hback⟩
    rw [bodyStop_of_brace hback, List.length_append]
    omega
  · rw [bodyStop_of_not_mem hclose]
    exact Nat.sub_le _ _

/-- The characters up to the start of a body take as many bytes as its position says. -/
theorem byteLength_take_bodyStart (line : List Char) :
    Text.byteLength (line.take (bodyStart line)) = startByte line := by
  by_cases hopen : '{' ∈ line
  · rcases List.eq_append_cons_of_mem hopen with ⟨front, rest, rfl, hfront⟩
    have htake : (front ++ '{' :: rest).take (front.length + 1) = front ++ ['{'] := by
      rw [List.take_length_add_append, List.take_succ_cons, List.take_zero]
    have hbrace : Text.byteLength ['{'] = 1 := by decide
    rw [bodyStart_of_brace hfront, htake, startByte, Text.firstPosition?_append hfront,
      Text.byteLength_append, hbrace]
  · rw [bodyStart_of_not_mem hopen, startByte, Text.firstPosition?_of_not_mem hopen]
    rfl

/-- The characters up to the end of a body take as many bytes as its position says. -/
theorem byteLength_take_bodyStop (line : List Char) :
    Text.byteLength (line.take (bodyStop line)) = stopByte line := by
  by_cases hclose : '}' ∈ line
  · rcases Text.exists_last hclose with ⟨front, back, rfl, hback⟩
    rw [bodyStop_of_brace hback, List.take_left, stopByte, Text.lastPosition?_append hback]
  · rw [bodyStop_of_not_mem hclose, stopByte, Text.lastPosition?_of_not_mem hclose,
      ← List.dropLast_eq_take]
    rcases List.eq_nil_or_concat' line with rfl | ⟨front, c, rfl⟩
    · rfl
    · rw [List.dropLast_concat, Text.endPosition?_append_singleton]
      rfl

theorem startByte_lt_stopByte_iff (line : List Char) :
    startByte line < stopByte line ↔ bodyStart line < bodyStop line := by
  rw [← byteLength_take_bodyStart, ← byteLength_take_bodyStop,
    Text.byteLength_take_lt_iff line (bodyStart_le_length line) (bodyStop_le_length line)]

/-! ## What surrounds a body -/

/-- A line is put together from a body, what is in front of it and what is behind it: in front, all
up to the first opening brace, and behind, all from the last closing brace on.  Without an opening
brace nothing is in front, and without a closing one a single character is behind. -/
structure Surrounds (line front inner back : List Char) : Prop where
  line_eq : line = front ++ inner ++ back
  front_eq_nil : '{' ∉ line → front = []
  front_eq : '{' ∈ line → ∃ selector, '{' ∉ selector ∧ front = selector ++ ['{']
  back_eq : '}' ∈ line → ∃ rest, '}' ∉ rest ∧ back = '}' :: rest
  back_eq_singleton : '}' ∉ line → ∃ c, back = [c]

theorem take_bodyStart {line : List Char} (hlt : bodyStart line < bodyStop line) :
    (line.take (bodyStop line)).take (bodyStart line) = line.take (bodyStart line) := by
  rw [List.take_take, Nat.min_eq_left (Nat.le_of_lt hlt)]

/-- Where the ends do not cross, they surround the body. -/
theorem surrounds_of_lt {line : List Char} (hlt : bodyStart line < bodyStop line) :
    Surrounds line (line.take (bodyStart line))
      ((line.take (bodyStop line)).drop (bodyStart line)) (line.drop (bodyStop line)) where
  line_eq := by rw [← take_bodyStart hlt, List.take_append_drop, List.take_append_drop]
  front_eq_nil hopen := by rw [bodyStart_of_not_mem hopen, List.take_zero]
  front_eq hopen := by
    rcases List.eq_append_cons_of_mem hopen with ⟨selector, rest, rfl, hselector⟩
    refine ⟨selector, hselector, ?_⟩
    rw [bodyStart_of_brace hselector, List.take_length_add_append, List.take_succ_cons,
      List.take_zero]
  back_eq hclose := by
    rcases Text.exists_last hclose with ⟨before, rest, rfl, hrest⟩
    refine ⟨rest, hrest, ?_⟩
    rw [bodyStop_of_brace hrest, List.drop_left]
  back_eq_singleton hclose := by
    rw [bodyStop_of_not_mem hclose]
    rcases List.eq_nil_or_concat' line with rfl | ⟨before, c, rfl⟩
    · cases hlt
    · refine ⟨c, ?_⟩
      rw [List.length_append, List.length_singleton, Nat.add_sub_cancel, List.drop_left]

/-- A body is the slice of the line between the two byte positions. -/
theorem ofByteRange?_body {line : Slice} (hlt : startByte line.text < stopByte line.text) :
    Slice.ofByteRange? line.text (startByte line.text) (stopByte line.text) =
      some ⟨(body line).text, some (startByte line.text)⟩ := by
  have hcut := (startByte_lt_stopByte_iff line.text).mp hlt
  have hline := (surrounds_of_lt hcut).line_eq
  have hfront : line.text.take (bodyStop line.text) =
      line.text.take (bodyStart line.text) ++ (body line).text := by
    rw [body_text, ← take_bodyStart hcut, List.take_append_drop]
  have hbytes : stopByte line.text - startByte line.text = Text.byteLength (body line).text := by
    rw [← byteLength_take_bodyStop, ← byteLength_take_bodyStart, hfront, Text.byteLength_append,
      Nat.add_sub_cancel_left]
  -- The line is cut in two in front of the body, and its rest again behind the body.
  rw [← body_text, List.append_assoc] at hline
  have hfirst := Text.splitAtByte?_append (line.text.take (bodyStart line.text))
    ((body line).text ++ line.text.drop (bodyStop line.text))
  have hsecond := Text.splitAtByte?_append (body line).text (line.text.drop (bodyStop line.text))
  rw [← hline, byteLength_take_bodyStart] at hfirst
  rw [← hbytes] at hsecond
  simp [Slice.ofByteRange?, hfirst, hsecond, Nat.le_of_lt hlt]

/-! ## Names in a body -/

/-- No name has a semicolon or a colon in it. -/
theorem not_mem_of_mem_propertyNames {line name : Slice} (hname : name ∈ propertyNames line) :
    ';' ∉ name.text ∧ ':' ∉ name.text := by
  rcases List.mem_map.mp hname with ⟨declaration, hdeclaration, rfl⟩
  have hsemicolon : ';' ∉ declaration.text :=
    Slice.not_mem_of_mem_splitFrom List.not_mem_nil hdeclaration
  have hcolon : ':' ∉ (Text.trim declaration.text).takeWhile (· != ':') :=
    Text.not_mem_takeWhile_bne ':' _
  rw [text_propertyName, nameOf]
  constructor
  · intro hmem
    have hinner := (List.takeWhile_sublist _).mem ((Text.trim_sublist _).mem hmem)
    exact hsemicolon ((Text.trim_sublist _).mem hinner)
  · exact fun hmem => hcolon ((Text.trim_sublist _).mem hmem)

/-- No name begins or ends with a blank. -/
theorem not_isBlank_of_mem_propertyNames {line name : Slice} (hname : name ∈ propertyNames line) :
    (∀ c ∈ name.text.head?, Text.isBlank c = false) ∧
      ∀ c ∈ name.text.getLast?, Text.isBlank c = false := by
  rcases List.mem_map.mp hname with ⟨declaration, -, rfl⟩
  rw [text_propertyName, nameOf]
  exact ⟨fun _ => Text.not_isBlank_of_mem_head?_trim,
    fun _ => Text.not_isBlank_of_mem_getLast?_trim⟩

/-- The ends of a body are boundaries of the line.  In this order they surround the body, which is
the slice between them, and otherwise the body is empty.  There is one name more than there are
semicolons in the body, and no name has a semicolon, a colon, or a blank at either end. -/
theorem body_extent (line : Slice) :
    Text.IsBoundary (startByte line.text) line.text ∧
    Text.IsBoundary (stopByte line.text) line.text ∧
    (startByte line.text < stopByte line.text →
      Slice.ofByteRange? line.text (startByte line.text) (stopByte line.text) =
        some ⟨(body line).text, some (startByte line.text)⟩ ∧
      (body line).start = Slice.advance (startByte line.text) line.start ∧
      ∃ front back, Surrounds line.text front (body line).text back ∧
        Text.byteLength front = startByte line.text) ∧
    (stopByte line.text ≤ startByte line.text → (body line).text = []) ∧
    (propertyNames line).length = 1 + (body line).text.count ';' ∧
    ∀ name ∈ propertyNames line, ';' ∉ name.text ∧ ':' ∉ name.text ∧
      (∀ c ∈ name.text.head?, Text.isBlank c = false) ∧
      ∀ c ∈ name.text.getLast?, Text.isBlank c = false := by
  refine ⟨⟨_, _, (List.take_append_drop (bodyStart line.text) line.text).symm,
    byteLength_take_bodyStart line.text⟩, ⟨_, _,
    (List.take_append_drop (bodyStop line.text) line.text).symm,
    byteLength_take_bodyStop line.text⟩, fun hlt => ?_, fun hge => ?_, ?_, fun name hname => ?_⟩
  · have hcut := (startByte_lt_stopByte_iff line.text).mp hlt
    refine ⟨ofByteRange?_body hlt, ?_, line.text.take (bodyStart line.text),
      line.text.drop (bodyStop line.text), ?_, byteLength_take_bodyStart line.text⟩
    · rw [body, if_pos hcut, ← byteLength_take_bodyStart, ← take_bodyStart hcut]
      rfl
    · rw [body_text]
      exact surrounds_of_lt hcut
  · have hcut : ¬ bodyStart line.text < bodyStop line.text := by
      rw [← startByte_lt_stopByte_iff]
      omega
    rw [body, if_neg hcut]
    rfl
  · rw [length_propertyNames, Slice.trim_text, Text.count_trim (by decide), Nat.add_comm]
  · have hclean := not_mem_of_mem_propertyNames hname
    exact ⟨hclean.1, hclean.2, not_isBlank_of_mem_propertyNames hname⟩

/-- The last character is left out whole, and braces in the wrong order have no body. -/
theorem body_extent_of_accented :
    startByte "é\x7ba: é".toList = 3 ∧ stopByte "é\x7ba: é".toList = 6 ∧
      Slice.ofByteRange? "é\x7ba: é".toList 3 6 = some ⟨"a: ".toList, some 3⟩ ∧
      (∃ front c, "é\x7ba: é".toList = front ++ "a: ".toList ++ [c]) ∧
      ':' ∉ "a".toList ∧
      (body (Slice.whole "\x7d\x7b".toList)).text = [] := by
  have hstart : startByte "é\x7ba: é".toList = 3 := by decide
  have hstop : stopByte "é\x7ba: é".toList = 6 := by decide
  have hbody : (body (Slice.whole "é\x7ba: é".toList)).text = "a: ".toList := by decide
  have hclose : '}' ∉ "é\x7ba: é".toList := by decide
  have hname : Slice.mk "a".toList (some 3) ∈
      propertyNames (Slice.whole "é\x7ba: é".toList) := by decide
  have hcrossed : stopByte "\x7d\x7b".toList ≤ startByte "\x7d\x7b".toList := by decide
  rcases body_extent (Slice.whole "é\x7ba: é".toList) with ⟨_, _, hextent, _, _, hnames⟩
  rw [hbody, Slice.whole, hstart, hstop] at hextent
  rcases hextent (by decide) with ⟨hslice, _, front, back, hsurrounds, _⟩
  rcases hsurrounds.back_eq_singleton hclose with ⟨c, rfl⟩
  exact ⟨hstart, hstop, hslice, ⟨front, c, hsurrounds.line_eq⟩, (hnames _ hname).2.1,
    (body_extent (Slice.whole "\x7d\x7b".toList)).2.2.2.1 hcrossed⟩

end Declaration

end SheetLint
