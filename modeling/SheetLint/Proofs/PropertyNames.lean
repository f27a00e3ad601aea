import SheetLint.Proofs.LineLocality
import SheetLint.Proofs.LineNumber

/-!
# Property names and advice on a line

The property names on a line depend on its text alone: they are read off the pieces between the
semicolons of its body.  Neighbouring names are compared by their places in the canonical order,
so the advice on a line, which of two names to declare first, depends on these names alone.

Main results:

- Theorem `Text.map_trim_splitOn_trim` says that the trimmed pieces of a text do not depend on
  the blanks at its ends.
- Definition `Declaration.names` gives the names as texts.  Theorem
  `Declaration.names_of_braces` reads them off a line with its braces, and
  `Declaration.names_of_semicolon` off a line without braces that ends with a semicolon.
- Relation `PropertyOrder.Descends` compares two names, and `PropertyOrder.advice` is the list
  of the neighbouring pairs that descend.
- Theorem `Rule.adviceAt_eq` gives the advice on any line of a document.
-/

namespace SheetLint

/-! ## Blanks around pieces -/

namespace Text

variable {separator : Char} {blanks : List Char}

theorem bne_of_not_mem {text : List Char} (htext : separator ∉ text) :
    ∀ c ∈ text, (c != separator) = true := by
  intro c hc
  rw [bne_iff_ne]
  rintro rfl
  exact htext hc

/-- What is in no text and not between them is not in the joined texts. -/
theorem not_mem_intercalate {c : Char} {between : List Char} {texts : List (List Char)}
    (hbetween : c ∉ between) (htexts : ∀ text ∈ texts, c ∉ text) :
    c ∉ between.intercalate texts := by
  induction texts with
  | nil => exact List.not_mem_nil
  | cons text rest ih =>
    have hrest := ih fun text htext => htexts text (List.mem_cons_of_mem _ htext)
    have hfirst := htexts text List.mem_cons_self
    cases rest with
    | nil => rwa [List.intercalate_singleton]
    | cons next rest =>
      rw [List.intercalate_cons_cons, List.mem_append, List.mem_append]
      simp only [hfirst, hbetween, hrest, or_self, not_false_eq_true]

/-- What is not blank keeps the text in front of it from being trimmed at the end. -/
theorem trimEnd_append_cons {c : Char} (hc : isBlank c = false) (front back : List Char) :
    trimEnd (front ++ c :: back) = front ++ c :: trimEnd back := by
  rw [trimEnd, trimEnd, List.reverse_append, List.reverse_cons, List.append_assoc,
    List.dropWhile_append]
  split
  next hblank => simp [List.isEmpty_iff.mp hblank, hc]
  next => simp

/-- Only what stands on its other side is trimmed. -/
theorem trim_append_cons {c : Char} (hc : isBlank c = false) (front back : List Char) :
    trim (front ++ c :: back) = trimStart front ++ c :: trimEnd back := by
  rw [trim, trimEnd_append_cons hc, trimStart, trimStart, List.dropWhile_append]
  split
  next hblank => simp [List.isEmpty_iff.mp hblank, hc]
  next => rfl

theorem trim_trimStart (text : List Char) : trim (trimStart text) = trim text := by
  rw [← trim_append_of_all_blank (all_blank_takeWhile text), trimStart,
    List.takeWhile_append_dropWhile]

/-- A trimmed text begins with the first character that is not blank. -/
theorem head?_trim (text : List Char) : (trim text).head? = text.find? fun c => !isBlank c := by
  rcases exists_eq_append_trim text with ⟨before, after, hbefore, hafter, htext⟩
  have hskip {blanks : List Char} (hblanks : ∀ c ∈ blanks, isBlank c = true) :
      blanks.find? (fun c => !isBlank c) = none := by
    rw [List.find?_eq_none]
    intro c hc
    simp [hblanks c hc]
  conv_rhs =>
    rw [htext, List.find?_append, List.find?_append, hskip hbefore, hskip hafter, Option.none_or,
      Option.or_none]
  cases hfirst : trim text with
  | nil => rfl
  | cons c rest =>
    have hc : isBlank c = false := not_isBlank_of_mem_head?_trim (by rw [hfirst]; rfl)
    rw [List.find?_cons_of_pos (by rw [hc]; rfl)]
    rfl

/-- Blanks in front of a text are trimmed with its first piece. -/
theorem map_trim_splitOn_blanks_append (hseparator : isBlank separator = false)
    (hblanks : ∀ c ∈ blanks, isBlank c = true) (text : List Char) :
    ((blanks ++ text).splitOn separator).map trim = (text.splitOn separator).map trim := by
  have hclean := not_mem_of_all_blank hblanks hseparator
  induction text using separator_induction separator with
  | last text htext =>
    rw [List.splitOn_eq_singleton htext, List.splitOn_eq_singleton (by simp [hclean, htext]),
      List.map_singleton, List.map_singleton, trim_append_of_all_blank hblanks]
  | step piece rest hpiece _ =>
    rw [← List.append_assoc, List.splitOn_append_cons_self_of_not_mem hpiece,
      List.splitOn_append_cons_self_of_not_mem (by simp [hclean, hpiece]), List.map_cons,
      List.map_cons, trim_append_of_all_blank hblanks]

/-- Blanks behind a text are trimmed with its last piece. -/
theorem map_trim_splitOn_append_blanks (hseparator : isBlank separator = false)
    (hblanks : ∀ c ∈ blanks, isBlank c = true) (text : List Char) :
    ((text ++ blanks).splitOn separator).map trim = (text.splitOn separator).map trim := by
  have hclean := not_mem_of_all_blank hblanks hseparator
  induction text using separator_induction separator with
  | last text htext =>
    have htrim : trim (text ++ blanks) = trim text := by
      rw [trim, trim, trimEnd_append_of_all_blank hblanks]
    rw [List.splitOn_eq_singleton htext, List.splitOn_eq_singleton (by simp [hclean, htext]),
      List.map_singleton, List.map_singleton, htrim]
  | step piece rest hpiece ih =>
    rw [List.append_assoc, List.cons_append, List.splitOn_append_cons_self_of_not_mem hpiece,
      List.splitOn_append_cons_self_of_not_mem hpiece, List.map_cons, List.map_cons, ih]

theorem map_trim_splitOn_trim (hseparator : isBlank separator = false) (text : List Char) :
    ((trim text).splitOn separator).map trim = (text.splitOn separator).map trim := by
  rcases exists_eq_append_trim text with ⟨before, after, hbefore, hafter, htext⟩
  conv_rhs =>
    rw [htext, map_trim_splitOn_append_blanks hseparator hafter,
      map_trim_splitOn_blanks_append hseparator hbefore]

end Text

/-! ## Property names -/

namespace Declaration

/-- The name in the text of a declaration. -/
def nameOf (declaration : List Char) : List Char :=
  Text.trim ((Text.trim declaration).takeWhile (· != ':'))

/-- The texts of the property names on a line. -/
def names (line : List Char) : List (List Char) :=
  (propertyNames (Slice.detached line)).map Slice.text

/-- The name is what stands in front of the first colon. -/
theorem nameOf_append_colon {front : List Char} (hfront : ':' ∉ front) (back : List Char) :
    nameOf (front ++ ':' :: back) = Text.trim front := by
  have hclean : ':' ∉ Text.trimStart front := fun h =>
    hfront ((List.dropWhile_sublist Text.isBlank).mem h)
  rw [nameOf, Text.trim_append_cons (by decide),
    List.takeWhile_append_of_pos (Text.bne_of_not_mem hclean),
    List.takeWhile_cons_of_neg (by decide), List.append_nil, Text.trim_trimStart]

/-- Names do not depend on the blanks around the declarations. -/
theorem map_nameOf_congr {pieces pieces' : List (List Char)}
    (htrim : pieces.map Text.trim = pieces'.map Text.trim) :
    pieces.map nameOf = pieces'.map nameOf := by
  have hname (pieces : List (List Char)) : pieces.map nameOf =
      (pieces.map Text.trim).map fun piece => Text.trim (piece.takeWhile (· != ':')) := by
    rw [List.map_map]
    rfl
  rw [hname, hname, htrim]

theorem text_propertyName (declaration : Slice) :
    (propertyName declaration).text = nameOf declaration.text := by
  simp [propertyName, nameOf]

/-- The names are read off the pieces between the semicolons of the body. -/
theorem map_text_propertyNames (line : Slice) :
    (propertyNames line).map Slice.text = ((body line).text.splitOn ';').map nameOf := by
  have hname : Slice.text ∘ propertyName = nameOf ∘ Slice.text := funext text_propertyName
  rw [propertyNames, List.map_map, hname, ← List.map_map, Slice.map_text_split, Slice.trim_text]
  exact map_nameOf_congr (Text.map_trim_splitOn_trim (by decide) _)

theorem body_text (line : Slice) :
    (body line).text = (line.text.take (bodyStop line.text)).drop (bodyStart line.text) := by
  unfold body
  split
  next => rfl
  next hempty =>
    symm
    apply List.drop_eq_nil_of_le
    rw [List.length_take]
    omega

/-- The names do not depend on where the line lies. -/
theorem names_text (line : Slice) : (propertyNames line).map Slice.text = names line.text := by
  rw [names, map_text_propertyNames, map_text_propertyNames, body_text, body_text]
  rfl

/-! ## Lines with and without braces -/

section Braces

variable {front back : List Char}

theorem bodyStart_of_brace (hfront : '{' ∉ front) (rest : List Char) :
    bodyStart (front ++ '{' :: rest) = front.length + 1 := by
  rw [bodyStart, if_pos (by simp), List.takeWhile_append_of_pos (Text.bne_of_not_mem hfront),
    List.takeWhile_cons_of_neg (by decide), List.append_nil]

theorem bodyStop_of_brace (hback : '}' ∉ back) (text : List Char) :
    bodyStop (text ++ '}' :: back) = text.length := by
  -- The last closing brace is the first one of the reversed line.
  have hclean : '}' ∉ back.reverse := fun h => hback (List.mem_reverse.mp h)
  rw [bodyStop, if_pos (by simp), List.reverse_append, List.reverse_cons, List.append_assoc,
    List.dropWhile_append_of_pos (Text.bne_of_not_mem hclean), List.singleton_append,
    List.dropWhile_cons_of_neg (by decide), List.length_cons, List.length_reverse,
    Nat.add_sub_cancel]

/-- On a line with both braces, the body is what stands between them. -/
theorem names_of_braces (hfront : '{' ∉ front) (hback : '}' ∉ back) (inner : List Char) :
    names (front ++ '{' :: (inner ++ '}' :: back)) = (inner.splitOn ';').map nameOf := by
  have hstart := bodyStart_of_brace hfront (inner ++ '}' :: back)
  have hstop := bodyStop_of_brace hback (front ++ '{' :: inner)
  rw [List.append_assoc, List.cons_append] at hstop
  have hbody : (body (Slice.detached (front ++ '{' :: (inner ++ '}' :: back)))).text = inner := by
    rw [body_text, Slice.detached, hstart, hstop]
    simp [List.take_append, List.drop_append]
  rw [names, map_text_propertyNames, hbody]

/-- Trimming a line keeps what stands between its braces. -/
theorem names_trim_of_braces (hfront : '{' ∉ front) (hback : '}' ∉ back) (inner : List Char) :
    names (Text.trim (front ++ '{' :: (inner ++ '}' :: back))) =
      (inner.splitOn ';').map nameOf := by
  have hopen : '{' ∉ Text.trimStart front := fun h =>
    hfront ((List.dropWhile_sublist Text.isBlank).mem h)
  have hclose : '}' ∉ Text.trimEnd back := fun h =>
    hback (List.IsPrefix.subset ⟨_, Text.trimEnd_append_blanks back⟩ h)
  rw [Text.trim_append_cons (by decide), Text.trimEnd_append_cons (by decide)]
  exact names_of_braces hopen hclose inner

end Braces

section NoBraces

variable {line : List Char}

theorem bodyStart_of_not_mem (hopen : '{' ∉ line) : bodyStart line = 0 :=
  if_neg hopen

theorem bodyStop_of_not_mem (hclose : '}' ∉ line) : bodyStop line = line.length - 1 :=
  if_neg hclose

/-- Without braces, the last character of a line is left out; here this is a semicolon. -/
theorem names_of_semicolon (hopen : '{' ∉ line) (hclose : '}' ∉ line) :
    names (line ++ [';']) = (line.splitOn ';').map nameOf := by
  have hstart : bodyStart (line ++ [';']) = 0 := bodyStart_of_not_mem (by simp [hopen])
  have hstop : bodyStop (line ++ [';']) = (line ++ [';']).length - 1 :=
    bodyStop_of_not_mem (by simp [hclose])
  rw [names, map_text_propertyNames, body_text, Slice.detached, hstart, hstop, List.drop_zero,
    ← List.dropLast_eq_take, List.dropLast_concat]

theorem names_trim_of_semicolon (hopen : '{' ∉ line) (hclose : '}' ∉ line) :
    names (Text.trim (line ++ [';'])) = (line.splitOn ';').map nameOf := by
  have hsub : Text.trimStart line ⊆ line := (List.dropWhile_sublist Text.isBlank).subset
  have hsemicolon : Text.isBlank ';' = false := by decide
  have hpieces := Text.map_trim_splitOn_blanks_append hsemicolon (Text.all_blank_takeWhile line)
    (Text.trimStart line)
  rw [Text.trimStart, List.takeWhile_append_dropWhile] at hpieces
  rw [Text.trim_append_cons (by decide), Text.trimEnd_nil,
    names_of_semicolon (fun h => hopen (hsub h)) (fun h => hclose (hsub h))]
  exact map_nameOf_congr hpieces.symm

end NoBraces

end Declaration

/-! ## Advice -/

namespace PropertyOrder

/-- Two names descend when both have a place in the canonical order and the second one comes
earlier. -/
def Descends (current next : List Char) : Prop :=
  ∃ place ∈ canonicalIndex? current, ∃ nextPlace ∈ canonicalIndex? next, nextPlace < place

theorem isMisordered_iff {current next : List Char} :
    isMisordered current next = true ↔ Descends current next := by
  unfold isMisordered Descends
  cases canonicalIndex? current <;> cases canonicalIndex? next <;> simp

instance (current next : List Char) : Decidable (Descends current next) :=
  decidable_of_iff _ isMisordered_iff

/-- What there is to say about some names: each neighbouring pair that descends, with the name
that is to be declared first in front. -/
def advice (names : List (List Char)) : List (List Char × List Char) :=
  ((neighbours names).filter fun pair => Descends pair.1 pair.2).map Prod.swap

theorem neighbours_cons_cons {α : Type} (first second : α) (rest : List α) :
    neighbours (first :: second :: rest) = (first, second) :: neighbours (second :: rest) := rfl

/-- A name without a place at the end is never mentioned. -/
theorem advice_append_singleton {last : List Char} (hlast : canonicalIndex? last = none)
    (names : List (List Char)) : advice (names ++ [last]) = advice names := by
  have hnever (name : List Char) : ¬ Descends name last := by
    rintro ⟨_, _, nextPlace, hplace, _⟩
    rw [hlast] at hplace
    cases hplace
  unfold advice
  congr 1
  induction names with
  | nil => rfl
  | cons name rest ih =>
    cases rest with
    | nil => simp [hnever, neighbours]
    | cons second rest =>
      rw [List.cons_append, List.cons_append] at *
      rw [neighbours_cons_cons, neighbours_cons_cons, List.filter_cons, List.filter_cons, ih]

end PropertyOrder

/-- The two names that a finding is about, if the one is to be declared before the other. -/
def Finding.advice? : Finding → Option (List Char × List Char)
  | .misordered _ next current => some (next.text, current.text)
  | _ => none

namespace Line

/-- The findings about the order of a line are its neighbouring names that descend, from left to
right. -/
theorem orderFindings_eq_map {l : Line} (hbrace : l.slice.text.head? ≠ some '}') :
    l.orderFindings =
      ((PropertyOrder.neighbours (Declaration.propertyNames l.slice)).filter fun pair =>
        PropertyOrder.Descends pair.1.text pair.2.text).map
          fun pair => .misordered l.number pair.2 pair.1 := by
  rw [orderFindings, if_neg hbrace, ← List.filterMap_eq_map, List.filterMap_filter]
  congr 1
  funext pair
  by_cases hdescends : PropertyOrder.Descends pair.1.text pair.2.text
  · simp [hdescends, PropertyOrder.isMisordered_iff]
  · simp [hdescends, PropertyOrder.isMisordered_iff]

theorem mem_orderFindings_iff {l : Line} {f : Finding} :
    f ∈ l.orderFindings ↔
      l.slice.text.head? ≠ some '}' ∧
        ∃ pair ∈ PropertyOrder.neighbours (Declaration.propertyNames l.slice),
          PropertyOrder.Descends pair.1.text pair.2.text ∧
            f = .misordered l.number pair.2 pair.1 := by
  by_cases hbrace : l.slice.text.head? = some '}'
  · simp [orderFindings, hbrace]
  · rw [orderFindings_eq_map hbrace, and_iff_right hbrace, List.mem_map]
    refine exists_congr fun pair => ?_
    rw [List.mem_filter, decide_eq_true_eq, and_assoc, eq_comm]

/-- The advice on a line. -/
theorem filterMap_advice_orderFindings (l : Line) :
    l.orderFindings.filterMap Finding.advice? =
      if l.slice.text.head? = some '}' then []
      else PropertyOrder.advice (Declaration.names l.slice.text) := by
  split
  next hbrace =>
    rw [orderFindings, if_pos hbrace]
    rfl
  next hbrace =>
    rw [orderFindings_eq_map hbrace, List.filterMap_map, ← Declaration.names_text,
      PropertyOrder.advice, PropertyOrder.neighbours_map, List.filter_map, List.map_map,
      ← List.filterMap_eq_map]
    rfl

theorem orderFindings_eq_nil_iff_advice (l : Line) :
    l.orderFindings = [] ↔
      l.slice.text.head? = some '}' ∨
        PropertyOrder.advice (Declaration.names l.slice.text) = [] := by
  by_cases hbrace : l.slice.text.head? = some '}'
  · simp [orderFindings, hbrace]
  · rw [orderFindings_eq_map hbrace, ← Declaration.names_text, PropertyOrder.advice,
      PropertyOrder.neighbours_map, List.filter_map, List.map_eq_nil_iff, List.map_eq_nil_iff,
      List.map_eq_nil_iff, or_iff_right hbrace]
    rfl

end Line

namespace Rule

/-- The advice that is given under a number. -/
def adviceAt (document : List Char) (number : Nat) : List (List Char × List Char) :=
  (propertyOrder.findingsAt document number).filterMap Finding.advice?

/-- What is found on a line, wherever it stands in a document, is what is read off its text. -/
theorem exists_findingsAt_eq {document piece : List Char} {k : Nat}
    (hpiece : (document.splitOn '\n')[k]? = some piece) :
    ∃ l : Line, l.slice.text = Text.trim piece ∧
      propertyOrder.findingsAt document (k + 1) = l.orderFindings := by
  have hnumber : ∀ l : Line, ∀ f ∈ l.orderFindings, f.line = l.number := fun l f hf =>
    (Line.subject_of_mem_orderFindings hf).1
  rcases Line.exists_filter_flatMap_eq hnumber hpiece with ⟨l, _, _, htext, hfound⟩
  exact ⟨l, htext, hfound⟩

theorem adviceAt_eq {document piece : List Char} {k : Nat}
    (hpiece : (document.splitOn '\n')[k]? = some piece) :
    adviceAt document (k + 1) =
      if (Text.trim piece).head? = some '}' then []
      else PropertyOrder.advice (Declaration.names (Text.trim piece)) := by
  rcases exists_findingsAt_eq hpiece with ⟨l, htext, hfound⟩
  rw [adviceAt, hfound, Line.filterMap_advice_orderFindings, htext]

theorem findingsAt_eq_nil_iff {document piece : List Char} {k : Nat}
    (hpiece : (document.splitOn '\n')[k]? = some piece) :
    propertyOrder.findingsAt document (k + 1) = [] ↔
      (Text.trim piece).head? = some '}' ∨
        PropertyOrder.advice (Declaration.names (Text.trim piece)) = [] := by
  rcases exists_findingsAt_eq hpiece with ⟨l, htext, hfound⟩
  rw [hfound, Line.orderFindings_eq_nil_iff_advice, htext]

/-- A text is one line, and every document gives this advice on such a line. -/
def GivesAdvice (line : List Char) (pairs : List (List Char × List Char)) : Prop :=
  line.splitOn '\n' = [line] ∧
    ∀ document k, (document.splitOn '\n')[k]? = some line → adviceAt document (k + 1) = pairs

theorem givesAdvice_of_not_mem {line : List Char} (hline : '\n' ∉ line) :
    GivesAdvice line
      (if (Text.trim line).head? = some '}' then []
      else PropertyOrder.advice (Declaration.names (Text.trim line))) :=
  ⟨List.splitOn_eq_singleton hline, fun _ _ hpiece => adviceAt_eq hpiece⟩

end Rule

end SheetLint
