import SheetLint.Proofs.PropertyNames

/-!
# Rendered declarations

Declarations can be written between the braces of a rule or on a line of their own.  Reading the
property names gives back what was written: behind the braces of a rule there is one more empty
name, which has no place in the canonical order.  So both layouts of the same declarations get the
same advice.

Main results:

- Structure `Declared` is a declaration that can be written; `Declared.renderRule` and
  `Declared.renderBare` are the two layouts.
- Theorems `Declared.names_renderRule` and `Declared.names_renderBare` read the names back.
- Theorem `Declared.names_of_layouts` adds the advice on both layouts.
-/

namespace SheetLint

/-- A trimmed name without the characters that end it or the declarations, and a value that ends
in front of a semicolon. -/
structure Declared where
  name : List Char
  value : List Char
  trim_name : Text.trim name = name
  name_clean : ';' ∉ name ∧ ':' ∉ name ∧ '{' ∉ name ∧ '}' ∉ name
  value_clean : ';' ∉ value

namespace Declared

open Declaration (nameOf names propertyNames)

/-! ## Layouts -/

/-- The text of a declaration in front of its semicolon. -/
def statement (d : Declared) : List Char :=
  d.name ++ ':' :: ' ' :: d.value

/-- The text of a declaration. -/
def render (d : Declared) : List Char :=
  d.statement ++ [';']

/-- Declarations between the braces of a rule, on one line. -/
def renderRule (front : List Char) (ds : List Declared) : List Char :=
  front ++ [' ', '{'] ++ (ds.flatMap fun d => ' ' :: d.render) ++ [' ', '}']

/-- Declarations on a line of their own. -/
def renderBare (ds : List Declared) : List Char :=
  [' '].intercalate (ds.map render)

/-- A value without braces. -/
def IsBraceFree (d : Declared) : Prop :=
  '{' ∉ d.value ∧ '}' ∉ d.value

/-- A declaration without line breaks. -/
def IsOneLine (d : Declared) : Prop :=
  '\n' ∉ d.name ∧ '\n' ∉ d.value

variable {front : List Char} {ds : List Declared}

theorem renderRule_eq (front : List Char) (ds : List Declared) :
    renderRule front ds =
      (front ++ [' ']) ++
        '{' :: (((ds.flatMap fun d => ' ' :: d.render) ++ [' ']) ++ '}' :: []) := by
  simp [renderRule]

/-- Without the last semicolon, what stands between the declarations separates them. -/
theorem renderBare_eq (hds : ds ≠ []) :
    renderBare ds = [';', ' '].intercalate (ds.map statement) ++ [';'] := by
  induction ds with
  | nil => exact absurd rfl hds
  | cons d rest ih =>
    cases rest with
    | nil => simp [renderBare, render]
    | cons e rest =>
      have hrest := ih (List.cons_ne_nil e rest)
      rw [renderBare, List.map_cons, List.map_cons] at hrest
      rw [renderBare, List.map_cons, List.map_cons, List.intercalate_cons_cons, hrest, render,
        List.map_cons, List.map_cons, List.intercalate_cons_cons]
      simp

/-! ## Names -/

theorem not_mem_statement (d : Declared) : ';' ∉ d.statement := by
  simp [statement, d.name_clean, d.value_clean]

theorem nameOf_statement (d : Declared) : nameOf d.statement = d.name := by
  rw [statement, Declaration.nameOf_append_colon d.name_clean.2.1, d.trim_name]

theorem all_blank_space : ∀ c ∈ [' '], Text.isBlank c = true :=
  List.forall_mem_singleton.mpr rfl

theorem nameOf_blank_statement (d : Declared) : nameOf (' ' :: d.statement) = d.name := by
  have hcolon : ':' ∉ [' '] ++ d.name := by simp [d.name_clean]
  have hname := Declaration.nameOf_append_colon hcolon (' ' :: d.value)
  rwa [Text.trim_append_of_all_blank all_blank_space, d.trim_name] at hname

/-- Between the braces of a rule, the piece behind the last semicolon has an empty name. -/
theorem map_nameOf_rule (ds : List Declared) :
    (((ds.flatMap fun d => ' ' :: d.render) ++ [' ']).splitOn ';').map nameOf =
      ds.map name ++ [[]] := by
  induction ds with
  | nil => rfl
  | cons d rest ih =>
    have hpiece : ';' ∉ ' ' :: d.statement := by simp [d.not_mem_statement]
    have htext : ((d :: rest).flatMap fun d => ' ' :: d.render) ++ [' '] =
        (' ' :: d.statement) ++ ';' :: ((rest.flatMap fun d => ' ' :: d.render) ++ [' ']) := by
      simp [render]
    rw [htext, List.splitOn_append_cons_self_of_not_mem hpiece, List.map_cons, ih,
      nameOf_blank_statement, List.map_cons, List.cons_append]

theorem map_nameOf_bare (hds : ds ≠ []) :
    (([';', ' '].intercalate (ds.map statement)).splitOn ';').map nameOf = ds.map name := by
  induction ds with
  | nil => exact absurd rfl hds
  | cons d rest ih =>
    cases rest with
    | nil =>
      rw [List.map_singleton, List.intercalate_singleton,
        List.splitOn_eq_singleton d.not_mem_statement, List.map_singleton, nameOf_statement,
        List.map_singleton]
    | cons e rest =>
      have hsemicolon : Text.isBlank ';' = false := by decide
      have htext : [';', ' '].intercalate ((d :: e :: rest).map statement) =
          d.statement ++ ';' :: ([' '] ++ [';', ' '].intercalate ((e :: rest).map statement)) := by
        simp [List.intercalate_cons_cons]
      have hpieces := Declaration.map_nameOf_congr
        (Text.map_trim_splitOn_blanks_append hsemicolon all_blank_space
          ([';', ' '].intercalate ((e :: rest).map statement)))
      rw [htext, List.splitOn_append_cons_self_of_not_mem d.not_mem_statement, List.map_cons,
        hpieces, ih (List.cons_ne_nil e rest), nameOf_statement]
      rfl

/-- Reading the names of a rule gives back what was written, and an empty name. -/
theorem names_renderRule (hfront : '{' ∉ front) (ds : List Declared) :
    names (renderRule front ds) = ds.map name ++ [[]] := by
  rw [renderRule_eq, Declaration.names_of_braces (by simpa using hfront) List.not_mem_nil,
    map_nameOf_rule]

theorem names_trim_renderRule (hfront : '{' ∉ front) (ds : List Declared) :
    names (Text.trim (renderRule front ds)) = ds.map name ++ [[]] := by
  rw [renderRule_eq, Declaration.names_trim_of_braces (by simpa using hfront) List.not_mem_nil,
    map_nameOf_rule]

theorem not_mem_bare {c : Char} (hc : c ∉ [';', ':', ' '])
    (hds : ∀ d ∈ ds, c ∉ d.name ∧ c ∉ d.value) :
    c ∉ [';', ' '].intercalate (ds.map statement) := by
  simp only [List.mem_cons, List.not_mem_nil, or_false, not_or] at hc
  refine Text.not_mem_intercalate (by simp [hc]) fun text htext => ?_
  rcases List.mem_map.mp htext with ⟨d, hd, rfl⟩
  simp [statement, hds d hd, hc]

/-- No brace stands in declarations without one in their values. -/
theorem braces_not_mem_bare (hbraces : ∀ d ∈ ds, d.IsBraceFree) :
    '{' ∉ [';', ' '].intercalate (ds.map statement) ∧
      '}' ∉ [';', ' '].intercalate (ds.map statement) :=
  ⟨not_mem_bare (by decide) fun d hd => ⟨d.name_clean.2.2.1, (hbraces d hd).1⟩,
    not_mem_bare (by decide) fun d hd => ⟨d.name_clean.2.2.2, (hbraces d hd).2⟩⟩

/-- Reading the names of a line of declarations gives back what was written. -/
theorem names_renderBare (hds : ds ≠ []) (hbraces : ∀ d ∈ ds, d.IsBraceFree) :
    names (renderBare ds) = ds.map name := by
  rcases braces_not_mem_bare hbraces with ⟨hopen, hclose⟩
  rw [renderBare_eq hds, Declaration.names_of_semicolon hopen hclose, map_nameOf_bare hds]

theorem names_trim_renderBare (hds : ds ≠ []) (hbraces : ∀ d ∈ ds, d.IsBraceFree) :
    names (Text.trim (renderBare ds)) = ds.map name := by
  rcases braces_not_mem_bare hbraces with ⟨hopen, hclose⟩
  rw [renderBare_eq hds, Declaration.names_trim_of_semicolon hopen hclose, map_nameOf_bare hds]

/-! ## Advice -/

theorem not_mem_render {d : Declared} (hd : d.IsOneLine) : '\n' ∉ d.render := by
  simp [render, statement, hd.1, hd.2]

theorem not_mem_renderRule (hfront : '\n' ∉ front) (hds : ∀ d ∈ ds, d.IsOneLine) :
    '\n' ∉ renderRule front ds := by
  have hrender : '\n' ∉ ds.flatMap fun d => ' ' :: d.render := by
    rw [List.mem_flatMap]
    rintro ⟨d, hd, hmem⟩
    exact not_mem_render (hds d hd) (by simpa using hmem)
  simp [renderRule, hfront, hrender]

theorem not_mem_renderBare (hds : ∀ d ∈ ds, d.IsOneLine) : '\n' ∉ renderBare ds := by
  refine Text.not_mem_intercalate (by decide) fun text htext => ?_
  rcases List.mem_map.mp htext with ⟨d, hd, rfl⟩
  exact not_mem_render (hds d hd)

/-- A rule begins with a closing brace only if the text in front of its declarations does. -/
theorem head?_trim_renderRule (hfront : (Text.trim front).head? ≠ some '}')
    (ds : List Declared) : (Text.trim (renderRule front ds)).head? ≠ some '}' := by
  have hblank : Text.isBlank ' ' = true := by decide
  have hbrace : Text.isBlank '{' = false := by decide
  have hhead : (Text.trim (renderRule front ds)).head? =
      (Text.trim front).head?.or (some '{') := by
    rw [renderRule_eq, Text.head?_trim, Text.head?_trim, List.append_assoc, List.find?_append,
      List.find?_append, List.find?_singleton, List.find?_cons_of_pos (by rw [hbrace]; rfl), hblank]
    rfl
  rw [hhead]
  cases hfirst : (Text.trim front).head? with
  | none => decide
  | some c => rwa [hfirst] at hfront

theorem head?_trim_renderBare (hbraces : ∀ d ∈ ds, d.IsBraceFree) :
    (Text.trim (renderBare ds)).head? ≠ some '}' := by
  have hclean : '}' ∉ renderBare ds := by
    refine Text.not_mem_intercalate (by decide) fun text htext => ?_
    rcases List.mem_map.mp htext with ⟨d, hd, rfl⟩
    simp [render, statement, d.name_clean, (hbraces d hd).2]
  rw [Text.head?_trim]
  exact fun hhead => hclean (List.mem_of_find?_eq_some hhead)

/-- The advice on a rule is that on its declarations. -/
theorem givesAdvice_renderRule (hfront : '{' ∉ front) (hbreak : '\n' ∉ front)
    (hlines : ∀ d ∈ ds, d.IsOneLine) (hhead : (Text.trim front).head? ≠ some '}') :
    Rule.GivesAdvice (renderRule front ds) (PropertyOrder.advice (ds.map name)) := by
  have hadvice := Rule.givesAdvice_of_not_mem (not_mem_renderRule hbreak hlines)
  rwa [if_neg (head?_trim_renderRule hhead ds), names_trim_renderRule hfront,
    PropertyOrder.advice_append_singleton PropertyOrder.canonicalIndex?_nil] at hadvice

/-- So is the advice on a line of declarations, even if there is none. -/
theorem givesAdvice_renderBare (hbraces : ∀ d ∈ ds, d.IsBraceFree)
    (hlines : ∀ d ∈ ds, d.IsOneLine) :
    Rule.GivesAdvice (renderBare ds) (PropertyOrder.advice (ds.map name)) := by
  have hadvice := Rule.givesAdvice_of_not_mem (not_mem_renderBare hlines)
  rw [if_neg (head?_trim_renderBare hbraces)] at hadvice
  by_cases hds : ds = []
  · subst hds
    exact hadvice
  · rwa [names_trim_renderBare hds hbraces] at hadvice

/-- Reading the property names of a rule on one line gives back the names that were written, and
one empty name, whatever the values are; on a line of declarations without braces it gives back
the names.  If nothing in them breaks the line, both layouts get the same advice wherever they
stand in a document: the neighbouring names that both have a place in the canonical order and
descend, from left to right. -/
theorem names_of_layouts (hfront : '{' ∉ front) (ds : List Declared) :
    (∀ start, (propertyNames ⟨renderRule front ds, start⟩).map Slice.text =
      ds.map name ++ [[]]) ∧
    ((∀ d ∈ ds, d.IsBraceFree) → ds ≠ [] →
      ∀ start, (propertyNames ⟨renderBare ds, start⟩).map Slice.text = ds.map name) ∧
    ('\n' ∉ front → (∀ d ∈ ds, d.IsOneLine) → (Text.trim front).head? ≠ some '}' →
      Rule.GivesAdvice (renderRule front ds) (PropertyOrder.advice (ds.map name)) ∧
      ((∀ d ∈ ds, d.IsBraceFree) →
        Rule.GivesAdvice (renderBare ds) (PropertyOrder.advice (ds.map name)))) := by
  refine ⟨fun start => ?_, fun hbraces hds start => ?_, fun hbreak hlines hhead => ⟨?_, ?_⟩⟩
  · rw [Declaration.names_text, names_renderRule hfront]
  · rw [Declaration.names_text, names_renderBare hds hbraces]
  · exact givesAdvice_renderRule hfront hbreak hlines hhead
  · exact fun hbraces => givesAdvice_renderBare hbraces hlines

/-- A value with braces and a colon, and two declarations in both layouts. -/
theorem names_of_layouts_of_misordered :
    '{' ∉ ['a'] ∧
      (propertyNames (Slice.whole "a \x7b quotes: \x7b:\x7d; \x7d".toList)).map Slice.text =
        ["quotes".toList, []] ∧
      (propertyNames (Slice.whole "color: red; margin: 0;".toList)).map Slice.text =
        ["color".toList, "margin".toList] ∧
      Rule.GivesAdvice "a \x7b color: red; margin: 0; \x7d".toList
        [("margin".toList, "color".toList)] ∧
      Rule.GivesAdvice "color: red; margin: 0;".toList [("margin".toList, "color".toList)] := by
  let quotes : Declared :=
    ⟨"quotes".toList, "\x7b:\x7d".toList, by decide, by decide, by decide⟩
  let color : Declared := ⟨"color".toList, "red".toList, by decide, by decide, by decide⟩
  let margin : Declared := ⟨"margin".toList, "0".toList, by decide, by decide, by decide⟩
  have hfront : '{' ∉ ['a'] := by decide
  have hbraces : ∀ d ∈ [color, margin], d.IsBraceFree := by
    simp [color, margin, IsBraceFree]
  have hlines : ∀ d ∈ [color, margin], d.IsOneLine := by
    simp [color, margin, IsOneLine]
  rcases names_of_layouts hfront [quotes] with ⟨hquotes, -⟩
  rcases names_of_layouts hfront [color, margin] with ⟨-, hbare, hadvice⟩
  rcases hadvice (by decide) hlines (by decide) with ⟨hrule, hline⟩
  exact ⟨hfront, hquotes (some 0), hbare hbraces (by simp) (some 0), hrule, hline hbraces⟩

end Declared

end SheetLint
