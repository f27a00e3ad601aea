import SheetLint.Proofs.Gathering
import SheetLint.Proofs.JsonReader

/-!
# Issues as JSON lines

The issues of a run are printed as JSON, the issues of each input on a line of their own.  Nothing
about an issue is lost, whatever characters its texts hold.

Main results:

- Definitions `Issue.ofJson?` and `Issue.listOfText?` read issues from JSON values and text.
- Theorem `Issue.ofJson?_toJson` says that every issue is read back, and `Issue.names_toJson` under
  which names its parts are written.
- Theorem `CommandLine.json_lines_lossless` says what can be read from the output of a run.
-/

namespace SheetLint

/-! ## Reading fields -/

namespace Json

/-- The names in an object. -/
def names : Json → List String
  | .object fields => fields.map Prod.fst
  | _ => []

/-- The value of a name in an object. -/
def field? (name : String) : Json → Option Json
  | .object fields => fields.lookup name
  | _ => none

/-- Read the value of a name in an object. -/
def required? {α : Type} (name : String) (read : Json → Option α) (v : Json) : Option α :=
  (v.field? name).bind read

/-- Read the value of a name in an object, unless the name is absent. -/
def optional? {α : Type} (name : String) (read : Json → Option α) (v : Json) : Option (Option α) :=
  match v.field? name with
  | none => some none
  | some field => (read field).map some

/-- The text of a string. -/
def string? : Json → Option String
  | .string s => some s
  | _ => none

/-- The value of a number. -/
def number? : Json → Option Nat
  | .number n => some n
  | _ => none

end Json

/-! ## Reading issues -/

/-- The location that a value writes. -/
def Location.ofJson? (v : Json) : Option Location := do
  let line ← v.required? "line" Json.number?
  let offset ← v.required? "offset" Json.number?
  let span ← v.required? "span" Json.string?
  return ⟨line, offset, span.toList⟩

namespace Issue

/-- The issue that a value writes. -/
def ofJson? (v : Json) : Option Issue := do
  let severity ← v.required? "severity" fun field => field.string?.bind Severity.ofName?
  let category ← v.required? "category" fun field => field.string?.bind Category.ofName?
  let message ← v.required? "message" Json.string?
  let location ← v.optional? "location" Location.ofJson?
  let ruleId ← v.required? "rule_id" Json.string?
  let suggestedFix ← v.optional? "suggested_fix" Json.string?
  return ⟨severity, category, message, location, ruleId, suggestedFix⟩

/-- The issues that an array writes. -/
def listOfJson? : Json → Option (List Issue)
  | .array items => items.mapM ofJson?
  | _ => none

/-- The issue of a text. -/
def ofText? (text : List Char) : Option Issue :=
  (Json.ofText? text).bind ofJson?

/-- The issues of a text. -/
def listOfText? (text : List Char) : Option (List Issue) :=
  (Json.ofText? text).bind listOfJson?

end Issue

/-! ## Reading what is written -/

theorem Severity.ofName?_name (s : Severity) : ofName? s.name = some s := by
  cases s <;> rfl

theorem Location.ofJson?_toJson (l : Location) : ofJson? l.toJson = some l := by
  simp [ofJson?, toJson, Json.required?, Json.field?, Json.number?, Json.string?, List.lookup_cons]

namespace Issue

/-- Every issue is read back from its fields. -/
theorem ofJson?_toJson (i : Issue) : ofJson? i.toJson = some i := by
  rcases i with ⟨severity, category, message, location, ruleId, suggestedFix⟩
  cases location <;> cases suggestedFix <;>
    simp [ofJson?, toJson, Json.required?, Json.optional?, Json.field?, Json.string?,
      List.lookup_cons, Severity.ofName?_name, Category.ofName?_name, Location.ofJson?_toJson]

/-- A location and a fix are named when they are there, and the other parts always. -/
theorem names_toJson (i : Issue) :
    i.toJson.names =
      ["severity", "category", "message"] ++ (if i.location.isSome then ["location"] else []) ++
        ["rule_id"] ++ (if i.suggestedFix.isSome then ["suggested_fix"] else []) := by
  rcases i with ⟨severity, category, message, location, ruleId, suggestedFix⟩
  cases location <;> cases suggestedFix <;> rfl

theorem nodup_names_toJson (i : Issue) : i.toJson.names.Nodup := by
  rw [i.names_toJson]
  cases i.location <;> cases i.suggestedFix <;> simp

theorem mem_names_toJson (i : Issue) (name : String) :
    name ∈ i.toJson.names ↔
      name ∈ ["severity", "category", "message", "rule_id"] ∨
      name = "location" ∧ i.location ≠ none ∨
      name = "suggested_fix" ∧ i.suggestedFix ≠ none := by
  rw [i.names_toJson]
  cases i.location <;> cases i.suggestedFix <;> simp <;> grind

theorem listOfJson?_array (issues : List Issue) :
    listOfJson? (.array (issues.map toJson)) = some issues := by
  unfold listOfJson?
  induction issues with
  | nil => rfl
  | cons i rest ih =>
    simp only at ih
    simp [ofJson?_toJson, ih]

theorem ofText?_render (i : Issue) : ofText? i.render.toList = some i := by
  rw [ofText?, render, String.toList_ofList, Json.ofText?_render, Option.bind_some, ofJson?_toJson]

theorem listOfText?_renderAll (issues : List Issue) :
    listOfText? (renderAll issues).toList = some issues := by
  rw [listOfText?, renderAll, String.toList_ofList, Json.ofText?_render, Option.bind_some,
    listOfJson?_array]

/-- Different issues have different texts. -/
theorem render_injective : Function.Injective render := by
  intro i j hsame
  have hread : some i = some j := by
    rw [← ofText?_render i, ← ofText?_render j, hsame]
  exact Option.some.inj hread

end Issue

/-! ## Lines -/

theorem Issue.not_newline_mem_renderAll (issues : List Issue) :
    '\n' ∉ (renderAll issues).toList := by
  rw [renderAll, String.toList_ofList]
  intro hmem
  have hcontrol : Json.isControl '\n' = false := Json.not_isControl_of_mem_render _ hmem
  cases hcontrol

namespace CommandLine

/-- As JSON, the report on an input is its issues and the end of the line. -/
theorem toList_reportText_json (reports : List (Input × Analysis)) :
    (reportText .json reports).toList =
      (reports.map fun report => (Issue.renderAll report.2.issues).toList).flatMap
        (· ++ ['\n']) := by
  rw [reportText_json, String.toList_join, List.flatMap_map, List.flatMap_map]
  simp [reportBody]

/-- An issue is read back from its JSON text, which names a location and a fix exactly if there is
one and holds no control character; so different issues have different texts.  A run that prints
JSON prints a line for every input, and the issues of the input are read back from it. -/
theorem json_lines_lossless :
    (∀ i : Issue,
      Issue.ofText? i.render.toList = some i ∧
      (∃ v, Json.ofText? i.render.toList = some v ∧ v.names.Nodup ∧
        ∀ name, name ∈ v.names ↔
          name ∈ ["severity", "category", "message", "rule_id"] ∨
          name = "location" ∧ i.location ≠ none ∨
          name = "suggested_fix" ∧ i.suggestedFix ≠ none) ∧
      ∀ c ∈ i.render.toList, 0x20 ≤ c.toNat) ∧
    (∀ i j : Issue, i ≠ j → i.render ≠ j.render) ∧
    ∀ words o e, Options.parse words = .ok o → o.help = false → o.listRules = false →
      o.format = .json → (∀ path ∈ o.files, path ≠ "-" → e.file path ≠ none) →
      ∃ (lines : List (List Char)) (analyses : List Analysis),
        (run words e).stdout.toList = lines.flatMap (· ++ ['\n']) ∧
        (∀ line ∈ lines, '\n' ∉ line) ∧
        (o.inputs e).map (fun input => o.config.analyse input.source.text) = analyses.map .ok ∧
        lines.map Issue.listOfText? = analyses.map fun a => some a.issues := by
  refine ⟨fun i => ⟨i.ofText?_render, ⟨i.toJson, ?_, i.nodup_names_toJson, i.mem_names_toJson⟩,
    fun c hc => ?_⟩, fun i j hne hsame => hne (Issue.render_injective hsame), ?_⟩
  · rw [Issue.render, String.toList_ofList, Json.ofText?_render]
  · rw [Issue.render, String.toList_ofList] at hc
    have hprintable := Json.not_isControl_of_mem_render _ hc
    exact Nat.le_of_not_lt (of_decide_eq_false hprintable)
  · intro words o e hparse hhelp hlist hjson hfiles
    have hvalid := (Options.wellFormed_of_parse hparse).validate
    have hread := (o.readable_iff e).mpr hfiles
    refine ⟨(o.reports e).map fun report => (Issue.renderAll report.2.issues).toList,
      (o.reports e).map Prod.snd, ?_, fun line hline => ?_, ?_, ?_⟩
    · rw [(run_of_readable hparse hhelp hlist hread).1, hjson, toList_reportText_json]
    · rcases List.mem_map.mp hline with ⟨report, _, rfl⟩
      exact Issue.not_newline_mem_renderAll report.2.issues
    · simp [Options.reports, analysed, Config.analyse, hvalid]
    · simp [Issue.listOfText?_renderAll]

/-- Standard input that is read twice makes two lines. -/
theorem json_lines_lossless_on_standard_input :
    Options.parse ["--format", "json", "-", "-"] =
        .ok ⟨.initial, .json, ["-", "-"], false, false, false, false⟩ ∧
      ∃ (lines : List (List Char)) (analyses : List Analysis),
        (run ["--format", "json", "-", "-"] ⟨[46, 34, 10, 123], fun _ => none⟩).stdout.toList =
          lines.flatMap (· ++ ['\n']) ∧
        (Options.inputs ⟨.initial, .json, ["-", "-"], false, false, false, false⟩
          ⟨[46, 34, 10, 123], fun _ => none⟩).map
            (fun input => Config.initial.analyse input.source.text) = analyses.map .ok ∧
        lines.map Issue.listOfText? = analyses.map fun a => some a.issues := by
  have hparse : Options.parse ["--format", "json", "-", "-"] =
      .ok ⟨.initial, .json, ["-", "-"], false, false, false, false⟩ := rfl
  have hread : ∀ path ∈ ["-", "-"], path ≠ "-" → (none : Option (List UInt8)) ≠ none := by decide
  rcases json_lines_lossless.2.2 _ _ ⟨[46, 34, 10, 123], fun _ => none⟩ hparse rfl rfl rfl hread
    with ⟨lines, analyses, hstdout, _, hanalyses, hlines⟩
  exact ⟨hparse, lines, analyses, hstdout, hanalyses, hlines⟩

end CommandLine

end SheetLint
