import SheetLint.CommandLine.Run

/-!
# The text of the reports

A run reports on its inputs one after the other, and at each of them it has to know whether it is
the last.  This module says what a single report adds to what was printed and recorded, and what
the reports on all inputs add.

Main results:

- Definitions `reportSection` and `reportText` are the report on one input and those on all inputs,
  and `reportEvents` is what is recorded about an input.
- Theorem `Progress.report_eq` is the step: what is printed, recorded and found at an input.
- Theorem `reportFrom_eq` is the run over the inputs that are left, and `reportFrom_initial` the one
  over all of them.
- Theorem `lintInputs_of_valid` gives the outcome of a run by the inputs that it gathers.
-/

namespace SheetLint.CommandLine

/-! ## Reports -/

/-- An input beside its analysis. -/
def analysed (c : Config) (input : Input) : Input × Analysis :=
  (input, Analysis.run c input.source.text)

/-- What is recorded about the analysis of an input. -/
def reportEvents (report : Input × Analysis) : List Event :=
  report.2.events ++ [.inputReported report.1.name report.2.issues.length]

/-- The report on an input, with or without its name. -/
def reportSection (format : Format) (titled : Bool) (report : Input × Analysis) : String :=
  (if titled then report.1.name ++ ":\n" else "") ++ reportBody format report.2

/-- The reports on some inputs; those with names have an empty line between them. -/
def reportSections (format : Format) (titled : Bool) (reports : List (Input × Analysis)) :
    String :=
  String.intercalate (if titled then "\n" else "") (reports.map (reportSection format titled))

/-- The reports on all inputs.  As text, several reports have names. -/
def reportText (format : Format) (reports : List (Input × Analysis)) : String :=
  reportSections format (decide (1 < reports.length) && format = .text) reports

/-! ## Steps -/

section

variable {o : Options} (hvalid : o.config.validate = .ok ())

include hvalid

theorem analyse_of_valid (text : List Char) :
    o.config.analyse text = .ok (Analysis.run o.config text) := by
  rw [Config.analyse, hvalid]

/-- A report is printed behind what was printed, and its records behind those that there were. -/
theorem Progress.report_eq (p : Progress) (showName : Bool) (input : Input) :
    p.report o showName input =
      .ok ⟨p.stdout ++ reportSection o.format (showName && o.format = .text)
          (analysed o.config input),
        p.events ++ reportEvents (analysed o.config input),
        p.found || (analysed o.config input).2.hasIssues⟩ := by
  rw [report, analyse_of_valid hvalid]
  rfl

/-- Behind the inputs that are left, the reports on them stand behind what was printed before.  The
separator is not printed behind the last input, where no further report follows. -/
theorem reportFrom_eq {count index : Nat} {inputs : List Input}
    (hcount : index + inputs.length = count) (p : Progress) :
    reportFrom o count index p inputs =
      (⟨p.stdout ++ reportSections o.format (decide (1 < count) && o.format = .text)
          (inputs.map (analysed o.config)),
        p.events ++ (inputs.map (analysed o.config)).flatMap reportEvents,
        p.found || (inputs.map (analysed o.config)).any fun report => report.2.hasIssues⟩,
        none) := by
  induction inputs generalizing index p with
  | nil => simp [reportFrom, reportSections]
  | cons input rest ih =>
    have hrest : index + 1 + rest.length = count := by
      rw [← hcount, List.length_cons]
      omega
    rw [reportFrom, Progress.report_eq hvalid]
    dsimp only
    rw [ih hrest]
    cases rest with
    | nil =>
      have hlast : ¬ index + 1 < count := by
        rw [← hrest]
        exact Nat.lt_irrefl _
      simp [Progress.print, reportSections, hlast]
    | cons second rest =>
      have hmore : index + 1 < count := by
        rw [← hrest, List.length_cons]
        omega
      simp [Progress.print, reportSections, hmore, String.append_assoc, Bool.or_assoc]

/-- The reports on all inputs. -/
theorem reportFrom_initial (inputs : List Input) :
    reportFrom o inputs.length 0 .initial inputs =
      (⟨reportText o.format (inputs.map (analysed o.config)),
        (inputs.map (analysed o.config)).flatMap reportEvents,
        (inputs.map (analysed o.config)).any fun report => report.2.hasIssues⟩, none) := by
  rw [reportFrom_eq hvalid (Nat.zero_add _), reportText, List.length_map]
  simp [Progress.initial]

/-- A run with a configuration that was accepted, by the inputs that it gathers. -/
theorem lintInputs_of_valid (e : Environment) :
    lintInputs o e =
      match (e.gather o.origins).missing with
      | some path => ⟨.failed, "",
          Log.render o.verbose ((e.gather o.origins).inputs.flatMap Input.events) ++
            missingFileText path⟩
      | none =>
        let reports := (e.gather o.origins).inputs.map (analysed o.config)
        ⟨if reports.any fun report => report.2.hasIssues then .issuesFound else .clean,
          reportText o.format reports,
          Log.render o.verbose
            ((e.gather o.origins).inputs.flatMap Input.events ++
              reports.flatMap reportEvents)⟩ := by
  rw [lintInputs]
  cases (e.gather o.origins).missing with
  | some path => rfl
  | none => simp only [reportFrom_initial hvalid]

end

/-! ## Texts of all reports -/

/-- As text, the report on an input is its messages, or that there are none. -/
theorem reportBody_text (a : Analysis) :
    reportBody .text a =
      (if a.issues = [] then "No issues found!"
        else String.intercalate "\n" (a.issues.map Issue.message)) ++ "\n" := by
  rw [reportBody, Feedback.display, Feedback.isSuccess, Analysis.feedback, Analysis.findings]
  cases a.issues <;> rfl

theorem intercalate_empty (texts : List String) :
    String.intercalate "" texts = String.join texts := by
  induction texts with
  | nil => rfl
  | cons first rest ih =>
    cases rest with
    | nil => simp
    | cons second rest =>
      rw [String.join_cons, ← ih, String.intercalate_cons_cons, String.append_empty]

/-- A single report has no name. -/
theorem reportText_single (format : Format) (report : Input × Analysis) :
    reportText format [report] = reportBody format report.2 := by
  simp [reportText, reportSections, reportSection]

/-- Several texts stand under the names of their inputs with empty lines between them. -/
theorem reportText_text (reports : List (Input × Analysis)) :
    reportText .text reports =
      String.intercalate "\n" (reports.map fun report =>
        (if reports.length = 1 then "" else report.1.name ++ ":\n") ++
          reportBody .text report.2) := by
  have htitled : reportSection .text true = fun report =>
      report.1.name ++ ":\n" ++ reportBody .text report.2 := rfl
  match reports with
  | [] => simp [reportText, reportSections]
  | [report] => simp [reportText_single]
  | first :: second :: rest => simp [reportText, reportSections, htitled]

theorem reportText_json (reports : List (Input × Analysis)) :
    reportText .json reports =
      String.join (reports.map fun report => reportBody .json report.2) := by
  have hplain : (decide (1 < reports.length) && decide (Format.json = .text)) = false := by simp
  have hsection : reportSection .json false = fun report => reportBody .json report.2 := by
    funext report
    exact String.empty_append
  rw [reportText, hplain, reportSections, hsection, ← intercalate_empty]
  rfl

end SheetLint.CommandLine
