import Mathlib.Algebra.GroupWithZero.Nat
import SheetLint.Proofs.LogText
import SheetLint.Proofs.Gathering
import SheetLint.Proofs.JsonLines

/-!
# Records of the rules

A run of the rules leaves a record of each rule that it comes to, and it ends with the rule that
reaches the limit.  The records count issues before the limit is applied, so the number of issues
that are reported follows from them.

Main results:

- Definition `Config.ruleRecord` is the record of a rule, and `Config.total` the number of issues
  that the records of some rules mention.
- Structure `Config.Visits` says which rules a run comes to.
- Theorem `Config.runFrom_visits` is the invariant of the run: it leaves the records of these rules,
  and the limit applies to their total.
- Theorem `CommandLine.run_stderr_of_verbose` lists the records that a run shows if all are asked
  for.
- Theorem `CommandLine.records_agree_with_issues` compares the records of an analysis and of a run
  with the issues that are reported.
-/

namespace SheetLint

/-- The number of issues that a record of a rule mentions. -/
def Event.ruleIssues : Event → Nat
  | .ruleReported _ issues => issues
  | _ => 0

namespace Config

/-! ## Records and totals -/

/-- The number of issues of a rule from the chosen severity on. -/
def ruleCount (c : Config) (sheet : Stylesheet) (rule : Rule) : Nat :=
  (rule.check sheet).countP fun issue => c.minSeverity ≤ issue.severity

/-- The record of a rule: that it is left out, if it is not enabled, or else how many issues it
has. -/
def ruleRecord (c : Config) (sheet : Stylesheet) (rule : Rule) : Event :=
  if c.isEnabled rule.id then .ruleReported rule (c.ruleCount sheet rule) else .ruleSkipped rule

/-- The number of issues that the records of some rules mention. -/
def total (c : Config) (sheet : Stylesheet) (rules : List Rule) : Nat :=
  (rules.map fun rule => (c.ruleRecord sheet rule).ruleIssues).sum

/-- So many issues reach the limit, if there is one. -/
def Reaches (c : Config) (issues : Nat) : Prop :=
  c.maxIssues ≠ 0 ∧ c.maxIssues ≤ issues

/-- How many of so many issues are reported. -/
def limited (c : Config) (issues : Nat) : Nat :=
  if c.maxIssues = 0 then issues else min c.maxIssues issues

/-- The rules that a run comes to when it has so many issues already: the first ones of those that
are to be run, up to and with the first one behind which the limit is reached, or all of them. -/
structure Visits (c : Config) (sheet : Stylesheet) (before : Nat) (rules visited : List Rule) :
    Prop where
  isPrefix : visited <+: rules
  goes_on : ∀ front, front <+: visited → front ≠ visited →
    ¬ c.Reaches (before + c.total sheet front)
  ends : visited = rules ∨ c.Reaches (before + c.total sheet visited)

variable {c : Config} {sheet : Stylesheet} {rule : Rule} {rest visited : List Rule} {before : Nat}

theorem length_kept (c : Config) (sheet : Stylesheet) (rule : Rule) :
    (c.kept sheet rule).length = c.ruleCount sheet rule := by
  rw [kept, ruleCount, List.countP_eq_length_filter]
  rfl

theorem isFull_iff_reaches (c : Config) (issues : List Issue) :
    c.isFull issues = true ↔ c.Reaches issues.length := by
  rw [isFull_iff, Reaches, Nat.pos_iff_ne_zero]

theorem total_nil (c : Config) (sheet : Stylesheet) : c.total sheet [] = 0 := rfl

theorem total_cons (c : Config) (sheet : Stylesheet) (rule : Rule) (rest : List Rule) :
    c.total sheet (rule :: rest) =
      (c.ruleRecord sheet rule).ruleIssues + c.total sheet rest := by
  rw [total, List.map_cons, List.sum_cons, total]

theorem ruleRecord_of_enabled (henabled : c.isEnabled rule.id = true) (sheet : Stylesheet) :
    c.ruleRecord sheet rule = .ruleReported rule (c.ruleCount sheet rule) :=
  if_pos henabled

theorem ruleRecord_of_skipped (hskipped : ¬ c.isEnabled rule.id = true) (sheet : Stylesheet) :
    c.ruleRecord sheet rule = .ruleSkipped rule :=
  if_neg hskipped

/-! ## The run -/

theorem Visits.nil (c : Config) (sheet : Stylesheet) (before : Nat) :
    c.Visits sheet before [] [] where
  isPrefix := List.prefix_refl []
  goes_on := fun _ hfront hne => absurd (List.prefix_nil.mp hfront) hne
  ends := Or.inl rfl

/-- The rule that reaches the limit is the last one. -/
theorem Visits.last (hopen : ¬ c.Reaches before)
    (hreached : c.Reaches (before + (c.ruleRecord sheet rule).ruleIssues)) (rest : List Rule) :
    c.Visits sheet before (rule :: rest) [rule] where
  isPrefix := ⟨rest, rfl⟩
  goes_on := by
    intro front hfront hne
    rcases List.prefix_cons_iff.mp hfront with rfl | ⟨behind, rfl, hbehind⟩
    · simpa [total_nil] using hopen
    · rw [List.prefix_nil.mp hbehind] at hne
      exact absurd rfl hne
  ends := Or.inr (by simpa [total_cons, total_nil] using hreached)

/-- Behind a rule that does not reach the limit the run goes on. -/
theorem Visits.cons (hopen : ¬ c.Reaches before)
    (hrest : c.Visits sheet (before + (c.ruleRecord sheet rule).ruleIssues) rest visited) :
    c.Visits sheet before (rule :: rest) (rule :: visited) where
  isPrefix := List.cons_prefix_cons.mpr ⟨rfl, hrest.isPrefix⟩
  goes_on := by
    intro front hfront hne
    rcases List.prefix_cons_iff.mp hfront with rfl | ⟨behind, rfl, hbehind⟩
    · simpa [total_nil] using hopen
    · rw [total_cons, ← Nat.add_assoc]
      exact hrest.goes_on behind hbehind fun h => hne (by rw [h])
  ends := by
    rw [total_cons, ← Nat.add_assoc, List.cons.injEq]
    exact hrest.ends.imp_left fun h => ⟨rfl, h⟩

/-- A run leaves a record of each rule that it comes to, and it has the issues that these mention
and those that it had before, up to the limit. -/
theorem runFrom_visits (c : Config) (sheet : Stylesheet) (rules : List Rule) {issues : List Issue}
    (hopen : ¬ c.isFull issues = true) :
    ∃ visited, c.Visits sheet issues.length rules visited ∧
      (c.runFrom sheet issues rules).2 = visited.map (c.ruleRecord sheet) ∧
      (c.runFrom sheet issues rules).1.length =
        c.limited (issues.length + c.total sheet visited) := by
  induction rules generalizing issues with
  | nil =>
    refine ⟨[], .nil c sheet _, rfl, ?_⟩
    rw [isFull_iff_reaches, Reaches] at hopen
    rw [runFrom, total_nil, limited]
    dsimp only
    split <;> omega
  | cons rule rest ih =>
    have hbelow : ¬ c.Reaches issues.length := by rwa [← isFull_iff_reaches]
    by_cases henabled : c.isEnabled rule.id = true
    · have hrecord := ruleRecord_of_enabled henabled sheet
      have hcount : (issues ++ c.kept sheet rule).length =
          issues.length + (c.ruleRecord sheet rule).ruleIssues := by
        rw [List.length_append, length_kept, hrecord, Event.ruleIssues]
      by_cases hfull : c.isFull (issues ++ c.kept sheet rule) = true
      · have hreached := hfull
        rw [isFull_iff_reaches, hcount] at hreached
        refine ⟨[rule], .last hbelow hreached rest, ?_, ?_⟩
        · simp [runFrom, henabled, hfull, hrecord, length_kept]
        · have hlength : (c.runFrom sheet issues (rule :: rest)).1.length =
              min c.maxIssues (issues ++ c.kept sheet rule).length := by
            simp [runFrom, henabled, hfull]
          rw [hlength, hcount, total_cons, total_nil, Nat.add_zero, limited, if_neg hreached.1]
      · rcases ih hfull with ⟨visited, hvisits, hrecords, hlength⟩
        rw [hcount] at hvisits hlength
        refine ⟨rule :: visited, .cons hbelow hvisits, ?_, ?_⟩
        · rw [List.map_cons, ← hrecords, hrecord]
          simp [runFrom, henabled, hfull, length_kept]
        · rw [total_cons, ← Nat.add_assoc, ← hlength]
          simp [runFrom, henabled, hfull]
    · have hrecord := ruleRecord_of_skipped henabled sheet
      have hcount : issues.length + (c.ruleRecord sheet rule).ruleIssues = issues.length := by
        rw [hrecord]
        rfl
      rcases ih hopen with ⟨visited, hvisits, hrecords, hlength⟩
      rw [← hcount] at hvisits hlength
      refine ⟨rule :: visited, .cons hbelow hvisits, ?_, ?_⟩
      · rw [List.map_cons, ← hrecords, hrecord]
        simp [runFrom, henabled]
      · rw [total_cons, ← Nat.add_assoc, ← hlength]
        simp [runFrom, henabled]

/-- A run of all rules begins without issues. -/
theorem runRules_visits (c : Config) (sheet : Stylesheet) :
    ∃ visited, c.Visits sheet 0 Rule.all visited ∧
      (c.runRules sheet).2 = visited.map (c.ruleRecord sheet) ∧
      (c.runRules sheet).1.length = c.limited (c.total sheet visited) := by
  have hopen : ¬ c.isFull [] = true := by
    rw [isFull_iff, List.length_nil]
    omega
  rcases runFrom_visits c sheet Rule.all hopen with ⟨visited, hvisits, hrecords, hlength⟩
  rw [List.length_nil, Nat.zero_add] at hlength
  exact ⟨visited, hvisits, hrecords, hlength⟩

end Config

/-! ## Analyses and runs -/

/-- The records of an analysis are those of the rules that its run comes to, and one of its numbers
of selectors, lines and issues, which are as many as the records of the rules mention, up to the
limit. -/
def Analysis.RecordedBy (c : Config) (a : Analysis) : Prop :=
  ∃ visited, c.Visits a.sheet 0 Rule.all visited ∧
    a.events = visited.map (c.ruleRecord a.sheet) ++
      [.analysed a.sheet.selectors.length a.sheet.lines.length a.issues.length] ∧
    a.issues.length = c.limited (c.total a.sheet visited)

theorem Analysis.recordedBy_run (c : Config) (text : List Char) : (run c text).RecordedBy c := by
  rcases c.runRules_visits (Stylesheet.ofText text) with ⟨visited, hvisits, hrecords, hlength⟩
  refine ⟨visited, hvisits, ?_, hlength⟩
  have hevents : (run c text).events = (c.runRules (Stylesheet.ofText text)).2 ++
      [.analysed (Stylesheet.ofText text).selectors.length (Stylesheet.ofText text).lines.length
        (run c text).issues.length] := rfl
  rw [hevents, hrecords]
  rfl

namespace CommandLine

/-- As text, a run prints the messages of the issues of each input, or that there are none, and the
name of the input in front if there are several. -/
theorem reportText_messages (reports : List (Input × Analysis)) :
    reportText .text reports =
      String.intercalate "\n" (reports.map fun (input, a) =>
        (if reports.length = 1 then "" else input.name ++ ":\n") ++
          ((if a.issues = [] then "No issues found!"
            else String.intercalate "\n" (a.issues.map Issue.message)) ++ "\n")) := by
  rw [reportText_text]
  simp only [reportBody_text]

/-- As data, a run prints a line for each input, and the issues of the input are read from it. -/
theorem exists_lines_reportText_json (reports : List (Input × Analysis)) :
    ∃ lines : List String,
      reportText .json reports = String.join (lines.map (· ++ "\n")) ∧
      lines.map (fun line => Issue.listOfText? line.toList) =
        reports.map fun (_, a) => some a.issues := by
  refine ⟨reports.map fun report => Issue.renderAll report.2.issues, ?_, ?_⟩
  · rw [reportText_json, List.map_map]
    rfl
  · rw [List.map_map]
    exact List.map_congr_left fun report _ => Issue.listOfText?_renderAll report.2.issues

/-- With all records shown, standard error has those about reading, and for each input those of its
analysis and the one of its number of issues. -/
theorem run_stderr_of_verbose {words : List String} {o : Options} {e : Environment}
    (hparse : Options.parse words = .ok o) (hverbose : o.verbose = true) (hhelp : o.help = false)
    (hlist : o.listRules = false) (hread : o.Readable e) :
    (run words e).stderr = String.join
      (((o.inputs e).flatMap Input.events ++ (o.reports e).flatMap reportEvents).map
        Event.render) := by
  have hall (events : List Event) : Log.shown true events = events := by
    simp [Log.shown]
  rw [run_of_parse hparse, runOptions_of_lints hhelp hlist,
    lintInputs_of_readable (Options.wellFormed_of_parse hparse).validate hread, hverbose,
    Log.render, hall]

/-- For each rule up to the first one behind which the limit is reached, an analysis records that
the rule is left out, if it is not enabled, or else how many issues it has from the chosen severity
on.  So many issues in all are reported, up to the limit, and the record of the analysis and that of
the input say how many these are.  Standard error of a run that asks for all records has these
records for each input, behind those about reading, and standard output has just these issues: as
text the message of each, and as data an array from which they are read. -/
theorem records_agree_with_issues :
    (∀ (c : Config) (text : List Char), c.validate = .ok () →
      ∃ a, c.analyse text = .ok a ∧ a.RecordedBy c) ∧
    (∀ (words : List String) (o : Options) (e : Environment), Options.parse words = .ok o →
      o.verbose = true → o.help = false → o.listRules = false →
      (∀ path ∈ o.files, path ≠ "-" → e.file path ≠ none) →
      ∃ reports : List (Input × Analysis),
        reports.map Prod.fst = o.inputs e ∧
        (o.inputs e).map Input.name = o.inputNames ∧
        (∀ report ∈ reports, o.config.analyse report.1.source.text = .ok report.2 ∧
          report.2.RecordedBy o.config) ∧
        (run words e).stderr = String.join
          (((o.inputs e).flatMap Input.events ++
            reports.flatMap fun (input, a) =>
              a.events ++ [.inputReported input.name a.issues.length]).map Event.render) ∧
        (o.format = .text → (run words e).stdout =
          String.intercalate "\n" (reports.map fun (input, a) =>
            (if reports.length = 1 then "" else input.name ++ ":\n") ++
              ((if a.issues = [] then "No issues found!"
                else String.intercalate "\n" (a.issues.map Issue.message)) ++ "\n"))) ∧
        (o.format = .json → ∃ lines : List String,
          (run words e).stdout = String.join (lines.map (· ++ "\n")) ∧
          lines.map (fun line => Issue.listOfText? line.toList) =
            reports.map fun (_, a) => some a.issues)) ∧
    (∀ rule : Rule, (Event.ruleSkipped rule).render =
      "[DEBUG style_lint_core::analysis::linting] skipping disabled rule " ++ rule.id ++ "\n") ∧
    (∀ (rule : Rule) (issues : Nat), (Event.ruleReported rule issues).render =
      "[DEBUG style_lint_core::analysis::linting] rule " ++ rule.id ++ " reported " ++
        toString issues ++ " issues" ++ "\n") ∧
    (∀ selectors lines issues : Nat, (Event.analysed selectors lines issues).render =
      "[DEBUG style_lint_core::analysis] analysed " ++ toString selectors ++ " selectors over " ++
        toString lines ++ " lines: " ++ toString issues ++ " issues" ++ "\n") ∧
    ∀ (input : String) (issues : Nat),
      (Event.inputReported input issues).render =
        "[DEBUG style_lint] " ++
          Event.shownMessage (input ++ ": " ++ toString issues ++ " issues") ∧
      (Event.IsPlain input → (Event.inputReported input issues).render =
        "[DEBUG style_lint] " ++ input ++ ": " ++ toString issues ++ " issues" ++ "\n") := by
  refine ⟨fun c text hvalid => ?_, fun words o e hparse hverbose hhelp hlist hfiles => ?_,
    Event.render_ruleSkipped, Event.render_ruleReported, Event.render_analysed,
    fun _ issues => ⟨Event.render_eq _, fun hinput => Event.render_inputReported hinput issues⟩⟩
  · exact ⟨Analysis.run c text, by rw [Config.analyse, hvalid], Analysis.recordedBy_run c text⟩
  · have hvalid := (Options.wellFormed_of_parse hparse).validate
    have hread := (o.readable_iff e).mpr hfiles
    have hstdout := (run_of_readable hparse hhelp hlist hread).1
    refine ⟨o.reports e, ?_, ?_, fun report hreport => ?_,
      run_stderr_of_verbose hparse hverbose hhelp hlist hread, fun htext => ?_, fun hjson => ?_⟩
    · rw [Options.reports, List.map_map]
      exact List.map_id _
    · rw [Options.inputs, Environment.map_name_inputs, Options.map_name_origins]
    · rcases List.mem_map.mp hreport with ⟨input, _, rfl⟩
      exact ⟨analyse_of_valid hvalid _, Analysis.recordedBy_run o.config _⟩
    · rw [hstdout, htext, reportText_messages]
    · rw [hstdout, hjson]
      exact exists_lines_reportText_json (o.reports e)

/-- A limit that the second rule reaches, with the first one left out: both selectors have an issue,
and one of them is reported. -/
theorem records_agree_with_issues_up_to_limit :
    let c : Config := ⟨.info, 1, [], ["selector-naming"]⟩
    let words := ["-v", "--max-issues", "1", "--disable", "selector-naming", "a.css"]
    let e : Environment :=
      ⟨[], fun path => if path = "a.css" then some [97, 123, 98, 123] else none⟩
    c.validate = .ok () ∧
      (∃ a, c.analyse ['a', '{', 'b', '{'] = .ok a ∧ a.RecordedBy c) ∧
      Options.parse words = .ok ⟨c, .text, ["a.css"], false, false, true, false⟩ ∧
      Event.IsPlain "a.css" ∧
      (run words e).stderr =
        "[DEBUG style_lint_core::analysis::linting] skipping disabled rule selector-naming\n" ++
        "[DEBUG style_lint_core::analysis::linting] rule low-specificity reported 2 issues\n" ++
        "[DEBUG style_lint_core::analysis] analysed 2 selectors over 1 lines: 1 issues\n" ++
        "[DEBUG style_lint] a.css: 1 issues\n" ∧
      (run words e).stdout = "Low specificity at line 1: \"a\" has a specificity of 1.\n" := by
  intro c words e
  have hvalid : c.validate = .ok () := rfl
  have hparse : Options.parse words = .ok ⟨c, .text, ["a.css"], false, false, true, false⟩ := rfl
  have hplain : Event.IsPlain "a.css" := by decide
  have hread : ∀ path ∈ ["a.css"], path ≠ "-" → e.file path ≠ none := by
    simp [e]
  rcases records_agree_with_issues with ⟨hanalyse, hrun, hskipped, hreported, hanalysed, hinput⟩
  rcases hrun words _ e hparse rfl rfl rfl hread with
    ⟨reports, hinputs, _, hreports, hstderr, hstdout, _⟩
  let input : Input := ⟨"a.css", Source.ofBytes [97, 123, 98, 123]⟩
  have honly : Options.inputs ⟨c, .text, ["a.css"], false, false, true, false⟩ e = [input] := rfl
  rw [honly] at hinputs hstderr
  rcases List.map_eq_singleton_iff.mp hinputs with ⟨⟨first, a⟩, rfl, rfl⟩
  have ha : a = Analysis.run c input.source.text := by
    have hok := (hreports _ List.mem_cons_self).1
    exact (Except.ok.inj hok).symm
  have hreading : input.events = [] := by decide
  have hevents : a.events =
      [.ruleSkipped .selectorNaming, .ruleReported .lowSpecificity 2, .analysed 2 1 1] := by
    rw [ha]
    decide
  have hissues : a.issues.map Issue.message =
      ["Low specificity at line 1: \"a\" has a specificity of 1."] := by
    rw [ha]
    decide
  have hlength : a.issues.length = 1 := by
    rw [← List.length_map, hissues]
    rfl
  refine ⟨hvalid, hanalyse c _ hvalid, hparse, hplain, ?_, ?_⟩
  · have hfirst : (Event.ruleSkipped .selectorNaming).render =
        "[DEBUG style_lint_core::analysis::linting] skipping disabled rule selector-naming\n" :=
      hskipped _
    have hsecond : (Event.ruleReported .lowSpecificity 2).render =
        "[DEBUG style_lint_core::analysis::linting] rule low-specificity reported 2 issues\n" :=
      hreported _ _
    have hthird : (Event.analysed 2 1 1).render =
        "[DEBUG style_lint_core::analysis] analysed 2 selectors over 1 lines: 1 issues\n" :=
      hanalysed _ _ _
    have hlast : (Event.inputReported input.name 1).render =
        "[DEBUG style_lint] a.css: 1 issues\n" :=
      (hinput _ _).2 hplain
    rw [hstderr]
    simp only [List.flatMap_singleton, hreading, hevents, hlength, List.nil_append,
      List.cons_append, List.map_cons, List.map_nil, hfirst, hsecond, hthird, hlast,
      String.join_cons, String.join_nil, String.append_empty, String.append_assoc]
  · have hne : a.issues ≠ [] := List.ne_nil_of_length_pos (by omega)
    rw [hstdout rfl]
    simp only [List.map_singleton, List.length_singleton, if_true, if_neg hne, hissues,
      String.intercalate_singleton]
    rfl

end CommandLine

end SheetLint
