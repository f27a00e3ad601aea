import SheetLint.Proofs.Gathering
import SheetLint.Proofs.Locality

/-!
# How a run ends

A run fails before it reports anything, or it reports on all of its inputs.  Only a faulty
command line and a missing file make it fail; what the command line accepts as a configuration
is never refused later.

Main results:

- Theorem `Finding.head?_message` says how every message begins, and
  `Feedback.display_eq_successMessage_iff` that no findings are shown as the success message.
- Theorems `run_of_parse_error` and `runOptions_of_informs` say how a run ends that reads nothing.
- Theorem `exit_status_of_run` gives the exit status and standard output of every run.
-/

namespace SheetLint

/-! ## The success message -/

/-- Every message of a rule begins with one of two letters. -/
theorem Rule.head?_messageFront (rule : Rule) :
    rule.messageFront.toList.head? = some 'I' ∨ rule.messageFront.toList.head? = some 'L' := by
  cases rule <;> decide

theorem Finding.head?_message (f : Finding) :
    f.message.toList.head? = some 'I' ∨ f.message.toList.head? = some 'L' := by
  rw [f.message_eq, String.toList_append, String.toList_append, List.append_assoc,
    List.head?_append]
  rcases f.rule.head?_messageFront with hfront | hfront
  · exact Or.inl (by rw [hfront]; rfl)
  · exact Or.inr (by rw [hfront]; rfl)

/-- Findings that do not begin like the success message are never shown as it. -/
theorem Feedback.display_eq_successMessage_iff {f : Feedback}
    (hfindings : ∀ finding ∈ f.findings,
      finding.toList.head? = some 'I' ∨ finding.toList.head? = some 'L') :
    f.display = successMessage ↔ f.findings = [] := by
  constructor
  · intro hdisplay
    cases hlist : f.findings with
    | nil => rfl
    | cons first rest =>
      have hhead : f.display.toList.head? = first.toList.head? := by
        have hne : first.toList ≠ [] := by
          intro hnil
          have hfirst := hfindings first (hlist ▸ List.mem_cons_self)
          rw [hnil] at hfirst
          rcases hfirst with h | h <;> cases h
        cases rest with
        | nil => simp [display, isSuccess, hlist]
        | cons second rest =>
          simp only [display, isSuccess, hlist, List.isEmpty_cons, Bool.false_eq_true, if_false,
            String.intercalate_cons_cons, String.toList_append, List.append_assoc]
          exact List.head?_append_of_ne_nil _ hne
      have hfirst := hfindings first (hlist ▸ List.mem_cons_self)
      rw [← hhead, hdisplay] at hfirst
      rcases hfirst with h | h <;> cases h
  · intro hnone
    simp [display, isSuccess, hnone]

namespace Analysis

theorem hasIssues_run_iff (c : Config) (text : List Char) :
    (run c text).hasIssues = true ↔ c.reported (Stylesheet.ofText text) ≠ [] := by
  simp [hasIssues, Config.run_issues]

/-- The success message is shown exactly if nothing is reported. -/
theorem display_run_eq_successMessage_iff (c : Config) (text : List Char) :
    (run c text).feedback.display = Feedback.successMessage ↔
      c.reported (Stylesheet.ofText text) = [] := by
  have hfindings : ∀ finding ∈ (run c text).feedback.findings,
      finding.toList.head? = some 'I' ∨ finding.toList.head? = some 'L' := by
    intro finding hmem
    rcases List.mem_map.mp hmem with ⟨issue, hissue, rfl⟩
    rw [Config.run_issues] at hissue
    rcases Config.exists_rule_of_mem_reported hissue with ⟨rule, hcheck⟩
    rcases List.mem_map.mp hcheck with ⟨f, _, rfl⟩
    exact f.head?_message
  rw [Feedback.display_eq_successMessage_iff hfindings, feedback, findings, List.map_eq_nil_iff,
    Config.run_issues]

end Analysis

namespace CommandLine

/-! ## Accepted command lines -/

theorem run_of_parse_error {words : List String} {error : Error}
    (hparse : Options.parse words = .error error) (e : Environment) :
    run words e = ⟨.failed, "", failureText "" error⟩ := by
  rw [run, hparse]

/-- Help and the list of rules are given without a look at the environment. -/
theorem runOptions_of_informs {o : Options} (hinforms : o.help = true ∨ o.listRules = true)
    (e : Environment) : ∃ text, runOptions o e = ⟨.clean, text, ""⟩ ∧
      ∀ other, runOptions o other = runOptions o e := by
  unfold runOptions
  split
  next => exact ⟨_, rfl, fun _ => rfl⟩
  next hhelp =>
    rw [if_pos (hinforms.resolve_left hhelp)]
    refine ⟨_, rfl, fun other => ?_⟩
    rw [if_pos (hinforms.resolve_left hhelp)]

/-! ## Runs that report -/

namespace Options

/-- Some report has issues exactly if something is reported for some input. -/
theorem any_reports_iff (o : Options) (e : Environment) :
    ((o.reports e).any fun report => report.2.hasIssues) = true ↔
      ∃ input ∈ o.inputs e, o.config.reported (Stylesheet.ofText input.source.text) ≠ [] := by
  simp [reports, analysed, Analysis.hasIssues_run_iff]

end Options

/-! ## Every run -/

/-- A faulty command line fails without output.  Help and the list of rules need no input.  If a
path other than the hyphen is missing, the run fails without output, and behind the records about
the inputs in front of it, standard error quotes the first such path.  Otherwise nothing can fail,
and the exit status says whether anything is reported for any input; a single input is answered in
text by the success message exactly if nothing is. -/
theorem exit_status_of_run (words : List String) (e : Environment) :
    (∀ error, Options.parse words = .error error →
      (run words e).status.code = 2 ∧ (run words e).stdout = "") ∧
    ∀ o, Options.parse words = .ok o →
      ((o.help = true ∨ o.listRules = true) →
        (run words e).status.code = 0 ∧ ∀ other, run words other = run words e) ∧
      (o.help = false → o.listRules = false →
        ((∃ path ∈ o.files, path ≠ "-" ∧ e.file path = none) →
          (run words e).status.code = 2 ∧ (run words e).stdout = "" ∧
            (∃ path, o.FirstMissing e path) ∧
            ∀ path, o.FirstMissing e path →
              (run words e).stderr =
                Log.render o.verbose ((e.gather o.origins).inputs.flatMap Input.events) ++
                  ("style-lint: failed to read '" ++ path ++
                    "': I/O error: No such file or directory (os error 2)\n" ++
                    "hint: Check that the file exists and is readable\n")) ∧
        ((∀ path ∈ o.files, path ≠ "-" → e.file path ≠ none) →
          (∀ text, ∃ a, o.config.analyse text = .ok a ∧
            a.issues = o.config.reported (Stylesheet.ofText text)) ∧
          ((∃ input ∈ o.inputs e, o.config.reported (Stylesheet.ofText input.source.text) ≠ []) →
            (run words e).status.code = 1) ∧
          ((∀ input ∈ o.inputs e, o.config.reported (Stylesheet.ofText input.source.text) = []) →
            (run words e).status.code = 0) ∧
          (o.format = .text → (o.inputs e).length = 1 →
            ((run words e).stdout = "No issues found!\n" ↔ (run words e).status.code = 0)))) := by
  refine ⟨fun error hparse => ?_, fun o hparse => ⟨fun hinforms => ?_, fun hhelp hlist =>
    ⟨fun hmissing => ?_, fun hfiles => ?_⟩⟩⟩
  · rw [run_of_parse_error hparse]
    exact ⟨rfl, rfl⟩
  · rcases runOptions_of_informs hinforms e with ⟨text, hrun, hsame⟩
    refine ⟨?_, fun other => ?_⟩
    · rw [run_of_parse hparse, hrun]
      rfl
    · rw [run_of_parse hparse, run_of_parse hparse]
      exact hsame other
  · rcases Options.exists_firstMissing ((o.not_readable_iff e).mpr hmissing) with ⟨path, hpath⟩
    rw [run_of_parse hparse, runOptions_of_lints hhelp hlist]
    refine ⟨?_, ?_, ⟨path, hpath⟩, fun first hfirst => ?_⟩
    · rw [lintInputs_of_firstMissing hpath]
      rfl
    · rw [lintInputs_of_firstMissing hpath]
    · rw [lintInputs_of_firstMissing hfirst, missingFileText_eq]
  · have hvalid := (Options.wellFormed_of_parse hparse).validate
    have hread := (o.readable_iff e).mpr hfiles
    have hfound := o.any_reports_iff e
    rcases run_of_readable hparse hhelp hlist hread with ⟨hstdout, hcode⟩
    rw [hstdout, hcode]
    refine ⟨fun text => ⟨Analysis.run o.config text, by rw [Config.analyse, hvalid],
      Config.run_issues o.config text⟩, fun hsome => ?_, fun hnone => ?_, fun htext hone => ?_⟩
    · rw [hfound.mpr hsome]
      rfl
    · rw [Bool.toNat_eq_zero, Bool.eq_false_iff, Ne, hfound]
      rintro ⟨input, hinput, hreported⟩
      exact hreported (hnone input hinput)
    · rcases List.length_eq_one_iff.mp hone with ⟨input, hinput⟩
      have hreports : o.reports e = [(input, Analysis.run o.config input.source.text)] := by
        rw [Options.reports, hinput]
        rfl
      have hsuccess : "No issues found!\n" = Feedback.successMessage ++ "\n" := rfl
      rw [Bool.toNat_eq_zero, Bool.eq_false_iff, Ne, hfound, htext, hreports, reportText_single,
        reportBody, hsuccess, String.append_left_inj, Analysis.display_run_eq_successMessage_iff,
        hinput]
      simp

/-- A missing file silences the sample and the file in front of it, and its path is reported. -/
theorem exit_status_of_run_with_missing_file :
    let words := ["--sample", "a.css", "b.css", "c.css"]
    let o : Options := ⟨.initial, .text, ["a.css", "b.css", "c.css"], true, false, false, false⟩
    let e : Environment := ⟨[], fun path => if path = "a.css" then some [98, 123] else none⟩
    Options.parse words = .ok o ∧ o.FirstMissing e "b.css" ∧
      (run words e).status.code = 2 ∧ (run words e).stdout = "" ∧
      (run words e).stderr =
        "style-lint: failed to read 'b.css': I/O error: No such file or directory (os error 2)\n" ++
          "hint: Check that the file exists and is readable\n" := by
  intro words o e
  have hparse : Options.parse words = .ok o := rfl
  have hmissing : ∃ path ∈ o.files, path ≠ "-" ∧ e.file path = none := ⟨"b.css", by decide⟩
  have hfirst : o.FirstMissing e "b.css" :=
    ⟨by decide, ["a.css"], ["c.css"], rfl, by decide⟩
  rcases ((exit_status_of_run words e).2 o hparse).2 rfl rfl with ⟨hfails, -⟩
  rcases hfails hmissing with ⟨hcode, hstdout, -, hstderr⟩
  have hquiet : Log.render o.verbose ((e.gather o.origins).inputs.flatMap Input.events) = "" := rfl
  refine ⟨hparse, hfirst, hcode, hstdout, ?_⟩
  rw [hstderr "b.css" hfirst, hquiet]
  rfl

end CommandLine

end SheetLint
