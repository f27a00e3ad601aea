import SheetLint.Analysis

/-!
# Which issues are reported

The rules are run one after the other, and the run leaves out rules, drops single
issues and stops early.  This module compares it with a plain description: run every
rule, keep the issues that the configuration selects, and take the first ones.

Main results:

- Definition `Config.Selects` says which issues a configuration wants, and
  `Config.reported` applies it to the issues of all rules.
- Definition `Config.FirstUnknown` singles out the id for which a configuration is
  refused, and `Config.validate_eq_error_iff` ties it to `Config.validate`.
- Theorem `Config.runFrom_issues` is the invariant of the run: what it gives behind
  `issues` is the truncation of `issues` and the selected issues of the rules ahead.
- Theorem `Config.lint_eq_reported` describes linting and analysing for every
  configuration and every text.
-/

namespace SheetLint

namespace Config

/-! ## The plain description -/

/-- An id is built in when a rule has it. -/
def IsBuiltIn (ruleId : String) : Prop :=
  ∃ rule : Rule, rule.id = ruleId

/-- The first mentioned id that is not built in, the enabled ids being mentioned before
the disabled ones. -/
def FirstUnknown (c : Config) (ruleId : String) : Prop :=
  ¬ IsBuiltIn ruleId ∧
    ∃ known rest, c.enabledRules ++ c.disabledRules = known ++ ruleId :: rest ∧
      ∀ earlier ∈ known, IsBuiltIn earlier

/-- An issue is wanted when its rule is not disabled, when its rule is enabled or no rule
is, and when its severity reaches the chosen level. -/
def Selects (c : Config) (issue : Issue) : Prop :=
  issue.ruleId ∉ c.disabledRules ∧
    (c.enabledRules = [] ∨ issue.ruleId ∈ c.enabledRules) ∧ c.minSeverity ≤ issue.severity

instance (c : Config) (issue : Issue) : Decidable (c.Selects issue) :=
  inferInstanceAs (Decidable (_ ∧ _ ∧ _))

/-- The first issues up to the limit, or all of them if there is none. -/
def truncate (c : Config) (issues : List Issue) : List Issue :=
  if c.maxIssues = 0 then issues else issues.take c.maxIssues

/-- The wanted issues among those of all rules, in reporting order, up to the limit. -/
def reported (c : Config) (sheet : Stylesheet) : List Issue :=
  c.truncate ((Rule.all.flatMap fun rule => rule.check sheet).filter fun issue => c.Selects issue)

/-- Nothing is reported that no rule found. -/
theorem exists_rule_of_mem_reported {c : Config} {sheet : Stylesheet} {issue : Issue}
    (hissue : issue ∈ c.reported sheet) : ∃ rule : Rule, issue ∈ rule.check sheet := by
  have hselected : issue ∈ (Rule.all.flatMap fun rule => rule.check sheet).filter
      fun issue => c.Selects issue := by
    unfold reported truncate at hissue
    split at hissue
    next => exact hissue
    next => exact List.mem_of_mem_take hissue
  rcases List.mem_flatMap.mp (List.mem_filter.mp hselected).1 with ⟨rule, _, hcheck⟩
  exact ⟨rule, hcheck⟩

/-! ## Refusing a configuration -/

theorem isSome_ofId?_iff (ruleId : String) : (Rule.ofId? ruleId).isSome ↔ IsBuiltIn ruleId := by
  rw [Option.isSome_iff_exists]
  exact exists_congr fun rule => Rule.ofId?_eq_some_iff

theorem validate_eq_ok_iff_isBuiltIn (c : Config) :
    c.validate = .ok () ↔ ∀ ruleId ∈ c.enabledRules ++ c.disabledRules, IsBuiltIn ruleId := by
  simp only [validate_eq_ok_iff, isSome_ofId?_iff, mentionedRules]

/-- A configuration is refused for its first unknown id and for nothing else. -/
theorem validate_eq_error_iff (c : Config) (e : Error) :
    c.validate = .error e ↔ ∃ ruleId, e = .unknownRule ruleId ∧ c.FirstUnknown ruleId := by
  have hfind (ruleId : String) :
      (c.mentionedRules.find? fun text => (Rule.ofId? text).isNone) = some ruleId ↔
        c.FirstUnknown ruleId := by
    simp only [List.find?_eq_some_iff_append, FirstUnknown, mentionedRules, ← isSome_ofId?_iff,
      Option.not_isNone, Option.not_isSome_iff_eq_none, Option.isNone_iff_eq_none]
  unfold validate
  split
  next unknown hunknown =>
    constructor
    · intro h
      cases h
      exact ⟨unknown, rfl, (hfind unknown).mp hunknown⟩
    · rintro ⟨ruleId, rfl, hfirst⟩
      rw [(hfind ruleId).mpr hfirst] at hunknown
      cases hunknown
      rfl
  next hnone =>
    constructor
    · intro h
      cases h
    · rintro ⟨ruleId, rfl, hfirst⟩
      rw [(hfind ruleId).mpr hfirst] at hnone
      cases hnone

/-! ## One rule -/

theorem isEnabled_iff (c : Config) (ruleId : String) :
    c.isEnabled ruleId = true ↔
      ruleId ∉ c.disabledRules ∧ (c.enabledRules = [] ∨ ruleId ∈ c.enabledRules) := by
  simp [isEnabled]

theorem reports_iff (c : Config) (severity : Severity) :
    c.reports severity = true ↔ c.minSeverity ≤ severity := by
  simp [reports]

/-- An enabled rule keeps exactly its wanted issues, for all of them bear its id. -/
theorem kept_eq_filter {c : Config} {rule : Rule} (henabled : c.isEnabled rule.id = true)
    (sheet : Stylesheet) :
    c.kept sheet rule = (rule.check sheet).filter fun issue => c.Selects issue := by
  unfold kept
  apply List.filter_congr
  intro issue hissue
  have hid : issue.ruleId = rule.id := (Rule.stamp_of_mem_check hissue).2.2
  have hwanted := (isEnabled_iff c rule.id).mp henabled
  rw [Bool.eq_iff_iff, reports_iff, decide_eq_true_eq, Selects, hid]
  exact ⟨fun hlevel => ⟨hwanted.1, hwanted.2, hlevel⟩, fun h => h.2.2⟩

/-- No issue of a rule that is left out is wanted. -/
theorem filter_check_eq_nil {c : Config} {rule : Rule} (hskipped : ¬ c.isEnabled rule.id = true)
    (sheet : Stylesheet) :
    ((rule.check sheet).filter fun issue => c.Selects issue) = [] := by
  rw [List.filter_eq_nil_iff]
  intro issue hissue hselected
  have hid : issue.ruleId = rule.id := (Rule.stamp_of_mem_check hissue).2.2
  rw [decide_eq_true_eq, Selects, hid] at hselected
  exact hskipped ((isEnabled_iff c rule.id).mpr ⟨hselected.1, hselected.2.1⟩)

/-! ## The run -/

theorem isFull_iff (c : Config) (issues : List Issue) :
    c.isFull issues = true ↔ 0 < c.maxIssues ∧ c.maxIssues ≤ issues.length := by
  simp [isFull]

theorem truncate_of_no_limit {c : Config} (hlimit : c.maxIssues = 0) (issues : List Issue) :
    c.truncate issues = issues :=
  if_pos hlimit

theorem truncate_of_not_isFull {c : Config} {issues : List Issue}
    (hopen : ¬ c.isFull issues = true) : c.truncate issues = issues := by
  rw [isFull_iff] at hopen
  unfold truncate
  split
  next => rfl
  next hlimit =>
    apply List.take_of_length_le
    omega

/-- What comes behind a reached limit makes no difference. -/
theorem truncate_append_of_isFull {c : Config} {issues : List Issue}
    (hfull : c.isFull issues = true) (behind : List Issue) :
    c.truncate (issues ++ behind) = issues.take c.maxIssues := by
  rcases (isFull_iff c issues).mp hfull with ⟨hlimit, hlength⟩
  rw [truncate, if_neg (by omega), List.take_append_of_le_length hlength]

/-- The run truncates what was found already and what the rules ahead find. -/
theorem runFrom_issues (c : Config) (sheet : Stylesheet) (rules : List Rule)
    {issues : List Issue} (hopen : ¬ c.isFull issues = true) :
    (c.runFrom sheet issues rules).1 =
      c.truncate (issues ++
        (rules.flatMap fun rule => rule.check sheet).filter fun issue => c.Selects issue) := by
  induction rules generalizing issues with
  | nil => simp [runFrom, truncate_of_not_isFull hopen]
  | cons rule rest ih =>
    rw [List.flatMap_cons, List.filter_append]
    by_cases henabled : c.isEnabled rule.id = true
    · rw [← kept_eq_filter henabled sheet, ← List.append_assoc]
      by_cases hfull : c.isFull (issues ++ c.kept sheet rule) = true
      · rw [truncate_append_of_isFull hfull]
        simp [runFrom, henabled, hfull]
      · rw [← ih hfull]
        simp [runFrom, henabled, hfull]
    · rw [filter_check_eq_nil henabled sheet, List.nil_append, ← ih hopen]
      simp [runFrom, henabled]

/-- Leaving out rules and stopping early change nothing: a run of all rules gives the
reported issues, whether or not the configuration is refused. -/
theorem runRules_issues (c : Config) (sheet : Stylesheet) :
    (c.runRules sheet).1 = c.reported sheet := by
  have hopen : ¬ c.isFull [] = true := by
    rw [isFull_iff, List.length_nil]
    omega
  exact runFrom_issues c sheet Rule.all hopen

theorem run_issues (c : Config) (text : List Char) :
    (Analysis.run c text).issues = c.reported (Stylesheet.ofText text) :=
  runRules_issues c (Stylesheet.ofText text)

/-! ## Linting and analysing -/

theorem lint_eq_error_iff (c : Config) (sheet : Stylesheet) (e : Error) :
    c.lint sheet = .error e ↔ c.validate = .error e := by
  unfold lint
  split
  next found hfound => rw [hfound, Except.error.injEq, Except.error.injEq]
  next hvalid => simp [hvalid]

theorem lint_eq_ok_iff (c : Config) (sheet : Stylesheet) (issues : List Issue) :
    c.lint sheet = .ok issues ↔ c.validate = .ok () ∧ issues = c.reported sheet := by
  unfold lint
  split
  next found hfound => simp [hfound]
  next hvalid => simp [hvalid, runRules_issues, eq_comm]

theorem map_issues_analyse (c : Config) (text : List Char) :
    (c.analyse text).map Analysis.issues = c.lint (Stylesheet.ofText text) := by
  unfold analyse lint
  split
  next => rfl
  next => rfl

/-! ## Particular configurations -/

/-- Without choices every issue is reported. -/
theorem reported_initial (sheet : Stylesheet) :
    initial.reported sheet = Rule.all.flatMap fun rule => rule.check sheet := by
  rw [reported, truncate_of_no_limit rfl, List.filter_eq_self]
  intro issue _
  rw [decide_eq_true_eq]
  exact ⟨List.not_mem_nil, Or.inl rfl, Severity.info_le issue.severity⟩

/-- With a single rule enabled just its issues are reported. -/
theorem reported_enable (rule : Rule) (sheet : Stylesheet) :
    (initial.enable rule.id).reported sheet = rule.check sheet := by
  have hself : ((rule.check sheet).filter fun issue => (initial.enable rule.id).Selects issue) =
      rule.check sheet := by
    rw [List.filter_eq_self]
    intro issue hissue
    have hid : issue.ruleId = rule.id := (Rule.stamp_of_mem_check hissue).2.2
    rw [decide_eq_true_eq, Selects, hid]
    exact ⟨List.not_mem_nil, Or.inr List.mem_cons_self, Severity.info_le issue.severity⟩
  have hother (other : Rule) (hne : other ≠ rule) :
      ((other.check sheet).filter fun issue => (initial.enable rule.id).Selects issue) = [] := by
    apply filter_check_eq_nil
    simp [isEnabled_iff, enable, initial, Rule.id_inj, hne]
  rw [reported, truncate_of_no_limit rfl]
  simp only [Rule.all, List.flatMap_cons, List.flatMap_nil, List.filter_append, List.filter_nil]
  cases rule <;> simp [hself, hother]

/-! ## Every configuration -/

/-- Linting a text fails exactly for the first unknown id of the configuration, whatever the
text is, and gives the wanted issues of all rules up to the limit otherwise.  Analysing gives
the same issues or the same error.  A run that skips validation agrees with the plain
description too; so the default analysis holds every issue, and one enabled rule reports
what it finds by itself. -/
theorem lint_eq_reported (c : Config) (text : List Char) :
    (∀ e, c.lint (Stylesheet.ofText text) = .error e ↔
      ∃ ruleId, e = .unknownRule ruleId ∧ c.FirstUnknown ruleId) ∧
    (∀ issues, c.lint (Stylesheet.ofText text) = .ok issues ↔
      (∀ ruleId ∈ c.enabledRules ++ c.disabledRules, IsBuiltIn ruleId) ∧
        issues = c.reported (Stylesheet.ofText text)) ∧
    (c.analyse text).map Analysis.issues = c.lint (Stylesheet.ofText text) ∧
    (Analysis.run c text).issues = c.reported (Stylesheet.ofText text) ∧
    initial.analyse text = .ok (Analysis.ofText text) ∧
    (Analysis.ofText text).issues =
      (Rule.all.flatMap fun rule => rule.check (Stylesheet.ofText text)) ∧
    (Analysis.ofText text).findings = (Analysis.ofText text).issues.map Issue.message ∧
    ∀ rule : Rule, (initial.enable rule.id).lint (Stylesheet.ofText text) =
      .ok (rule.check (Stylesheet.ofText text)) := by
  refine ⟨fun e => ?_, fun issues => ?_, ?_, run_issues c text, analyse_initial text, ?_, rfl,
    fun rule => ?_⟩
  · rw [lint_eq_error_iff, validate_eq_error_iff]
  · rw [lint_eq_ok_iff, validate_eq_ok_iff_isBuiltIn]
  · exact map_issues_analyse c text
  · rw [Analysis.ofText, run_issues, reported_initial]
  · rw [lint_eq_ok_iff, validate_eq_ok_iff_isBuiltIn, reported_enable]
    refine ⟨?_, rfl⟩
    intro ruleId hmem
    exact ⟨rule, (List.mem_singleton.mp hmem).symm⟩

end Config

end SheetLint
