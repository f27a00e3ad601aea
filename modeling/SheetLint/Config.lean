import SheetLint.Rule.Basic

/-!
# Configuration

Which rules run, which severities are kept, and how many issues are reported.

Main results:

- Structure `Config`; the default runs every rule and keeps every issue.
- Definition `Config.isEnabled` decides about a rule id, and `Config.reports` about a
  severity.
- Definition `Config.validate` refuses the first id that names no rule;
  `Config.validate_eq_ok_iff` says when there is none.
-/

namespace SheetLint

/-- The choices of a user.  No enabled rule means that all of them are, and a limit of
zero is no limit. -/
structure Config where
  minSeverity : Severity
  maxIssues : Nat
  enabledRules : List String
  disabledRules : List String
  deriving DecidableEq, Repr

namespace Config

/-- The choices of a user who made none. -/
def initial : Config :=
  ⟨.info, 0, [], []⟩

/-! ## Choosing -/

/-- Keep only severities from a level on. -/
def withMinSeverity (c : Config) (level : Severity) : Config :=
  { c with minSeverity := level }

/-- Report only so many issues. -/
def withMaxIssues (c : Config) (limit : Nat) : Config :=
  { c with maxIssues := limit }

/-- Run a rule, and without further choices no other one. -/
def enable (c : Config) (ruleId : String) : Config :=
  { c with enabledRules := c.enabledRules ++ [ruleId] }

/-- Do not run a rule. -/
def disable (c : Config) (ruleId : String) : Config :=
  { c with disabledRules := c.disabledRules ++ [ruleId] }

/-! ## Deciding -/

/-- A rule runs unless it is disabled, or others are enabled and it is not. -/
def isEnabled (c : Config) (ruleId : String) : Bool :=
  !c.disabledRules.contains ruleId &&
    (c.enabledRules.isEmpty || c.enabledRules.contains ruleId)

/-- A severity is reported from the chosen level on. -/
def reports (c : Config) (severity : Severity) : Bool :=
  c.minSeverity ≤ severity

/-- Every id that the configuration mentions, the enabled ones first. -/
def mentionedRules (c : Config) : List String :=
  c.enabledRules ++ c.disabledRules

/-- A configuration is refused for the first id it mentions that names no rule. -/
def validate (c : Config) : Except Error Unit :=
  match c.mentionedRules.find? fun text => (Rule.ofId? text).isNone with
  | some unknown => .error (.unknownRule unknown)
  | none => .ok ()

/-- A configuration is accepted when every id it mentions names a rule. -/
theorem validate_eq_ok_iff {c : Config} :
    c.validate = .ok () ↔ ∀ text ∈ c.mentionedRules, (Rule.ofId? text).isSome := by
  unfold validate
  split
  next unknown found =>
    constructor
    · intro h
      cases h
    · intro known
      have named := known unknown (List.mem_of_find?_eq_some found)
      have unnamed := List.find?_some found
      simp_all
  next none_found =>
    simp only [List.find?_eq_none] at none_found
    simpa [Option.isSome_iff_ne_none] using none_found

@[simp]
theorem validate_initial : validate initial = .ok () := rfl

end Config

end SheetLint
