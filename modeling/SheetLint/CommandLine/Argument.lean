/-!
# Arguments

What the words of a command line can be, before anything is done about them.

Main results:

- Types `Switch` and `Setting` list the options without and with a value.
- Definition `Argument.ofText` classifies a word that stands where an option may stand.
- Theorems `Argument.ofText_switch` and `Argument.ofText_setting` say that every
  flag is recognised.
-/

namespace SheetLint.CommandLine

/-! ## Options -/

/-- An option that is turned on by its flag alone. -/
inductive Switch where
  | help
  | verbose
  | listRules
  | sample
  deriving DecidableEq, Repr

namespace Switch

/-- Every switch. -/
def all : List Switch :=
  [.help, .verbose, .listRules, .sample]

/-- The flags of a switch, the long one last. -/
def flags : Switch → List String
  | .help => ["-h", "--help"]
  | .verbose => ["-v", "--verbose"]
  | .listRules => ["--list-rules"]
  | .sample => ["--sample"]

/-- The switch of a flag. -/
def ofFlag? (text : String) : Option Switch :=
  all.find? fun s => s.flags.contains text

end Switch

/-- An option that takes the next word as its value, whatever that word looks like. -/
inductive Setting where
  | minSeverity
  | maxIssues
  | enable
  | disable
  | format
  deriving DecidableEq, Repr

namespace Setting

/-- Every setting. -/
def all : List Setting :=
  [.minSeverity, .maxIssues, .enable, .disable, .format]

/-- The flag of a setting. -/
def flag : Setting → String
  | .minSeverity => "--min-severity"
  | .maxIssues => "--max-issues"
  | .enable => "--enable"
  | .disable => "--disable"
  | .format => "--format"

/-- The setting of a flag. -/
def ofFlag? (text : String) : Option Setting :=
  all.find? fun s => s.flag = text

end Setting

/-! ## Classification -/

/-- What a word is where an option may stand. -/
inductive Argument where
  | switch (which : Switch)
  | setting (which : Setting)
  | path
  | unknown
  deriving DecidableEq, Repr

namespace Argument

/-- Words that begin with a hyphen are options.  A single hyphen and all other words, the
empty one too, are paths. -/
def isPath (text : String) : Bool :=
  text = "-" || text.toList.head? != some '-'

/-- Classify a word. -/
def ofText (text : String) : Argument :=
  match Switch.ofFlag? text with
  | some found => .switch found
  | none =>
    match Setting.ofFlag? text with
    | some found => .setting found
    | none => if isPath text then .path else .unknown

/-- Every flag of a switch stands for that switch. -/
theorem ofText_switch (s : Switch) : ∀ text ∈ s.flags, ofText text = .switch s := by
  cases s <;> decide

/-- The flag of a setting stands for that setting. -/
@[simp]
theorem ofText_setting (s : Setting) : ofText s.flag = .setting s := by
  cases s <;> decide

end Argument

end SheetLint.CommandLine
