/-!
# Errors

Analysing a stylesheet never fails.  Errors arise around it: in the configuration,
on the command line, and where an input is read.

Main results:

- Type `Error` lists the causes, and `Error.message` words them.
- Definitions `Error.category`, `Error.isUserFixable`, `Error.isRecoverable` and
  `Error.suggestion` say what a user can do about an error.
-/

namespace SheetLint

/-! ## Causes -/

/-- A fault in the options of a run. -/
inductive ConfigFault where
  | unknownOption (option : String)
  | missingValue (option : String)
  | invalidCount (value : String)
  | unknownFormat (value : String)
  | other (description : String)
  deriving DecidableEq, Repr

/-- The wording of a fault. -/
def ConfigFault.message : ConfigFault → String
  | .unknownOption option => s!"unknown option '{option}'"
  | .missingValue option => s!"missing value for {option}"
  | .invalidCount value => s!"invalid value '{value}' for --max-issues"
  | .unknownFormat value => s!"unknown output format '{value}' (expected text or json)"
  | .other description => description

/-- The cause of a failure. -/
inductive Error where
  | unknownRule (id : String)
  | invalidSeverity (text : String)
  | config (fault : ConfigFault)
  | io (description : String)
  deriving DecidableEq, Repr

/-- The group that an error belongs to. -/
inductive ErrorCategory where
  | configuration
  | io
  deriving DecidableEq, Repr

/-- The name of a group of errors. -/
def ErrorCategory.name : ErrorCategory → String
  | .configuration => "configuration"
  | .io => "io"

namespace Error

/-! ## Wording and advice -/

/-- The wording of an error. -/
def message : Error → String
  | .unknownRule id => s!"Unknown lint rule: {id}"
  | .invalidSeverity text =>
    s!"Invalid severity level: '{text}' (expected info, hint, warning or error)"
  | .config fault => "Configuration error: " ++ fault.message
  | .io description => s!"I/O error: {description}"

/-- All errors but those of reading come from the configuration. -/
def category : Error → ErrorCategory
  | .unknownRule _ => .configuration
  | .invalidSeverity _ => .configuration
  | .config _ => .configuration
  | .io _ => .io

/-- A user can mend what is wrong with the configuration. -/
def isUserFixable (e : Error) : Bool :=
  e.category = .configuration

/-- A run can be repeated with other options, but not with a file that cannot be read. -/
def isRecoverable : Error → Bool
  | .io _ => false
  | _ => true

/-- The advice that goes with an error, if there is any. -/
def suggestion : Error → Option String
  | .unknownRule _ => some "Run with --list-rules to see the available rule ids"
  | .invalidSeverity _ => some "Use one of: info, hint, warning, error"
  | .config _ => none
  | .io _ => some "Check that the file exists and is readable"

/-- The recoverable errors are those that a user can fix. -/
theorem isRecoverable_eq_isUserFixable (e : Error) : e.isRecoverable = e.isUserFixable := by
  cases e <;> rfl

end Error

end SheetLint
