import SheetLint.Analysis
import SheetLint.CommandLine.Input
import SheetLint.CommandLine.Usage

/-!
# Running the program

A run is a function of its command line and of what it can read.

Main results:

- Definition `run` gives the exit status and the texts of both output streams.
- Definition `reportFrom` reports on the inputs one after the other, and `failureText` words an
  error with the advice that goes with it.
-/

namespace SheetLint.CommandLine

/-! ## Outcomes -/

/-- How a run ends. -/
inductive Status where
  | clean
  | issuesFound
  | failed
  deriving DecidableEq, Repr

/-- The exit code of a status. -/
def Status.code : Status → Nat
  | .clean => 0
  | .issuesFound => 1
  | .failed => 2

/-- The result of a run, with the texts of standard output and standard error. -/
structure Outcome where
  status : Status
  stdout : String
  stderr : String
  deriving DecidableEq, Repr

/-! ## Failures -/

/-- The text of an error: its message behind what the program was about to do, then the
advice, if there is any, and a pointer to the help text if the user can fix the error. -/
def failureText (task : String) (e : Error) : String :=
  let message := e.message
  let advice := match e.suggestion with
    | none => ""
    | some text => s!"hint: {text}\n"
  let pointer :=
    if e.isUserFixable then "Try 'style-lint --help' for more information.\n" else ""
  s!"style-lint: {task}{message}\n{advice}{pointer}"

/-- The error of a file that does not exist. -/
def missingFile : Error :=
  .io "No such file or directory (os error 2)"

/-- The text of a missing file. -/
def missingFileText (path : String) : String :=
  failureText s!"failed to read '{path}': " missingFile

/-! ## Reports -/

/-- The report on one input, without its name. -/
def reportBody (format : Format) (a : Analysis) : String :=
  match format with
  | .text => a.feedback.display ++ "\n"
  | .json => Issue.renderAll a.issues ++ "\n"

/-- What a run has printed and recorded about its inputs so far, and whether any of them has
issues. -/
structure Progress where
  stdout : String
  events : List Event
  found : Bool
  deriving DecidableEq, Repr

namespace Progress

/-- Nothing has been said about any input. -/
def initial : Progress :=
  ⟨"", [], false⟩

/-- More text behind what was printed. -/
def print (p : Progress) (text : String) : Progress :=
  { p with stdout := p.stdout ++ text }

/-- More events behind those recorded. -/
def record (p : Progress) (events : List Event) : Progress :=
  { p with events := p.events ++ events }

/-- Report on an input, under its name if this is to be shown; only text is headed by names.  An
input is not reported on if the configuration mentions an unknown rule. -/
def report (p : Progress) (o : Options) (showName : Bool) (input : Input) :
    Except Error Progress :=
  match o.config.analyse input.source.text with
  | .error error => .error error
  | .ok a =>
    let heading := if showName && o.format = .text then input.name ++ ":\n" else ""
    let recorded := p.record (a.events ++ [.inputReported input.name a.issues.length])
    let printed := recorded.print (heading ++ reportBody o.format a)
    .ok { printed with found := p.found || a.hasIssues }

end Progress

/-- Report on the inputs that are left, the first of them being the one at `index` of `count`.  If
there are several, texts have names, and an empty line stands behind each but the last.  The first
error ends the reports. -/
def reportFrom (o : Options) (count : Nat) :
    Nat → Progress → List Input → Progress × Option Error
  | _, p, [] => (p, none)
  | index, p, input :: rest =>
    let showNames := decide (1 < count)
    match p.report o showNames input with
    | .error error => (p, some error)
    | .ok next =>
      let separator := if showNames && o.format = .text && index + 1 < count then "\n" else ""
      reportFrom o count (index + 1) (next.print separator) rest

/-! ## Runs -/

/-- A run that reports on its inputs.  They are all read before anything is reported. -/
def lintInputs (o : Options) (e : Environment) : Outcome :=
  let gathered := e.gather o.origins
  let reading := gathered.inputs.flatMap Input.events
  match gathered.missing with
  | some path => ⟨.failed, "", Log.render o.verbose reading ++ missingFileText path⟩
  | none =>
    match reportFrom o gathered.inputs.length 0 .initial gathered.inputs with
    | (p, some error) =>
      ⟨.failed, p.stdout, Log.render o.verbose (reading ++ p.events) ++ failureText "" error⟩
    | (p, none) =>
      ⟨if p.found then .issuesFound else .clean, p.stdout,
        Log.render o.verbose (reading ++ p.events)⟩

/-- A run with options that were accepted.  Help and the list of rules are given without
reading any input. -/
def runOptions (o : Options) (e : Environment) : Outcome :=
  if o.help then ⟨.clean, usage ++ "\n", ""⟩
  else if o.listRules then ⟨.clean, ruleListing, ""⟩
  else lintInputs o e

/-- The run of a command line. -/
def run (words : List String) (e : Environment) : Outcome :=
  match Options.parse words with
  | .error error => ⟨.failed, "", failureText "" error⟩
  | .ok o => runOptions o e

end SheetLint.CommandLine
