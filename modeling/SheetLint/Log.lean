import SheetLint.Rule.Basic
import SheetLint.Text.Terminal

/-!
# Log records

What happens in a run besides its result, for a user who asks for it.

Main results:

- Type `Event` lists what is recorded, with its level and where it belongs.
- Definition `Event.record` words one event, and `Event.render` leaves out of it what
  a terminal would act on.
- Definition `Log.render` is the log text of a list of events.
-/

namespace SheetLint

/-- How important a record is. -/
inductive LogLevel where
  | debug
  | warn
  deriving DecidableEq, Repr

/-- The name of a level, filled up to five characters. -/
def LogLevel.label : LogLevel → String
  | .debug => "DEBUG"
  | .warn => "WARN "

/-- Something worth a record. -/
inductive Event where
  | ruleSkipped (rule : Rule)
  | ruleReported (rule : Rule) (issues : Nat)
  | analysed (selectors lines issues : Nat)
  | inputReported (input : String) (issues : Nat)
  | markStripped (input : String)
  | sequencesReplaced (input : String) (count : Nat)
  deriving DecidableEq, Repr

namespace Event

/-- Mended input is a warning, and everything else a detail. -/
def level : Event → LogLevel
  | .sequencesReplaced _ _ => .warn
  | _ => .debug

/-- The part of the program that an event is recorded for. -/
def target : Event → String
  | .ruleSkipped _ => "style_lint_core::analysis::linting"
  | .ruleReported _ _ => "style_lint_core::analysis::linting"
  | .analysed _ _ _ => "style_lint_core::analysis"
  | .inputReported _ _ => "style_lint"
  | .markStripped _ => "style_lint"
  | .sequencesReplaced _ _ => "style_lint"

/-- The wording of an event. -/
def message : Event → String
  | .ruleSkipped rule =>
    let name := rule.id
    s!"skipping disabled rule {name}"
  | .ruleReported rule issues =>
    let name := rule.id
    s!"rule {name} reported {issues} issues"
  | .analysed selectors lines issues =>
    s!"analysed {selectors} selectors over {lines} lines: {issues} issues"
  | .inputReported input issues => s!"{input}: {issues} issues"
  | .markStripped input => s!"{input}: stripped byte order mark"
  | .sequencesReplaced input count => s!"{input}: replaced {count} invalid UTF-8 sequences"

/-- A log record in full.  Further lines of its message are indented. -/
def record (e : Event) : String :=
  let level := e.level.label
  let target := e.target
  let message := String.ofList (e.message.toList.flatMap indent)
  s!"[{level} {target}] {message}\n"
where
  /-- A line break is followed by four spaces. -/
  indent (c : Char) : List Char :=
    if c = '\n' then '\n' :: List.replicate 4 ' ' else [c]

/-- An event as log text: its record, without anything a terminal would act on. -/
def render (e : Event) : String :=
  String.ofList (Terminal.strip e.record.toList)

end Event

/-- The records shown to a user: the warnings, and the details if they are asked for. -/
def Log.shown (verbose : Bool) (events : List Event) : List Event :=
  events.filter fun e => verbose || e.level = .warn

/-- The log text of a list of events. -/
def Log.render (verbose : Bool) (events : List Event) : String :=
  String.join ((Log.shown verbose events).map Event.render)

end SheetLint
