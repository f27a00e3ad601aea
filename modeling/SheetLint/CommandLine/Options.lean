import SheetLint.CommandLine.Argument
import SheetLint.Config
import SheetLint.Text.Numeral

/-!
# Options

The options of a run, read from its command line in one pass.

Main results:

- Structure `Options`, and `Options.initial` for an empty command line.
- Definition `Options.scan` reads words one after the other and stops at the first
  fault; `Options.parse` validates the rule ids afterwards.
-/

namespace SheetLint.CommandLine

/-! ## Values -/

/-- How issues are written. -/
inductive Format where
  | text
  | json
  deriving DecidableEq, Repr

namespace Format

/-- The name of a format. -/
def name : Format → String
  | .text => "text"
  | .json => "json"

/-- Read a format, spelled exactly. -/
def parse (text : String) : Except Error Format :=
  match text with
  | "text" => .ok .text
  | "json" => .ok .json
  | _ => .error (.config (.unknownFormat text))

/-- Every format is read back from its name. -/
theorem parse_name (f : Format) : parse f.name = .ok f := by
  cases f <;> rfl

end Format

namespace Count

/-- The largest number of issues that can be asked for, which is the largest one of 64
bits. -/
def largest : Nat := 18446744073709551615

/-- The text of a number without the plus sign that may stand in front. -/
def unsigned (text : List Char) : List Char :=
  match text with
  | [] => []
  | c :: digits => if c = '+' then digits else c :: digits

/-- The number that decimal digits stand for, with one plus sign allowed in front, if it
is not too large. -/
def ofText? (text : List Char) : Option Nat :=
  (Numeral.ofDecimal? (unsigned text)).filter fun n => n ≤ largest

/-- Read a number of issues. -/
def parse (text : String) : Except Error Nat :=
  match ofText? text.toList with
  | some n => .ok n
  | none => .error (.config (.invalidCount text))

end Count

/-! ## Options -/

/-- The options of a run. -/
structure Options where
  config : Config
  format : Format
  files : List String
  sample : Bool
  listRules : Bool
  verbose : Bool
  help : Bool
  deriving DecidableEq, Repr

namespace Options

/-- The options of an empty command line. -/
def initial : Options :=
  ⟨Config.initial, .text, [], false, false, false, false⟩

/-- Turn a switch on. -/
def turnOn (o : Options) : Switch → Options
  | .help => { o with help := true }
  | .verbose => { o with verbose := true }
  | .listRules => { o with listRules := true }
  | .sample => { o with sample := true }

/-- Add an input path behind those given before. -/
def addFile (o : Options) (path : String) : Options :=
  { o with files := o.files ++ [path] }

/-- Give a setting a value.  Rule ids are taken as they are. -/
def assign (o : Options) (setting : Setting) (value : String) : Except Error Options :=
  match setting with
  | .minSeverity =>
    (Severity.parse value).map fun level => { o with config := o.config.withMinSeverity level }
  | .maxIssues =>
    (Count.parse value).map fun limit => { o with config := o.config.withMaxIssues limit }
  | .enable => .ok { o with config := o.config.enable value }
  | .disable => .ok { o with config := o.config.disable value }
  | .format => (Format.parse value).map fun format => { o with format := format }

/-! ## Reading -/

/-- Read words on top of options given before. -/
def scan (o : Options) : List String → Except Error Options
  | [] => .ok o
  | word :: rest =>
    match Argument.ofText word with
    | .switch which => scan (o.turnOn which) rest
    | .path => scan (o.addFile word) rest
    | .unknown => .error (.config (.unknownOption word))
    | .setting which =>
      match rest with
      | [] => .error (.config (.missingValue word))
      | value :: rest =>
        match o.assign which value with
        | .error e => .error e
        | .ok o => scan o rest

/-- Read a command line, and refuse it if it mentions an unknown rule. -/
def parse (words : List String) : Except Error Options :=
  match scan initial words with
  | .error e => .error e
  | .ok o =>
    match o.config.validate with
    | .error e => .error e
    | .ok () => .ok o

end Options

end SheetLint.CommandLine
