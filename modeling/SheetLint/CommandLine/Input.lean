import SheetLint.CommandLine.Options
import SheetLint.Log
import SheetLint.Sample.Starter
import SheetLint.Text.Source

/-!
# Inputs

The stylesheets that a run is about, and where they come from.

Main results:

- Definition `Options.origins` lists where the inputs of a run come from.
- Definition `Environment.gather` reads them in this order, up to the first file that is
  missing.
-/

namespace SheetLint.CommandLine

/-! ## Origins -/

/-- Where an input comes from. -/
inductive Origin where
  | sample
  | standardInput
  | file (path : String)
  deriving DecidableEq, Repr

namespace Origin

/-- A single hyphen means standard input, and every other path a file. -/
def ofPath (path : String) : Origin :=
  if path = "-" then .standardInput else .file path

/-- The name under which an input is reported. -/
def name : Origin → String
  | .sample => "<sample>"
  | .standardInput => "<stdin>"
  | .file path => path

end Origin

/-- The origins of a run: the sample, if it is asked for, in front of the paths, or
standard input alone if there is neither. -/
def Options.origins (o : Options) : List Origin :=
  let named := (if o.sample then [.sample] else []) ++ o.files.map Origin.ofPath
  if named.isEmpty then [.standardInput] else named

/-! ## Reading -/

/-- What can be read in a run: the bytes of standard input, and those of each file.  A path
without bytes is a missing file.  No variable that chooses the log records is taken to be set, so
the command line alone decides which records are shown. -/
structure Environment where
  standardInput : List UInt8
  file : String → Option (List UInt8)

/-- An input with the name under which it is reported. -/
structure Input where
  name : String
  source : Source
  deriving DecidableEq, Repr

/-- What is recorded while an input is decoded. -/
def Input.events (i : Input) : List Event :=
  (if i.source.replaced = 0 then [] else [.sequencesReplaced i.name i.source.replaced]) ++
    if i.source.marked then [.markStripped i.name] else []

/-- The inputs that were read, and the path of the missing file that ended the reading, if
there was one. -/
structure Gathered where
  inputs : List Input
  missing : Option String
  deriving DecidableEq, Repr

/-- Another input in front of those gathered. -/
def Gathered.cons (origin : Origin) (source : Source) (g : Gathered) : Gathered :=
  { g with inputs := ⟨origin.name, source⟩ :: g.inputs }

namespace Environment

/-- Nothing is left of standard input once it has been read. -/
def exhausted (e : Environment) : Environment :=
  { e with standardInput := [] }

/-- Read the inputs of some origins in order, up to the first missing file. -/
def gather (e : Environment) : List Origin → Gathered
  | [] => ⟨[], none⟩
  | .sample :: rest =>
    (gather e rest).cons .sample (Source.ofText Sample.starterStylesheet.toList)
  | .standardInput :: rest =>
    (gather e.exhausted rest).cons .standardInput (Source.ofBytes e.standardInput)
  | .file path :: rest =>
    match e.file path with
    | none => ⟨[], some path⟩
    | some bytes => (gather e rest).cons (.file path) (Source.ofBytes bytes)

end Environment

end SheetLint.CommandLine
