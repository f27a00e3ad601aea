import SheetLint.CommandLine.Run

/-!
# The program

Reads what a run asks for, and writes its outcome.

Main results:

- Definition `main` is the program; everything it decides is decided by
  `CommandLine.run`.
-/

namespace SheetLint.Main

open CommandLine

/-- The bytes of a stream up to its end. -/
partial def readToEnd (stream : IO.FS.Stream) (chunks : ByteArray) : IO ByteArray := do
  let chunk ← stream.read 65536
  if chunk.isEmpty then return chunks else readToEnd stream (chunks ++ chunk)

/-- The bytes of a file, unless it cannot be read. -/
def readFile? (path : String) : IO (Option (List UInt8)) := do
  try
    let bytes ← IO.FS.readBinFile path
    return some bytes.toList
  catch _ => return none

/-- Read what the origins of a run ask for, up to the first file that cannot be read.
Standard input is read only once. -/
def readOrigins (e : Environment) (inputRead : Bool) : List Origin → IO Environment
  | [] => return e
  | .sample :: rest => readOrigins e inputRead rest
  | .standardInput :: rest => do
    if inputRead then readOrigins e true rest
    else
      let bytes ← readToEnd (← IO.getStdin) ByteArray.empty
      readOrigins { e with standardInput := bytes.toList } true rest
  | .file path :: rest => do
    match ← readFile? path with
    | none => return e
    | some bytes =>
      let file := fun name => if name = path then some bytes else e.file name
      readOrigins { e with file := file } inputRead rest

/-- Read what a command line asks for; without a need for inputs, nothing. -/
def readEnvironment (words : List String) : IO Environment :=
  let nothing : Environment := ⟨[], fun _ => none⟩
  match Options.parse words with
  | .error _ => return nothing
  | .ok o =>
    if o.help || o.listRules then return nothing else readOrigins nothing false o.origins

end SheetLint.Main

/-- Run the program on its command line. -/
def main (words : List String) : IO UInt32 := do
  let outcome := SheetLint.CommandLine.run words (← SheetLint.Main.readEnvironment words)
  IO.eprint outcome.stderr
  IO.print outcome.stdout
  return outcome.status.code.toUInt32
