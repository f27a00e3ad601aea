import SheetLint.Rule.Basic

/-!
# Help texts

What the program says about itself.

Main results:

- Definition `usage` explains the command line.
- Definition `ruleListing` has one line for each rule, grouped by category.
-/

namespace SheetLint.CommandLine

/-- The version of the program. -/
def version : String := "0.1.0"

/-! ## Usage -/

/-- The lines that explain the command line. -/
def usageLines : List String :=
  ["Usage: style-lint [OPTIONS] [FILE]...",
    "",
    "Reports naming, specificity, ordering and color issues in CSS files.",
    "With no FILE, or when FILE is -, reads standard input.",
    "",
    "Options:",
    "      --min-severity <LEVEL>  Only report issues at or above LEVEL",
    "                              (info, hint, warning, error)",
    "      --max-issues <N>        Stop after N issues per input (0 = no limit)",
    "      --enable <RULE>         Only run RULE (repeatable)",
    "      --disable <RULE>        Skip RULE (repeatable)",
    "      --format <FORMAT>       Output format: text or json [default: text]",
    "      --list-rules            List built-in rules and exit",
    "      --sample                Lint the bundled sample stylesheet",
    "  -v, --verbose               Enable debug logging",
    "  -h, --help                  Print this help and exit"]

/-- The text that explains the command line. -/
def usage : String :=
  String.intercalate "\n" usageLines

/-! ## The rules -/

/-- A text filled up with spaces on the right to a width. -/
def padRight (width : Nat) (text : String) : String :=
  String.ofList (text.toList.rightpad width ' ')

/-- The line about a rule. -/
def ruleLine (rule : Rule) : String :=
  String.intercalate " "
    [padRight 16 rule.id, padRight 8 rule.severity.name, padRight 16 rule.category.name,
      rule.description] ++ "\n"

/-- The lines about all rules. -/
def ruleListing : String :=
  String.join ((Category.all.flatMap Rule.inCategory).map ruleLine)

end SheetLint.CommandLine
