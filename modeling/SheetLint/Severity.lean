import SheetLint.Error
import SheetLint.Text.Blank

/-!
# Severity levels

Main results:

- Type `Severity` has four levels, ordered from `info` to `error` by their rank.
- Definition `Severity.parse` reads a level from text that a user typed, and
  `Severity.parse_name` says that it reads back the name of every level.
-/

namespace SheetLint

/-- How much an issue matters. -/
inductive Severity where
  | info
  | hint
  | warning
  | error
  deriving DecidableEq, Repr

namespace Severity

/-! ## Order -/

/-- The position of a level in the order. -/
def rank : Severity → Nat
  | .info => 0
  | .hint => 1
  | .warning => 2
  | .error => 3

instance : LE Severity where
  le a b := a.rank ≤ b.rank

instance (a b : Severity) : Decidable (a ≤ b) :=
  inferInstanceAs (Decidable (a.rank ≤ b.rank))

instance : Ord Severity where
  compare a b := compare a.rank b.rank

theorem le_iff_rank_le {a b : Severity} : a ≤ b ↔ a.rank ≤ b.rank := Iff.rfl

/-- Every level is at least `info`. -/
@[simp]
theorem info_le (s : Severity) : info ≤ s :=
  Nat.zero_le _

/-! ## Names -/

/-- The name of a level. -/
def name : Severity → String
  | .info => "info"
  | .hint => "hint"
  | .warning => "warning"
  | .error => "error"

/-- The level of a lowercase name; `warn` is short for `warning`. -/
def ofName? (text : String) : Option Severity :=
  match text with
  | "info" => some .info
  | "hint" => some .hint
  | "warning" => some .warning
  | "warn" => some .warning
  | "error" => some .error
  | _ => none

/-- Read a level, whatever blanks surround its name and in upper or lower case. -/
def parse (text : String) : Except Error Severity :=
  match ofName? (String.ofList ((Text.trim text.toList).map Char.toLower)) with
  | some level => .ok level
  | none => .error (.invalidSeverity text)

/-- Every level is read back from its name. -/
theorem parse_name (s : Severity) : parse s.name = .ok s := by
  cases s <;> rfl

end Severity

end SheetLint
