import Mathlib.Data.Nat.Digits.Lemmas
import SheetLint.CommandLine.Options
import SheetLint.Proofs.Digits

/-!
# Reading the limit of issues

The limit of issues is written in decimal digits, perhaps with a plus sign in front and with zeros
in front of the number.  It is read as exactly this number if it has no more than 64 bits, and every
other word is refused as it stands; a number that is too large never becomes a smaller one, and in
particular not zero, which is no limit at all.

Main results:

- Definition `Count.Writes` says which texts write a number, and `Count.Writes.append` what more
  digits make of it.
- Theorem `Count.ofText?_eq_some_iff` says that a text is read as the number that it writes.
- Theorem `Options.parse_limit` says which limits are accepted and how all others are refused.
-/

namespace SheetLint.CommandLine

namespace Count

/-! ## Decimal numbers -/

/-- The decimal digits of ASCII. -/
def IsDigit (c : Char) : Prop :=
  '0' ≤ c ∧ c ≤ '9'

instance : DecidablePred IsDigit := fun _ => instDecidableAnd

/-- The number that decimal digits stand for: the last one counts once, and every other one counts
ten times as much as the one behind it. -/
def decimalNumber (digits : List Char) : Nat :=
  Nat.ofDigits 10 (digits.map fun c => c.toNat - '0'.toNat).reverse

/-- A text writes a number when it is one digit or more that stand for the number, or a plus sign
with such digits behind it. -/
def Writes (text : List Char) (n : Nat) : Prop :=
  ∃ sign digits, text = sign ++ digits ∧ (sign = [] ∨ sign = ['+']) ∧ digits ≠ [] ∧
    (∀ c ∈ digits, IsDigit c) ∧ decimalNumber digits = n

theorem isDigit_iff {c : Char} : c.isDigit = true ↔ IsDigit c :=
  Char.isDigit_iff_toNat

theorem decimalNumber_append (front back : List Char) :
    decimalNumber (front ++ back) =
      decimalNumber front * 10 ^ back.length + decimalNumber back := by
  rw [decimalNumber, List.map_append, List.reverse_append, Nat.ofDigits_append, List.length_reverse,
    List.length_map, Nat.add_comm, Nat.mul_comm]
  rfl

/-- More digits make a number larger. -/
theorem Writes.append {text more : List Char} {n : Nat} (h : Writes text n)
    (hmore : ∀ c ∈ more, IsDigit c) :
    Writes (text ++ more) (n * 10 ^ more.length + decimalNumber more) := by
  rcases h with ⟨sign, digits, rfl, hsign, hne, hdigits, rfl⟩
  refine ⟨sign, digits ++ more, List.append_assoc sign digits more, hsign,
    List.append_ne_nil_of_left_ne_nil hne more, ?_, decimalNumber_append digits more⟩
  rw [List.forall_mem_append]
  exact ⟨hdigits, hmore⟩

/-- A digit stands in every text that writes a number, and besides digits only a plus sign does. -/
theorem Writes.exists_isDigit {text : List Char} {n : Nat} (h : Writes text n) :
    ∃ c ∈ text, IsDigit c := by
  rcases h with ⟨sign, digits, rfl, -, hne, hdigits, -⟩
  obtain ⟨c, rest, rfl⟩ := List.exists_cons_of_ne_nil hne
  exact ⟨c, List.mem_append_right sign List.mem_cons_self, hdigits c List.mem_cons_self⟩

theorem Writes.isDigit_or_eq_plus {text : List Char} {n : Nat} (h : Writes text n) {c : Char}
    (hc : c ∈ text) : IsDigit c ∨ c = '+' := by
  rcases h with ⟨sign, digits, rfl, hsign, -, hdigits, -⟩
  rcases List.mem_append.mp hc with hfront | hback
  · rcases hsign with rfl | rfl
    · cases hfront
    · exact Or.inr (List.mem_singleton.mp hfront)
  · exact Or.inl (hdigits c hback)

/-! ## Reading numbers -/

theorem ofDecimal?_eq_some_iff {digits : List Char} {n : Nat} :
    Numeral.ofDecimal? digits = some n ↔
      digits ≠ [] ∧ (∀ c ∈ digits, IsDigit c) ∧ decimalNumber digits = n := by
  have hvalue : Numeral.ofDigits 10 (digits.map Numeral.decimalDigit) = decimalNumber digits :=
    Numeral.ofDigits_eq_ofDigits_reverse 10 _
  have hall : digits.all Char.isDigit = true ↔ ∀ c ∈ digits, IsDigit c := by
    rw [List.all_eq_true]
    exact forall₂_congr fun c _ => isDigit_iff
  rw [Numeral.ofDecimal?, hvalue]
  split
  next h => rw [Option.some_inj, ← hall, ← and_assoc, and_iff_right h]
  next h =>
    constructor
    · intro hnone
      cases hnone
    · rintro ⟨hne, hdigits, -⟩
      exact absurd ⟨hne, hall.mpr hdigits⟩ h

/-- The plus sign is what is taken off a text. -/
theorem exists_sign_append (text : List Char) :
    ∃ sign, (sign = [] ∨ sign = ['+']) ∧ text = sign ++ unsigned text := by
  cases text with
  | nil => exact ⟨[], Or.inl rfl, rfl⟩
  | cons c rest =>
    by_cases hplus : c = '+'
    · subst hplus
      exact ⟨['+'], Or.inr rfl, rfl⟩
    · exact ⟨[], Or.inl rfl, by rw [unsigned, if_neg hplus, List.nil_append]⟩

theorem unsigned_append {sign digits : List Char} (hsign : sign = [] ∨ sign = ['+'])
    (hne : digits ≠ []) (hdigits : ∀ c ∈ digits, IsDigit c) :
    unsigned (sign ++ digits) = digits := by
  rcases hsign with rfl | rfl
  · obtain ⟨c, rest, rfl⟩ := List.exists_cons_of_ne_nil hne
    have hplus : c ≠ '+' := by
      rintro rfl
      exact absurd (hdigits '+' List.mem_cons_self) (by decide)
    rw [List.nil_append, unsigned, if_neg hplus]
  · rfl

/-- Without its sign, a text that writes a number is decimal. -/
theorem ofDecimal?_unsigned_eq_some_iff {text : List Char} {n : Nat} :
    Numeral.ofDecimal? (unsigned text) = some n ↔ Writes text n := by
  rw [ofDecimal?_eq_some_iff]
  constructor
  · rintro ⟨hne, hdigits, hnumber⟩
    rcases exists_sign_append text with ⟨sign, hsign, htext⟩
    exact ⟨sign, unsigned text, htext, hsign, hne, hdigits, hnumber⟩
  · rintro ⟨sign, digits, rfl, hsign, hne, hdigits, hnumber⟩
    rw [unsigned_append hsign hne hdigits]
    exact ⟨hne, hdigits, hnumber⟩

/-- A text writes one number at most. -/
theorem Writes.unique {text : List Char} {n m : Nat} (hn : Writes text n) (hm : Writes text m) :
    n = m := by
  rw [← ofDecimal?_unsigned_eq_some_iff] at hn hm
  rw [hn] at hm
  exact Option.some.inj hm

/-- A text is read as the number that it writes, unless that number is too large. -/
theorem ofText?_eq_some_iff {text : List Char} {n : Nat} :
    ofText? text = some n ↔ Writes text n ∧ n ≤ 2 ^ 64 - 1 := by
  rw [ofText?, Option.filter_eq_some_iff, ofDecimal?_unsigned_eq_some_iff, decide_eq_true_iff]
  exact Iff.rfl

end Count

/-! ## The limit on a command line -/

namespace Options

/-- The options of a command line with nothing but a limit. -/
def limitedTo (limit : Nat) : Options :=
  { initial with config := initial.config.withMaxIssues limit }

/-- A limit alone on a command line is read as the value of its option. -/
theorem parse_maxIssues (value : String) :
    parse ["--max-issues", value] = (Count.parse value).map limitedTo := by
  have hflag : Argument.ofText "--max-issues" = .setting .maxIssues :=
    Argument.ofText_setting .maxIssues
  rw [parse, scan, hflag]
  dsimp only
  rw [assign]
  cases Count.parse value with
  | error e => rfl
  | ok limit => rfl

variable {value : String}

theorem parse_maxIssues_of_writes {n : Nat} (hvalue : Count.Writes value.toList n)
    (hn : n ≤ 2 ^ 64 - 1) : parse ["--max-issues", value] = .ok (limitedTo n) := by
  have hread : Count.ofText? value.toList = some n := Count.ofText?_eq_some_iff.mpr ⟨hvalue, hn⟩
  rw [parse_maxIssues, Count.parse, hread]
  rfl

/-- A value that writes no number, or too large a one, is refused. -/
theorem parse_maxIssues_of_not_writes
    (hvalue : ¬ ∃ n, Count.Writes value.toList n ∧ n ≤ 2 ^ 64 - 1) :
    parse ["--max-issues", value] = .error (.config (.invalidCount value)) := by
  have hread : Count.ofText? value.toList = none := by
    rw [Option.eq_none_iff_forall_ne_some]
    exact fun n hn => hvalue ⟨n, Count.ofText?_eq_some_iff.mp hn⟩
  rw [parse_maxIssues, Count.parse, hread]
  rfl

theorem parse_maxIssues_of_large {n : Nat} (hvalue : Count.Writes value.toList n)
    (hn : 2 ^ 64 ≤ n) :
    parse ["--max-issues", value] = .error (.config (.invalidCount value)) := by
  apply parse_maxIssues_of_not_writes
  rintro ⟨m, hm, hsmall⟩
  have hsame := hvalue.unique hm
  omega

/-- The limit of issues is accepted exactly if it is written in decimal digits, perhaps with a plus
sign in front, and has no more than 64 bits, and then it is the number that is written.  Every other
value is refused and quoted as it stands: one in which something else stands, one without a digit,
and one that is too large, whatever digits follow. -/
theorem parse_limit (value : String) :
    ((∃ o, parse ["--max-issues", value] = .ok o) ↔
      ∃ n, Count.Writes value.toList n ∧ n ≤ 2 ^ 64 - 1) ∧
    (∀ n, Count.Writes value.toList n → ∀ o, parse ["--max-issues", value] = .ok o →
      o = limitedTo n ∧ o.config.maxIssues = n) ∧
    ((¬ ∃ o, parse ["--max-issues", value] = .ok o) →
      parse ["--max-issues", value] = .error (.config (.invalidCount value))) ∧
    (Error.config (.invalidCount value)).message =
      "Configuration error: " ++ ("invalid value '" ++ value ++ "' for --max-issues") ∧
    (∀ c ∈ value.toList, ¬ Count.IsDigit c → c ≠ '+' →
      parse ["--max-issues", value] = .error (.config (.invalidCount value))) ∧
    ((∀ c ∈ value.toList, ¬ Count.IsDigit c) →
      parse ["--max-issues", value] = .error (.config (.invalidCount value))) ∧
    ∀ n, Count.Writes value.toList n → 2 ^ 64 ≤ n →
      ∀ more : String, (∀ c ∈ more.toList, Count.IsDigit c) →
        parse ["--max-issues", value ++ more] =
          .error (.config (.invalidCount (value ++ more))) := by
  have hiff : (∃ o, parse ["--max-issues", value] = .ok o) ↔
      ∃ n, Count.Writes value.toList n ∧ n ≤ 2 ^ 64 - 1 := by
    constructor
    · rintro ⟨o, hparse⟩
      by_contra hnone
      rw [parse_maxIssues_of_not_writes hnone] at hparse
      cases hparse
    · rintro ⟨n, hvalue, hn⟩
      exact ⟨_, parse_maxIssues_of_writes hvalue hn⟩
  refine ⟨hiff, fun n hvalue o hparse => ?_, fun hfails => ?_, rfl, fun c hc hdigit hplus => ?_,
    fun hdigits => ?_, fun n hvalue hn more hmore => ?_⟩
  · rcases hiff.mp ⟨o, hparse⟩ with ⟨m, hm, hsmall⟩
    obtain rfl := hvalue.unique hm
    rw [parse_maxIssues_of_writes hvalue hsmall, Except.ok.injEq] at hparse
    exact ⟨hparse.symm, hparse ▸ rfl⟩
  · exact parse_maxIssues_of_not_writes (mt hiff.mpr hfails)
  · apply parse_maxIssues_of_not_writes
    rintro ⟨n, hvalue, -⟩
    exact (hvalue.isDigit_or_eq_plus hc).elim hdigit hplus
  · apply parse_maxIssues_of_not_writes
    rintro ⟨n, hvalue, -⟩
    rcases hvalue.exists_isDigit with ⟨c, hc, hdigit⟩
    exact hdigits c hc hdigit
  · -- More digits never make the number smaller, so it stays too large.
    have hlonger := hvalue.append hmore
    rw [← String.toList_append] at hlonger
    apply parse_maxIssues_of_large hlonger
    have hpos : 0 < 10 ^ more.toList.length := Nat.pow_pos (by decide)
    have hgrown := Nat.le_mul_of_pos_right n hpos
    omega

/-- A limit with a sign and zeros in front, one that is just too large, with one more digit behind
it, one with a blank in front, and a sign alone. -/
theorem parse_limit_at_bounds :
    (∃ o, parse ["--max-issues", "+007"] = .ok o ∧ o.config.maxIssues = 7) ∧
      parse ["--max-issues", "18446744073709551616" ++ "0"] =
        .error (.config (.invalidCount ("18446744073709551616" ++ "0"))) ∧
      parse ["--max-issues", " 5"] = .error (.config (.invalidCount " 5")) ∧
      parse ["--max-issues", "+"] = .error (.config (.invalidCount "+")) := by
  have hsigned : Count.Writes "+007".toList 7 := Count.ofDecimal?_unsigned_eq_some_iff.mp rfl
  have hlarge : Count.Writes "18446744073709551616".toList (2 ^ 64) :=
    Count.ofDecimal?_unsigned_eq_some_iff.mp rfl
  have hmore : ∀ c ∈ "0".toList, Count.IsDigit c := List.forall_mem_singleton.mpr (by decide)
  have hsign : ∀ c ∈ "+".toList, ¬ Count.IsDigit c := List.forall_mem_singleton.mpr (by decide)
  refine ⟨?_, ?_, ?_, ?_⟩
  · rcases (parse_limit "+007").1.mpr ⟨7, hsigned, by decide⟩ with ⟨o, hparse⟩
    exact ⟨o, hparse, ((parse_limit "+007").2.1 7 hsigned o hparse).2⟩
  · exact (parse_limit "18446744073709551616").2.2.2.2.2.2 _ hlarge (Nat.le_refl _) "0" hmore
  · exact (parse_limit " 5").2.2.2.2.1 ' ' (by decide) (by decide) (by decide)
  · exact (parse_limit "+").2.2.2.2.2.1 hsign

end Options

end SheetLint.CommandLine
