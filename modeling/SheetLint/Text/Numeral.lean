/-!
# Positional numerals

Numbers are written as digit sequences, most significant digit first, without
leading zeros.

Main results:

- Definitions `digits` and `ofDigits` write and read a number in any base, and
  `lt_of_mem_digits` bounds the digits.
- Definitions `lowerHex` and `letters` spell the digits of bases 16 and 26.
- Definition `ofDecimal?` reads a non-empty run of ASCII digits.
-/

namespace SheetLint.Numeral

/-! ## Digits -/

/-- Put the digits of a number in front of `behind`, by at most `fuel` divisions. -/
def digitsBefore (base : Nat) : Nat → Nat → List Nat → List Nat
  | 0, _, behind => behind
  | fuel + 1, n, behind =>
    if n / base = 0 then n % base :: behind
    else digitsBefore base fuel (n / base) (n % base :: behind)

/-- The digits of a number in a base of at least two; zero has the one digit 0.  As many
divisions as the number itself are always enough. -/
def digits (base n : Nat) : List Nat :=
  digitsBefore base (n + 1) n []

/-- The number that digits stand for in a base. -/
def ofDigits (base : Nat) (ds : List Nat) : Nat :=
  ds.foldl (fun value digit => value * base + digit) 0

theorem lt_of_mem_digitsBefore {base fuel n d : Nat} {behind : List Nat} (positive : 0 < base)
    (below : ∀ digit ∈ behind, digit < base) (h : d ∈ digitsBefore base fuel n behind) :
    d < base := by
  induction fuel generalizing n behind with
  | zero => exact below d h
  | succ fuel ih =>
    have first := Nat.mod_lt n positive
    have next : ∀ digit ∈ n % base :: behind, digit < base := by
      intro digit member
      rcases List.mem_cons.mp member with rfl | member
      · exact first
      · exact below digit member
    unfold digitsBefore at h
    split at h
    · exact next d h
    · exact ih next h

/-- Every digit is less than the base. -/
theorem lt_of_mem_digits {base n d : Nat} (positive : 0 < base) (h : d ∈ digits base n) :
    d < base :=
  lt_of_mem_digitsBefore positive (fun _ member => absurd member List.not_mem_nil) h

/-! ## Spelling -/

/-- The digits 0 to 15 as `0` to `9` and `a` to `f`. -/
def hexDigit (digit : Nat) : Char :=
  if digit < 10 then Char.ofNat (0x30 + digit) else Char.ofNat (0x61 + (digit - 10))

/-- The digits 0 to 25 as `a` to `z`. -/
def letter (digit : Nat) : Char :=
  Char.ofNat (0x61 + digit)

/-- A number in lowercase hexadecimal, filled up with zeros on the left to a width. -/
def lowerHex (width n : Nat) : List Char :=
  ((digits 16 n).map hexDigit).leftpad width '0'

/-- Every character of a hexadecimal number is a hexadecimal digit. -/
theorem exists_hexDigit_of_mem_lowerHex {width n : Nat} {c : Char} (h : c ∈ lowerHex width n) :
    ∃ digit < 16, c = hexDigit digit := by
  simp only [lowerHex, List.leftpad, List.mem_append, List.mem_replicate, List.mem_map] at h
  rcases h with ⟨_, rfl⟩ | ⟨digit, member, rfl⟩
  · exact ⟨0, by decide, rfl⟩
  · exact ⟨digit, lt_of_mem_digits (by decide) member, rfl⟩

/-- A number written with the letters `a` to `z` as the digits of base 26. -/
def letters (n : Nat) : List Char :=
  (digits 26 n).map letter

/-- The value of an ASCII decimal digit. -/
def decimalDigit (c : Char) : Nat :=
  c.toNat - 0x30

/-- The number that a non-empty run of ASCII digits stands for; leading zeros are
allowed, and nothing else is. -/
def ofDecimal? (text : List Char) : Option Nat :=
  if text ≠ [] ∧ text.all Char.isDigit then some (ofDigits 10 (text.map decimalDigit))
  else none

end SheetLint.Numeral
