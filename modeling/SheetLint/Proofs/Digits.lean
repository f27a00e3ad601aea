import Mathlib.Data.List.Basic
import Mathlib.Data.Nat.Digits.Defs
import SheetLint.Convention.ColorName
import SheetLint.Proofs.BlockSpelling
import SheetLint.Text.Numeral

/-!
# The digits of numerals

The digits of a number are found by dividing it until nothing is left.  This module gives the
digits an equation without the bound on the divisions, and compares their spelling with the
standard one.

Main results:

- Theorem `Numeral.digits_eq` is the equation of the digits: the last digit behind those of the
  quotient.
- Theorem `Numeral.ofDigits_digitsBefore` says what the divisions preserve, and
  `Numeral.ofDigits_digits` that the digits of a number stand for it.
- Theorem `Numeral.lowerHex_eq` says that a hexadecimal number has the standard digits, filled up
  on the left, and `Numeral.length_lowerHex_eq_iff` when it is no longer than it was filled up to.
- Theorem `Numeral.isWord_letters` says that a number written in letters is a word.
-/

namespace SheetLint.Numeral

/-! ## Division by division -/

/-- What stands behind the digits stays there. -/
theorem digitsBefore_append (base fuel n : Nat) (behind : List Nat) :
    digitsBefore base fuel n behind = digitsBefore base fuel n [] ++ behind := by
  induction fuel generalizing n behind with
  | zero => rfl
  | succ fuel ih =>
    rw [digitsBefore, digitsBefore]
    split
    next => rfl
    next => rw [ih (n / base) (n % base :: behind), ih (n / base) [n % base], List.append_assoc,
      List.singleton_append]

/-- More divisions than enough change nothing, as each makes the number smaller. -/
theorem digitsBefore_of_lt {base fuel n : Nat} (hbase : 1 < base) (hfuel : n < fuel) :
    digitsBefore base fuel n [] = digits base n := by
  induction n using Nat.strongRecOn generalizing fuel with
  | ind n ih =>
    obtain ⟨fuel, rfl⟩ : ∃ k, fuel = k + 1 := ⟨fuel - 1, by omega⟩
    rw [digits, digitsBefore, digitsBefore]
    split
    next => rfl
    next hmore =>
      have hpos : 0 < n := Nat.pos_of_ne_zero (by rintro rfl; exact hmore (Nat.zero_div base))
      have hsmaller : n / base < n := Nat.div_lt_self hpos hbase
      rw [digitsBefore_append base fuel, digitsBefore_append base n,
        ih (n / base) hsmaller (by omega), ih (n / base) hsmaller hsmaller]

/-- A number less than the base is its own digit, and otherwise the last digit is its remainder,
behind the digits of the quotient. -/
theorem digits_eq {base : Nat} (hbase : 1 < base) (n : Nat) :
    digits base n = if n < base then [n] else digits base (n / base) ++ [n % base] := by
  rw [digits, digitsBefore]
  by_cases hlt : n < base
  · rw [if_pos (Nat.div_eq_of_lt hlt), if_pos hlt, Nat.mod_eq_of_lt hlt]
  · have hmore : n / base ≠ 0 := by
      rwa [ne_eq, Nat.div_eq_zero_iff_lt (Nat.zero_lt_of_lt hbase)]
    have hsmaller : n / base < n := Nat.div_lt_self (by omega) hbase
    rw [if_neg hmore, if_neg hlt, digitsBefore_append, digitsBefore_of_lt hbase hsmaller]

theorem digits_ne_nil {base : Nat} (hbase : 1 < base) (n : Nat) : digits base n ≠ [] := by
  rw [digits_eq hbase]
  split
  next => exact List.cons_ne_nil _ _
  next => exact List.append_ne_nil_of_right_ne_nil _ (List.cons_ne_nil _ _)

/-! ## Values -/

/-- Reading digits from the first one on is the standard reading of the reversed digits. -/
theorem ofDigits_eq_ofDigits_reverse (base : Nat) (ds : List Nat) :
    ofDigits base ds = Nat.ofDigits base ds.reverse := by
  rw [ofDigits, Nat.ofDigits_eq_foldr, List.foldr_reverse]
  simp only [Nat.cast_id, Nat.add_comm, Nat.mul_comm]

/-- A division writes one more digit and leaves the quotient for the digits in front of it. -/
theorem ofDigits_div_cons_mod_cons (base n : Nat) (behind : List Nat) :
    ofDigits base (n / base :: n % base :: behind) = ofDigits base (n :: behind) := by
  simp only [ofDigits, List.foldl_cons, Nat.zero_mul, Nat.zero_add, Nat.div_add_mod']

/-- As long as digits are missing, the number that is left stands for them. -/
theorem ofDigits_digitsBefore {base fuel n : Nat} (hbase : 1 < base) (hfuel : n < fuel)
    (behind : List Nat) :
    ofDigits base (digitsBefore base fuel n behind) = ofDigits base (n :: behind) := by
  induction fuel generalizing n behind with
  | zero => exact absurd hfuel (Nat.not_lt_zero n)
  | succ fuel ih =>
    rw [digitsBefore]
    split
    next hlast =>
      have hlt : n < base := (Nat.div_eq_zero_iff_lt (Nat.zero_lt_of_lt hbase)).mp hlast
      rw [Nat.mod_eq_of_lt hlt]
    next hmore =>
      have hpos : 0 < n := Nat.pos_of_ne_zero (by rintro rfl; exact hmore (Nat.zero_div base))
      have hsmaller : n / base < n := Nat.div_lt_self hpos hbase
      rw [ih (by omega), ofDigits_div_cons_mod_cons]

/-- The digits of a number stand for it. -/
theorem ofDigits_digits {base : Nat} (hbase : 1 < base) (n : Nat) :
    ofDigits base (digits base n) = n := by
  rw [digits, ofDigits_digitsBefore hbase (Nat.lt_succ_self n)]
  simp [ofDigits]

/-- Only zero begins with the digit zero. -/
theorem head?_digits_eq_zero_iff {base : Nat} (hbase : 1 < base) (n : Nat) :
    (digits base n).head? = some 0 ↔ n = 0 := by
  induction n using Nat.strongRecOn with
  | ind n ih =>
    rw [digits_eq hbase]
    split
    next => simp
    next hge =>
      have hquotient : n / base ≠ 0 := by
        rwa [ne_eq, Nat.div_eq_zero_iff_lt (Nat.zero_lt_of_lt hbase)]
      have hsmaller : n / base < n := Nat.div_lt_self (by omega) hbase
      rw [List.head?_append_of_ne_nil _ (digits_ne_nil hbase _), ih _ hsmaller]
      omega

/-! ## Hexadecimal numbers -/

theorem hexDigit_eq_digitChar : ∀ digit < 16, hexDigit digit = Nat.digitChar digit := by
  decide

/-- The digits of base 16 are spelled in the standard way. -/
theorem map_hexDigit_digits (n : Nat) : (digits 16 n).map hexDigit = Nat.toDigits 16 n := by
  induction n using Nat.strongRecOn with
  | ind n ih =>
    rw [digits_eq (by decide), Nat.toDigits_eq_if (by decide)]
    split
    next hlt => rw [List.map_singleton, hexDigit_eq_digitChar n hlt]
    next hge =>
      have hlast := hexDigit_eq_digitChar (n % 16) (Nat.mod_lt n (by decide))
      rw [List.map_append, ih (n / 16) (by omega), List.map_singleton, hlast]

theorem lowerHex_eq (width n : Nat) :
    lowerHex width n = (Nat.toDigits 16 n).leftpad width '0' := by
  rw [lowerHex, map_hexDigit_digits]

theorem length_lowerHex (width n : Nat) :
    (lowerHex width n).length = max width (Nat.toDigits 16 n).length := by
  rw [lowerHex_eq, List.length_leftpad]

/-- A number fits into a width if it is less than the power of that width. -/
theorem length_lowerHex_eq_iff {width : Nat} (hwidth : 0 < width) (n : Nat) :
    (lowerHex width n).length = width ↔ n < 16 ^ width := by
  rw [length_lowerHex, ← Nat.length_toDigits_le_iff (by decide) hwidth]
  omega

theorem isHexDigit_hexDigit : ∀ digit < 16, ColorName.isHexDigit (hexDigit digit) = true := by
  decide

theorem isHexDigit_of_mem_lowerHex {width n : Nat} {c : Char} (hc : c ∈ lowerHex width n) :
    ColorName.isHexDigit c = true := by
  rcases exists_hexDigit_of_mem_lowerHex hc with ⟨digit, hdigit, rfl⟩
  exact isHexDigit_hexDigit digit hdigit

/-! ## Decimal numbers -/

theorem isDigit_of_mem_toString {n : Nat} {c : Char} (hc : c ∈ (toString n).toList) :
    c.isDigit = true := by
  rw [Nat.toString_eq_ofList_toDigits, String.toList_ofList] at hc
  exact Nat.isDigit_of_mem_toDigits (by decide) (by decide) hc

/-! ## Numbers in letters -/

theorem isLower_letter : ∀ digit < 26, (letter digit).isLower = true := by
  decide

/-- A number written in letters is a word. -/
theorem isWord_letters (n : Nat) : BlockName.IsWord (letters n) := by
  constructor
  · rw [letters, ne_eq, List.map_eq_nil_iff]
    exact digits_ne_nil (by decide) n
  · intro c hc
    rcases List.mem_map.mp hc with ⟨digit, hdigit, rfl⟩
    exact isLower_letter digit (lt_of_mem_digits (by decide) hdigit)

end SheetLint.Numeral
