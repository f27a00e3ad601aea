import SheetLint.Proofs.Warnings

/-!
# What the number of replacements counts

The number that is reported with a recovered text is the number of replacement characters in
it.  Where a stretch of bytes was replaced, this also counts those that the bytes spell out, so
the number is that of the stretches only in bytes without such characters.

Main results:

- Theorem `Utf8.Recovered.replaced_eq_count_illFormed_iff` says when the number is that of the
  replaced stretches.
- Theorem `CommandLine.replacements_reported` says what is counted for all bytes, and in the
  warnings of a run.
- Theorem `Utf8.Recovered.not_replaced_eq_count` says that spelled out characters are counted
  too.
-/

namespace SheetLint

namespace Utf8.Recovered

/-- The stretches that were replaced are counted alone exactly if there are none or no
replacement character is spelled out. -/
theorem replaced_eq_count_illFormed_iff (bytes : List UInt8) :
    (ofBytes bytes).replaced = (decode bytes).count .illFormed ↔
      bytes.toByteArray.IsValidUTF8 ∨ ¬ String.utf8EncodeChar replacement <:+: bytes := by
  rw [replaced_eq_count, isValidUTF8_iff, ← scalar_mem_decode_iff, ← List.count_eq_zero,
    ← List.count_eq_zero (a := Piece.scalar replacement)]
  split
  next hill =>
    have hpos : 0 < (decode bytes).count .illFormed := List.count_pos_iff.mpr hill
    omega
  next hnone =>
    rw [List.count_eq_zero.mpr hnone]
    simp

end Utf8.Recovered

namespace CommandLine

open Utf8 (Piece Reads Recovered decode replacement)

/-- The warning about an input in which a stretch was replaced has the number of such stretches
and of the replacement characters that are spelled out. -/
theorem warning_eq (origin : Origin) (bytes : List UInt8) :
    warning origin bytes =
      if .illFormed ∈ decode bytes then
        [.sequencesReplaced origin.name
          ((decode bytes).count .illFormed + (decode bytes).count (.scalar replacement))]
      else [] := by
  have hvalid : bytes.toByteArray.validateUTF8 = true ↔ .illFormed ∉ decode bytes := by
    rw [← replaced_eq_zero_iff_validateUTF8, Recovered.replaced_eq_zero_iff]
  rw [warning, Recovered.replaced_eq_count]
  by_cases hill : .illFormed ∈ decode bytes
  · rw [if_neg fun hv => hvalid.mp hv hill, if_pos hill, if_pos hill]
  · rw [if_pos (hvalid.mpr hill), if_neg hill]

/-- Bytes fall into well-formed sequences and maximal ill-formed stretches in one way.  If there
are such stretches, the number of replacements is theirs together with that of the replacement
characters that sequences spell, and else it is zero; so it is that of the stretches exactly if
the bytes are valid or spell no replacement character.  This number stands in the warning about
each input in which a stretch was replaced. -/
theorem replacements_reported (bytes : List UInt8) (words : List String) (e : Environment) :
    (∀ pieces, Reads bytes pieces ↔ pieces = decode bytes) ∧
    (Recovered.ofBytes bytes).replaced =
      (if .illFormed ∈ decode bytes then
        (decode bytes).count .illFormed + (decode bytes).count (.scalar replacement)
      else 0) ∧
    ((Recovered.ofBytes bytes).replaced = (decode bytes).count .illFormed ↔
      bytes.toByteArray.IsValidUTF8 ∨ ¬ [0xEF, 0xBF, 0xBD] <:+: bytes) ∧
    Log.shown false (runLog words e) =
      (runReads words e).flatMap fun (origin, bytes) =>
        if .illFormed ∈ decode bytes then
          [.sequencesReplaced origin.name
            ((decode bytes).count .illFormed + (decode bytes).count (.scalar replacement))]
        else [] := by
  refine ⟨Utf8.reads_iff bytes, Recovered.replaced_eq_count bytes, ?_, ?_⟩
  · have hreplacement : String.utf8EncodeChar replacement = [0xEF, 0xBF, 0xBD] := by decide
    rw [← hreplacement]
    exact Recovered.replaced_eq_count_illFormed_iff bytes
  · rw [shown_runLog]
    simp only [warning_eq]

end CommandLine

namespace Utf8.Recovered

/-- In front of a replacement character that is spelled out, a byte that belongs to no sequence is
replaced, and two replacements are reported. -/
theorem not_replaced_eq_count :
    ¬ ∀ (bytes : List UInt8) (pieces : List Piece), Reads bytes pieces →
      (ofBytes bytes).replaced = pieces.count .illFormed := by
  intro hall
  have hreads : Reads [0xFF, 0xEF, 0xBF, 0xBD] [.illFormed, .scalar replacement] := by
    rw [reads_iff]
    decide
  have hcount := hall _ _ hreads
  revert hcount
  decide

end Utf8.Recovered

end SheetLint
