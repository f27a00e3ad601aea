import SheetLint.Proofs.Splitting
import SheetLint.Stylesheet.Basic

/-!
# Selectors as pieces between braces

The selectors of a text are found in one pass over its characters.  This module compares
the pass with two plain descriptions: the global search for runs of other characters in
front of an opening brace, and the pieces into which the opening braces split the text.

Main results:

- Relation `Selector.Captures` is the global search: each match begins as far left as it
  can, takes as many characters as it can, and the search goes on behind it.
- Definition `Selector.runs` lists the non-empty pieces in front of opening braces, and
  `Selector.captures_iff` says that the search finds exactly those.
- Theorem `Selector.scan_eq_map_runs` says that the pass trims those pieces.
- Theorem `Selector.length_scan` counts the selectors by neighbouring characters.
- Theorem `Stylesheet.selectors_eq_runs` describes the selectors of every text.
-/

namespace SheetLint

namespace Selector

open Text (isBlank byteLength)

theorem brace_size : ('{' : Char).utf8Size = 1 := by decide

/-! ## The global search -/

/-- The pattern matches at the beginning of a text: `n` characters, at least one, none of
them an opening brace, and an opening brace behind them. -/
def MatchesAt (text : List Char) (n : Nat) : Prop :=
  0 < n ∧ '{' ∉ text.take n ∧ text[n]? = some '{'

/-- The matches that a search finds in a text which begins at a byte offset, each as the
offset and the characters in front of its brace.  No match begins further left or is
longer, and the search goes on behind the brace. -/
inductive Captures : Nat → List Char → List (Nat × List Char) → Prop where
  | nothing {offset : Nat} {text : List Char}
      (hnone : ∀ i n, ¬ MatchesAt (text.drop i) n) : Captures offset text []
  | next {offset : Nat} {text : List Char} {i n : Nat} {found : List (Nat × List Char)}
      (hleft : ∀ j < i, ∀ m, ¬ MatchesAt (text.drop j) m)
      (hmatch : MatchesAt (text.drop i) n)
      (hlongest : ∀ m, MatchesAt (text.drop i) m → m ≤ n)
      (hrest : Captures (offset + byteLength (text.take (i + n + 1))) (text.drop (i + n + 1))
        found) :
      Captures offset text
        ((offset + byteLength (text.take i), (text.drop i).take n) :: found)

/-- A search has one outcome. -/
theorem Captures.unique {offset : Nat} {text : List Char} {first second : List (Nat × List Char)}
    (hfirst : Captures offset text first) (hsecond : Captures offset text second) :
    first = second := by
  induction hfirst generalizing second with
  | nothing hnone =>
    cases hsecond with
    | nothing => rfl
    | next _ hmatch => exact absurd hmatch (hnone _ _)
  | @next offset text i n found hleft hmatch hlongest hrest ih =>
    cases hsecond with
    | nothing hnone => exact absurd hmatch (hnone i n)
    | @next _ _ i' n' found' hleft' hmatch' hlongest' hrest' =>
      have hi : i = i' := by
        rcases Nat.lt_trichotomy i i' with hlt | heq | hgt
        · exact absurd hmatch (hleft' i hlt n)
        · exact heq
        · exact absurd hmatch' (hleft i' hgt n')
      subst hi
      have hn : n = n' := Nat.le_antisymm (hlongest' n hmatch) (hlongest n' hmatch')
      subst hn
      rw [ih hrest']

theorem matchesAt_append {run : List Char} (hne : run ≠ []) (hrun : '{' ∉ run) (rest : List Char)
    (n : Nat) : MatchesAt (run ++ '{' :: rest) n ↔ n = run.length := by
  constructor
  · rintro ⟨-, hclean, hbrace⟩
    rcases Nat.lt_trichotomy n run.length with hlt | heq | hgt
    · rw [List.getElem?_append_left hlt] at hbrace
      exact absurd (List.mem_of_getElem? hbrace) hrun
    · exact heq
    · have htake : (run ++ '{' :: rest).take n = run ++ '{' :: rest.take (n - run.length - 1) := by
        obtain ⟨k, rfl⟩ : ∃ k, n = run.length + (k + 1) := ⟨n - run.length - 1, by omega⟩
        rw [List.take_length_add_append, List.take_succ_cons]
        congr 3
        omega
      rw [htake] at hclean
      exact absurd (List.mem_append_right run List.mem_cons_self) hclean
  · rintro rfl
    refine ⟨List.length_pos_iff.mpr hne, ?_, ?_⟩
    · rwa [List.take_left]
    · simp

theorem not_matchesAt_of_not_mem {text : List Char} (htext : '{' ∉ text) (n : Nat) :
    ¬ MatchesAt text n := by
  rintro ⟨-, -, hbrace⟩
  exact htext (List.mem_of_getElem? hbrace)

theorem not_matchesAt_brace (rest : List Char) (n : Nat) : ¬ MatchesAt ('{' :: rest) n := by
  rintro ⟨hpos, hclean, -⟩
  obtain ⟨m, rfl⟩ : ∃ m, n = m + 1 := ⟨n - 1, by omega⟩
  exact hclean List.mem_cons_self

/-- A brace in front of a text moves the search on and changes nothing else. -/
theorem Captures.cons_brace {offset : Nat} {text : List Char} {found : List (Nat × List Char)}
    (h : Captures (offset + 1) text found) : Captures offset ('{' :: text) found := by
  cases h with
  | nothing hnone =>
    refine .nothing fun i n => ?_
    cases i with
    | zero => exact not_matchesAt_brace text n
    | succ i => exact hnone i n
  | @next _ _ i n found hleft hmatch hlongest hrest =>
    have hmoved : Captures offset ('{' :: text)
        ((offset + byteLength (('{' :: text).take (i + 1)), (('{' :: text).drop (i + 1)).take n) ::
          found) := by
      refine .next ?_ hmatch hlongest ?_
      · intro j hj m
        cases j with
        | zero => exact not_matchesAt_brace text m
        | succ j => exact hleft j (by omega) m
      · have hindex : i + 1 + n + 1 = (i + n + 1) + 1 := by omega
        rw [hindex, List.take_succ_cons, List.drop_succ_cons, Text.byteLength_cons, brace_size,
          ← Nat.add_assoc]
        exact hrest
    rw [List.take_succ_cons, Text.byteLength_cons, brace_size, ← Nat.add_assoc] at hmoved
    exact hmoved

/-! ## Pieces between braces -/

/-- Pieces that follow each other with one byte between them, each with the byte offset at
which it begins. -/
def locate (offset : Nat) : List (List Char) → List (Nat × List Char)
  | [] => []
  | piece :: rest => (offset, piece) :: locate (offset + byteLength piece + 1) rest

/-- The non-empty pieces of a text in front of its opening braces, without the one behind the
last brace. -/
def runs (offset : Nat) (text : List Char) : List (Nat × List Char) :=
  (locate offset (text.splitOn '{')).dropLast.filter fun run => run.2 ≠ []

theorem locate_ne_nil {offset : Nat} {pieces : List (List Char)} (hne : pieces ≠ []) :
    locate offset pieces ≠ [] := by
  cases pieces with
  | nil => exact absurd rfl hne
  | cons piece rest => exact List.cons_ne_nil _ _

@[simp]
theorem map_snd_locate (offset : Nat) (pieces : List (List Char)) :
    (locate offset pieces).map Prod.snd = pieces := by
  induction pieces generalizing offset with
  | nil => rfl
  | cons piece rest ih => rw [locate, List.map_cons, ih]

theorem map_snd_runs (offset : Nat) (text : List Char) :
    (runs offset text).map Prod.snd =
      (text.splitOn '{').dropLast.filter fun piece => piece ≠ [] := by
  conv =>
    rhs
    rw [← map_snd_locate offset (text.splitOn '{'), ← List.map_dropLast, List.filter_map]
  rfl

theorem runs_of_not_mem {text : List Char} (htext : '{' ∉ text) (offset : Nat) :
    runs offset text = [] := by
  rw [runs, List.splitOn_eq_singleton htext]
  rfl

theorem runs_append {piece : List Char} (hpiece : '{' ∉ piece) (offset : Nat) (rest : List Char) :
    runs offset (piece ++ '{' :: rest) =
      (if piece = [] then [] else [(offset, piece)]) ++
        runs (offset + byteLength piece + 1) rest := by
  have hne : locate (offset + byteLength piece + 1) (rest.splitOn '{') ≠ [] :=
    locate_ne_nil (List.splitOn_ne_nil '{' rest)
  rw [runs, List.splitOn_append_cons_self_of_not_mem hpiece, locate,
    List.dropLast_cons_of_ne_nil hne, List.filter_cons]
  by_cases hempty : piece = []
  · simp [hempty, runs]
  · simp [hempty, runs]

/-- A run holds no brace and is not empty. -/
theorem not_mem_of_mem_runs {offset : Nat} {text : List Char} {run : Nat × List Char}
    (hrun : run ∈ runs offset text) : '{' ∉ run.2 ∧ run.2 ≠ [] := by
  induction text using Text.separator_induction '{' generalizing offset with
  | last text htext =>
    rw [runs_of_not_mem htext] at hrun
    cases hrun
  | step piece rest hpiece ih =>
    rw [runs_append hpiece, List.mem_append] at hrun
    rcases hrun with hfirst | hlater
    · by_cases hempty : piece = []
      · simp [hempty] at hfirst
      · rw [if_neg hempty, List.mem_singleton] at hfirst
        rw [hfirst]
        exact ⟨hpiece, hempty⟩
    · exact ih hlater

/-- The search finds the runs. -/
theorem captures_runs (offset : Nat) (text : List Char) :
    Captures offset text (runs offset text) := by
  induction text using Text.separator_induction '{' generalizing offset with
  | last text htext =>
    rw [runs_of_not_mem htext]
    refine .nothing fun i n => not_matchesAt_of_not_mem ?_ n
    exact fun hmem => htext (List.mem_of_mem_drop hmem)
  | step piece rest hpiece ih =>
    rw [runs_append hpiece]
    by_cases hempty : piece = []
    · subst hempty
      exact (ih (offset + 1)).cons_brace
    · have hlength : ∀ m, MatchesAt (piece ++ '{' :: rest) m ↔ m = piece.length :=
        matchesAt_append hempty hpiece rest
      have hbehind : (piece ++ '{' :: rest).take (piece.length + 1) = piece ++ ['{'] ∧
          (piece ++ '{' :: rest).drop (piece.length + 1) = rest := by
        constructor <;> simp [List.take_length_add_append, List.drop_length_add_append]
      have hnext : Captures offset (piece ++ '{' :: rest)
          ((offset + byteLength ((piece ++ '{' :: rest).take 0),
            ((piece ++ '{' :: rest).drop 0).take piece.length) ::
              runs (offset + byteLength piece + 1) rest) := by
        refine .next (fun j hj => absurd hj (Nat.not_lt_zero j)) ((hlength _).mpr rfl)
          (fun m hm => Nat.le_of_eq ((hlength m).mp hm)) ?_
        rw [Nat.zero_add, hbehind.1, hbehind.2, Text.byteLength_append, Text.byteLength_cons,
          Text.byteLength_nil, brace_size, Nat.add_zero, ← Nat.add_assoc]
        exact ih _
      simpa [hempty] using hnext

/-- The search finds the runs and nothing else. -/
theorem captures_iff (offset : Nat) (text : List Char) (found : List (Nat × List Char)) :
    Captures offset text found ↔ found = runs offset text := by
  constructor
  · intro h
    exact h.unique (captures_runs offset text)
  · rintro rfl
    exact captures_runs offset text

/-! ## The pass over the characters -/

/-- The slice that is left of a run when its blanks are trimmed. -/
def trimRun (run : Nat × List Char) : Slice :=
  ⟨Text.trim run.2, some (run.1 + byteLength (Text.leadingBlanks run.2))⟩

/-- A trimmed run is the trimmed slice of the run. -/
theorem trimRun_eq_trim (run : Nat × List Char) :
    trimRun run = (⟨run.2, some run.1⟩ : Slice).trim := by
  rw [Slice.trim_eq]
  rfl

/-- Characters other than a brace join the run under way. -/
theorem scan_append_of_not_mem {piece : List Char} (hpiece : '{' ∉ piece) (start : Option Nat)
    (run rest : List Char) :
    scan start run (piece ++ rest) = scan start (piece.reverse ++ run) rest := by
  induction piece generalizing run with
  | nil => rfl
  | cons c piece ih =>
    rw [List.mem_cons, not_or] at hpiece
    rw [List.cons_append, scan, if_neg (Ne.symm hpiece.1), ih hpiece.2]
    simp

/-- The pass trims the runs of a text. -/
theorem scan_eq_map_runs (offset : Nat) (text : List Char) :
    scan (some offset) [] text = (runs offset text).map trimRun := by
  induction text using Text.separator_induction '{' generalizing offset with
  | last text htext =>
    have h := scan_append_of_not_mem htext (some offset) [] []
    rw [List.append_nil] at h
    rw [h, runs_of_not_mem htext]
    rfl
  | step piece rest hpiece ih =>
    have hbehind : Slice.advance (byteLength (piece.reverse ++ []) + ('{' : Char).utf8Size)
        (some offset) = some (offset + byteLength piece + 1) := by
      rw [List.append_nil, Text.byteLength_reverse, brace_size, Slice.advance_some,
        Nat.add_assoc]
    rw [scan_append_of_not_mem hpiece, scan, if_pos rfl, hbehind, ih, runs_append hpiece]
    by_cases hempty : piece = []
    · simp [hempty]
    · simp [hempty, Slice.trim_eq, trimRun]

/-- The selectors are counted by the braces with another character in front; `previous`
stands in front of the text and is a brace exactly if no run is under way. -/
theorem length_scan (start : Option Nat) (run text : List Char) (previous : Char)
    (hrun : previous = '{' ↔ run = []) :
    (scan start run text).length =
      ((previous :: text).zip text).countP fun pair => pair.1 ≠ '{' ∧ pair.2 = '{' := by
  induction text generalizing start run previous with
  | nil => rfl
  | cons c rest ih =>
    rw [List.zip_cons_cons, List.countP_cons]
    by_cases hc : c = '{'
    · subst hc
      rw [← ih (Slice.advance (byteLength run + ('{' : Char).utf8Size) start) [] '{' (by simp),
        scan, if_pos rfl]
      by_cases hempty : run = []
      · simp [hempty, hrun.mpr hempty]
      · have hprevious : previous ≠ '{' := fun h => hempty (hrun.mp h)
        simp [hempty, hprevious]
    · rw [← ih start (c :: run) c (by simp [hc]), scan, if_neg hc]
      simp [hc]

theorem enumerate_map (first : Nat) (runs : List (Nat × List Char)) :
    enumerate first (runs.map trimRun) =
      runs.mapIdx fun k run => ⟨k + first, trimRun run⟩ := by
  rw [enumerate, List.mapIdx_eq_zipIdx_map]
  apply List.ext_getElem
  · simp
  · intro k hk hk'
    simp [Nat.add_comm]

end Selector

/-! ## The selectors of a text -/

namespace Stylesheet

open Text (isBlank)

theorem selectors_eq_mapIdx (text : List Char) :
    (ofText text).selectors =
      (Selector.runs 0 text).mapIdx fun k run => ⟨k + 1, Selector.trimRun run⟩ := by
  have hscan : (ofText text).selectors = Selector.enumerate 1 (Selector.scan (some 0) [] text) :=
    rfl
  rw [hscan, Selector.scan_eq_map_runs, Selector.enumerate_map]

theorem numbered_selectors (text : List Char) :
    ((ofText text).selectors.map fun s => (s.ordinal, s.slice.text)) =
      ((text.splitOn '{').dropLast.filter fun piece => piece ≠ []).mapIdx fun k piece =>
        (k + 1, Text.trim piece) := by
  rw [selectors_eq_mapIdx, ← Selector.map_snd_runs 0]
  apply List.ext_getElem
  · simp
  · intro k hk hk'
    simp [Selector.trimRun]

theorem text_selectors (text : List Char) :
    ((ofText text).selectors.map fun s => s.slice.text) =
      ((text.splitOn '{').dropLast.filter fun piece => piece ≠ []).map Text.trim := by
  rw [selectors_eq_mapIdx, ← Selector.map_snd_runs 0, List.map_map]
  apply List.ext_getElem
  · simp
  · intro k hk hk'
    simp [Selector.trimRun]

/-- A selector is a trimmed run. -/
theorem exists_run_of_mem_selectors {text : List Char} {s : Selector}
    (hs : s ∈ (ofText text).selectors) :
    ∃ run ∈ Selector.runs 0 text, s.slice = Selector.trimRun run := by
  rw [selectors_eq_mapIdx, List.mem_mapIdx] at hs
  rcases hs with ⟨k, hk, rfl⟩
  exact ⟨(Selector.runs 0 text)[k], List.getElem_mem hk, rfl⟩

theorem length_selectors (text : List Char) :
    (ofText text).selectors.length =
      (text.zip text.tail).countP fun pair => pair.1 ≠ '{' ∧ pair.2 = '{' := by
  have hscan : (ofText text).selectors = Selector.enumerate 1 (Selector.scan (some 0) [] text) :=
    rfl
  rw [hscan, Selector.length_enumerate, Selector.length_scan (some 0) [] text '{' (by simp)]
  cases text with
  | nil => rfl
  | cons c rest => simp

/-- The selectors of a text are the trimmed non-empty pieces in front of its opening braces,
numbered from 1, each where its piece begins or behind the blanks of that piece; these pieces
are what a global search finds.  No selector holds a brace or has a blank at either end, and
there are as many as braces with another character in front. -/
theorem selectors_eq_runs (text : List Char) :
    (∀ found, Selector.Captures 0 text found ↔ found = Selector.runs 0 text) ∧
    (ofText text).selectors =
      ((Selector.runs 0 text).mapIdx fun k run => ⟨k + 1, Selector.trimRun run⟩) ∧
    ((ofText text).selectors.map fun s => s.slice.text) =
      ((text.splitOn '{').dropLast.filter fun piece => piece ≠ []).map Text.trim ∧
    (∀ s ∈ (ofText text).selectors, '{' ∉ s.slice.text ∧
      (∀ c ∈ s.slice.text.head?, isBlank c = false) ∧
        ∀ c ∈ s.slice.text.getLast?, isBlank c = false) ∧
    (ofText text).selectors.length =
      (text.zip text.tail).countP fun pair => pair.1 ≠ '{' ∧ pair.2 = '{' := by
  refine ⟨Selector.captures_iff 0 text, selectors_eq_mapIdx text, text_selectors text, ?_,
    length_selectors text⟩
  intro s hs
  rcases exists_run_of_mem_selectors hs with ⟨run, hrun, hslice⟩
  have htext : s.slice.text = Text.trim run.2 := by
    rw [hslice]
    rfl
  rw [htext]
  refine ⟨?_, fun c hc => Text.not_isBlank_of_mem_head?_trim hc,
    fun c hc => Text.not_isBlank_of_mem_getLast?_trim hc⟩
  intro hbrace
  exact (Selector.not_mem_of_mem_runs hrun).1 ((Text.trim_sublist run.2).subset hbrace)

end Stylesheet

end SheetLint
