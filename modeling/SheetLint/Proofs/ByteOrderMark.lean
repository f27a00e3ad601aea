import SheetLint.Proofs.Decoding
import SheetLint.Proofs.Gathering

/-!
# Inputs with a byte order mark

An editor may put a byte order mark in front of a file.  One mark is taken off the text again,
so a run on inputs with marks differs from a run on the same inputs without them in nothing
but the records of the marks.

Main results:

- Theorems `Source.ofBytes_mark` and `Source.ofBytes_of_not_marked` say what becomes of bytes with a
  mark in front and of bytes without one.
- Relation `Environment.MarkedAs` relates two environments whose inputs differ by such marks.
- Definitions `Options.log` and `Options.failure` are the records and the failure of a run, and
  `runOptions_stderr` says that standard error has nothing else.
- Theorem `byte_order_mark_is_transparent` compares the sources and the runs.
-/

namespace SheetLint

open Utf8 (Piece Recovered decode)

/-! ## Bytes with a mark -/

namespace Text

/-- The bytes of a byte order mark. -/
def markBytes : List UInt8 :=
  [0xEF, 0xBB, 0xBF]

theorem utf8EncodeChar_mark : String.utf8EncodeChar mark = markBytes := by
  decide

theorem decode_append_markBytes (before behind : List UInt8) :
    decode (before ++ markBytes ++ behind) = decode before ++ .scalar mark :: decode behind :=
  Utf8.decode_append_spells (Utf8.spells_iff.mpr utf8EncodeChar_mark.symm) before behind

/-- Only bytes with a mark in front give a text with a mark in front. -/
theorem head?_text_ne_mark {bytes : List UInt8} (hbytes : ¬ markBytes <+: bytes) :
    (Recovered.ofBytes bytes).text.head? ≠ some mark := by
  intro hhead
  have hpieces : ((decode bytes).map Piece.char).head? = some mark := hhead
  rw [List.head?_map, Option.map_eq_some_iff] at hpieces
  rcases hpieces with ⟨piece, hpiece, hchar⟩
  cases piece with
  | illFormed => exact absurd hchar (by decide)
  | scalar c =>
    have hc : c = mark := hchar
    subst hc
    rcases List.head?_eq_some_iff.mp hpiece with ⟨pieces, hdecode⟩
    rcases Utf8.exists_of_decode_eq_scalar hdecode with ⟨behind, hsplit, -⟩
    exact hbytes ⟨behind, by rw [hsplit, utf8EncodeChar_mark]⟩

/-- A mark anywhere in the bytes is a character of the text, and is never counted as
replaced. -/
theorem recovered_append_markBytes (before behind : List UInt8) :
    (Recovered.ofBytes (before ++ markBytes ++ behind)).text =
      (Recovered.ofBytes before).text ++ mark :: (Recovered.ofBytes behind).text := by
  rw [Recovered.text_eq, decode_append_markBytes, List.map_append, List.map_cons]
  rfl

theorem recovered_markBytes (bytes : List UInt8) :
    Recovered.ofBytes (markBytes ++ bytes) =
      ⟨mark :: (Recovered.ofBytes bytes).text, (Recovered.ofBytes bytes).replaced⟩ := by
  have hdecode : decode (markBytes ++ bytes) = .scalar mark :: decode bytes :=
    decode_append_markBytes [] bytes
  have hne : mark ≠ Utf8.replacement := by decide
  simp [Recovered.ofBytes, hdecode, Piece.char, List.count_cons_of_ne hne]

/-- Taking off the mark concerns the first character alone. -/
theorem stripMark_append {text : List Char} (htext : text ≠ []) (more : List Char) :
    (stripMark (text ++ more)).1 = (stripMark text).1 ++ more := by
  cases text with
  | nil => exact absurd rfl htext
  | cons c rest =>
    rw [List.cons_append, stripMark, stripMark]
    split <;> rfl

end Text

namespace Source

open Text (mark markBytes)

/-- A source as it would be without its mark. -/
def unmarked (s : Source) : Source :=
  { s with marked := false }

theorem ofBytes_mark (bytes : List UInt8) :
    ofBytes (markBytes ++ bytes) =
      ⟨(Recovered.ofBytes bytes).text, (Recovered.ofBytes bytes).replaced, true⟩ := by
  rw [ofBytes, Text.recovered_markBytes]
  simp only [Text.stripMark_mark]

theorem ofBytes_of_not_marked {bytes : List UInt8} (hbytes : ¬ markBytes <+: bytes) :
    ofBytes bytes =
      ⟨(Recovered.ofBytes bytes).text, (Recovered.ofBytes bytes).replaced, false⟩ := by
  rw [ofBytes, Text.stripMark_of_head?_ne (Text.head?_text_ne_mark hbytes)]

/-- A mark behind other bytes is kept. -/
theorem text_ofBytes_append_mark {before : List UInt8} (hbefore : before ≠ [])
    (bytes : List UInt8) :
    (ofBytes (before ++ markBytes ++ bytes)).text =
      (ofBytes before).text ++ mark :: (Recovered.ofBytes bytes).text := by
  have htext (all : List UInt8) :
      (ofBytes all).text = (Text.stripMark (Recovered.ofBytes all).text).1 := rfl
  have hne : (Recovered.ofBytes before).text ≠ [] :=
    fun h => hbefore ((Recovered.text_eq_nil_iff before).mp h)
  rw [htext, htext, Text.recovered_append_markBytes, Text.stripMark_append hne]

end Source

namespace CommandLine

open Text (markBytes)

/-! ## Inputs that differ by marks -/

/-- The same bytes, or bytes without a mark and the same bytes with one. -/
def MarkedAs (plain marked : List UInt8) : Prop :=
  marked = plain ∨ ¬ markBytes <+: plain ∧ marked = markBytes ++ plain

theorem MarkedAs.unmarked_ofBytes {plain marked : List UInt8} (h : MarkedAs plain marked) :
    (Source.ofBytes marked).unmarked = (Source.ofBytes plain).unmarked := by
  rcases h with rfl | ⟨hplain, rfl⟩
  · rfl
  · rw [Source.ofBytes_mark, Source.ofBytes_of_not_marked hplain]
    rfl

/-- Two environments that are alike but for marks in front of inputs of the second. -/
structure Environment.MarkedAs (plain marked : Environment) : Prop where
  standardInput : CommandLine.MarkedAs plain.standardInput marked.standardInput
  file : ∀ path, Option.Rel CommandLine.MarkedAs (plain.file path) (marked.file path)

/-- An input as it would be without its mark. -/
def Input.unmarked (i : Input) : Input :=
  { i with source := i.source.unmarked }

namespace Environment

variable {plain marked : Environment}

theorem MarkedAs.exhausted (h : plain.MarkedAs marked) :
    plain.exhausted.MarkedAs marked.exhausted where
  standardInput := Or.inl rfl
  file := h.file

/-- The same inputs are gathered but for their marks, and the same file is missing. -/
theorem MarkedAs.gather (h : plain.MarkedAs marked) (origins : List Origin) :
    (marked.gather origins).inputs.map Input.unmarked =
        (plain.gather origins).inputs.map Input.unmarked ∧
      (marked.gather origins).missing = (plain.gather origins).missing := by
  induction origins generalizing plain marked with
  | nil => exact ⟨rfl, rfl⟩
  | cons origin rest ih =>
    cases origin with
    | sample =>
      rcases ih h with ⟨hinputs, hmissing⟩
      simp [Environment.gather, Gathered.cons, hinputs, hmissing]
    | standardInput =>
      rcases ih h.exhausted with ⟨hinputs, hmissing⟩
      have hsource := h.standardInput.unmarked_ofBytes
      simp [Environment.gather, Gathered.cons, Input.unmarked, hinputs, hmissing, hsource]
    | file path =>
      have hpath := h.file path
      generalize hplain : plain.file path = before at hpath
      generalize hmarked : marked.file path = after at hpath
      cases hpath with
      | none => simp [Environment.gather, hplain, hmarked]
      | some hbytes =>
        rcases ih h with ⟨hinputs, hmissing⟩
        have hsource := hbytes.unmarked_ofBytes
        simp [Environment.gather, hplain, hmarked, Gathered.cons, Input.unmarked, hinputs,
          hmissing, hsource]

end Environment

/-! ## Records and failures -/

namespace Options

/-- What a run records, in order. -/
def log (o : Options) (e : Environment) : List Event :=
  let gathered := e.gather o.origins
  if o.help || o.listRules then []
  else gathered.inputs.flatMap Input.events ++
    if gathered.missing.isSome then []
    else (gathered.inputs.map (analysed o.config)).flatMap reportEvents

/-- The text of the failure that ends a run, which is empty if the run succeeds. -/
def failure (o : Options) (e : Environment) : String :=
  if o.help || o.listRules then ""
  else match (e.gather o.origins).missing with
    | none => ""
    | some path => missingFileText path

end Options

/-- Standard error holds the records of a run and its failure. -/
theorem runOptions_stderr {o : Options} (hvalid : o.config.validate = .ok ()) (e : Environment) :
    (runOptions o e).stderr = Log.render o.verbose (o.log e) ++ o.failure e := by
  rw [runOptions, Options.log, Options.failure]
  cases o.help with
  | true => rfl
  | false =>
    cases o.listRules with
    | true => rfl
    | false =>
      simp only [lintInputs_of_valid hvalid e, Bool.or_self, Bool.false_eq_true, if_false]
      cases (e.gather o.origins).missing with
      | some path => simp
      | none => simp

/-! ## Runs on inputs that differ by marks -/

/-- The record of a mark. -/
def isMarkRecord : Event → Bool
  | .markStripped _ => true
  | _ => false

theorem Input.filter_events (i : Input) :
    i.events.filter (fun event => !isMarkRecord event) = i.unmarked.events := by
  rcases i with ⟨name, text, replaced, marked⟩
  by_cases hreplaced : replaced = 0 <;> cases marked <;>
    simp [Input.events, Input.unmarked, Source.unmarked, hreplaced, isMarkRecord]

theorem Log.shown_false_filter (events : List Event) :
    Log.shown false (events.filter fun event => !isMarkRecord event) = Log.shown false events := by
  rw [Log.shown, Log.shown, List.filter_filter]
  refine List.filter_congr fun event _ => ?_
  cases event <;> rfl

section

variable (c : Config) (inputs : List Input)

theorem reportText_unmarked (format : Format) :
    reportText format ((inputs.map Input.unmarked).map (analysed c)) =
      reportText format (inputs.map (analysed c)) := by
  simp only [reportText, reportSections, List.length_map, List.map_map]
  rfl

theorem any_hasIssues_unmarked :
    (((inputs.map Input.unmarked).map (analysed c)).any fun report => report.2.hasIssues) =
      (inputs.map (analysed c)).any fun report => report.2.hasIssues := by
  rw [List.any_map, List.any_map, List.any_map]
  rfl

theorem flatMap_reportEvents_unmarked :
    ((inputs.map Input.unmarked).map (analysed c)).flatMap reportEvents =
      (inputs.map (analysed c)).flatMap reportEvents := by
  rw [List.flatMap_map, List.flatMap_map, List.flatMap_map]
  rfl

theorem filter_flatMap_events :
    (inputs.flatMap Input.events).filter (fun event => !isMarkRecord event) =
      (inputs.map Input.unmarked).flatMap Input.events := by
  rw [List.filter_flatMap, List.flatMap_map]
  exact congrArg (inputs.flatMap ·) (funext Input.filter_events)

end

namespace Environment.MarkedAs

variable {plain marked : Environment} (h : plain.MarkedAs marked) (o : Options)

include h

theorem failure_eq : o.failure marked = o.failure plain := by
  rw [Options.failure, Options.failure, (h.gather o.origins).2]

/-- The records are the same but for those of the marks. -/
theorem filter_log :
    (o.log marked).filter (fun event => !isMarkRecord event) =
      (o.log plain).filter fun event => !isMarkRecord event := by
  rcases h.gather o.origins with ⟨hinputs, hmissing⟩
  have hreports := congrArg (fun inputs => (inputs.map (analysed o.config)).flatMap reportEvents)
    hinputs
  simp only [flatMap_reportEvents_unmarked] at hreports
  rw [Options.log, Options.log, hmissing, hreports]
  split
  · rfl
  · rw [List.filter_append, List.filter_append, filter_flatMap_events, filter_flatMap_events,
      hinputs]

theorem lintInputs_eq (hvalid : o.config.validate = .ok ()) :
    (lintInputs o marked).stdout = (lintInputs o plain).stdout ∧
      (lintInputs o marked).status = (lintInputs o plain).status := by
  rcases h.gather o.origins with ⟨hinputs, hmissing⟩
  have htext := congrArg
    (fun inputs => reportText o.format (inputs.map (analysed o.config))) hinputs
  have hany := congrArg
    (fun inputs => (inputs.map (analysed o.config)).any fun report => report.2.hasIssues) hinputs
  simp only [reportText_unmarked] at htext
  simp only [any_hasIssues_unmarked] at hany
  rw [lintInputs_of_valid hvalid, lintInputs_of_valid hvalid, hmissing]
  cases (plain.gather o.origins).missing with
  | some path => exact ⟨rfl, rfl⟩
  | none =>
    refine ⟨htext, ?_⟩
    simp only [hany]

/-- The result of the run is the same. -/
theorem runOptions_eq (hvalid : o.config.validate = .ok ()) :
    (runOptions o marked).stdout = (runOptions o plain).stdout ∧
      (runOptions o marked).status = (runOptions o plain).status := by
  by_cases hhelp : o.help = true
  · rw [runOptions, runOptions, if_pos hhelp, if_pos hhelp]
    exact ⟨rfl, rfl⟩
  by_cases hlist : o.listRules = true
  · rw [runOptions, runOptions, if_neg hhelp, if_neg hhelp, if_pos hlist, if_pos hlist]
    exact ⟨rfl, rfl⟩
  · rw [Bool.not_eq_true] at hhelp hlist
    rw [runOptions_of_lints hhelp hlist, runOptions_of_lints hhelp hlist]
    exact h.lintInputs_eq o hvalid

end Environment.MarkedAs

/-! ## Whole runs -/

/-- Whether a command line asks for all records. -/
def runVerbose (words : List String) : Bool :=
  match Options.parse words with
  | .error _ => false
  | .ok o => o.verbose

/-- What the run of a command line records. -/
def runLog (words : List String) (e : Environment) : List Event :=
  match Options.parse words with
  | .error _ => []
  | .ok o => o.log e

/-- The failure that ends the run of a command line. -/
def runFailure (words : List String) (e : Environment) : String :=
  match Options.parse words with
  | .error error => failureText "" error
  | .ok o => o.failure e

theorem run_stderr (words : List String) (e : Environment) :
    (run words e).stderr =
      Log.render (runVerbose words) (runLog words e) ++ runFailure words e := by
  rw [run, runVerbose, runLog, runFailure]
  cases hparse : Options.parse words with
  | error error => rfl
  | ok o => exact runOptions_stderr (Options.wellFormed_of_parse hparse).validate e

/-- A byte order mark is transparent.  In front of bytes without one, it changes neither their
text nor the number of replacements; of two marks one is kept, and so is a mark behind other
bytes.  Runs on inputs that differ by such marks have the same standard output, the same exit
status, the same failure and the same warnings on standard error, and without further records
the same standard error. -/
theorem byte_order_mark_is_transparent :
    (∀ bytes, ¬ markBytes <+: bytes →
      Source.ofBytes (markBytes ++ bytes) = { Source.ofBytes bytes with marked := true } ∧
        (Source.ofBytes bytes).marked = false) ∧
    (∀ bytes, (Source.ofBytes (markBytes ++ markBytes ++ bytes)).text =
      '\uFEFF' :: (Recovered.ofBytes bytes).text) ∧
    (∀ before bytes, before ≠ [] →
      (Source.ofBytes (before ++ markBytes ++ bytes)).text =
        (Source.ofBytes before).text ++ '\uFEFF' :: (Recovered.ofBytes bytes).text) ∧
    ∀ (words : List String) (plain marked : Environment), plain.MarkedAs marked →
      (run words marked).stdout = (run words plain).stdout ∧
      (run words marked).status = (run words plain).status ∧
      (∀ e, (run words e).stderr =
        Log.render (runVerbose words) (runLog words e) ++ runFailure words e) ∧
      runFailure words marked = runFailure words plain ∧
      Log.shown false (runLog words marked) = Log.shown false (runLog words plain) ∧
      (runVerbose words = false → (run words marked).stderr = (run words plain).stderr) := by
  refine ⟨?_, ?_, ?_, ?_⟩
  · intro bytes hbytes
    rw [Source.ofBytes_mark, Source.ofBytes_of_not_marked hbytes]
    exact ⟨rfl, rfl⟩
  · intro bytes
    rw [List.append_assoc, Source.ofBytes_mark, Text.recovered_markBytes]
    rfl
  · intro before bytes hbefore
    exact Source.text_ofBytes_append_mark hbefore bytes
  · intro words plain marked h
    have hfailure : runFailure words marked = runFailure words plain := by
      rw [runFailure, runFailure]
      cases Options.parse words with
      | error error => rfl
      | ok o => exact h.failure_eq o
    have hlog : Log.shown false (runLog words marked) = Log.shown false (runLog words plain) := by
      rw [runLog, runLog]
      cases Options.parse words with
      | error error => rfl
      | ok o => rw [← Log.shown_false_filter, h.filter_log, Log.shown_false_filter]
    have hresult : (run words marked).stdout = (run words plain).stdout ∧
        (run words marked).status = (run words plain).status := by
      rw [run, run]
      cases hparse : Options.parse words with
      | error error => exact ⟨rfl, rfl⟩
      | ok o => exact h.runOptions_eq o (Options.wellFormed_of_parse hparse).validate
    refine ⟨hresult.1, hresult.2, run_stderr words, hfailure, hlog, fun hquiet => ?_⟩
    rw [run_stderr, run_stderr, hquiet, hfailure, Log.render, Log.render, hlog]

/-- A file with an ill-formed sequence, with a mark in front of it and without. -/
theorem byte_order_mark_is_transparent_on_file :
    let environment (bytes : List UInt8) : Environment :=
      ⟨[], fun path => if path = "a.css" then some bytes else none⟩
    let bytes : List UInt8 := [0x61, 0xFF, 0x7B]
    ¬ markBytes <+: bytes ∧
      (Source.ofBytes (markBytes ++ bytes) = ⟨['a', '\uFFFD', '{'], 1, true⟩ ∧
        (Source.ofBytes bytes).marked = false) ∧
      (environment bytes).MarkedAs (environment (markBytes ++ bytes)) ∧
      runVerbose ["a.css"] = false ∧
      (run ["a.css"] (environment (markBytes ++ bytes))).stdout =
        (run ["a.css"] (environment bytes)).stdout ∧
      (run ["a.css"] (environment (markBytes ++ bytes))).stderr =
        (run ["a.css"] (environment bytes)).stderr ∧
      bytes ≠ [] ∧
      (Source.ofBytes (bytes ++ markBytes ++ bytes)).text =
        ['a', '\uFFFD', '{', '\uFEFF', 'a', '\uFFFD', '{'] := by
  intro environment bytes
  have hbytes : ¬ markBytes <+: bytes := by decide
  have hne : bytes ≠ [] := by decide
  have hfile : (environment bytes).MarkedAs (environment (markBytes ++ bytes)) := by
    refine ⟨Or.inl rfl, fun path => ?_⟩
    by_cases hpath : path = "a.css"
    · simp only [environment, hpath, if_true]
      exact .some (Or.inr ⟨hbytes, rfl⟩)
    · simp only [environment, hpath, if_false]
      exact .none
  have hquiet : runVerbose ["a.css"] = false := rfl
  rcases byte_order_mark_is_transparent.2.2.2 ["a.css"] _ _ hfile with
    ⟨hstdout, _, _, _, _, hstderr⟩
  exact ⟨hbytes, byte_order_mark_is_transparent.1 bytes hbytes, hfile, hquiet, hstdout,
    hstderr hquiet, hne, byte_order_mark_is_transparent.2.2.1 bytes bytes hne⟩

end CommandLine

end SheetLint
