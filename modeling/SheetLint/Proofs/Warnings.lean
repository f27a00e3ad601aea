import SheetLint.Proofs.ByteOrderMark
import SheetLint.Proofs.Encoding
import SheetLint.Proofs.LogText

/-!
# Warnings about replaced bytes

A run warns about an input when bytes of it were replaced, and about nothing else.  So the
warnings of a run can be told from the bytes that it reads: there is one for each input whose
bytes are not valid.

Main results:

- Definition `Environment.reads` lists the origins that are read with their bytes, up to the
  first missing file, and `Environment.gather_inputs` says that these are the inputs of a run.
- Theorem `level_of_mem_reportEvents` says that an analysis gives no warning.
- Theorem `shown_runLog` lists the warnings of a run by what it reads, and `run_stderr_of_quiet`
  gives the text of standard error in a run that leaves out the details.
- Theorem `valid_bytes_are_recovered` says that recovering text changes invalid bytes and no others,
  and that a run warns exactly about those.
-/

namespace SheetLint

/-! ## Details of an analysis -/

theorem Config.level_of_mem_runFrom {c : Config} {sheet : Stylesheet} {rules : List Rule}
    {issues : List Issue} {event : Event} (hevent : event ∈ (c.runFrom sheet issues rules).2) :
    event.level = .debug := by
  induction rules generalizing issues with
  | nil => cases hevent
  | cons rule rest ih =>
    unfold runFrom at hevent
    split at hevent
    · dsimp only at hevent
      split at hevent
      · rw [List.mem_singleton.mp hevent]
        rfl
      · rcases List.mem_cons.mp hevent with rfl | hrest
        · rfl
        · exact ih hrest
    · rcases List.mem_cons.mp hevent with rfl | hrest
      · rfl
      · exact ih hrest

theorem Analysis.level_of_mem_events {c : Config} {text : List Char} {event : Event}
    (hevent : event ∈ (run c text).events) : event.level = .debug := by
  have hevents : (run c text).events = (c.runFrom (Stylesheet.ofText text) [] Rule.all).2 ++
      [.analysed (Stylesheet.ofText text).selectors.length (Stylesheet.ofText text).lines.length
        (run c text).issues.length] := rfl
  rw [hevents] at hevent
  rcases List.mem_append.mp hevent with hrules | hlast
  · exact Config.level_of_mem_runFrom hrules
  · rw [List.mem_singleton.mp hlast]
    rfl

namespace CommandLine

open Utf8 (Recovered encode)

theorem level_of_mem_reportEvents {c : Config} {input : Input} {event : Event}
    (hevent : event ∈ reportEvents (analysed c input)) : event.level = .debug := by
  rcases List.mem_append.mp hevent with hanalysis | hlast
  · exact Analysis.level_of_mem_events hanalysis
  · rw [List.mem_singleton.mp hlast]
    rfl

/-- An analysis warns about nothing. -/
theorem shown_reportEvents (c : Config) (inputs : List Input) :
    Log.shown false ((inputs.map (analysed c)).flatMap reportEvents) = [] := by
  rw [Log.shown, List.filter_eq_nil_iff]
  intro event hevent
  rcases List.mem_flatMap.mp hevent with ⟨report, hreport, hmem⟩
  rcases List.mem_map.mp hreport with ⟨input, -, rfl⟩
  simp [level_of_mem_reportEvents hmem]

/-! ## What is read -/

namespace Environment

instance (e : Environment) : (origin : Origin) → Decidable (e.Provides origin)
  | .sample => isTrue trivial
  | .standardInput => isTrue trivial
  | .file path => inferInstanceAs (Decidable (e.file path ≠ none))

/-- The bytes of an origin that stands behind some others; those of the sample encode its
text. -/
def bytes (e : Environment) (earlier : List Origin) : Origin → List UInt8
  | .sample => encode Sample.starterStylesheet.toList
  | .standardInput => if .standardInput ∈ earlier then [] else e.standardInput
  | .file path => (e.file path).getD []

/-- The origins in front of the first missing file. -/
def present (e : Environment) (origins : List Origin) : List Origin :=
  origins.takeWhile fun origin => e.Provides origin

/-- The origins in front of the first missing file with their bytes. -/
def reads (e : Environment) (origins : List Origin) : List (Origin × List UInt8) :=
  (e.present origins).mapIdx fun k origin => (origin, e.bytes ((e.present origins).take k) origin)

variable (e : Environment)

/-- The inputs that are gathered stand in front of the first missing file. -/
theorem gather_inputs (origins : List Origin) :
    (e.gather origins).inputs = e.inputs (e.present origins) := by
  have hpresent : ∀ origin ∈ e.present origins, e.Provides origin := fun origin horigin =>
    of_decide_eq_true (List.all_eq_true.mp List.all_takeWhile origin horigin)
  obtain ⟨rest, hsplit, hrest⟩ : ∃ rest, origins = e.present origins ++ rest ∧
      ∀ origin ∈ rest.head?, ¬ e.Provides origin := by
    refine ⟨_, List.takeWhile_append_dropWhile.symm, fun origin horigin => ?_⟩
    have hfirst := List.head?_dropWhile_not (fun origin => decide (e.Provides origin)) origins
    rw [Option.mem_def.mp horigin] at hfirst
    exact of_decide_eq_false hfirst
  -- What follows begins with a missing file, if there is anything, and nothing of it is gathered.
  have hnone : ((e.behind (e.present origins)).gather rest).inputs = [] := by
    cases rest with
    | nil => rfl
    | cons origin rest =>
      have hmissing := hrest origin rfl
      cases origin with
      | sample => exact absurd trivial hmissing
      | standardInput => exact absurd trivial hmissing
      | file path =>
        have hfile : e.file path = none := Decidable.not_not.mp hmissing
        simp [gather, hfile]
  calc (e.gather origins).inputs
      = (e.gather (e.present origins ++ rest)).inputs := by rw [← hsplit]
    _ = e.inputs (e.present origins) := by rw [gather_append hpresent, hnone, List.append_nil]

theorem replaced_input (earlier : List Origin) (origin : Origin) :
    (e.input earlier origin).source.replaced =
      (Recovered.ofBytes (e.bytes earlier origin)).replaced := by
  cases origin with
  | sample =>
    rw [bytes, Recovered.ofBytes_encode]
    rfl
  | standardInput => rfl
  | file path => rfl

end Environment

/-! ## Warnings -/

/-- The warning about an input: none if its bytes are valid, and else one with the number of
replacements. -/
def warning (origin : Origin) (bytes : List UInt8) : List Event :=
  if bytes.toByteArray.validateUTF8 then []
  else [.sequencesReplaced origin.name (Recovered.ofBytes bytes).replaced]

theorem replaced_eq_zero_iff_validateUTF8 (bytes : List UInt8) :
    (Recovered.ofBytes bytes).replaced = 0 ↔ bytes.toByteArray.validateUTF8 = true := by
  rw [Recovered.replaced_eq_zero_iff, ByteArray.validateUTF8_eq_true_iff, Utf8.isValidUTF8_iff]

theorem Input.shown_events (i : Input) :
    Log.shown false i.events =
      if i.source.replaced = 0 then [] else [.sequencesReplaced i.name i.source.replaced] := by
  by_cases hreplaced : i.source.replaced = 0 <;> cases hmarked : i.source.marked <;>
    simp [Input.events, Log.shown, Event.level, hreplaced, hmarked]

theorem shown_events_input (e : Environment) (earlier : List Origin) (origin : Origin) :
    Log.shown false (e.input earlier origin).events =
      warning origin (e.bytes earlier origin) := by
  rw [Input.shown_events, e.name_input, e.replaced_input, warning]
  simp only [replaced_eq_zero_iff_validateUTF8]

/-- While some origins are read, it is warned about each of them whose bytes are not valid. -/
theorem shown_events_gather (e : Environment) (origins : List Origin) :
    Log.shown false ((e.gather origins).inputs.flatMap Input.events) =
      (e.reads origins).flatMap fun (origin, bytes) => warning origin bytes := by
  rw [e.gather_inputs, Environment.inputs, Environment.reads, List.mapIdx_eq_zipIdx_map,
    List.mapIdx_eq_zipIdx_map, List.flatMap_map, List.flatMap_map, Log.shown, List.filter_flatMap]
  refine congrArg (List.flatMap · _) (funext fun place => ?_)
  exact shown_events_input e _ _

/-- The origins that a run reads with their bytes; there are none if it gives help or the list of
rules. -/
def Options.reads (o : Options) (e : Environment) : List (Origin × List UInt8) :=
  if o.help || o.listRules then [] else e.reads o.origins

theorem Options.shown_log (o : Options) (e : Environment) :
    Log.shown false (o.log e) =
      (o.reads e).flatMap fun (origin, bytes) => warning origin bytes := by
  rw [Options.log, Options.reads]
  split
  · rfl
  · have hreports : Log.shown false (if (e.gather o.origins).missing.isSome then []
        else ((e.gather o.origins).inputs.map (analysed o.config)).flatMap reportEvents) = [] := by
      split
      · rfl
      · exact shown_reportEvents o.config _
    rw [Log.shown, List.filter_append, ← Log.shown, ← Log.shown, hreports, List.append_nil,
      shown_events_gather]

/-! ## Whole runs -/

/-- The origins that the run of a command line reads with their bytes. -/
def runReads (words : List String) (e : Environment) : List (Origin × List UInt8) :=
  match Options.parse words with
  | .error _ => []
  | .ok o => o.reads e

/-- A run warns about each input that it reads whose bytes are not valid, in order, and about
nothing else. -/
theorem shown_runLog (words : List String) (e : Environment) :
    Log.shown false (runLog words e) =
      (runReads words e).flatMap fun (origin, bytes) => warning origin bytes := by
  rw [runLog, runReads]
  cases Options.parse words with
  | error error => rfl
  | ok o => exact o.shown_log e

/-- What standard error has about an input that was read, if details are left out. -/
def warningText (origin : Origin) (bytes : List UInt8) : String :=
  if bytes.toByteArray.validateUTF8 then ""
  else "[WARN  style_lint] " ++ Event.shownMessage (origin.name ++ ": replaced " ++
    toString (Recovered.ofBytes bytes).replaced ++ " invalid UTF-8 sequences")

theorem join_render_warning (origin : Origin) (bytes : List UInt8) :
    String.join ((warning origin bytes).map Event.render) = warningText origin bytes := by
  unfold warning warningText
  split
  · rfl
  · rw [List.map_singleton, String.join_cons, String.join_nil, String.append_empty,
      Event.render_eq]
    rfl

/-- Without details, standard error has nothing but the warnings and the failure. -/
theorem run_stderr_of_quiet {words : List String} (hquiet : runVerbose words = false)
    (e : Environment) :
    (run words e).stderr =
      String.join ((runReads words e).map fun (origin, bytes) => warningText origin bytes) ++
        runFailure words e := by
  rw [run_stderr, hquiet, Log.render, shown_runLog]
  generalize runReads words e = reads
  refine congrArg (· ++ runFailure words e) ?_
  induction reads with
  | nil => rfl
  | cons first rest ih =>
    rw [List.flatMap_cons, List.map_append, String.join_append, ih, List.map_cons,
      String.join_cons, join_render_warning]

/-- What a run reads has the names of its inputs in their order. -/
theorem runReads_names {words : List String} {o : Options} (hparse : Options.parse words = .ok o)
    (e : Environment) : (runReads words e).map (fun read => read.1.name) <+: o.inputNames := by
  have hreads : runReads words e = o.reads e := by
    rw [runReads, hparse]
  rw [hreads, Options.reads]
  split
  · exact List.nil_prefix
  · have horigins : (e.reads o.origins).map Prod.fst = e.present o.origins :=
      List.ext_getElem (by simp [Environment.reads]) fun k _ _ => by simp [Environment.reads]
    have hnames : (e.reads o.origins).map (fun read => read.1.name) =
        (e.present o.origins).map Origin.name := by
      rw [← horigins, List.map_map]
      rfl
    rw [hnames, ← Options.map_name_origins]
    exact (List.takeWhile_prefix _).map Origin.name

/-- The bytes of a text are recovered as this text without a replacement, whatever characters it
has.  No replacement is reported exactly for the bytes of the recovered text, and exactly for
valid bytes; what was recovered once stays as it is.  Standard error of a run has the records of
the run, or just the warnings among them, in front of its failure.  There is a warning for each
input that the run reads whose bytes are not valid, with the name of the input, and no other
warning; all other records are shown as details. -/
theorem valid_bytes_are_recovered :
    (∀ text : List Char, Recovered.ofBytes (encode text) = ⟨text, 0⟩) ∧
    (∀ bytes : List UInt8,
      ((Recovered.ofBytes bytes).replaced = 0 ↔
        bytes = encode (Recovered.ofBytes bytes).text) ∧
      ((Recovered.ofBytes bytes).replaced = 0 ↔ bytes.toByteArray.validateUTF8 = true) ∧
      Recovered.ofBytes (encode (Recovered.ofBytes bytes).text) =
        ⟨(Recovered.ofBytes bytes).text, 0⟩) ∧
    (∀ (words : List String) (e : Environment),
      (run words e).stderr =
        String.join (((runLog words e).filter fun event =>
          runVerbose words || event.level = .warn).map Event.render) ++ runFailure words e ∧
      (runLog words e).filter (fun event => event.level = .warn) =
        (runReads words e).flatMap (fun (origin, bytes) =>
          if bytes.toByteArray.validateUTF8 then []
          else [.sequencesReplaced origin.name (Recovered.ofBytes bytes).replaced]) ∧
      (runVerbose words = false → (run words e).stderr =
        String.join ((runReads words e).map fun (origin, bytes) =>
          if bytes.toByteArray.validateUTF8 then ""
          else "[WARN  style_lint] " ++ Event.shownMessage (origin.name ++ ": replaced " ++
            toString (Recovered.ofBytes bytes).replaced ++ " invalid UTF-8 sequences")) ++
          runFailure words e) ∧
      ∀ o, Options.parse words = .ok o →
        (runReads words e).map (fun read => read.1.name) <+: o.inputNames) ∧
    (∀ (input : String) (count : Nat),
      (Event.sequencesReplaced input count).render =
        "[WARN  style_lint] " ++ Event.shownMessage
          (input ++ ": replaced " ++ toString count ++ " invalid UTF-8 sequences") ∧
      (Event.IsPlain input → (Event.sequencesReplaced input count).render =
        "[WARN  style_lint] " ++ input ++ ": replaced " ++ toString count ++
          " invalid UTF-8 sequences" ++ "\n")) ∧
    ∀ event : Event, event.level = .debug → ∃ rest, event.render = "[DEBUG " ++ rest := by
  refine ⟨Recovered.ofBytes_encode, fun bytes => ⟨?_, ?_, ?_⟩, fun words e => ⟨?_, ?_, ?_, ?_⟩,
    fun input count => ⟨Event.render_eq _, fun h => Event.render_sequencesReplaced h count⟩,
    fun _ => Event.exists_render_of_debug⟩
  · rw [Recovered.replaced_eq_zero_iff]
    exact Utf8.illFormed_not_mem_iff bytes
  · exact replaced_eq_zero_iff_validateUTF8 bytes
  · exact Recovered.ofBytes_encode _
  · exact run_stderr words e
  · have hwarnings := shown_runLog words e
    simp only [Log.shown, Bool.false_or] at hwarnings
    exact hwarnings
  · exact fun hquiet => run_stderr_of_quiet hquiet e
  · exact fun o hparse => runReads_names hparse e

/-- Of two files, the first one has a byte that belongs to no sequence, and the second one spells
out a replacement character. -/
theorem valid_bytes_are_recovered_from_two_files :
    let words := ["a.css", "b.css"]
    let e : Environment :=
      ⟨[], fun path =>
        if path = "a.css" then some [0x61, 0xFF] else some [0x61, 0xEF, 0xBF, 0xBD]⟩
    Options.parse words = .ok ⟨.initial, .text, words, false, false, false, false⟩ ∧
      (runReads words e).map (fun read => read.1.name) <+: ["a.css", "b.css"] ∧
      runVerbose words = false ∧
      Event.IsPlain "a.css" ∧
      (run words e).stderr =
        "[WARN  style_lint] a.css: replaced 1 invalid UTF-8 sequences\n" ∧
      (Event.markStripped "a.css").level = .debug ∧
      ∃ rest, (Event.markStripped "a.css").render = "[DEBUG " ++ rest := by
  intro words e
  have hparse : Options.parse words = .ok ⟨.initial, .text, words, false, false, false, false⟩ :=
    rfl
  have hquiet : runVerbose words = false := rfl
  have hplain : Event.IsPlain "a.css" := by decide
  rcases valid_bytes_are_recovered with ⟨_, hbytes, hruns, hwarnings, hdetails⟩
  rcases hruns words e with ⟨_, _, hstderr, hnames⟩
  have hreplaced : (Recovered.ofBytes [0x61, 0xFF]).replaced = 1 := by decide
  have hinvalid : ¬ [0x61, 0xFF].toByteArray.validateUTF8 = true := by
    rw [← (hbytes [0x61, 0xFF]).2.1, hreplaced]
    decide
  have hvalid : [0x61, 0xEF, 0xBF, 0xBD].toByteArray.validateUTF8 = true :=
    (hbytes [0x61, 0xEF, 0xBF, 0xBD]).2.1.mp (by decide)
  have hfirst : warningText (.file "a.css") [0x61, 0xFF] =
      "[WARN  style_lint] a.css: replaced 1 invalid UTF-8 sequences\n" := by
    rcases hwarnings "a.css" 1 with ⟨hrender, hplainly⟩
    rw [warningText, if_neg hinvalid, hreplaced, Origin.name, ← hrender, hplainly hplain]
    rfl
  have hsecond : warningText (.file "b.css") [0x61, 0xEF, 0xBF, 0xBD] = "" := if_pos hvalid
  refine ⟨hparse, hnames _ hparse, hquiet, hplain, ?_, rfl, hdetails _ rfl⟩
  calc (run words e).stderr
      = String.join [warningText (.file "a.css") [0x61, 0xFF],
          warningText (.file "b.css") [0x61, 0xEF, 0xBF, 0xBD]] ++ "" := hstderr hquiet
    _ = "[WARN  style_lint] a.css: replaced 1 invalid UTF-8 sequences\n" := by
      rw [hfirst, hsecond]
      rfl

end CommandLine

end SheetLint
