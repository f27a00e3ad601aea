import SheetLint.Proofs.Gathering

/-!
# Runs on several inputs

A run on several inputs says what the runs on each of them alone say.  The run on one input asks
for it by a command line of its own and is given that input and nothing else, so no input has a
part in what is said about another one.

Main results:

- Definitions `Options.only` and `Environment.only` cut a run down to one of its inputs.
- Theorem `Options.reports_only` says that the run on one input makes the report that the run
  on all of them makes about it.
- Theorem `run_of_several_inputs` composes a run from the runs on its inputs.
-/

namespace SheetLint.CommandLine

/-! ## Runs on one input -/

/-- A command line of options, each switch by its long flag. -/
def Options.words (o : Options) : List String :=
  (o.groups fun which => which.flags.getLast?.getD "").flatMap Group.words

/-- The same options, but for one origin. -/
def Options.only (o : Options) : Origin → Options
  | .sample => { o with sample := true, files := [] }
  | .standardInput => { o with sample := false, files := ["-"] }
  | .file path => { o with sample := false, files := [path] }

/-- Nothing but what an origin provides behind some others. -/
def Environment.only (e : Environment) (earlier : List Origin) : Origin → Environment
  | .sample => ⟨[], fun _ => none⟩
  | .standardInput =>
    ⟨if .standardInput ∈ earlier then [] else e.standardInput, fun _ => none⟩
  | .file path => ⟨[], fun other => if other = path then e.file path else none⟩

/-- The runs on the inputs of a run, each with the name of its input. -/
def Options.singleRuns (o : Options) (e : Environment) : List (String × Outcome) :=
  o.origins.mapIdx fun k origin =>
    (origin.name, run (o.only origin).words (e.only (o.origins.take k) origin))

namespace Options

variable {o : Options} {e : Environment} {origin : Origin}

theorem parse_words (ho : o.WellFormed) : parse o.words = .ok o :=
  ho.parse_flatMap_words (fun which => by cases which <;> decide) ⟨.refl _, rfl, rfl, rfl⟩

@[simp]
theorem only_config (o : Options) (origin : Origin) : (o.only origin).config = o.config := by
  cases origin <;> rfl

@[simp]
theorem only_format (o : Options) (origin : Origin) : (o.only origin).format = o.format := by
  cases origin <;> rfl

@[simp]
theorem only_help (o : Options) (origin : Origin) : (o.only origin).help = o.help := by
  cases origin <;> rfl

@[simp]
theorem only_listRules (o : Options) (origin : Origin) :
    (o.only origin).listRules = o.listRules := by
  cases origin <;> rfl

/-- A file among the origins of a run is a path of the run other than the hyphen. -/
theorem mem_files_of_mem_origins {path : String} (hpath : .file path ∈ o.origins) :
    path ∈ o.files ∧ path ≠ "-" := by
  have hmem : .file path ∈ o.files.map Origin.ofPath := by
    unfold origins at hpath
    revert hpath
    cases o.sample <;> cases o.files <;> simp
  rcases List.mem_map.mp hmem with ⟨other, hother, hsame⟩
  unfold Origin.ofPath at hsame
  split at hsame
  next => cases hsame
  next hne =>
    cases hsame
    exact ⟨hother, hne⟩

theorem WellFormed.only (ho : o.WellFormed) (horigin : origin ∈ o.origins) :
    (o.only origin).WellFormed := {
  enabled := by
    rw [only_config]
    exact ho.enabled
  disabled := by
    rw [only_config]
    exact ho.disabled
  limit := by
    rw [only_config]
    exact ho.limit
  paths := by
    cases origin with
    | sample =>
      intro path hpath
      cases hpath
    | standardInput =>
      intro path hpath
      exact Or.inl (List.mem_singleton.mp hpath)
    | file path =>
      intro other hother
      rw [List.mem_singleton.mp hother]
      exact ho.paths path (mem_files_of_mem_origins horigin).1 }

theorem origins_only (horigin : origin ∈ o.origins) : (o.only origin).origins = [origin] := by
  cases origin with
  | sample => rfl
  | standardInput => rfl
  | file path =>
    have hne := (mem_files_of_mem_origins horigin).2
    simp [origins, only, Origin.ofPath, hne]

theorem readable_only (e : Environment) (earlier : List Origin) (horigin : origin ∈ o.origins)
    (hprovides : e.Provides origin) : (o.only origin).Readable (e.only earlier origin) := by
  rw [← provides_origins_iff, origins_only horigin]
  intro other hother
  rw [List.mem_singleton.mp hother]
  cases origin with
  | sample => trivial
  | standardInput => trivial
  | file path => simpa [Environment.Provides, Environment.only] using hprovides

theorem input_only (e : Environment) (earlier : List Origin) (origin : Origin) :
    (e.only earlier origin).input [] origin = e.input earlier origin := by
  cases origin <;> simp [Environment.input, Environment.only]

/-- The run on one input makes the report on it that the run on all inputs makes. -/
theorem reports_only (e : Environment) (earlier : List Origin) (horigin : origin ∈ o.origins) :
    (o.only origin).reports (e.only earlier origin) =
      [analysed o.config (e.input earlier origin)] := by
  rw [reports, inputs, origins_only horigin, Environment.inputs, only_config]
  simp [input_only]

end Options

/-! ## Composing runs -/

/-- A run on one input ends with the report on it and says whether it has issues. -/
theorem run_words_only {o : Options} {e : Environment} {origin : Origin} (ho : o.WellFormed)
    (hhelp : o.help = false) (hlist : o.listRules = false) (horigin : origin ∈ o.origins)
    (hprovides : e.Provides origin) (earlier : List Origin) :
    (run (o.only origin).words (e.only earlier origin)).stdout =
        reportBody o.format (Analysis.run o.config (e.input earlier origin).source.text) ∧
      (run (o.only origin).words (e.only earlier origin)).status.code =
        (Analysis.run o.config (e.input earlier origin).source.text).hasIssues.toNat := by
  have hparse := Options.parse_words (ho.only horigin)
  have hread := Options.readable_only e earlier horigin hprovides
  rcases run_of_readable hparse (by simpa using hhelp) (by simpa using hlist) hread with
    ⟨hstdout, hcode⟩
  constructor
  · rw [hstdout, Options.reports_only e earlier horigin, reportText_single, Options.only_format,
      analysed]
  · rw [hcode, Options.reports_only e earlier horigin, List.any_cons, List.any_nil, Bool.or_false,
      analysed]

/-- The runs on single inputs end with the reports of the run on all of them. -/
theorem singleRuns_eq_reports {o : Options} {e : Environment} (ho : o.WellFormed)
    (hhelp : o.help = false) (hlist : o.listRules = false) (hread : o.Readable e) :
    (o.singleRuns e).map (fun single => (single.1, single.2.stdout, single.2.status.code)) =
      (o.reports e).map fun report =>
        (report.1.name, reportBody o.format report.2, report.2.hasIssues.toNat) := by
  refine List.ext_getElem (by simp [Options.singleRuns, Options.reports, Options.inputs,
    Environment.inputs]) fun k hk _ => ?_
  have hlt : k < o.origins.length := by
    simpa [Options.singleRuns] using hk
  have horigin : o.origins[k] ∈ o.origins := List.getElem_mem hlt
  have hprovides := (o.provides_origins_iff e).mpr hread _ horigin
  rcases run_words_only ho hhelp hlist horigin hprovides (o.origins.take k) with ⟨hstdout, hcode⟩
  simp only [Options.singleRuns, Options.reports, Options.inputs, Environment.inputs, analysed,
    List.getElem_map, List.getElem_mapIdx, hstdout, hcode, Environment.name_input]

/-- The runs on single inputs have the names of the inputs. -/
theorem map_fst_singleRuns (o : Options) (e : Environment) :
    (o.singleRuns e).map Prod.fst = o.inputNames := by
  rw [← Options.map_name_origins, Options.singleRuns]
  refine List.ext_getElem (by simp) fun k _ _ => ?_
  simp only [List.getElem_map, List.getElem_mapIdx]

/-- The greatest of some truth values is whether any of them holds. -/
theorem max?_map_toNat {α : Type} {items : List α} (hne : items ≠ []) (found : α → Bool) :
    (items.map fun item => (found item).toNat).max? = some (items.any found).toNat := by
  rw [List.max?_eq_some_iff]
  constructor
  · cases hany : items.any found with
    | true =>
      rcases List.any_eq_true.mp hany with ⟨item, hitem, hfound⟩
      exact List.mem_map.mpr ⟨item, hitem, by rw [hfound]⟩
    | false =>
      rcases List.exists_mem_of_ne_nil items hne with ⟨item, hitem⟩
      have hfound : found item = false := by
        simpa using List.any_eq_false.mp hany item hitem
      exact List.mem_map.mpr ⟨item, hitem, by rw [hfound]⟩
  · intro code hcode
    rcases List.mem_map.mp hcode with ⟨item, hitem, rfl⟩
    cases hfound : found item with
    | false => exact Nat.zero_le _
    | true =>
      have hany : items.any found = true := List.any_eq_true.mpr ⟨item, hitem, hfound⟩
      exact Nat.le_of_eq (by rw [hany])

/-- A run on several inputs, none of which is missing, prints what the runs on each of them alone
print: as text in sections that are headed by the names of the inputs and have an empty line
between them, and as data without anything added.  Its exit status is the greatest of theirs.
These runs have the same configuration and format, and are given nothing but their input; standard
input is empty for all but the first that reads it.  Their names are those of the sample and of
standard input, and the paths of the files. -/
theorem run_of_several_inputs {words : List String} {o : Options} {e : Environment}
    (hparse : Options.parse words = .ok o) (hhelp : o.help = false) (hlist : o.listRules = false)
    (hread : ∀ path ∈ o.files, path ≠ "-" → e.file path ≠ none) (hseveral : 2 ≤ o.origins.length) :
    (∀ origin ∈ o.origins, Options.parse (o.only origin).words = .ok (o.only origin)) ∧
    (o.singleRuns e).map Prod.fst = o.inputNames ∧
    (o.format = .text → (run words e).stdout =
      String.intercalate "\n" ((o.singleRuns e).map fun single =>
        single.1 ++ ":\n" ++ single.2.stdout)) ∧
    (o.format = .json → (run words e).stdout =
      String.join ((o.singleRuns e).map fun single => single.2.stdout)) ∧
    ((o.singleRuns e).map fun single => single.2.status.code).max? =
      some (run words e).status.code := by
  have ho := Options.wellFormed_of_parse hparse
  have hreadable := (o.readable_iff e).mpr hread
  have hsingle := singleRuns_eq_reports ho hhelp hlist hreadable
  have hlength : 2 ≤ (o.reports e).length := by
    simpa [Options.reports, Options.inputs, Environment.inputs] using hseveral
  rcases run_of_readable hparse hhelp hlist hreadable with ⟨hstdout, hcode⟩
  rw [hstdout, hcode]
  refine ⟨fun origin horigin => Options.parse_words (ho.only horigin), map_fst_singleRuns o e,
    fun htext => ?_, fun hjson => ?_, ?_⟩
  · have hsections := congrArg (List.map fun single => single.1 ++ ":\n" ++ single.2.1) hsingle
    simp only [List.map_map, Function.comp_def, htext] at hsections
    have hmany : (o.reports e).length ≠ 1 := by omega
    rw [htext, reportText_text, hsections]
    simp only [if_neg hmany]
  · have hbodies := congrArg (List.map fun single => single.2.1) hsingle
    simp only [List.map_map, Function.comp_def, hjson] at hbodies
    rw [hjson, reportText_json, hbodies]
  · have hcodes := congrArg (List.map fun single => single.2.2) hsingle
    simp only [List.map_map, Function.comp_def] at hcodes
    have hne : o.reports e ≠ [] := List.ne_nil_of_length_pos (by omega)
    rw [hcodes]
    exact max?_map_toNat hne fun report => report.2.hasIssues

/-- The sample, standard input twice, and a file. -/
theorem run_of_several_inputs_with_sample :
    let o : Options := ⟨.initial, .text, ["-", "a.css", "-"], true, false, false, false⟩
    let e : Environment :=
      ⟨[46, 97, 123], fun path => if path = "a.css" then some [98, 123] else none⟩
    Options.parse ["--sample", "-", "a.css", "-"] = .ok o ∧
      (o.singleRuns e).map Prod.fst = ["<sample>", "<stdin>", "a.css", "<stdin>"] ∧
      (run ["--sample", "-", "a.css", "-"] e).stdout =
        String.intercalate "\n"
          ((o.singleRuns e).map fun single => single.1 ++ ":\n" ++ single.2.stdout) := by
  intro o e
  have hparse : Options.parse ["--sample", "-", "a.css", "-"] = .ok o := rfl
  have hread : ∀ path ∈ ["-", "a.css", "-"], path ≠ "-" → e.file path ≠ none := by
    simp [e]
  rcases run_of_several_inputs hparse rfl rfl hread (by decide) with
    ⟨_, hnames, htext, _, _⟩
  exact ⟨hparse, hnames, htext rfl⟩

end SheetLint.CommandLine
