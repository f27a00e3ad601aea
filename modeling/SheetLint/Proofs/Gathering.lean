import SheetLint.Proofs.Arrangement
import SheetLint.Proofs.Reports

/-!
# What a run reads and reports

The inputs of a run are read one after the other, and standard input is used up by the first of
them that asks for it.  This module describes the inputs place by place, and the reports on
them without the steps that make them.

Main results:

- Definitions `Options.Readable` and `Options.FirstMissing` say whether every path of a run can be
  read, and which one is the first that cannot.
- Definition `Options.inputs` gives the inputs of a run by their origins alone.
- Theorem `Environment.gather_append` is the invariant of the reading: what lies ahead is read in
  the environment that the origins behind leave.
- Theorems `run_of_readable` and `lintInputs_of_firstMissing` say how a run ends when every path can
  be read, and when one cannot.
-/

namespace SheetLint.CommandLine

/-! ## Paths -/

/-- A path can be read when it stands for standard input or is the path of a file. -/
def Environment.Holds (e : Environment) (path : String) : Prop :=
  path = "-" ∨ e.file path ≠ none

instance (e : Environment) (path : String) : Decidable (e.Holds path) :=
  inferInstanceAs (Decidable (_ ∨ _))

namespace Options

/-- Every path of a run can be read. -/
def Readable (o : Options) (e : Environment) : Prop :=
  ∀ path ∈ o.files, e.Holds path

/-- The first path of a run that cannot be read. -/
def FirstMissing (o : Options) (e : Environment) (path : String) : Prop :=
  ¬ e.Holds path ∧
    ∃ before after, o.files = before ++ path :: after ∧ ∀ earlier ∈ before, e.Holds earlier

theorem not_readable_iff (o : Options) (e : Environment) :
    ¬ o.Readable e ↔ ∃ path ∈ o.files, path ≠ "-" ∧ e.file path = none := by
  simp [Readable, Environment.Holds]

theorem readable_iff (o : Options) (e : Environment) :
    o.Readable e ↔ ∀ path ∈ o.files, path ≠ "-" → e.file path ≠ none := by
  refine forall₂_congr fun path _ => ?_
  exact Decidable.or_iff_not_imp_left

/-- Some path is the first that cannot be read, unless all can. -/
theorem exists_firstMissing {o : Options} {e : Environment} (hmissing : ¬ o.Readable e) :
    ∃ path, o.FirstMissing e path := by
  have hfind : ((o.files.find? fun path => decide (¬ e.Holds path))).isSome = true := by
    simpa [Readable] using hmissing
  rcases Option.isSome_iff_exists.mp hfind with ⟨path, hpath⟩
  rcases List.find?_eq_some_iff_append.mp hpath with ⟨hno, before, after, hfiles, hbefore⟩
  refine ⟨path, of_decide_eq_true hno, before, after, hfiles, fun earlier hmem => ?_⟩
  simpa using hbefore earlier hmem

end Options

/-! ## Inputs -/

namespace Environment

/-- An origin provides an input unless it is a missing file. -/
def Provides (e : Environment) : Origin → Prop
  | .sample => True
  | .standardInput => True
  | .file path => e.file path ≠ none

/-- The input of an origin that stands behind some others: the sample, the bytes of standard
input if none of the others took them, or the bytes of a file. -/
def input (e : Environment) (earlier : List Origin) (origin : Origin) : Input :=
  match origin with
  | .sample => ⟨origin.name, Source.ofText Sample.starterStylesheet.toList⟩
  | .standardInput =>
    ⟨origin.name, Source.ofBytes (if .standardInput ∈ earlier then [] else e.standardInput)⟩
  | .file path => ⟨origin.name, Source.ofBytes ((e.file path).getD [])⟩

/-- What is left to be read behind some origins. -/
def behind (e : Environment) (earlier : List Origin) : Environment :=
  if .standardInput ∈ earlier then e.exhausted else e

/-- The inputs of some origins in their order. -/
def inputs (e : Environment) (origins : List Origin) : List Input :=
  origins.mapIdx fun k origin => e.input (origins.take k) origin

end Environment

/-- The inputs of a run. -/
def Options.inputs (o : Options) (e : Environment) : List Input :=
  e.inputs o.origins

/-- The names of the inputs of a run: that of the sample, if it is asked for, and every path, a
hyphen under the name of standard input.  Without any, there is standard input alone. -/
def Options.inputNames (o : Options) : List String :=
  if o.sample = false ∧ o.files = [] then ["<stdin>"]
  else (if o.sample then ["<sample>"] else []) ++
    o.files.map fun path => if path = "-" then "<stdin>" else path

namespace Environment

variable (e : Environment)

theorem name_input (earlier : List Origin) (origin : Origin) :
    (e.input earlier origin).name = origin.name := by
  cases origin <;> rfl

/-- An input has the name of its origin. -/
theorem map_name_inputs (origins : List Origin) :
    (e.inputs origins).map Input.name = origins.map Origin.name := by
  refine List.ext_getElem (by simp [inputs]) fun k _ _ => ?_
  simp only [inputs, List.getElem_map, List.getElem_mapIdx, name_input]

@[simp]
theorem behind_file (earlier : List Origin) : (e.behind earlier).file = e.file := by
  unfold behind
  split <;> rfl

theorem behind_standardInput (earlier : List Origin) :
    (e.behind earlier).standardInput =
      if .standardInput ∈ earlier then [] else e.standardInput := by
  unfold behind
  split <;> rfl

theorem behind_cons (origin : Origin) (earlier : List Origin) :
    (e.behind [origin]).behind earlier = e.behind (origin :: earlier) := by
  by_cases horigin : origin = .standardInput
  · subst horigin
    by_cases hearlier : Origin.standardInput ∈ earlier <;> simp [behind, hearlier, exhausted]
  · have hne : Origin.standardInput ≠ origin := fun h => horigin h.symm
    simp [behind, hne]

theorem input_behind (origin : Origin) (earlier : List Origin) (next : Origin) :
    (e.behind [origin]).input earlier next = e.input (origin :: earlier) next := by
  cases next with
  | sample => rfl
  | standardInput =>
    have hsame : (if .standardInput ∈ earlier then [] else (e.behind [origin]).standardInput) =
        if .standardInput ∈ origin :: earlier then [] else e.standardInput := by
      rw [← behind_standardInput, behind_cons, behind_standardInput]
    simp only [input, hsame]
  | file path => simp only [input, behind_file]

theorem inputs_cons (origin : Origin) (rest : List Origin) :
    e.inputs (origin :: rest) = e.input [] origin :: (e.behind [origin]).inputs rest := by
  simp [inputs, List.mapIdx_cons, input_behind]

theorem provides_behind (earlier : List Origin) (origin : Origin) :
    (e.behind earlier).Provides origin ↔ e.Provides origin := by
  cases origin <;> simp [Provides]

/-- One origin is read, and the others in the environment that it leaves. -/
theorem gather_cons {e : Environment} {origin : Origin} (horigin : e.Provides origin)
    (rest : List Origin) :
    e.gather (origin :: rest) =
      ⟨e.input [] origin :: ((e.behind [origin]).gather rest).inputs,
        ((e.behind [origin]).gather rest).missing⟩ := by
  cases origin with
  | sample => rfl
  | standardInput => rfl
  | file path =>
    cases hfile : e.file path with
    | none => exact absurd hfile horigin
    | some bytes =>
      have hsame : e.behind [.file path] = e := by simp [behind]
      simp [gather, hfile, Gathered.cons, input, hsame]

/-- Origins that provide their inputs are read one after the other, and what stands behind them
in the environment that they leave. -/
theorem gather_append {e : Environment} {before : List Origin}
    (hbefore : ∀ origin ∈ before, e.Provides origin) (rest : List Origin) :
    e.gather (before ++ rest) =
      ⟨e.inputs before ++ ((e.behind before).gather rest).inputs,
        ((e.behind before).gather rest).missing⟩ := by
  induction before generalizing e with
  | nil => rfl
  | cons origin before ih =>
    have hfirst : e.Provides origin := hbefore origin List.mem_cons_self
    have hlater : ∀ later ∈ before, (e.behind [origin]).Provides later := fun later hmem =>
      (e.provides_behind [origin] later).mpr (hbefore later (List.mem_cons_of_mem origin hmem))
    rw [List.cons_append, gather_cons hfirst, ih hlater, inputs_cons, behind_cons]
    rfl

theorem gather_of_provides {e : Environment} {origins : List Origin}
    (horigins : ∀ origin ∈ origins, e.Provides origin) :
    e.gather origins = ⟨e.inputs origins, none⟩ := by
  have hall := gather_append horigins []
  simpa [gather] using hall

/-- The reading ends at the first missing file. -/
theorem gather_of_missing {e : Environment} {before : List Origin} {path : String}
    (hbefore : ∀ origin ∈ before, e.Provides origin) (hpath : e.file path = none)
    (after : List Origin) :
    e.gather (before ++ .file path :: after) = ⟨e.inputs before, some path⟩ := by
  rw [gather_append hbefore]
  simp [gather, hpath]

theorem provides_ofPath_iff (path : String) : e.Provides (Origin.ofPath path) ↔ e.Holds path := by
  unfold Origin.ofPath Holds
  split
  next hhyphen => simp [Provides, hhyphen]
  next hother => simp [Provides, hother]

end Environment

/-! ## Reports -/

namespace Options

theorem map_name_origins (o : Options) : o.origins.map Origin.name = o.inputNames := by
  have hpaths : (o.files.map Origin.ofPath).map Origin.name =
      o.files.map fun path => if path = "-" then "<stdin>" else path := by
    rw [List.map_map]
    refine List.map_congr_left fun path _ => ?_
    by_cases hhyphen : path = "-" <;> simp [Origin.ofPath, Origin.name, hhyphen]
  rw [origins, inputNames]
  cases o.sample with
  | true =>
    rw [← hpaths]
    simp [Origin.name]
  | false =>
    rw [← hpaths]
    cases o.files <;> simp [Origin.name]

/-- The inputs of a run with their analyses. -/
def reports (o : Options) (e : Environment) : List (Input × Analysis) :=
  (o.inputs e).map (analysed o.config)

/-- The origins of a run provide their inputs exactly if its paths can be read. -/
theorem provides_origins_iff (o : Options) (e : Environment) :
    (∀ origin ∈ o.origins, e.Provides origin) ↔ o.Readable e := by
  have hpaths : (∀ origin ∈ o.files.map Origin.ofPath, e.Provides origin) ↔ o.Readable e := by
    simp [Readable, Environment.provides_ofPath_iff]
  rw [← hpaths]
  unfold origins
  cases o.sample <;> cases o.files <;> simp [Environment.Provides]

theorem gather_of_readable {o : Options} {e : Environment} (hread : o.Readable e) :
    e.gather o.origins = ⟨o.inputs e, none⟩ :=
  Environment.gather_of_provides ((o.provides_origins_iff e).mpr hread)

/-- The reading ends at the first path that cannot be read. -/
theorem exists_gather_of_firstMissing {o : Options} {e : Environment} {path : String}
    (hpath : o.FirstMissing e path) : ∃ inputs, e.gather o.origins = ⟨inputs, some path⟩ := by
  rcases hpath with ⟨hno, before, after, hfiles, hbefore⟩
  have hne : path ≠ "-" := fun h => hno (Or.inl h)
  have hfile : e.file path = none := by
    simpa [Environment.Holds, hne] using hno
  have horigins : o.origins = ((if o.sample then [.sample] else []) ++ before.map Origin.ofPath) ++
      .file path :: after.map Origin.ofPath := by
    have hlast : Origin.ofPath path = .file path := if_neg hne
    simp [origins, hfiles, hlast]
  have hprovides : ∀ origin ∈ (if o.sample then [.sample] else []) ++ before.map Origin.ofPath,
      e.Provides origin := by
    intro origin hmem
    rcases List.mem_append.mp hmem with hsample | hmem
    · have hsame : o.sample = true ∧ origin = .sample := by simpa using hsample
      rw [hsame.2]
      trivial
    · rcases List.mem_map.mp hmem with ⟨earlier, hearlier, rfl⟩
      exact (e.provides_ofPath_iff earlier).mpr (hbefore earlier hearlier)
  rw [horigins, Environment.gather_of_missing hprovides hfile]
  exact ⟨_, rfl⟩

end Options

/-! ## Runs -/

theorem run_of_parse {words : List String} {o : Options} (hparse : Options.parse words = .ok o)
    (e : Environment) : run words e = runOptions o e := by
  rw [run, hparse]

theorem runOptions_of_lints {o : Options} (hhelp : o.help = false) (hlist : o.listRules = false)
    (e : Environment) : runOptions o e = lintInputs o e := by
  simp [runOptions, hhelp, hlist]

/-- A run whose paths can all be read reports on every input. -/
theorem lintInputs_of_readable {o : Options} {e : Environment} (hvalid : o.config.validate = .ok ())
    (hread : o.Readable e) :
    lintInputs o e =
      ⟨if (o.reports e).any fun report => report.2.hasIssues then .issuesFound else .clean,
        reportText o.format (o.reports e),
        Log.render o.verbose
          ((o.inputs e).flatMap Input.events ++ (o.reports e).flatMap reportEvents)⟩ := by
  rw [lintInputs_of_valid hvalid, Options.gather_of_readable hread]
  rfl

/-- A run that reads all of its inputs prints the reports on them, and its exit code tells whether
anything was found. -/
theorem run_of_readable {words : List String} {o : Options} {e : Environment}
    (hparse : Options.parse words = .ok o) (hhelp : o.help = false) (hlist : o.listRules = false)
    (hread : o.Readable e) :
    (run words e).stdout = reportText o.format (o.reports e) ∧
      (run words e).status.code =
        ((o.reports e).any fun report => report.2.hasIssues).toNat := by
  rw [run_of_parse hparse, runOptions_of_lints hhelp hlist,
    lintInputs_of_readable (Options.wellFormed_of_parse hparse).validate hread]
  cases (o.reports e).any fun report => report.2.hasIssues <;> exact ⟨rfl, rfl⟩

/-- The text of a missing file quotes its path. -/
theorem missingFileText_eq (path : String) :
    missingFileText path =
      "style-lint: failed to read '" ++ path ++
        "': I/O error: No such file or directory (os error 2)\n" ++
        "hint: Check that the file exists and is readable\n" := by
  have htext : missingFileText path =
      "style-lint: " ++ ("failed to read '" ++ path ++ "': ") ++
        "I/O error: No such file or directory (os error 2)" ++ "\n" ++
        "hint: Check that the file exists and is readable\n" ++ "" := rfl
  have hfront : "style-lint: failed to read '" = "style-lint: " ++ "failed to read '" := rfl
  have hback : "': I/O error: No such file or directory (os error 2)\n" =
      "': " ++ "I/O error: No such file or directory (os error 2)" ++ "\n" := rfl
  rw [htext, hfront, hback]
  simp only [String.append_assoc, String.append_empty]

/-- A run with a path that cannot be read reports on nothing but the first such path. -/
theorem lintInputs_of_firstMissing {o : Options} {e : Environment} {path : String}
    (hpath : o.FirstMissing e path) :
    lintInputs o e =
      ⟨.failed, "",
        Log.render o.verbose ((e.gather o.origins).inputs.flatMap Input.events) ++
          missingFileText path⟩ := by
  rcases Options.exists_gather_of_firstMissing hpath with ⟨inputs, hgather⟩
  rw [lintInputs, hgather]

end SheetLint.CommandLine
