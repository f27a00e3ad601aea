import Mathlib.Algebra.Group.Nat.Defs
import SheetLint.CommandLine.Options
import SheetLint.Proofs.Reporting

/-!
# Writing options as a command line

Options are written as groups of words: a setting with its value, a switch, or a path.  A
command line is read in one pass, and a group changes no more than its own field.  So the
groups may be put into any order that keeps the enabled rules, the disabled rules and the
paths in theirs.

Main results:

- Type `Group` with the words of a group, and `Options.groups`, which writes options.
- Structure `Options.WellFormed` says which options a command line can ask for.
- Theorem `Options.scan_words` reads one group, and `Options.scan_flatMap_words` a whole list of
  groups.
- Theorem `Options.foldl_add_of_interleaves` says that every arrangement of the groups of options
  adds up to these options.
- Theorem `Options.parse_interleaved` reads every arrangement, and says that nothing but such
  options is ever read.
-/

namespace SheetLint

/-! ## Numbers -/

namespace Numeral

/-- The digits that write a number are read as that number. -/
theorem ofDecimal?_toDigits (n : Nat) : ofDecimal? (Nat.toDigits 10 n) = some n := by
  have hdigits : (Nat.toDigits 10 n).all Char.isDigit = true := by
    rw [List.all_eq_true]
    intro c hc
    exact Nat.isDigit_of_mem_toDigits (by decide) (by decide) hc
  have hvalue : ofDigits 10 ((Nat.toDigits 10 n).map decimalDigit) = n := by
    calc ofDigits 10 ((Nat.toDigits 10 n).map decimalDigit)
        = (Nat.toDigits 10 n).foldl (fun value c => value * 10 + (c.toNat - 0x30)) 0 := by
          rw [ofDigits, List.foldl_map]
          rfl
      _ = Nat.ofDigitChars 10 (Nat.toDigits 10 n) 0 := by
          simp only [Nat.ofDigitChars_eq_foldl, Nat.mul_comm 10]
          rfl
      _ = n := Nat.ofDigitChars_ten_toDigits
  rw [ofDecimal?, if_pos ⟨Nat.toDigits_ne_nil, hdigits⟩, hvalue]

end Numeral

namespace CommandLine

/-! ## Groups of words -/

/-- The words that are read as paths: a single hyphen, and all that do not begin with one. -/
def IsPath (word : String) : Prop :=
  word = "-" ∨ word.toList.head? ≠ some '-'

/-- Words of a command line that belong together. -/
inductive Group where
  | minSeverity (level : Severity)
  | maxIssues (limit : Nat)
  | enable (ruleId : String)
  | disable (ruleId : String)
  | format (which : Format)
  | switch (which : Switch) (flag : String)
  | file (path : String)
  deriving DecidableEq, Repr

namespace Group

/-- A setting is written by its flag and its value, and all else by a single word. -/
def words : Group → List String
  | .minSeverity level => [Setting.minSeverity.flag, level.name]
  | .maxIssues limit => [Setting.maxIssues.flag, toString limit]
  | .enable ruleId => [Setting.enable.flag, ruleId]
  | .disable ruleId => [Setting.disable.flag, ruleId]
  | .format which => [Setting.format.flag, which.name]
  | .switch _ flag => [flag]
  | .file path => [path]

/-- A group is well formed when its number is one of 64 bits, its flag one of its switch, and its
path no option. -/
def WellFormed : Group → Prop
  | .maxIssues limit => limit < 2 ^ 64
  | .switch which flag => flag ∈ which.flags
  | .file path => IsPath path
  | _ => True

/-! ### What a group is about -/

/-- The least severity that a group asks for. -/
def level? : Group → Option Severity
  | .minSeverity level => some level
  | _ => none

/-- The limit that a group sets. -/
def limit? : Group → Option Nat
  | .maxIssues limit => some limit
  | _ => none

/-- The rule that a group enables. -/
def enabled? : Group → Option String
  | .enable ruleId => some ruleId
  | _ => none

/-- The rule that a group disables. -/
def disabled? : Group → Option String
  | .disable ruleId => some ruleId
  | _ => none

/-- The format that a group chooses. -/
def format? : Group → Option Format
  | .format which => some which
  | _ => none

/-- The switch that a group turns on. -/
def switch? : Group → Option Switch
  | .switch which _ => some which
  | _ => none

/-- The path that a group adds. -/
def path? : Group → Option String
  | .file path => some path
  | _ => none

end Group

/-- Groups are arranged like others when they are the same groups in some order in which those
about enabled rules, about disabled rules and about paths stand as they did. -/
structure Interleaves (groups others : List Group) : Prop where
  perm : groups.Perm others
  enabled : groups.filterMap Group.enabled? = others.filterMap Group.enabled?
  disabled : groups.filterMap Group.disabled? = others.filterMap Group.disabled?
  paths : groups.filterMap Group.path? = others.filterMap Group.path?

/-- What a single group is about does not depend on the order. -/
theorem Interleaves.filterMap_eq_singleton {groups others : List Group} {β : Type}
    {about? : Group → Option β} {value : β} (harranged : Interleaves groups others)
    (hone : others.filterMap about? = [value]) : groups.filterMap about? = [value] := by
  have hperm := harranged.perm.filterMap about?
  rw [hone] at hperm
  exact List.perm_singleton.mp hperm

/-! ## Options as groups -/

/-- Every switch is in the list of all switches. -/
theorem Switch.mem_all (s : Switch) : s ∈ all := by
  cases s <;> decide

namespace Options

/-- Options are well formed when their rule ids are built in, their limit is one of 64 bits, and
their paths are not taken for options. -/
structure WellFormed (o : Options) : Prop where
  enabled : ∀ ruleId ∈ o.config.enabledRules, Config.IsBuiltIn ruleId
  disabled : ∀ ruleId ∈ o.config.disabledRules, Config.IsBuiltIn ruleId
  limit : o.config.maxIssues < 2 ^ 64
  paths : ∀ path ∈ o.files, IsPath path

/-- Whether a switch is on. -/
def isOn (o : Options) : Switch → Bool
  | .help => o.help
  | .verbose => o.verbose
  | .listRules => o.listRules
  | .sample => o.sample

/-- The groups that write options, with the flags by which their switches are spelled. -/
def groups (spelling : Switch → String) (o : Options) : List Group :=
  [.minSeverity o.config.minSeverity, .maxIssues o.config.maxIssues] ++
    o.config.enabledRules.map .enable ++ o.config.disabledRules.map .disable ++
    [.format o.format] ++
    (Switch.all.filter o.isOn).map (fun which => .switch which (spelling which)) ++
    o.files.map .file

/-- Options changed by a group. -/
def add (o : Options) : Group → Options
  | .minSeverity level => { o with config := o.config.withMinSeverity level }
  | .maxIssues limit => { o with config := o.config.withMaxIssues limit }
  | .enable ruleId => { o with config := o.config.enable ruleId }
  | .disable ruleId => { o with config := o.config.disable ruleId }
  | .format which => { o with format := which }
  | .switch which _ => o.turnOn which
  | .file path => o.addFile path

end Options

/-! ## Reading single words -/

theorem Argument.isPath_iff (word : String) : isPath word = true ↔ IsPath word := by
  simp [isPath, IsPath]

/-- Flags of switches are no paths. -/
theorem Switch.not_isPath_of_mem_flags (s : Switch) :
    ∀ word ∈ s.flags, Argument.isPath word = false := by
  cases s <;> decide

/-- Flags of settings are no paths. -/
theorem Setting.not_isPath_flag (s : Setting) : Argument.isPath s.flag = false := by
  cases s <;> decide

/-- A path stands for itself. -/
theorem Argument.ofText_path {word : String} (hword : IsPath word) : ofText word = .path := by
  have hpath : isPath word = true := (isPath_iff word).mpr hword
  have hswitch : Switch.ofFlag? word = none := by
    rw [Switch.ofFlag?, List.find?_eq_none]
    intro s _ hflag
    have hno := s.not_isPath_of_mem_flags word (List.contains_iff_mem.mp hflag)
    rw [hpath] at hno
    cases hno
  have hsetting : Setting.ofFlag? word = none := by
    rw [Setting.ofFlag?, List.find?_eq_none]
    intro s _ hflag
    have hno := s.not_isPath_flag
    rw [of_decide_eq_true hflag, hpath] at hno
    cases hno
  simp [ofText, hswitch, hsetting, hpath]

/-- Only paths stand for themselves. -/
theorem Argument.isPath_of_ofText {word : String} (hword : ofText word = .path) : IsPath word := by
  unfold ofText at hword
  split at hword
  next => cases hword
  next =>
    split at hword
    next => cases hword
    next =>
      split at hword
      next hpath => exact (isPath_iff word).mp hpath
      next => cases hword

/-- A number of 64 bits is read back from its digits. -/
theorem Count.parse_toString {n : Nat} (hn : n < 2 ^ 64) : Count.parse (toString n) = .ok n := by
  have hdigits : (toString n).toList = Nat.toDigits 10 n := by
    rw [Nat.toString_eq_ofList_toDigits, String.toList_ofList]
  have hunsigned : unsigned (Nat.toDigits 10 n) = Nat.toDigits 10 n := by
    unfold unsigned
    split
    next hnil => rw [hnil]
    next c digits hcons =>
      have hc : c.isDigit = true :=
        Nat.isDigit_of_mem_toDigits (by decide) (by decide) (hcons ▸ List.mem_cons_self)
      rw [if_neg, hcons]
      rintro rfl
      cases hc
  have hlimit : n ≤ largest := by
    unfold largest
    omega
  have hread : ofText? (toString n).toList = some n := by
    rw [ofText?, hdigits, hunsigned, Numeral.ofDecimal?_toDigits]
    exact Option.filter_eq_some_iff.mpr ⟨rfl, decide_eq_true hlimit⟩
  rw [parse, hread]

/-- A number that is read is one of 64 bits. -/
theorem Count.lt_of_parse {text : String} {n : Nat} (hparse : Count.parse text = .ok n) :
    n < 2 ^ 64 := by
  unfold parse at hparse
  split at hparse
  next m hm =>
    cases hparse
    have hlimit : n ≤ largest := of_decide_eq_true (Option.filter_eq_some_iff.mp hm).2
    unfold largest at hlimit
    omega
  next => cases hparse

/-! ## Reading groups -/

namespace Options

/-- A well-formed group is read as what it adds to the options. -/
theorem scan_words {group : Group} (hgroup : group.WellFormed) (o : Options) (rest : List String) :
    scan o (group.words ++ rest) = scan (o.add group) rest := by
  cases group with
  | minSeverity level =>
    simp [Group.words, scan, assign, Severity.parse_name, Except.map, add]
  | maxIssues limit =>
    have hlimit : Count.parse (toString limit) = .ok limit := Count.parse_toString hgroup
    simp only [Group.words, List.cons_append, List.nil_append, scan, Argument.ofText_setting,
      assign, hlimit, Except.map, add]
  | enable ruleId => simp [Group.words, scan, assign, add]
  | disable ruleId => simp [Group.words, scan, assign, add]
  | format which =>
    simp [Group.words, scan, assign, Format.parse_name, Except.map, add]
  | switch which flag =>
    simp [Group.words, scan, Argument.ofText_switch which flag hgroup, add]
  | file path =>
    simp [Group.words, scan, Argument.ofText_path hgroup, add]

/-- Well-formed groups are read one after the other. -/
theorem scan_flatMap_words {groups : List Group} (hgroups : ∀ group ∈ groups, group.WellFormed)
    (o : Options) : scan o (groups.flatMap Group.words) = .ok (groups.foldl add o) := by
  induction groups generalizing o with
  | nil => rfl
  | cons group rest ih =>
    have hfirst : group.WellFormed := hgroups group List.mem_cons_self
    have hrest : ∀ later ∈ rest, later.WellFormed :=
      fun later hlater => hgroups later (List.mem_cons_of_mem group hlater)
    rw [List.flatMap_cons, scan_words hfirst, ih hrest, List.foldl_cons]

/-! ## Adding groups -/

@[simp]
theorem turnOn_config (o : Options) (which : Switch) : (o.turnOn which).config = o.config := by
  cases which <;> rfl

@[simp]
theorem turnOn_format (o : Options) (which : Switch) : (o.turnOn which).format = o.format := by
  cases which <;> rfl

@[simp]
theorem turnOn_files (o : Options) (which : Switch) : (o.turnOn which).files = o.files := by
  cases which <;> rfl

theorem config_foldl_add (o : Options) (groups : List Group) :
    (groups.foldl add o).config =
      { minSeverity := (groups.filterMap Group.level?).foldl (fun _ level => level) o.config.minSeverity
        maxIssues := (groups.filterMap Group.limit?).foldl (fun _ limit => limit) o.config.maxIssues
        enabledRules := o.config.enabledRules ++ groups.filterMap Group.enabled?
        disabledRules := o.config.disabledRules ++ groups.filterMap Group.disabled? } := by
  induction groups generalizing o with
  | nil => simp
  | cons group rest ih =>
    rw [List.foldl_cons, ih]
    cases group <;>
      simp [add, addFile, Config.withMinSeverity, Config.withMaxIssues, Config.enable, Config.disable,
        List.filterMap_cons, Group.level?, Group.limit?, Group.enabled?, Group.disabled?]

theorem format_foldl_add (o : Options) (groups : List Group) :
    (groups.foldl add o).format =
      (groups.filterMap Group.format?).foldl (fun _ which => which) o.format := by
  induction groups generalizing o with
  | nil => rfl
  | cons group rest ih =>
    rw [List.foldl_cons, ih]
    cases group <;> simp [add, addFile, List.filterMap_cons, Group.format?]

theorem files_foldl_add (o : Options) (groups : List Group) :
    (groups.foldl add o).files = o.files ++ groups.filterMap Group.path? := by
  induction groups generalizing o with
  | nil => simp
  | cons group rest ih =>
    rw [List.foldl_cons, ih]
    cases group <;> simp [add, addFile, List.filterMap_cons, Group.path?]

@[simp]
theorem filterMap_none {α β : Type} (items : List α) :
    items.filterMap (fun _ => (none : Option β)) = [] :=
  List.filterMap_eq_nil_iff.mpr fun _ _ => rfl

/-- What the groups of options are about, field by field. -/
theorem filterMap_groups {β : Type} (about? : Group → Option β) (o : Options)
    (spelling : Switch → String) :
    (o.groups spelling).filterMap about? =
      (about? (.minSeverity o.config.minSeverity)).toList ++
        (about? (.maxIssues o.config.maxIssues)).toList ++
        o.config.enabledRules.filterMap (fun ruleId => about? (.enable ruleId)) ++
        o.config.disabledRules.filterMap (fun ruleId => about? (.disable ruleId)) ++
        (about? (.format o.format)).toList ++
        (Switch.all.filter o.isOn).filterMap (fun which => about? (.switch which (spelling which))) ++
        o.files.filterMap (fun path => about? (.file path)) := by
  have hcons (group : Group) (rest : List Group) :
      (group :: rest).filterMap about? = (about? group).toList ++ rest.filterMap about? := by
    rw [List.filterMap_cons]
    cases about? group <;> rfl
  simp only [groups, List.filterMap_append, hcons, List.filterMap_map, List.filterMap_nil,
    List.append_nil, List.append_assoc, Function.comp_def]

theorem isOn_add_iff (o : Options) (group : Group) (which : Switch) :
    (o.add group).isOn which = true ↔ o.isOn which = true ∨ group.switch? = some which := by
  cases group with
  | switch other flag => cases which <;> cases other <;> simp [add, turnOn, isOn, Group.switch?]
  | _ => cases which <;> simp [add, addFile, isOn, Group.switch?]

/-- A switch is on when it was on before or some group turns it on. -/
theorem isOn_foldl_add_iff (o : Options) (groups : List Group) (which : Switch) :
    (groups.foldl add o).isOn which = true ↔
      o.isOn which = true ∨ which ∈ groups.filterMap Group.switch? := by
  induction groups generalizing o with
  | nil => simp
  | cons group rest ih =>
    rw [List.foldl_cons, ih, isOn_add_iff, List.mem_filterMap, List.mem_filterMap]
    simp only [List.mem_cons, exists_eq_or_imp, or_assoc]

/-- Options with the same settings, paths and switches are the same. -/
theorem eq_of_isOn {o p : Options} (hconfig : o.config = p.config) (hformat : o.format = p.format)
    (hfiles : o.files = p.files) (hon : ∀ which, o.isOn which = p.isOn which) : o = p := by
  have hhelp : o.help = p.help := hon .help
  have hverbose : o.verbose = p.verbose := hon .verbose
  have hlist : o.listRules = p.listRules := hon .listRules
  have hsample : o.sample = p.sample := hon .sample
  cases o
  cases p
  simp_all only

/-- Groups arranged like those of options add these options to none. -/
theorem foldl_add_of_interleaves {o : Options} {spelling : Switch → String} {groups : List Group}
    (harranged : Interleaves groups (o.groups spelling)) : groups.foldl add initial = o := by
  have hlevel : groups.filterMap Group.level? = [o.config.minSeverity] :=
    harranged.filterMap_eq_singleton (by simp [filterMap_groups, Group.level?])
  have hlimit : groups.filterMap Group.limit? = [o.config.maxIssues] :=
    harranged.filterMap_eq_singleton (by simp [filterMap_groups, Group.limit?])
  have hformat : groups.filterMap Group.format? = [o.format] :=
    harranged.filterMap_eq_singleton (by simp [filterMap_groups, Group.format?])
  have henabled : groups.filterMap Group.enabled? = o.config.enabledRules := by
    simpa [filterMap_groups, Group.enabled?] using harranged.enabled
  have hdisabled : groups.filterMap Group.disabled? = o.config.disabledRules := by
    simpa [filterMap_groups, Group.disabled?] using harranged.disabled
  have hpaths : groups.filterMap Group.path? = o.files := by
    simpa [filterMap_groups, Group.path?] using harranged.paths
  have hswitch (which : Switch) : which ∈ groups.filterMap Group.switch? ↔ o.isOn which := by
    rw [(harranged.perm.filterMap Group.switch?).mem_iff]
    simp [filterMap_groups, Group.switch?, Switch.mem_all]
  have hon (which : Switch) : (groups.foldl add initial).isOn which = o.isOn which := by
    have hoff : initial.isOn which = false := by cases which <;> rfl
    rw [Bool.eq_iff_iff, isOn_foldl_add_iff, hoff, hswitch]
    simp
  have hconfig : (groups.foldl add initial).config = o.config := by
    rw [config_foldl_add, hlevel, hlimit, henabled, hdisabled]
    rfl
  have hchosen : (groups.foldl add initial).format = o.format := by
    rw [format_foldl_add, hformat]
    rfl
  have hfiles : (groups.foldl add initial).files = o.files := by
    rw [files_foldl_add, hpaths]
    rfl
  exact eq_of_isOn hconfig hchosen hfiles hon

/-! ## Well-formed options -/

/-- Well-formed options are written as well-formed groups. -/
theorem WellFormed.of_mem_groups {o : Options} (ho : o.WellFormed) {spelling : Switch → String}
    (hspelling : ∀ which, spelling which ∈ which.flags) {group : Group}
    (hgroup : group ∈ o.groups spelling) : group.WellFormed := by
  simp only [groups, List.mem_append, List.mem_cons, List.mem_map, List.not_mem_nil,
    or_false] at hgroup
  rcases hgroup with (((((rfl | rfl) | ⟨_, _, rfl⟩) | ⟨_, _, rfl⟩) | rfl) | ⟨which, _, rfl⟩) |
    ⟨path, hpath, rfl⟩
  · trivial
  · exact ho.limit
  · trivial
  · trivial
  · trivial
  · exact hspelling which
  · exact ho.paths path hpath

theorem WellFormed.validate {o : Options} (ho : o.WellFormed) : o.config.validate = .ok () := by
  rw [Config.validate_eq_ok_iff_isBuiltIn]
  intro ruleId hmem
  rcases List.mem_append.mp hmem with henabled | hdisabled
  · exact ho.enabled ruleId henabled
  · exact ho.disabled ruleId hdisabled

/-- Giving a setting a value changes no path, and a limit is one of 64 bits. -/
theorem files_and_limit_of_assign {o result : Options} {which : Setting} {value : String}
    (hassign : o.assign which value = .ok result) :
    result.files = o.files ∧
      (result.config.maxIssues = o.config.maxIssues ∨ result.config.maxIssues < 2 ^ 64) := by
  cases which with
  | minSeverity =>
    simp only [assign] at hassign
    cases hparse : Severity.parse value <;> rw [hparse] at hassign <;> cases hassign
    exact ⟨rfl, Or.inl rfl⟩
  | maxIssues =>
    simp only [assign] at hassign
    cases hparse : Count.parse value <;> rw [hparse] at hassign <;> cases hassign
    exact ⟨rfl, Or.inr (Count.lt_of_parse hparse)⟩
  | enable =>
    cases hassign
    exact ⟨rfl, Or.inl rfl⟩
  | disable =>
    cases hassign
    exact ⟨rfl, Or.inl rfl⟩
  | format =>
    simp only [assign] at hassign
    cases hparse : Format.parse value <;> rw [hparse] at hassign <;> cases hassign
    exact ⟨rfl, Or.inl rfl⟩

/-- Reading keeps the limit within 64 bits and adds nothing but paths to the paths. -/
theorem limit_and_paths_of_scan {o result : Options} {words : List String}
    (hscan : scan o words = .ok result) (hlimit : o.config.maxIssues < 2 ^ 64)
    (hpaths : ∀ path ∈ o.files, IsPath path) :
    result.config.maxIssues < 2 ^ 64 ∧ ∀ path ∈ result.files, IsPath path := by
  fun_induction scan o words with
  | case1 o =>
    cases hscan
    exact ⟨hlimit, hpaths⟩
  | case2 o word rest which hfound ih =>
    exact ih hscan (by rwa [turnOn_config]) (by rwa [turnOn_files])
  | case3 o word rest hfound ih =>
    refine ih hscan hlimit fun path hpath => ?_
    rcases List.mem_append.mp hpath with hbefore | hlast
    · exact hpaths path hbefore
    · rw [List.mem_singleton.mp hlast]
      exact Argument.isPath_of_ofText hfound
  | case4 o word rest hfound => cases hscan
  | case5 o word which hfound => cases hscan
  | case6 o word which hfound value rest e hassign => cases hscan
  | case7 o word which hfound value rest next hassign ih =>
    rcases files_and_limit_of_assign hassign with ⟨hfiles, hsame | hlt⟩
    · exact ih hscan (by rwa [hsame]) (by rwa [hfiles])
    · exact ih hscan hlt (by rwa [hfiles])

theorem parse_eq_ok_iff {words : List String} {o : Options} :
    parse words = .ok o ↔ scan initial words = .ok o ∧ o.config.validate = .ok () := by
  unfold parse
  split
  next e hscan => simp [hscan]
  next result hscan =>
    rw [hscan, Except.ok.injEq]
    split
    next e hvalid =>
      constructor
      · intro h
        cases h
      · rintro ⟨rfl, hok⟩
        rw [hvalid] at hok
        cases hok
    next hvalid =>
      rw [Except.ok.injEq]
      constructor
      · rintro rfl
        exact ⟨rfl, hvalid⟩
      · exact And.left

/-- Only well-formed options are read from a command line. -/
theorem wellFormed_of_parse {words : List String} {o : Options} (hparse : parse words = .ok o) :
    o.WellFormed := by
  rcases parse_eq_ok_iff.mp hparse with ⟨hscan, hvalid⟩
  have hrules := (Config.validate_eq_ok_iff_isBuiltIn o.config).mp hvalid
  have hinitial : initial.config.maxIssues < 2 ^ 64 := by decide
  rcases limit_and_paths_of_scan hscan hinitial (fun path hpath => by cases hpath) with
    ⟨hlimit, hpaths⟩
  exact {
    enabled := fun ruleId hmem => hrules ruleId (List.mem_append_left _ hmem)
    disabled := fun ruleId hmem => hrules ruleId (List.mem_append_right _ hmem)
    limit := hlimit
    paths := hpaths }

/-- Well-formed options are read back from every arrangement of their groups. -/
theorem WellFormed.parse_flatMap_words {o : Options} (ho : o.WellFormed)
    {spelling : Switch → String} (hspelling : ∀ which, spelling which ∈ which.flags)
    {groups : List Group} (harranged : Interleaves groups (o.groups spelling)) :
    parse (groups.flatMap Group.words) = .ok o := by
  have hgroups : ∀ group ∈ groups, group.WellFormed := fun group hgroup =>
    ho.of_mem_groups hspelling (harranged.perm.mem_iff.mp hgroup)
  rw [parse_eq_ok_iff, scan_flatMap_words hgroups, foldl_add_of_interleaves harranged]
  exact ⟨rfl, ho.validate⟩

/-- Well-formed options, written with any flag for each switch that is on, are read back from
their groups in every order that keeps the enabled rules, the disabled rules and the paths in
theirs; and whatever command line is accepted, the options read from it are well formed. -/
theorem parse_interleaved :
    (∀ (o : Options) (spelling : Switch → String) (groups : List Group), o.WellFormed →
      (∀ which, spelling which ∈ which.flags) → Interleaves groups (o.groups spelling) →
        parse (groups.flatMap Group.words) = .ok o) ∧
    ∀ (words : List String) (o : Options), parse words = .ok o → o.WellFormed :=
  ⟨fun _ _ _ ho hspelling harranged => ho.parse_flatMap_words hspelling harranged,
    fun _ _ hparse => wellFormed_of_parse hparse⟩

theorem parse_interleaved_shuffled :
    parse ["b.css", "--enable", "color-naming", "-h", "--disable", "low-specificity", "-",
        "--max-issues", "18446744073709551615", "--enable", "property-order", "--format", "json", "",
        "--sample", "--min-severity", "hint"] =
      .ok ⟨⟨.hint, 18446744073709551615, ["color-naming", "property-order"], ["low-specificity"]⟩,
        .json, ["b.css", "-", ""], true, false, false, true⟩ := by
  have hwellFormed : WellFormed ⟨⟨.hint, 18446744073709551615, ["color-naming", "property-order"],
      ["low-specificity"]⟩, .json, ["b.css", "-", ""], true, false, false, true⟩ := {
    enabled := by
      simp only [List.mem_cons, List.not_mem_nil, or_false, forall_eq_or_imp, forall_eq]
      exact ⟨⟨.colorNaming, rfl⟩, ⟨.propertyOrder, rfl⟩⟩
    disabled := by
      simp only [List.mem_cons, List.not_mem_nil, or_false, forall_eq]
      exact ⟨.lowSpecificity, rfl⟩
    limit := by decide
    paths := by simp [IsPath] }
  exact parse_interleaved.1 _ (fun which => which.flags.head?.getD "")
    [.file "b.css", .enable "color-naming", .switch .help "-h", .disable "low-specificity", .file "-",
      .maxIssues 18446744073709551615, .enable "property-order", .format .json, .file "",
      .switch .sample "--sample", .minSeverity .hint]
    hwellFormed (fun which => by cases which <;> decide)
    ⟨by decide, by decide, by decide, by decide⟩

end Options

end CommandLine

end SheetLint
