import SheetLint.Proofs.Arrangement

/-!
# Which error is reported

A command line is read word by word.  A fault among its words is an error at once, but the rule
ids are looked at when all words have been read.  So the error that is reported is the first fault
of the words, whatever follows it, and an unknown rule only where the words have no fault at all.

Main results:

- Relation `ReadsAs` says which groups the words of a command line stand for, and relation `Fails`
  what the fault at the beginning of some words is.
- Theorem `exists_reads_or_fails` says that words are read to their end or up to a fault, and
  theorems `Options.scan_of_reads` and `Options.scan_of_fails` that reading does so.
- Structure `Options.Extended` says what groups make of options given before.
- Theorem `Options.error_precedence` compares the error for some words with that for more words.
-/

namespace SheetLint.CommandLine

/-! ## Single words -/

/-- A word that begins with a hyphen and is no flag. -/
structure IsUnknownOption (word : String) : Prop where
  not_isPath : ¬ IsPath word
  not_switch : ∀ which : Switch, word ∉ which.flags
  not_setting : ∀ which : Setting, word ≠ which.flag

theorem Switch.mem_flags_of_ofFlag? {word : String} {which : Switch}
    (hword : ofFlag? word = some which) : word ∈ which.flags := by
  simpa using List.find?_some hword

theorem Setting.flag_of_ofFlag? {word : String} {which : Setting}
    (hword : ofFlag? word = some which) : which.flag = word := by
  simpa using List.find?_some hword

namespace Argument

variable {word : String}

theorem mem_flags_of_ofText {which : Switch} (hword : ofText word = .switch which) :
    word ∈ which.flags := by
  unfold ofText at hword
  split at hword
  next found hfound =>
    cases hword
    exact Switch.mem_flags_of_ofFlag? hfound
  next =>
    split at hword
    next => cases hword
    next => split at hword <;> cases hword

theorem flag_of_ofText {which : Setting} (hword : ofText word = .setting which) :
    which.flag = word := by
  unfold ofText at hword
  split at hword
  next => cases hword
  next =>
    split at hword
    next found hfound =>
      cases hword
      exact Setting.flag_of_ofFlag? hfound
    next => split at hword <;> cases hword

/-- A word is refused when it is no flag and no path. -/
theorem ofText_eq_unknown_iff : ofText word = .unknown ↔ IsUnknownOption word := by
  constructor
  · intro hword
    refine ⟨fun hpath => ?_, fun which hflag => ?_, fun which hflag => ?_⟩
    · rw [ofText_path hpath] at hword
      cases hword
    · rw [ofText_switch which word hflag] at hword
      cases hword
    · rw [hflag, ofText_setting] at hword
      cases hword
  · intro hunknown
    cases hword : ofText word with
    | switch which => exact absurd (mem_flags_of_ofText hword) (hunknown.not_switch which)
    | setting which => exact absurd (flag_of_ofText hword).symm (hunknown.not_setting which)
    | path => exact absurd (isPath_of_ofText hword) hunknown.not_isPath
    | unknown => rfl

end Argument

/-! ## Settings and their values -/

/-- The group that a setting and its value stand for. -/
def Setting.read (which : Setting) (value : String) : Except Error Group :=
  match which with
  | .minSeverity => (Severity.parse value).map .minSeverity
  | .maxIssues => (Count.parse value).map .maxIssues
  | .enable => .ok (.enable value)
  | .disable => .ok (.disable value)
  | .format => (Format.parse value).map .format

/-- The error of a value that is refused says so, and depends on the value alone. -/
theorem Setting.eq_of_read {which : Setting} {value : String} {e : Error}
    (hread : which.read value = .error e) :
    e = .invalidSeverity value ∨ e = .config (.invalidCount value) ∨
      e = .config (.unknownFormat value) := by
  cases which with
  | minSeverity =>
    simp only [read, Severity.parse] at hread
    split at hread <;> cases hread
    exact Or.inl rfl
  | maxIssues =>
    simp only [read, Count.parse] at hread
    split at hread <;> cases hread
    exact Or.inr (Or.inl rfl)
  | enable => cases hread
  | disable => cases hread
  | format =>
    simp only [read, Format.parse] at hread
    split at hread <;> cases hread
    exact Or.inr (Or.inr rfl)

/-- Giving a setting a value adds the group that the two stand for. -/
theorem Options.assign_eq_map_read (o : Options) (which : Setting) (value : String) :
    o.assign which value = (which.read value).map o.add := by
  cases which with
  | minSeverity =>
    simp only [assign, Setting.read]
    cases Severity.parse value <;> rfl
  | maxIssues =>
    simp only [assign, Setting.read]
    cases Count.parse value <;> rfl
  | enable => rfl
  | disable => rfl
  | format =>
    simp only [assign, Setting.read]
    cases Format.parse value <;> rfl

/-! ## Words that are read, and words that are refused -/

/-- Words are read as groups: the flag of a setting and the word behind it, whatever that looks
like, as the group that they stand for, and any other flag and any path by itself. -/
inductive ReadsAs : List String → List Group → Prop where
  | nil : ReadsAs [] []
  | setting {which : Setting} {value : String} {group : Group} {rest : List String}
      {groups : List Group} (hread : which.read value = .ok group) (hrest : ReadsAs rest groups) :
      ReadsAs (which.flag :: value :: rest) (group :: groups)
  | switch {which : Switch} {flag : String} {rest : List String} {groups : List Group}
      (hflag : flag ∈ which.flags) (hrest : ReadsAs rest groups) :
      ReadsAs (flag :: rest) (.switch which flag :: groups)
  | file {path : String} {rest : List String} {groups : List Group} (hpath : IsPath path)
      (hrest : ReadsAs rest groups) : ReadsAs (path :: rest) (.file path :: groups)

/-- Words begin with a fault: an unknown option, a setting with a value that it refuses, or a
setting that is the last word. -/
inductive Fails : List String → Error → Prop where
  | unknownOption {word : String} {rest : List String} (hword : IsUnknownOption word) :
      Fails (word :: rest) (.config (.unknownOption word))
  | invalidValue {which : Setting} {value : String} {e : Error} {rest : List String}
      (hread : which.read value = .error e) : Fails (which.flag :: value :: rest) e
  | missingValue (which : Setting) : Fails [which.flag] (.config (.missingValue which.flag))

/-- Words are read to their end, or up to a fault. -/
theorem exists_reads_or_fails (words : List String) :
    (∃ groups, ReadsAs words groups) ∨
      ∃ before groups rest e, words = before ++ rest ∧ ReadsAs before groups ∧ Fails rest e := by
  -- Reading follows the words, whatever options they are added to.
  induction Options.initial, words using Options.scan.induct with
  | case1 => exact Or.inl ⟨[], .nil⟩
  | case2 o word rest which hword ih =>
    have hflag := Argument.mem_flags_of_ofText hword
    rcases ih with ⟨groups, hrest⟩ | ⟨before, groups, rest, e, rfl, hbefore, hfails⟩
    · exact Or.inl ⟨_, .switch hflag hrest⟩
    · exact Or.inr ⟨word :: before, _, rest, e, rfl, .switch hflag hbefore, hfails⟩
  | case3 o word rest hword ih =>
    have hpath := Argument.isPath_of_ofText hword
    rcases ih with ⟨groups, hrest⟩ | ⟨before, groups, rest, e, rfl, hbefore, hfails⟩
    · exact Or.inl ⟨_, .file hpath hrest⟩
    · exact Or.inr ⟨word :: before, _, rest, e, rfl, .file hpath hbefore, hfails⟩
  | case4 o word rest hword =>
    have hunknown := Argument.ofText_eq_unknown_iff.mp hword
    exact Or.inr ⟨[], [], word :: rest, _, rfl, .nil, .unknownOption hunknown⟩
  | case5 o word which hword =>
    have hflag := Argument.flag_of_ofText hword
    subst hflag
    exact Or.inr ⟨[], [], [which.flag], _, rfl, .nil, .missingValue which⟩
  | case6 o word which hword value rest e hassign =>
    have hflag := Argument.flag_of_ofText hword
    subst hflag
    have hread : which.read value = .error e := by
      rw [Options.assign_eq_map_read] at hassign
      cases h : which.read value <;> rw [h] at hassign <;> cases hassign
      rfl
    exact Or.inr ⟨[], [], which.flag :: value :: rest, e, rfl, .nil, .invalidValue hread⟩
  | case7 o word which hword value rest next hassign ih =>
    have hflag := Argument.flag_of_ofText hword
    subst hflag
    obtain ⟨group, hread⟩ : ∃ group, which.read value = .ok group := by
      rw [Options.assign_eq_map_read] at hassign
      cases h : which.read value <;> rw [h] at hassign <;> cases hassign
      exact ⟨_, rfl⟩
    rcases ih with ⟨groups, hrest⟩ | ⟨before, groups, rest, e, rfl, hbefore, hfails⟩
    · exact Or.inl ⟨_, .setting hread hrest⟩
    · exact Or.inr ⟨which.flag :: value :: before, _, rest, e, rfl, .setting hread hbefore, hfails⟩

/-- A fault stays where it is when words are added, unless a value was missing. -/
theorem Fails.append {words : List String} {e : Error} (hfails : Fails words e)
    (hvalue : ∀ flag, e ≠ .config (.missingValue flag)) (more : List String) :
    Fails (words ++ more) e := by
  cases hfails with
  | unknownOption hword => exact .unknownOption hword
  | invalidValue hread => exact .invalidValue hread
  | missingValue which => exact absurd rfl (hvalue which.flag)

/-- A fault is never an unknown rule. -/
theorem Fails.ne_unknownRule {words : List String} {e : Error} (hfails : Fails words e)
    (ruleId : String) : e ≠ .unknownRule ruleId := by
  cases hfails with
  | unknownOption => simp
  | invalidValue hread => rcases Setting.eq_of_read hread with rfl | rfl | rfl <;> simp
  | missingValue => simp

/-- Only the last word can be a setting without a value. -/
theorem Fails.eq_of_missingValue {words : List String} {flag : String}
    (hfails : Fails words (.config (.missingValue flag))) :
    ∃ which : Setting, words = [flag] ∧ which.flag = flag := by
  cases hfails with
  | invalidValue hread => rcases Setting.eq_of_read hread with h | h | h <;> cases h
  | missingValue which => exact ⟨which, rfl, rfl⟩

/-! ## Wording -/

/-- No other fault is worded like a missing value, except perhaps in a free description. -/
theorem ConfigFault.message_eq_iff {fault : ConfigFault} {flag : String}
    (hfault : ∀ description, fault ≠ .other description) :
    fault.message = "missing value for " ++ flag ↔ fault = .missingValue flag := by
  have hoption (word : String) :
      (ConfigFault.unknownOption word).message = "unknown option '" ++ word ++ "'" := rfl
  have hvalue (word : String) :
      (ConfigFault.missingValue word).message = "missing value for " ++ word := rfl
  have hcount (word : String) :
      (ConfigFault.invalidCount word).message = "invalid value '" ++ word ++ "' for --max-issues" :=
    rfl
  have hformat (word : String) :
      (ConfigFault.unknownFormat word).message =
        "unknown output format '" ++ word ++ "' (expected text or json)" := rfl
  have hfirst {first second : String} (hsame : first = second) :
      first.toList.head? = second.toList.head? := by rw [hsame]
  cases fault with
  | unknownOption word =>
    rw [hoption]
    exact ⟨fun h => by simpa using hfirst h, fun h => by cases h⟩
  | missingValue word => rw [hvalue, String.append_right_inj, ConfigFault.missingValue.injEq]
  | invalidCount word =>
    rw [hcount]
    exact ⟨fun h => by simpa using hfirst h, fun h => by cases h⟩
  | unknownFormat word =>
    rw [hformat]
    exact ⟨fun h => by simpa using hfirst h, fun h => by cases h⟩
  | other description => exact absurd rfl (hfault description)

/-- The text of an error says that a value is missing exactly if one is. -/
theorem message_eq_iff_missingValue {e : Error} {flag : String}
    (he : ∀ description, e ≠ .config (.other description)) :
    e.message = "Configuration error: missing value for " ++ flag ↔
      e = .config (.missingValue flag) := by
  have hparts : "Configuration error: missing value for " ++ flag =
      "Configuration error: " ++ ("missing value for " ++ flag) := by
    rw [← String.append_assoc]
    rfl
  have hfirst {first second : String} (hsame : first = second) :
      first.toList.head? = second.toList.head? := by rw [hsame]
  cases e with
  | unknownRule ruleId =>
    have hmessage : (Error.unknownRule ruleId).message = "Unknown lint rule: " ++ ruleId := rfl
    rw [hmessage]
    exact ⟨fun h => by simpa using hfirst h, fun h => by cases h⟩
  | invalidSeverity text =>
    have hmessage : (Error.invalidSeverity text).message =
        "Invalid severity level: '" ++ text ++ "' (expected info, hint, warning or error)" := rfl
    rw [hmessage]
    exact ⟨fun h => by simpa using hfirst h, fun h => by cases h⟩
  | config fault =>
    have hmessage : (Error.config fault).message = "Configuration error: " ++ fault.message := rfl
    rw [hmessage, hparts, String.append_right_inj, Error.config.injEq]
    exact ConfigFault.message_eq_iff fun description h => he description (by rw [h])
  | io description =>
    have hmessage : (Error.io description).message = "I/O error: " ++ description := rfl
    rw [hmessage]
    exact ⟨fun h => by simpa using hfirst h, fun h => by cases h⟩

/-! ## Reading -/

namespace Options

/-- Words that are read as groups add these to the options, whatever words follow. -/
theorem scan_append_of_reads {before : List String} {groups : List Group}
    (hbefore : ReadsAs before groups) (o : Options) (rest : List String) :
    scan o (before ++ rest) = scan (groups.foldl add o) rest := by
  induction hbefore generalizing o with
  | nil => rfl
  | setting hread _ ih =>
    simp only [List.cons_append, scan, Argument.ofText_setting, assign_eq_map_read, hread,
      Except.map, ih, List.foldl_cons]
  | @switch which flag _ _ hflag _ ih =>
    simp only [List.cons_append, scan, Argument.ofText_switch which flag hflag, ih,
      List.foldl_cons, add]
  | file hpath _ ih =>
    simp only [List.cons_append, scan, Argument.ofText_path hpath, ih, List.foldl_cons, add]

theorem scan_of_reads {words : List String} {groups : List Group} (hwords : ReadsAs words groups)
    (o : Options) : scan o words = .ok (groups.foldl add o) := by
  have h := scan_append_of_reads hwords o []
  rwa [List.append_nil] at h

/-- A fault ends the reading. -/
theorem scan_of_fails {words : List String} {e : Error} (hfails : Fails words e) (o : Options) :
    scan o words = .error e := by
  cases hfails with
  | unknownOption hword => simp only [scan, Argument.ofText_eq_unknown_iff.mpr hword]
  | invalidValue hread =>
    simp only [scan, Argument.ofText_setting, assign_eq_map_read, hread, Except.map]
  | missingValue which => simp only [scan, Argument.ofText_setting]

/-- A command line is accepted by the scan exactly if its words can be read to their end, and then
their groups are added to the options. -/
theorem scan_eq_ok_iff {o result : Options} {words : List String} :
    scan o words = .ok result ↔ ∃ groups, ReadsAs words groups ∧ result = groups.foldl add o := by
  constructor
  · intro hscan
    rcases exists_reads_or_fails words with ⟨groups, hwords⟩ |
      ⟨before, groups, rest, e, rfl, hbefore, hfails⟩
    · rw [scan_of_reads hwords] at hscan
      cases hscan
      exact ⟨groups, hwords, rfl⟩
    · rw [scan_append_of_reads hbefore, scan_of_fails hfails] at hscan
      cases hscan
  · rintro ⟨groups, hwords, rfl⟩
    exact scan_of_reads hwords o

/-- The error of the scan is the first fault, whatever the options are. -/
theorem scan_eq_error_iff {o : Options} {words : List String} {e : Error} :
    scan o words = .error e ↔
      ∃ before groups rest, words = before ++ rest ∧ ReadsAs before groups ∧ Fails rest e := by
  constructor
  · intro hscan
    rcases exists_reads_or_fails words with ⟨groups, hwords⟩ |
      ⟨before, groups, rest, e', rfl, hbefore, hfails⟩
    · rw [scan_of_reads hwords] at hscan
      cases hscan
    · rw [scan_append_of_reads hbefore, scan_of_fails hfails] at hscan
      cases hscan
      exact ⟨before, groups, rest, rfl, hbefore, hfails⟩
  · rintro ⟨before, groups, rest, rfl, hbefore, hfails⟩
    rw [scan_append_of_reads hbefore, scan_of_fails hfails]

/-! ## What later words change -/

/-- Options are extended by groups: the last level, limit and format take the place of those given
before, the rule ids and the paths are put behind those given before, and switches stay on. -/
structure Extended (o : Options) (groups : List Group) (result : Options) : Prop where
  level : result.config.minSeverity =
    (groups.filterMap Group.level?).getLast?.getD o.config.minSeverity
  limit : result.config.maxIssues =
    (groups.filterMap Group.limit?).getLast?.getD o.config.maxIssues
  format : result.format = (groups.filterMap Group.format?).getLast?.getD o.format
  enabled : result.config.enabledRules =
    o.config.enabledRules ++ groups.filterMap Group.enabled?
  disabled : result.config.disabledRules =
    o.config.disabledRules ++ groups.filterMap Group.disabled?
  files : result.files = o.files ++ groups.filterMap Group.path?
  switches : ∀ which, result.isOn which = true ↔
    o.isOn which = true ∨ which ∈ groups.filterMap Group.switch?

theorem foldl_eq_getLast? {α : Type} (first : α) (later : List α) :
    later.foldl (fun _ next => next) first = later.getLast?.getD first := by
  induction later generalizing first with
  | nil => rfl
  | cons next later ih => rw [List.foldl_cons, ih, List.getLast?_cons, Option.getD_some]

theorem extended_foldl_add (o : Options) (groups : List Group) :
    o.Extended groups (groups.foldl add o) where
  level := by rw [config_foldl_add, foldl_eq_getLast?]
  limit := by
    rw [config_foldl_add]
    exact foldl_eq_getLast? _ _
  format := by rw [format_foldl_add, foldl_eq_getLast?]
  enabled := by rw [config_foldl_add]
  disabled := by rw [config_foldl_add]
  files := files_foldl_add o groups
  switches := isOn_foldl_add_iff o groups

/-! ## Reading and validating -/

theorem parse_eq_bind (words : List String) :
    parse words = (do
      let result ← scan initial words
      result.config.validate
      return result) := by
  unfold parse
  cases scan initial words with
  | error e => rfl
  | ok o =>
    dsimp only
    cases hvalid : o.config.validate <;> simp [hvalid, bind, Except.bind, pure, Except.pure]

/-- The error of a command line is its first fault, or else its first unknown rule. -/
theorem parse_eq_error_iff {words : List String} {e : Error} :
    parse words = .error e ↔
      (∃ before groups rest, words = before ++ rest ∧ ReadsAs before groups ∧ Fails rest e) ∨
      ∃ groups, ReadsAs words groups ∧ (groups.foldl add initial).config.validate = .error e := by
  rw [← scan_eq_error_iff (o := initial)]
  constructor
  · intro hparse
    rw [parse] at hparse
    cases hscan : scan initial words with
    | error e' =>
      rw [hscan] at hparse
      exact Or.inl hparse
    | ok o =>
      rcases scan_eq_ok_iff.mp hscan with ⟨groups, hwords, rfl⟩
      refine Or.inr ⟨groups, hwords, ?_⟩
      rw [hscan] at hparse
      dsimp only at hparse
      split at hparse
      next e' hvalid => rw [hvalid, Except.error.inj hparse]
      next => cases hparse
  · rintro (hscan | ⟨groups, hwords, hvalid⟩)
    · rw [parse, hscan]
    · rw [parse, scan_of_reads hwords]
      dsimp only
      rw [hvalid]

/-- A command line that was refused for its words is refused for the same fault with more words,
unless a value was missing. -/
theorem parse_append_of_error {xs : List String} {e : Error} (hparse : parse xs = .error e)
    (hrule : ∀ ruleId, e ≠ .unknownRule ruleId) (hvalue : ∀ flag, e ≠ .config (.missingValue flag))
    (ys : List String) : parse (xs ++ ys) = .error e := by
  rcases parse_eq_error_iff.mp hparse with ⟨before, groups, rest, rfl, hbefore, hfails⟩ |
    ⟨groups, _, hvalid⟩
  · refine parse_eq_error_iff.mpr (Or.inl ⟨before, groups, rest ++ ys, ?_, hbefore, ?_⟩)
    · rw [List.append_assoc]
    · exact hfails.append hvalue ys
  · rcases (Config.validate_eq_error_iff _ _).mp hvalid with ⟨ruleId, he, _⟩
    exact absurd he (hrule ruleId)

/-- Words that are accepted, or refused for a rule only, can be read to their end. -/
theorem exists_reads_of_parse {xs : List String}
    (hparse : (∃ o, parse xs = .ok o) ∨ ∃ ruleId, parse xs = .error (.unknownRule ruleId)) :
    ∃ groups, ReadsAs xs groups := by
  rcases hparse with ⟨o, hok⟩ | ⟨ruleId, herror⟩
  · rcases scan_eq_ok_iff.mp (parse_eq_ok_iff.mp hok).1 with ⟨groups, hwords, _⟩
    exact ⟨groups, hwords⟩
  · rcases parse_eq_error_iff.mp herror with ⟨_, _, _, _, _, hfails⟩ | ⟨groups, hwords, _⟩
    · exact absurd rfl (hfails.ne_unknownRule ruleId)
    · exact ⟨groups, hwords⟩

/-- Words that can be read to their end leave options, and more words are read on top of these. -/
theorem parse_append_of_reads {xs : List String} {groups : List Group} (hwords : ReadsAs xs groups)
    (ys : List String) :
    parse (xs ++ ys) = (do
      let result ← scan (groups.foldl add initial) ys
      result.config.validate
      return result) := by
  rw [parse_eq_bind, scan_append_of_reads hwords]

theorem parse_eq_missingValue_iff {words : List String} {flag : String} :
    parse words = .error (.config (.missingValue flag)) ↔
      ∃ before groups, ∃ which : Setting,
        words = before ++ [flag] ∧ ReadsAs before groups ∧ which.flag = flag := by
  rw [parse_eq_error_iff]
  constructor
  · rintro (⟨before, groups, rest, rfl, hbefore, hfails⟩ | ⟨groups, _, hvalid⟩)
    · rcases hfails.eq_of_missingValue with ⟨which, rfl, hflag⟩
      exact ⟨before, groups, which, rfl, hbefore, hflag⟩
    · rcases (Config.validate_eq_error_iff _ _).mp hvalid with ⟨ruleId, he, _⟩
      cases he
  · rintro ⟨before, groups, which, rfl, hbefore, rfl⟩
    exact Or.inl ⟨before, groups, [which.flag], rfl, hbefore, .missingValue which⟩

theorem parse_ne_other {words : List String} {e : Error} (hparse : parse words = .error e)
    (description : String) : e ≠ .config (.other description) := by
  rcases parse_eq_error_iff.mp hparse with ⟨_, _, _, _, _, hfails⟩ | ⟨_, _, hvalid⟩
  · cases hfails with
    | unknownOption => simp
    | invalidValue hread => rcases Setting.eq_of_read hread with rfl | rfl | rfl <;> simp
    | missingValue => simp
  · rcases (Config.validate_eq_error_iff _ _).mp hvalid with ⟨_, rfl, _⟩
    simp

theorem parse_eq_unknownRule_iff {words : List String} {ruleId : String} :
    parse words = .error (.unknownRule ruleId) ↔
      ∃ groups, ReadsAs words groups ∧ ¬ Config.IsBuiltIn ruleId ∧
        ∃ known rest, groups.filterMap Group.enabled? ++ groups.filterMap Group.disabled? =
          known ++ ruleId :: rest ∧ ∀ earlier ∈ known, Config.IsBuiltIn earlier := by
  rw [parse_eq_error_iff]
  constructor
  · rintro (⟨_, _, _, _, _, hfails⟩ | ⟨groups, hwords, hvalid⟩)
    · exact absurd rfl (hfails.ne_unknownRule ruleId)
    · rcases (Config.validate_eq_error_iff _ _).mp hvalid with ⟨_, he, hfirst⟩
      cases he
      rw [Config.FirstUnknown, config_foldl_add] at hfirst
      exact ⟨groups, hwords, hfirst⟩
  · rintro ⟨groups, hwords, hfirst⟩
    refine Or.inr ⟨groups, hwords, (Config.validate_eq_error_iff _ _).mpr ⟨ruleId, rfl, ?_⟩⟩
    rw [Config.FirstUnknown, config_foldl_add]
    exact hfirst

/-- A fault among the words of a command line is reported whatever words follow, unless a value is
missing behind them.  Words without such a fault, which are accepted or name an unknown rule, leave
options, and more words are read on top of these: later settings replace the earlier ones, and rule
ids and paths are added.  A value is missing exactly if the last word is the flag of a setting and
no value of another one.  A rule is unknown only if all words can be read, and it is the first
unknown one of those that are enabled and then of those that are disabled.  The word behind the
flag of a setting is its value, whatever it looks like. -/
theorem error_precedence (xs ys : List String) :
    (∀ e, parse xs = .error e →
      ((∃ text, e = .invalidSeverity text) ∨
        ∃ fault, e = .config fault ∧ ∀ flag, fault ≠ .missingValue flag) →
      parse (xs ++ ys) = .error e) ∧
    (((∃ o, parse xs = .ok o) ∨ ∃ ruleId, parse xs = .error (.unknownRule ruleId)) →
      ∃ o, scan initial xs = .ok o ∧
        parse (xs ++ ys) = (do
          let result ← scan o ys
          result.config.validate
          return result) ∧
        ∀ result, scan o ys = .ok result →
          ∃ groups, ReadsAs ys groups ∧ o.Extended groups result) ∧
    (∀ flag, (∃ e, parse xs = .error e ∧
        e.message = "Configuration error: missing value for " ++ flag) ↔
      ∃ before groups, ∃ which : Setting,
        xs = before ++ [flag] ∧ ReadsAs before groups ∧ which.flag = flag) ∧
    (∀ ruleId, parse xs = .error (.unknownRule ruleId) ↔
      ∃ groups, ReadsAs xs groups ∧ ¬ Config.IsBuiltIn ruleId ∧
        ∃ known rest, groups.filterMap Group.enabled? ++ groups.filterMap Group.disabled? =
          known ++ ruleId :: rest ∧ ∀ earlier ∈ known, Config.IsBuiltIn earlier) ∧
    ∀ groups, ReadsAs xs groups → ∀ (which : Setting) (value : String),
      scan initial (xs ++ which.flag :: value :: ys) = (do
        let group ← which.read value
        scan ((groups ++ [group]).foldl add initial) ys) := by
  refine ⟨fun e hparse hkind => ?_, fun hparse => ?_, fun flag => ?_,
    fun ruleId => parse_eq_unknownRule_iff, fun groups hwords which value => ?_⟩
  · refine parse_append_of_error hparse ?_ ?_ ys
    · rcases hkind with ⟨text, rfl⟩ | ⟨fault, rfl, _⟩ <;> simp
    · rcases hkind with ⟨text, rfl⟩ | ⟨fault, rfl, hfault⟩
      · simp
      · simpa using hfault
  · rcases exists_reads_of_parse hparse with ⟨groups, hwords⟩
    refine ⟨groups.foldl add initial, scan_of_reads hwords initial,
      parse_append_of_reads hwords ys, fun result hscan => ?_⟩
    rcases scan_eq_ok_iff.mp hscan with ⟨later, hlater, rfl⟩
    exact ⟨later, hlater, extended_foldl_add _ later⟩
  · rw [← parse_eq_missingValue_iff]
    constructor
    · rintro ⟨e, hparse, hmessage⟩
      rw [hparse, (message_eq_iff_missingValue (parse_ne_other hparse)).mp hmessage]
    · intro hparse
      exact ⟨_, hparse, (message_eq_iff_missingValue (parse_ne_other hparse)).mpr rfl⟩
  · rw [scan_append_of_reads hwords]
    cases hread : which.read value with
    | error e => exact scan_of_fails (.invalidValue hread) _
    | ok group =>
      have hpair := scan_append_of_reads (.setting hread .nil) (groups.foldl add initial) ys
      rw [← List.foldl_append] at hpair
      exact hpair

/-- A bad rule that is disabled first, a value that looks like an option, and a fault that hides
both. -/
theorem error_precedence_of_several_faults :
    parse ["--disable", "tabs", "--enable", "--help"] = .error (.unknownRule "--help") ∧
      parse (["--disable", "tabs", "--enable", "--help"] ++ ["--max-issues", "many"]) =
        .error (.config (.invalidCount "many")) ∧
      parse (["--disable", "tabs", "--enable", "--help", "--max-issues", "many"] ++ ["--format"]) =
        .error (.config (.invalidCount "many")) := by
  have hrule : parse ["--disable", "tabs", "--enable", "--help"] =
      .error (.unknownRule "--help") := rfl
  have hcount : parse ["--disable", "tabs", "--enable", "--help", "--max-issues", "many"] =
      .error (.config (.invalidCount "many")) := rfl
  refine ⟨hrule, ?_, ?_⟩
  · rcases (error_precedence ["--disable", "tabs", "--enable", "--help"]
      ["--max-issues", "many"]).2.1 (Or.inr ⟨_, hrule⟩) with ⟨o, hscan, hmore, _⟩
    cases hscan
    rw [hmore]
    rfl
  · exact (error_precedence _ ["--format"]).1 _ hcount (Or.inr ⟨_, rfl, by simp⟩)

end Options

end SheetLint.CommandLine
