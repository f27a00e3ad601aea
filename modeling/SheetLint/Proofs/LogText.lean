import SheetLint.Log
import SheetLint.Proofs.Digits

/-!
# The text of log records

A record is a line that begins with a level and the part of the program that it comes from.  Its
message may quote the name of an input, which can hold any characters, so further lines of the
message are indented and what a terminal would act on is left out.

Main results:

- Theorem `Event.render_eq` gives the text of every record, and `Event.render_of_isPlain` that of
  a record whose message is one visible line.
- Theorems `Event.render_ruleSkipped`, `Event.render_ruleReported`, `Event.render_analysed` and
  `Event.render_inputReported` give the text of the records about issues.
- Theorems `Event.render_markStripped` and `Event.render_sequencesReplaced` give the text of the
  records about reading.
-/

namespace SheetLint

namespace Event

/-! ## Visible lines -/

/-- A visible text without a line break. -/
def IsPlain (text : String) : Prop :=
  ∀ c ∈ text.toList, Terminal.isVisible c = true ∧ c ≠ '\n'

instance (text : String) : Decidable (IsPlain text) :=
  List.decidableBAll _ text.toList

@[simp]
theorem isPlain_append_iff {first second : String} :
    IsPlain (first ++ second) ↔ IsPlain first ∧ IsPlain second := by
  rw [IsPlain, String.toList_append, List.forall_mem_append]
  exact Iff.rfl

@[simp]
theorem isPlain_toString (n : Nat) : IsPlain (toString n) := by
  intro c hc
  obtain ⟨hlow, hhigh⟩ : 48 ≤ c.toNat ∧ c.toNat ≤ 57 :=
    Char.isDigit_iff_toNat.mp (Numeral.isDigit_of_mem_toString hc)
  constructor
  · have hdelete : c ≠ '\x7f' := by
      rintro rfl
      exact absurd hhigh (by decide)
    have hprintable : 0x20 ≤ c.toNat := by omega
    simp [Terminal.isVisible, hprintable, hdelete]
  · rintro rfl
    exact absurd hlow (by decide)

@[simp]
theorem isPlain_id (rule : Rule) : IsPlain rule.id := by
  cases rule <;> decide

/-! ## Records -/

/-- What stands in front of every message: the level and the part of the program. -/
def heading (e : Event) : String :=
  "[" ++ e.level.label ++ " " ++ e.target ++ "] "

theorem isPlain_heading (e : Event) : IsPlain e.heading := by
  have hlevel : IsPlain e.level.label := by cases e.level <;> decide
  have htarget : IsPlain e.target := by cases e <;> (rw [target]; decide)
  simp only [heading, isPlain_append_iff, hlevel, htarget, and_true]
  decide

/-- What stands in the log behind the heading of a message: the message with its further lines
indented, and the end of the line, without what a terminal would act on. -/
def shownMessage (message : String) : String :=
  String.ofList (Terminal.strip (message.toList.flatMap record.indent ++ ['\n']))

/-- A plain message is shown as it is. -/
theorem shownMessage_of_isPlain {message : String} (hmessage : IsPlain message) :
    shownMessage message = message ++ "\n" := by
  have hindent : message.toList.flatMap record.indent = message.toList := by
    have hsingle : message.toList.map record.indent = message.toList.map fun c => [c] :=
      List.map_congr_left fun c hc => if_neg (hmessage c hc).2
    rw [List.flatMap_def, hsingle, ← List.flatMap_def, List.flatMap_singleton']
  have hvisible : ∀ c ∈ message.toList ++ ['\n'], Terminal.isVisible c = true := by
    intro c hc
    rcases List.mem_append.mp hc with hc | hc
    · exact (hmessage c hc).1
    · rw [List.mem_singleton.mp hc]
      decide
  rw [shownMessage, hindent, Terminal.strip_of_all_visible hvisible, String.ofList_append,
    String.ofList_toList]

/-- The text of a record: its heading, and its message as it is shown. -/
theorem render_eq (e : Event) : e.render = e.heading ++ shownMessage e.message := by
  have hrecord : e.record.toList =
      e.heading.toList ++ (e.message.toList.flatMap record.indent ++ ['\n']) := by
    have hparts : e.record =
        e.heading ++ String.ofList (e.message.toList.flatMap record.indent) ++ "\n" := rfl
    rw [hparts, String.toList_append, String.toList_append, String.toList_ofList,
      List.append_assoc]
    rfl
  have hheading : ∀ c ∈ e.heading.toList, Terminal.isVisible c = true :=
    fun c hc => (e.isPlain_heading c hc).1
  rw [render, hrecord, Terminal.strip_append_of_all_visible hheading, String.ofList_append,
    String.ofList_toList]
  rfl

theorem exists_render_of_debug {e : Event} (hlevel : e.level = .debug) :
    ∃ rest, e.render = "[DEBUG " ++ rest := by
  refine ⟨e.target ++ "] " ++ shownMessage e.message, ?_⟩
  have hlabel : "[DEBUG " = "[" ++ (LogLevel.debug.label ++ " ") := rfl
  rw [render_eq, heading, hlevel, hlabel]
  simp only [String.append_assoc]

/-- A plain message stands between its heading and the end of the line. -/
theorem render_of_isPlain {message : String} (hplain : IsPlain message) {e : Event}
    (hmessage : e.message = message) : e.render = e.heading ++ message ++ "\n" := by
  rw [render_eq, hmessage, shownMessage_of_isPlain hplain, String.append_assoc]

/-! ## Records about issues -/

theorem render_ruleSkipped (rule : Rule) :
    (ruleSkipped rule).render =
      "[DEBUG style_lint_core::analysis::linting] skipping disabled rule " ++ rule.id ++ "\n" := by
  have hplain : IsPlain ("skipping disabled rule " ++ rule.id) := by
    simp only [isPlain_append_iff, isPlain_id, and_true]
    decide
  rw [render_of_isPlain hplain (e := ruleSkipped rule) rfl]
  simp only [← String.append_assoc]
  rfl

theorem render_ruleReported (rule : Rule) (issues : Nat) :
    (ruleReported rule issues).render =
      "[DEBUG style_lint_core::analysis::linting] rule " ++ rule.id ++ " reported " ++
        toString issues ++ " issues" ++ "\n" := by
  have hplain : IsPlain ("rule " ++ rule.id ++ " reported " ++ toString issues ++ " issues") := by
    simp only [isPlain_append_iff, isPlain_id, isPlain_toString, and_true]
    decide
  rw [render_of_isPlain hplain (e := ruleReported rule issues) rfl]
  simp only [← String.append_assoc]
  rfl

theorem render_analysed (selectors lines issues : Nat) :
    (analysed selectors lines issues).render =
      "[DEBUG style_lint_core::analysis] analysed " ++ toString selectors ++ " selectors over " ++
        toString lines ++ " lines: " ++ toString issues ++ " issues" ++ "\n" := by
  have hplain : IsPlain ("analysed " ++ toString selectors ++ " selectors over " ++
      toString lines ++ " lines: " ++ toString issues ++ " issues") := by
    simp only [isPlain_append_iff, isPlain_toString, and_true]
    decide
  rw [render_of_isPlain hplain (e := analysed selectors lines issues) rfl]
  simp only [← String.append_assoc]
  rfl

section

variable {input : String} (hinput : IsPlain input)

include hinput

theorem render_inputReported (issues : Nat) :
    (inputReported input issues).render =
      "[DEBUG style_lint] " ++ input ++ ": " ++ toString issues ++ " issues" ++ "\n" := by
  have hplain : IsPlain (input ++ ": " ++ toString issues ++ " issues") := by
    simp only [isPlain_append_iff, hinput, isPlain_toString, true_and, and_true]
    decide
  rw [render_of_isPlain hplain (e := inputReported input issues) rfl]
  simp only [← String.append_assoc]
  rfl

/-! ## Records about reading -/

theorem render_markStripped :
    (markStripped input).render =
      "[DEBUG style_lint] " ++ input ++ ": stripped byte order mark" ++ "\n" := by
  have hplain : IsPlain (input ++ ": stripped byte order mark") := by
    simp only [isPlain_append_iff, hinput, true_and]
    decide
  rw [render_of_isPlain hplain (e := markStripped input) rfl]
  simp only [← String.append_assoc]
  rfl

theorem render_sequencesReplaced (count : Nat) :
    (sequencesReplaced input count).render =
      "[WARN  style_lint] " ++ input ++ ": replaced " ++ toString count ++
        " invalid UTF-8 sequences" ++ "\n" := by
  have hplain :
      IsPlain (input ++ ": replaced " ++ toString count ++ " invalid UTF-8 sequences") := by
    simp only [isPlain_append_iff, hinput, isPlain_toString, true_and, and_true]
    decide
  rw [render_of_isPlain hplain (e := sequencesReplaced input count) rfl]
  simp only [← String.append_assoc]
  rfl

end

end Event

end SheetLint
