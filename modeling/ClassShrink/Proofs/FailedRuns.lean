import ClassShrink.CommandLine.Run
import ClassShrink.Proofs.FileTree

/-! # What a failed run leaves behind

A run writes at most two files, first the output and then the report. Until the
output is written nothing has changed. If after that the report cannot be written,
the output stays. -/

namespace ClassShrink

theorem Reporter.report_eq_error {reporter : Reporter} {tree : FileTree} {report : SweepReport}
    {reason : FileError} (failed : reporter.report tree report = .error reason) :
    reporter.format = .json ∧ ∃ path, reporter.path? = some path ∧
      tree.write path report.document.pretty = .error reason := by
  unfold Reporter.report at failed
  split at failed
  · cases failed
  · cases failed
  case h_3 path isJson given =>
    refine ⟨isJson, path, given, ?_⟩
    split at failed
    · cases failed
    case h_2 error unwritten =>
      cases failed
      exact unwritten

namespace RunError

def isReport : RunError → Bool
  | .report _ => true
  | _ => false

end RunError

private theorem bind_eq_error {α β ε : Type} {first : Except ε α} {next : α → Except ε β}
    {error : ε} (fails : first >>= next = .error error) :
    first = .error error ∨ ∃ value, first = .ok value ∧ next value = .error error := by
  cases first with
  | error other =>
      cases fails
      exact .inl rfl
  | ok value => exact .inr ⟨value, rfl, fails⟩

private theorem mapError_eq_error {α ε φ : Type} {answer : Except ε α} {wrap : ε → φ} {error : φ}
    (fails : answer.mapError wrap = .error error) : ∃ cause, error = wrap cause := by
  cases answer with
  | error cause =>
      cases fails
      exact ⟨cause, rfl⟩
  | ok value => cases fails

namespace Arguments

variable {arguments : Arguments} {tree : FileTree} {color : Bool} {error : RunError}

/-! ## Preparation -/

theorem isReport_of_parseKeep {rules : List String}
    (failed : rules.mapM parseKeep = .error error) : error.isReport = false := by
  induction rules with
  | nil => cases failed
  | cons rule rest induction =>
      rw [List.mapM_cons] at failed
      rcases bind_eq_error failed with refused | ⟨_, _, failed⟩
      · unfold parseKeep at refused
        split at refused
        · cases refused
        · cases refused
          rfl
      · rcases bind_eq_error failed with failed | ⟨_, _, failed⟩
        · exact induction failed
        · cases failed

theorem isReport_of_configure (failed : arguments.configure tree = .error error) :
    error.isReport = false := by
  unfold configure at failed
  rcases bind_eq_error failed with unloaded | ⟨_, _, failed⟩
  · rcases mapError_eq_error unloaded with ⟨cause, rfl⟩
    rfl
  · rcases bind_eq_error failed with refused | ⟨_, _, failed⟩
    · exact isReport_of_parseKeep refused
    · cases failed

theorem isReport_of_reportFormat {config : Config}
    (failed : arguments.reportFormat config = .error error) : error.isReport = false := by
  unfold reportFormat at failed
  split at failed
  · cases failed
  · cases failed
    rfl

theorem isReport_of_readProgram (failed : arguments.readProgram tree = .error error) :
    error.isReport = false := by
  unfold readProgram at failed
  split at failed
  · cases failed
    rfl
  · split at failed
    · cases failed
    · cases failed
      rfl

theorem isReport_of_prepare (failed : arguments.prepare tree = .error error) :
    error.isReport = false := by
  unfold prepare at failed
  rcases bind_eq_error failed with unconfigured | ⟨_, _, failed⟩
  · exact isReport_of_configure unconfigured
  rcases bind_eq_error failed with unformatted | ⟨_, _, failed⟩
  · exact isReport_of_reportFormat unformatted
  rcases bind_eq_error failed with unread | ⟨_, _, failed⟩
  · exact isReport_of_readProgram unread
  · cases failed

theorem isReport_of_writeProgram {program : Program}
    (failed : arguments.writeProgram tree program = .error error) : error.isReport = false := by
  unfold writeProgram at failed
  split at failed
  · cases failed
  · split at failed
    · cases failed
    · cases failed
      rfl

/-! ## Runs -/

/-- A run that fails in the end has written nothing, or else it was the report that
could not be written, and all before that was done. -/
theorem finish_failed_cases {format : ReportFormat} {outcome : Outcome} {result : RunResult}
    (unfailed : result.failure? = none)
    (failed : (arguments.finish format color outcome result).failure? = some error) :
    ((arguments.finish format color outcome result).tree = result.tree ∧
      error.isReport = false) ∨
    ∃ line path reason,
      arguments.writeProgram result.tree outcome.program =
        .ok ((arguments.finish format color outcome result).tree, line) ∧
      format = .json ∧ arguments.report? = some path ∧
      (arguments.finish format color outcome result).tree.write path
        outcome.report.document.pretty = .error reason ∧
      error = .report reason := by
  unfold finish at failed ⊢
  cases wrote : arguments.writeProgram result.tree outcome.program with
  | error cause =>
      rw [wrote] at failed
      cases failed
      exact .inl ⟨rfl, isReport_of_writeProgram wrote⟩
  | ok written =>
      rcases written with ⟨written, line⟩
      simp only [wrote] at failed ⊢
      split at failed
      case h_1 reason unreported =>
        cases failed
        rcases Reporter.report_eq_error unreported with ⟨isJson, path, given, unwritten⟩
        exact .inr ⟨line, path, reason, rfl, isJson, given, unwritten, rfl⟩
      case h_2 =>
        rw [unfailed] at failed
        cases failed

theorem run_failed_cases (failed : (arguments.run tree color).failure? = some error) :
    ((arguments.run tree color).tree = tree ∧ error.isReport = false) ∨
    ∃ config program outcome line path reason,
      arguments.prepare tree = .ok (config, .json, program) ∧
      Shrink.run config program = .ok outcome ∧
      arguments.writeProgram tree outcome.program =
        .ok ((arguments.run tree color).tree, line) ∧
      arguments.report? = some path ∧
      (arguments.run tree color).tree.write path outcome.report.document.pretty = .error reason ∧
      error = .report reason := by
  unfold run at failed ⊢
  cases prepared : arguments.prepare tree with
  | error cause =>
      rw [prepared] at failed
      cases failed
      exact .inl ⟨rfl, isReport_of_prepare prepared⟩
  | ok loaded =>
      rcases loaded with ⟨config, format, program⟩
      simp only [prepared] at failed ⊢
      cases shrunk : Shrink.run config program with
      | error cause =>
          rw [shrunk] at failed
          cases failed
          exact .inl ⟨rfl, rfl⟩
      | ok outcome =>
          simp only [shrunk] at failed ⊢
          rcases finish_failed_cases rfl failed with
            unchanged | ⟨line, path, reason, wrote, rfl, given, unwritten, rfl⟩
          · exact .inl unchanged
          · exact .inr ⟨config, program, outcome, line, path, reason, rfl, shrunk, wrote, given,
              unwritten, rfl⟩

theorem writeProgram_eq_ok {program : Program} {written : FileTree} {line : LogLine}
    (wrote : arguments.writeProgram tree program = .ok (written, line)) :
    (arguments.output? = none ∧ written = tree) ∨
    ∃ path, arguments.output? = some path ∧
      tree.write path program.toJson.pretty = .ok written := by
  unfold writeProgram at wrote
  split at wrote
  case h_1 dry =>
    cases wrote
    exact .inl ⟨dry, rfl⟩
  case h_2 path given =>
    split at wrote
    case h_1 written succeeded =>
      cases wrote
      exact .inr ⟨path, given, succeeded⟩
    case h_2 => cases wrote

/-- A run that fails leaves all files as they were, unless it is the report that
cannot be written and an output was asked for. Then the program that is left has
been written to the output and nothing else to any file, so that the files are as
they were only if the output had that very text before. -/
theorem failed_run_files (arguments : Arguments) (tree : FileTree) (color : Bool)
    (result : RunResult) (ran : arguments.run tree color = result) (error : RunError)
    (failed : result.failure? = some error) :
    (error.isReport = false ∨ arguments.output? = none → result.tree = tree) ∧
    (error.isReport = true → ∀ output, arguments.output? = some output →
      ∃ config program outcome path reason,
        arguments.prepare tree = .ok (config, .json, program) ∧
        Shrink.run config program = .ok outcome ∧
        arguments.report? = some path ∧
        result.tree.write path outcome.report.document.pretty = .error reason ∧
        error = .report reason ∧
        (∀ other content, result.tree.read other = .ok content ↔
          (result.tree.locate other = result.tree.locate output ∧
            content = outcome.program.toJson.pretty) ∨
          (result.tree.locate other ≠ result.tree.locate output ∧
            tree.read other = .ok content)) ∧
        ((∀ other, result.tree.read other = tree.read other) ↔
          tree.read output = .ok outcome.program.toJson.pretty)) := by
  subst ran
  rcases run_failed_cases failed with ⟨unchanged, isOther⟩ |
    ⟨config, program, outcome, line, path, reason, prepared, shrunk, wrote, given, unwritten, rfl⟩
  · refine ⟨fun _ => unchanged, ?_⟩
    intro isReport
    rw [isOther] at isReport
    cases isReport
  rcases writeProgram_eq_ok wrote with ⟨dry, unchanged⟩ | ⟨output, asked, wrote⟩
  · refine ⟨fun _ => unchanged, ?_⟩
    intro _ output asked
    rw [dry] at asked
    cases asked
  · constructor
    · intro excepted
      rcases excepted with isOther | dry
      · cases isOther
      · rw [dry] at asked
        cases asked
    · intro _ same sameAsked
      rw [asked] at sameAsked
      cases sameAsked
      refine ⟨config, program, outcome, path, reason, prepared, shrunk, given, unwritten, rfl,
        fun _ _ => FileTree.read_write_iff wrote, ?_, FileTree.read_of_write_again wrote⟩
      intro unchanged
      rw [← unchanged output]
      exact FileTree.read_of_write wrote

end Arguments

namespace UnwritableReport

/-! A run whose report is to go into a directory that does not exist. -/

def arguments : Arguments :=
  { input := "in.json", output? := some "out.json", format? := some .json
    report? := some "missing/report.json" }

def tree : FileTree :=
  .ofFiles [("in.json", "\x7b\x7d")]

/-- The run fails, and yet the output is there that was not there before. -/
theorem output_written :
    (arguments.run tree false).failure? = some (.report .notFound) ∧
      ¬∀ path, (arguments.run tree false).tree.read path = tree.read path := by
  have failed : (arguments.run tree false).failure? = some (.report .notFound) := by
    decide +kernel
  refine ⟨failed, ?_⟩
  rcases (Arguments.failed_run_files arguments tree false _ rfl _ failed).2 rfl "out.json" rfl with
    ⟨_, _, outcome, _, _, _, _, _, _, _, _, unchanged_iff⟩
  intro unchanged
  have had := unchanged_iff.mp unchanged
  have absent : (tree.read "out.json").toBool = false := by decide +kernel
  rw [had] at absent
  cases absent

end UnwritableReport

end ClassShrink
