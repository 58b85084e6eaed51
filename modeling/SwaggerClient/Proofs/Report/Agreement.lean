import SwaggerClient.Proofs.Compilation
import SwaggerClient.Report.Generation

/-!
# Checks, compilations and generations agree

A check goes through the steps of a compilation by itself, and strictness works by what it makes
of the findings.  All the same a document passes a check exactly when it compiles and when its
client is generated, and what is said of it and counted in it is the same everywhere.
-/

namespace SwaggerClient

namespace Compilation

variable {c : Compilation} {found : Severity}

theorem messages_of_forall (h : ∀ finding ∈ c.diagnostics, finding.severity = found)
    (severity : Severity) :
    c.messages severity =
      if severity = found then c.diagnostics.map Diagnostic.located else [] := by
  rw [messages, withSeverity_of_forall h]
  split <;> rfl

end Compilation

namespace Document

variable {d : Document}

/-- What is said of a document: the messages of its warnings. -/
def complaints (d : Document) : List String :=
  d.warnings.map Diagnostic.located

theorem messages_validated (d : Document) (strict : Bool) (severity : Severity) :
    (d.validated strict).messages severity =
      if severity = lintSeverity strict then d.complaints else [] := by
  rw [Compilation.messages_of_forall (fun _ => severity_of_mem_validated), diagnostics_validated,
    complaints]
  cases strict with
  | false => rfl
  | true => simp [Function.comp_def]

theorem length_complaints (d : Document) : d.complaints.length = d.warnings.length :=
  List.length_map _

theorem complaints_eq_nil_iff : d.complaints = [] ↔ d.warnings = [] :=
  List.map_eq_nil_iff

/-- A check in strict mode reports what there is to complain of as errors, and any other one as
warnings. -/
theorem check_eq (d : Document) (path : String) (strict : Bool) :
    d.check path strict =
      { path
        errors := if strict then d.complaints else []
        warnings := if strict then [] else d.complaints
        infos := []
        stats := if d.Fails strict then none else some d.stats } := by
  have hcheck : d.check path strict =
      { path
        errors := (d.validated strict).messages .error
        warnings := (d.validated strict).messages .warning
        infos := (d.validated strict).messages .info
        stats := if (d.validated strict).errorCount = 0 then some d.stats else none } := rfl
  rw [hcheck, errorCount_validated]
  simp only [messages_validated]
  cases strict with
  | false => simp [lintSeverity]
  | true =>
    by_cases hnone : d.warnings = []
    · simp [lintSeverity, hnone]
    · simp [lintSeverity, hnone]

theorem warnings_check (d : Document) (path : String) :
    (d.check path false).warnings = d.complaints := by
  rw [check_eq]
  rfl

/-- A document that does not fail is checked in strict mode as it is otherwise. -/
theorem check_of_not_fails {strict : Bool} (hpasses : ¬ d.Fails strict) (path : String) :
    d.check path strict = ⟨path, [], d.complaints, [], some d.stats⟩ := by
  rw [check_eq, if_neg hpasses]
  cases strict with
  | false => rfl
  | true =>
    have hnone : d.warnings = [] := by simpa using hpasses
    simp [complaints, hnone]

theorem isValid_check_iff {path : String} {strict : Bool} :
    (d.check path strict).isValid ↔ ¬ d.Fails strict := by
  rw [check_eq, CheckReport.isValid, List.isEmpty_iff]
  cases strict <;> simp [complaints_eq_nil_iff]

/-- What is reported of a document whose client is generated. -/
def generation (d : Document) (path : String) (result : GenerationResult) : GenerateReport :=
  ⟨path, d.complaints, d.api.endpoints.length, d.api.groupSizes, result⟩

/-- A generation fails where the compilation does.  Otherwise the files are only shown, or they
are written. -/
theorem generate_eq (d : Document) (path : String) (settings : Settings) (dryRun : Bool)
    (t : FileTree) :
    d.generate path settings dryRun t =
      if d.Fails settings.strict then (t, .error (.invalid (.invalid d.warnings.length)))
      else if dryRun then
        (t, .ok (d.generation path (.preview (d.api.files settings.options))))
      else
        match d.api.write settings.options settings.outputDir t with
        | (t, .error failure) => (t, .error (.notWritten failure))
        | (t, .ok paths) => (t, .ok (d.generation path (.written settings.outputDir paths))) := by
  by_cases h : d.Fails settings.strict
  · simp only [generate, compile_eq, if_pos h]
  · have hmessages := Compilation.messages_of_forall
      (c := { document := d, api := some d.api, diagnostics := d.warnings })
      (fun _ => severity_of_mem_warnings) .warning
    simp only [generate, compile_eq, if_neg h, Compilation.takeApi, hmessages, if_true]
    rcases d.api.write settings.options settings.outputDir t with ⟨t', failure | paths⟩ <;> rfl

theorem generate_dryRun (d : Document) (path : String) (settings : Settings) (t : FileTree) :
    d.generate path settings true t =
      if d.Fails settings.strict then (t, .error (.invalid (.invalid d.warnings.length)))
      else (t, .ok (d.generation path (.preview (d.api.files settings.options)))) :=
  generate_eq d path settings true t

theorem exists_generate_iff {path : String} {settings : Settings} {t : FileTree} :
    (∃ report, d.generate path settings true t = (t, .ok report)) ↔ ¬ d.Fails settings.strict := by
  rw [generate_dryRun]
  split
  next h => simp [h]
  next h => simp [h]

/-- A check of a document finds it valid exactly when it compiles, and exactly when its client
is generated.  Without strictness this is always so, and with strictness when there is nothing to
warn of otherwise.  Where it is so, check and generation warn of the same and count the same
endpoints and groups, in the interface that the compilation has, be it strict or not.  Where
strictness makes it fail, the errors of the check are the warnings of one without strictness, in
their order, nothing is counted, and the message of the compilation says how many they are. -/
theorem verdicts_agree (d : Document) (path : String) (settings : Settings) (t : FileTree) :
    (∀ strict,
      ((d.check path strict).isValid ↔ ∃ c, d.compile strict = .ok c) ∧
      ((∃ c, d.compile strict = .ok c) ↔
        ∃ report, d.generate path { settings with strict } true t = (t, .ok report))) ∧
    (∃ c, d.compile false = .ok c) ∧
    ((∃ c, d.compile true = .ok c) ↔ ∀ c, d.compile false = .ok c → c.warningCount = 0) ∧
    (∀ strict c report, d.compile strict = .ok c →
      d.generate path { settings with strict } true t = (t, .ok report) →
        c.takeApi.1 = .ok d.api ∧
        (d.check path strict).warnings = report.warnings ∧
        ∃ stats, (d.check path strict).stats = some stats ∧
          stats.endpoints = report.endpointCount ∧ stats.groups = report.groups.length) ∧
    ∀ error, d.compile true = .error error →
      (d.check path true).errors = (d.check path false).warnings ∧
      (d.check path true).stats = none ∧
      error.message = s!"Validation failed with {(d.check path false).warnings.length} error(s)" ∧
      d.generate path { settings with strict := true } true t = (t, .error (.invalid error)) := by
  have hlax : ¬ d.Fails false := fun h => Bool.false_ne_true h.1
  refine ⟨fun strict => ⟨?_, ?_⟩, exists_compile_iff.2 hlax, ?_, ?_, ?_⟩
  · exact isValid_check_iff.trans exists_compile_iff.symm
  · have hgenerate : (∃ report, d.generate path { settings with strict } true t = (t, .ok report)) ↔
        ¬ d.Fails strict := exists_generate_iff
    exact exists_compile_iff.trans hgenerate.symm
  · rw [exists_compile_iff]
    constructor
    · intro hpasses c hc
      have hnone : d.warnings = [] := by simpa using hpasses
      rw [warningCount_of_compile hc, hnone, List.length_nil]
    · intro h hfails
      obtain ⟨c, hc⟩ := exists_compile_iff.2 hlax
      have hcount := h c hc
      rw [warningCount_of_compile hc] at hcount
      exact hfails.2 (List.length_eq_zero_iff.1 hcount)
  · intro strict c report hc hreport
    have hpasses := exists_compile_iff.1 ⟨c, hc⟩
    rw [generate_dryRun, if_neg hpasses] at hreport
    cases hreport
    rw [check_of_not_fails hpasses]
    refine ⟨?_, rfl, d.stats, rfl, rfl, ?_⟩
    · rw [Compilation.takeApi, (eq_of_compile hc).1]
    · simp [generation, Api.groupSizes, Document.stats]
  · intro error herror
    obtain ⟨hfails, rfl⟩ := eq_of_compile_error herror
    refine ⟨?_, ?_, ?_, ?_⟩
    · rw [warnings_check, check_eq]
      rfl
    · rw [check_eq]
      exact if_pos hfails
    · rw [warnings_check, length_complaints]
      rfl
    · rw [generate_dryRun, if_pos hfails]

end Document

end SwaggerClient
