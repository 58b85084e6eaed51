import SwaggerClient.Compilation
import SwaggerClient.Proofs.Lint.DuplicateFunction

/-!
# What a compilation finds

The default lints only warn.  Strictness raises the warnings to errors and changes nothing else
about them, so without it a compilation always succeeds, and with it exactly when there is
nothing to warn of.
-/

namespace SwaggerClient

variable {d : Document} {finding : Diagnostic}

/-! ## The default lints -/

theorem severity_of_mem_duplicateFunctionLint (h : finding ∈ duplicateFunctionLint.check d) :
    finding.severity = .warning := by
  rw [duplicateFunctionLint_eq_filterMap] at h
  obtain ⟨entry, -, h⟩ := List.mem_filterMap.1 h
  obtain ⟨first, -, rfl⟩ := Option.map_eq_some_iff.1 h
  rfl

theorem severity_of_mem_undefinedReferenceLint (h : finding ∈ undefinedReferenceLint.check d) :
    finding.severity = .warning := by
  obtain ⟨entry, -, rfl⟩ := List.mem_map.1 h
  rfl

theorem severity_of_mem_severalBodiesLint (h : finding ∈ severalBodiesLint.check d) :
    finding.severity = .warning := by
  obtain ⟨route, -, h⟩ := List.mem_filterMap.1 h
  unfold Route.bodyWarning? at h
  split at h
  · exact Option.some.inj h ▸ rfl
  · cases h

namespace Diagnostic

@[simp] theorem located_promote (finding : Diagnostic) :
    finding.promote.located = finding.located := by
  unfold promote
  split <;> rfl

theorem severity_promote (h : finding.severity = .warning) : finding.promote.severity = .error := by
  simp [promote, h]

end Diagnostic

namespace Document

/-- What the default lints find. -/
def warnings (d : Document) : List Diagnostic :=
  defaultLints.flatMap fun lint => lint.check d

/-- The default lints find nothing but warnings. -/
theorem severity_of_mem_warnings (h : finding ∈ d.warnings) : finding.severity = .warning := by
  obtain ⟨lint, hl, h⟩ := List.mem_flatMap.1 h
  simp only [defaultLints, List.mem_cons, List.not_mem_nil, or_false] at hl
  rcases hl with rfl | rfl | rfl
  · exact severity_of_mem_duplicateFunctionLint h
  · exact severity_of_mem_undefinedReferenceLint h
  · exact severity_of_mem_severalBodiesLint h

end Document

/-! ## Validation -/

/-- The severity of what the default lints find. -/
def lintSeverity (strict : Bool) : Severity :=
  if strict then .error else .warning

namespace Compilation

variable {c : Compilation} {found : Severity}

/-- Findings of one severity are all of that severity, and none of another. -/
theorem withSeverity_of_forall (h : ∀ finding ∈ c.diagnostics, finding.severity = found)
    (severity : Severity) :
    c.withSeverity severity = if severity = found then c.diagnostics else [] := by
  unfold withSeverity
  split
  next heq => exact List.filter_eq_self.2 fun finding hf => by simp [heq, h finding hf]
  next hne => exact List.filter_eq_nil_iff.2 fun finding hf => by simp [h finding hf, Ne.symm hne]

end Compilation

namespace Document

/-- A document with the findings of the default lints. -/
def validated (d : Document) (strict : Bool) : Compilation :=
  Compilation.validate { document := d } defaultLints strict

theorem diagnostics_validated (d : Document) (strict : Bool) :
    (d.validated strict).diagnostics = if strict then d.warnings.map .promote else d.warnings :=
  rfl

theorem severity_of_mem_validated {strict : Bool}
    (h : finding ∈ (d.validated strict).diagnostics) : finding.severity = lintSeverity strict := by
  rw [diagnostics_validated] at h
  cases strict with
  | false => exact severity_of_mem_warnings h
  | true =>
    obtain ⟨warning, hw, rfl⟩ := List.mem_map.1 h
    exact Diagnostic.severity_promote (severity_of_mem_warnings hw)

theorem withSeverity_validated (d : Document) (strict : Bool) (severity : Severity) :
    (d.validated strict).withSeverity severity =
      if severity = lintSeverity strict then (d.validated strict).diagnostics else [] :=
  Compilation.withSeverity_of_forall (fun _ => severity_of_mem_validated) severity

theorem errorCount_validated (d : Document) (strict : Bool) :
    (d.validated strict).errorCount = if strict then d.warnings.length else 0 := by
  rw [Compilation.errorCount, withSeverity_validated, diagnostics_validated]
  cases strict <;> simp [lintSeverity]

/-! ## Compilation -/

/-- Whether a document fails: in strict mode when there is something to warn of, and never
otherwise. -/
abbrev Fails (d : Document) (strict : Bool) : Prop :=
  strict = true ∧ d.warnings ≠ []

theorem compile_eq (d : Document) (strict : Bool) :
    d.compile strict =
      if d.Fails strict then .error (.invalid d.warnings.length)
      else .ok { document := d, api := some d.api, diagnostics := d.warnings } := by
  have hcompile : d.compile strict = do
      (d.validated strict).outcome
      return ⟨d, some d.api, (d.validated strict).diagnostics⟩ := rfl
  rw [hcompile, Compilation.outcome, errorCount_validated, diagnostics_validated]
  cases strict with
  | false => rfl
  | true =>
    by_cases hnone : d.warnings = []
    · have hpasses : ¬ d.Fails true := fun h => h.2 hnone
      simp only [hnone, if_neg hpasses]
      rfl
    · have hcount : d.warnings.length ≠ 0 := mt List.length_eq_zero_iff.1 hnone
      simp only [hcount, if_pos (show d.Fails true from ⟨rfl, hnone⟩), if_true, if_false]
      rfl

/-- What a compilation that succeeds warns of is all that the lints find. -/
theorem eq_of_compile {strict : Bool} {c : Compilation} (h : d.compile strict = .ok c) :
    c.api = some d.api ∧ c.diagnostics = d.warnings := by
  rw [compile_eq] at h
  split at h
  · cases h
  · cases h
    exact ⟨rfl, rfl⟩

theorem warningCount_of_compile {strict : Bool} {c : Compilation} (h : d.compile strict = .ok c) :
    c.warningCount = d.warnings.length := by
  have hdiagnostics := (eq_of_compile h).2
  have hwarn : ∀ finding ∈ c.diagnostics, finding.severity = .warning := fun finding hf =>
    severity_of_mem_warnings (hdiagnostics ▸ hf)
  rw [Compilation.warningCount, Compilation.withSeverity_of_forall hwarn, if_pos rfl, hdiagnostics]

theorem eq_of_compile_error {strict : Bool} {error : CompilationError}
    (h : d.compile strict = .error error) :
    d.Fails strict ∧ error = .invalid d.warnings.length := by
  rw [compile_eq] at h
  split at h
  next hfails => exact ⟨hfails, (Except.error.inj h).symm⟩
  next => cases h

theorem exists_compile_iff {strict : Bool} :
    (∃ c, d.compile strict = .ok c) ↔ ¬ d.Fails strict := by
  rw [compile_eq]
  split
  next h => simp [h]
  next h => simp [h]

end Document

end SwaggerClient
