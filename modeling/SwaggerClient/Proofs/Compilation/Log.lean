import Mathlib.Data.List.Induction
import SwaggerClient.Compilation

/-!
# Steps of a compilation

A compilation is taken through steps in any order.  What has been found is a log: every step adds
its own findings behind those that are there, so an error stays an error for all validations to
come.  The interface is there from a lowering until it is taken out, whatever has been found.
-/

namespace SwaggerClient

/-- A step on a compilation. -/
inductive Compilation.Step where
  /-- Adds a finding that has no place in the document. -/
  | report (severity : Severity) (phase message : String)
  /-- Adds a finding. -/
  | add (finding : Diagnostic)
  /-- Adds the findings of lints, and fails if there are errors then. -/
  | validate (lints : List Lint) (strict : Bool)
  /-- Puts the interface in place. -/
  | lower
  /-- Takes the interface out, and fails if there is none. -/
  | takeApi

namespace Compilation

variable (c : Compilation)

/-- What a step answers, and the compilation behind it. -/
def perform : Step → Except CompilationError (Option Api) × Compilation
  | .report severity phase message => (.ok none, c.add ⟨severity, phase, message, none⟩)
  | .add finding => (.ok none, c.add finding)
  | .validate lints strict =>
    ((c.validate lints strict).outcome.map fun _ => none, c.validate lints strict)
  | .lower => (.ok none, c.lower)
  | .takeApi => (c.takeApi.1.map some, c.takeApi.2)

/-- The compilation behind steps that are taken one after the other. -/
def after (steps : List Step) : Compilation :=
  steps.foldl (fun c step => (c.perform step).2) c

theorem after_concat (steps : List Step) (step : Step) :
    c.after (steps ++ [step]) = ((c.after steps).perform step).2 := by
  simp [after]

/-! ## One step -/

/-- A finding of a lint as it is added: in strict mode a warning is an error. -/
def raised (strict : Bool) (finding : Diagnostic) : Diagnostic :=
  if strict ∧ finding.severity = .warning then { finding with severity := .error } else finding

/-- What a step adds to the findings. -/
def Step.findings (d : Document) : Step → List Diagnostic
  | .report severity phase message => [⟨severity, phase, message, none⟩]
  | .add finding => [finding]
  | .validate lints strict => lints.flatMap fun lint => (lint.check d).map (raised strict)
  | .lower | .takeApi => []

theorem findings_eq (lints : List Lint) (strict : Bool) :
    c.findings lints strict =
      lints.flatMap fun lint => (lint.check c.document).map (raised strict) := by
  cases strict with
  | false =>
    have hself : raised false = id := by
      funext finding
      simp [raised]
    simp [findings, hself]
  | true =>
    have hpromote : raised true = Diagnostic.promote := by
      funext finding
      simp [raised, Diagnostic.promote]
    simp [findings, hpromote, List.map_flatMap]

theorem takeApi_of_none (h : c.api = none) : c.takeApi = (.error .notLowered, c) := by
  simp [takeApi, h]

theorem takeApi_of_some {api : Api} (h : c.api = some api) :
    c.takeApi = (.ok api, { c with api := none }) := by
  simp [takeApi, h]

/-- A step leaves the document and adds its findings at the end. -/
theorem perform_spec (step : Step) :
    (c.perform step).2.document = c.document ∧
      (c.perform step).2.diagnostics = c.diagnostics ++ step.findings c.document := by
  cases step with
  | report severity phase message => exact ⟨rfl, rfl⟩
  | add finding => exact ⟨rfl, rfl⟩
  | validate lints strict => exact ⟨rfl, congrArg (c.diagnostics ++ ·) (c.findings_eq lints strict)⟩
  | lower => exact ⟨rfl, (List.append_nil _).symm⟩
  | takeApi =>
    cases h : c.api with
    | none => simp [perform, c.takeApi_of_none h, Step.findings]
    | some api => simp [perform, c.takeApi_of_some h, Step.findings]

/-- Only lowering and taking the interface out change whether it is there. -/
theorem api_perform {step : Step} (hlower : step ≠ .lower) (htake : step ≠ .takeApi) :
    (c.perform step).2.api = c.api := by
  cases step with
  | report severity phase message => rfl
  | add finding => rfl
  | validate lints strict => rfl
  | lower => exact absurd rfl hlower
  | takeApi => exact absurd rfl htake

theorem api_perform_takeApi : (c.perform .takeApi).2.api = none := by
  cases h : c.api with
  | none => simp [perform, c.takeApi_of_none h, h]
  | some api => simp [perform, c.takeApi_of_some h]

/-- There is no error exactly when no finding is one. -/
theorem errorCount_eq_zero_iff :
    c.errorCount = 0 ↔ ∀ finding ∈ c.diagnostics, finding.severity ≠ .error := by
  simp [errorCount, withSeverity]

end Compilation

namespace Document

open Compilation (Step)

variable (d : Document) {steps earlier later : List Step} {step : Step}

/-- The compilation of a document after steps. -/
def compilation (steps : List Step) : Compilation :=
  Compilation.after { document := d } steps

/-- What a step answers when it is taken after others. -/
def answer (before : List Step) (step : Step) : Except CompilationError (Option Api) :=
  ((d.compilation before).perform step).1

/-- Whether a step succeeds when it is taken after others. -/
def Succeeds (before : List Step) (step : Step) : Prop :=
  ∃ api, d.answer before step = .ok api

/-! ## All steps -/

theorem compilation_concat (steps : List Step) (step : Step) :
    d.compilation (steps ++ [step]) = ((d.compilation steps).perform step).2 :=
  Compilation.after_concat _ steps step

/-- What has been found is what the steps have added, one after the other. -/
theorem compilation_spec (steps : List Step) :
    (d.compilation steps).document = d ∧
      (d.compilation steps).diagnostics = steps.flatMap (Step.findings d) := by
  induction steps using List.reverseRecOn with
  | nil => exact ⟨rfl, rfl⟩
  | append_singleton steps step ih =>
    obtain ⟨hdocument, hdiagnostics⟩ := ih
    obtain ⟨hkeep, hadd⟩ := (d.compilation steps).perform_spec step
    rw [compilation_concat, hkeep, hadd, hdocument, hdiagnostics]
    simp

theorem diagnostics_append (steps others : List Step) :
    (d.compilation (steps ++ others)).diagnostics =
      (d.compilation steps).diagnostics ++ others.flatMap (Step.findings d) := by
  simp [compilation_spec]

/-- What has been found after some steps is found after further steps. -/
theorem mem_diagnostics_append {finding : Diagnostic} (others : List Step)
    (h : finding ∈ (d.compilation steps).diagnostics) :
    finding ∈ (d.compilation (steps ++ others)).diagnostics := by
  rw [diagnostics_append]
  exact List.mem_append_left _ h

/-! ## Validation -/

/-- A validation succeeds exactly when there is no error afterwards. -/
theorem succeeds_validate_iff (before : List Step) (lints : List Lint) (strict : Bool) :
    d.Succeeds before (.validate lints strict) ↔
      ∀ finding ∈ (d.compilation (before ++ [.validate lints strict])).diagnostics,
        finding.severity ≠ .error := by
  rw [compilation_concat, ← Compilation.errorCount_eq_zero_iff]
  simp only [Succeeds, answer, Compilation.perform, Compilation.outcome]
  by_cases h : ((d.compilation before).validate lints strict).errorCount = 0
  · simp [h, Except.map]
  · simp [h, Except.map]

/-- Whether an error has been added, or a validation has failed, among steps. -/
inductive Spoiled (d : Document) : List Step → Prop
  | reported (earlier later : List Step) (phase message : String) :
    Spoiled d (earlier ++ .report .error phase message :: later)
  | added (earlier later : List Step) {finding : Diagnostic} (h : finding.severity = .error) :
    Spoiled d (earlier ++ .add finding :: later)
  | failed (earlier later : List Step) (lints : List Lint) (strict : Bool)
    (h : ¬ d.Succeeds earlier (.validate lints strict)) :
    Spoiled d (earlier ++ .validate lints strict :: later)

variable {d}

/-- The findings of a step stay. -/
theorem mem_diagnostics_of_mem_findings {finding : Diagnostic} (h : finding ∈ step.findings d)
    (earlier later : List Step) :
    finding ∈ (d.compilation (earlier ++ step :: later)).diagnostics := by
  rw [(d.compilation_spec _).2]
  exact List.mem_flatMap.2 ⟨step, by simp, h⟩

/-- Where an error has been added or a validation has failed, there is an error. -/
theorem Spoiled.exists_error (h : d.Spoiled steps) :
    ∃ finding ∈ (d.compilation steps).diagnostics, finding.severity = .error := by
  cases h with
  | reported earlier later phase message =>
    exact ⟨_, mem_diagnostics_of_mem_findings (List.mem_singleton.2 rfl) earlier later, rfl⟩
  | added earlier later herror =>
    exact ⟨_, mem_diagnostics_of_mem_findings (List.mem_singleton.2 rfl) earlier later, herror⟩
  | failed earlier later lints strict hfails =>
    rw [succeeds_validate_iff] at hfails
    push Not at hfails
    obtain ⟨finding, hmem, herror⟩ := hfails
    refine ⟨finding, ?_, herror⟩
    rw [List.append_cons]
    exact d.mem_diagnostics_append later hmem

/-! ## The interface -/

/-- If the interface is there, it is the one of the document, and it has been put there by a
lowering since when no interface has been taken out. -/
theorem exists_lower_of_api {api : Api} (h : (d.compilation steps).api = some api) :
    api = d.api ∧ ∃ earlier later, steps = earlier ++ .lower :: later ∧ .takeApi ∉ later := by
  -- The last step is a lowering, or it takes the interface out, or it leaves it as it is.
  induction steps using List.reverseRecOn with
  | nil => cases h
  | append_singleton steps step ih =>
    rw [compilation_concat] at h
    by_cases hlower : step = .lower
    · subst hlower
      have happ : some (d.compilation steps).document.api = some api := h
      rw [(d.compilation_spec steps).1] at happ
      exact ⟨(Option.some.inj happ).symm, steps, [], rfl, List.not_mem_nil⟩
    · by_cases htake : step = .takeApi
      · subst htake
        rw [Compilation.api_perform_takeApi] at h
        cases h
      · rw [Compilation.api_perform _ hlower htake] at h
        obtain ⟨happ, earlier, later, rfl, hlater⟩ := ih h
        refine ⟨happ, earlier, later ++ [step], by simp, ?_⟩
        simp [hlater, Ne.symm htake]

theorem succeeds_takeApi_iff :
    d.Succeeds steps .takeApi ↔ (d.compilation steps).api.isSome := by
  cases h : (d.compilation steps).api with
  | none =>
    simp [Succeeds, answer, Compilation.perform, Compilation.takeApi_of_none _ h, Except.map]
  | some api =>
    simp [Succeeds, answer, Compilation.perform, Compilation.takeApi_of_some _ h, Except.map]

/-- The interface stays there from a lowering on, unless it is taken out. -/
theorem isSome_api_of_lower (earlier : List Step)
    (h : ∀ first rest, later = first ++ .takeApi :: rest →
      ¬ d.Succeeds (earlier ++ .lower :: first) .takeApi) :
    (d.compilation (earlier ++ .lower :: later)).api.isSome := by
  induction later using List.reverseRecOn with
  | nil =>
    rw [compilation_concat]
    rfl
  | append_singleton later step ih =>
    have hthere := ih fun first rest hlater =>
      h first (rest ++ [step]) (by simp [hlater])
    have hsteps : earlier ++ .lower :: (later ++ [step]) =
        earlier ++ .lower :: later ++ [step] := by
      simp
    rw [hsteps, compilation_concat]
    by_cases hlower : step = .lower
    · subst hlower
      rfl
    · by_cases htake : step = .takeApi
      · subst htake
        exact absurd (succeeds_takeApi_iff.2 hthere) (h later [] rfl)
      · rw [Compilation.api_perform _ hlower htake]
        exact hthere

/-- The interface can be taken out exactly when there has been a lowering since it was last taken
out. -/
theorem succeeds_takeApi_iff_exists_lower :
    d.Succeeds steps .takeApi ↔ ∃ earlier later, steps = earlier ++ .lower :: later ∧
      ∀ first rest, later = first ++ .takeApi :: rest →
        ¬ d.Succeeds (earlier ++ .lower :: first) .takeApi := by
  constructor
  · intro h
    obtain ⟨api, happ⟩ := Option.isSome_iff_exists.1 (succeeds_takeApi_iff.1 h)
    obtain ⟨-, earlier, later, hsteps, hlater⟩ := exists_lower_of_api happ
    refine ⟨earlier, later, hsteps, fun first rest hsplit => ?_⟩
    exact absurd (by simp [hsplit]) hlater
  · rintro ⟨earlier, later, rfl, hlater⟩
    exact succeeds_takeApi_iff.2 (isSome_api_of_lower earlier hlater)

theorem answer_takeApi (h : d.Succeeds steps .takeApi) :
    d.answer steps .takeApi = .ok (some d.api) := by
  obtain ⟨api, happ⟩ := Option.isSome_iff_exists.1 (succeeds_takeApi_iff.1 h)
  obtain ⟨rfl, -⟩ := exists_lower_of_api happ
  simp [answer, Compilation.perform, Compilation.takeApi_of_some _ happ, Except.map]

theorem compilation_takeApi_of_not_succeeds (h : ¬ d.Succeeds steps .takeApi) :
    d.compilation (steps ++ [.takeApi]) = d.compilation steps := by
  have hnone : (d.compilation steps).api = none := by
    simpa [succeeds_takeApi_iff] using h
  rw [compilation_concat, Compilation.perform, Compilation.takeApi_of_none _ hnone]

/-! ## The log -/

/-- A compilation is a log with sticky errors.  Whatever steps have been taken before: a step leaves
what has been found as it is and adds behind it; a validation adds what its lints find in their
order, with warnings as errors in strict mode and unchanged otherwise, and succeeds exactly when
there is no error then, so never after an error has been added or another validation has failed; and
the interface can be taken out exactly when the document has been lowered since it was last taken
out.  It is the interface of the document then, and otherwise nothing changes. -/
theorem compilation_log (d : Document) (before : List Step) :
    (∀ step, (d.compilation before).diagnostics <+:
      (d.compilation (before ++ [step])).diagnostics) ∧
    (∀ lints strict,
      (d.compilation (before ++ [.validate lints strict])).diagnostics =
        (d.compilation before).diagnostics ++
          lints.flatMap (fun lint => (lint.check d).map (Compilation.raised strict)) ∧
      (d.Succeeds before (.validate lints strict) ↔
        ∀ finding ∈ (d.compilation (before ++ [.validate lints strict])).diagnostics,
          finding.severity ≠ .error) ∧
      (d.Spoiled before → ¬ d.Succeeds before (.validate lints strict))) ∧
    (d.Succeeds before .takeApi ↔ ∃ earlier later, before = earlier ++ .lower :: later ∧
      ∀ first rest, later = first ++ .takeApi :: rest →
        ¬ d.Succeeds (earlier ++ .lower :: first) .takeApi) ∧
    (d.Succeeds before .takeApi → d.answer before .takeApi = .ok (some d.api)) ∧
    (¬ d.Succeeds before .takeApi →
      d.compilation (before ++ [.takeApi]) = d.compilation before) := by
  refine ⟨fun step => ?_, fun lints strict => ⟨?_, d.succeeds_validate_iff before lints strict, ?_⟩,
    succeeds_takeApi_iff_exists_lower, answer_takeApi, compilation_takeApi_of_not_succeeds⟩
  · rw [diagnostics_append]
    exact List.prefix_append _ _
  · rw [diagnostics_append, List.flatMap_singleton]
    rfl
  · intro hspoiled hsucceeds
    obtain ⟨finding, hmem, herror⟩ := hspoiled.exists_error
    rw [succeeds_validate_iff] at hsucceeds
    exact hsucceeds finding (d.mem_diagnostics_append _ hmem) herror

end Document

end SwaggerClient
