import SwaggerClient.Api.OfDocument
import SwaggerClient.Lint.DuplicateFunction
import SwaggerClient.Lint.SeveralBodies
import SwaggerClient.Lint.UndefinedReference

/-!
# Compilation

A compilation carries a document, what has been found out about it, and its
interface once it is there.  Findings are only ever added, so an error among them
stays.
-/

namespace SwaggerClient

/-- A document on its way to a client. -/
structure Compilation where
  document : Document
  /-- The interface, once the document has been lowered. -/
  api : Option Api := none
  diagnostics : List Diagnostic := []

/-- Why a compilation goes no further. -/
inductive CompilationError where
  /-- Validation found errors, or there were errors before. -/
  | invalid (errors : Nat)
  /-- The interface is not there. -/
  | notLowered
  deriving DecidableEq, Repr

/-- What is said of an error. -/
def CompilationError.message : CompilationError → String
  | invalid errors => s!"Validation failed with {errors} error(s)"
  | notLowered => "API IR not set - did LowerPhase run?"

/-- A step of a compilation. -/
structure Phase where
  name : String
  description : String
  deriving Repr

/-- The steps of a compilation in order. -/
def phases : List Phase :=
  [⟨"validate", "Check document integrity and collect diagnostics"⟩,
   ⟨"lower", "Transform document to API IR"⟩]

/-- The lints that are run unless others are asked for. -/
def defaultLints : List Lint :=
  [duplicateFunctionLint, undefinedReferenceLint, severalBodiesLint]

namespace Compilation

variable (c : Compilation)

/-- The findings of one severity. -/
def withSeverity (severity : Severity) : List Diagnostic :=
  c.diagnostics.filter (·.severity = severity)

/-- The number of errors. -/
def errorCount : Nat :=
  (c.withSeverity .error).length

/-- The number of warnings. -/
def warningCount : Nat :=
  (c.withSeverity .warning).length

/-- Adds a finding. -/
def add (d : Diagnostic) : Compilation :=
  { c with diagnostics := c.diagnostics ++ [d] }

/-- The findings of lints; in strict mode every warning is an error. -/
def findings (lints : List Lint) (strict : Bool) : List Diagnostic :=
  let found := lints.flatMap fun lint => lint.check c.document
  if strict then found.map Diagnostic.promote else found

/-- Adds the findings of lints. -/
def validate (lints : List Lint) (strict : Bool) : Compilation :=
  { c with diagnostics := c.diagnostics ++ c.findings lints strict }

/-- Whether a validation succeeds that leaves these findings: there is no error. -/
def outcome : Except CompilationError Unit :=
  if c.errorCount = 0 then .ok () else .error (.invalid c.errorCount)

/-- Puts the interface of the document in place. -/
def lower : Compilation :=
  { c with api := some c.document.api }

/-- Takes the interface out; without one nothing changes. -/
def takeApi : Except CompilationError Api × Compilation :=
  match c.api with
  | some api => (.ok api, { c with api := none })
  | none => (.error .notLowered, c)

end Compilation

/-- Validates and lowers a document. -/
def Document.compile (d : Document) (strict : Bool) : Except CompilationError Compilation := do
  let c := Compilation.validate { document := d } defaultLints strict
  c.outcome
  return c.lower

end SwaggerClient
