import SwaggerClient.Diagnostic
import SwaggerClient.Document.Basic

/-!
# Lints

A lint looks at a document and reports what is likely to be a mistake.
-/

namespace SwaggerClient

/-- A check of a document. -/
structure Lint where
  name : String
  description : String
  check : Document → List Diagnostic

/-- A warning at a place of a document. -/
def lintWarning (message location : String) : Diagnostic :=
  ⟨.warning, "validate", message, some location⟩

/-- The place of an operation in its document. -/
def Route.location (r : Route) : String :=
  s!"paths.{r.url}.{r.method.name}"

end SwaggerClient
