import SwaggerClient.Lint.Basic

/-!
# Operations with several bodies
-/

namespace SwaggerClient

/-- The warning for an operation with more than one body parameter. -/
def Route.bodyWarning? (r : Route) : Option Diagnostic :=
  match r.operation.parametersIn .body with
  | first :: second :: rest =>
    let count := (first :: second :: rest).length
    some (lintWarning s!"{count} body parameters declared, only '{first.name}' is used" r.location)
  | _ => none

/-- Reports operations with more than one body parameter; only the first is used. -/
def severalBodiesLint : Lint where
  name := "multiple-body"
  description := "Detect operations declaring more than one body parameter"
  check d := d.routes.filterMap Route.bodyWarning?

end SwaggerClient
